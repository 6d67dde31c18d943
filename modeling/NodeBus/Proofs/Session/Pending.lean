import NodeBus.Proofs.Session.Deeds
import NodeBus.Proofs.Session.Rosters

/-! # Who is still to be told

A delivery tells its listeners one by one, and others may act in between. `toTell` reads off a stack
who has yet to be told of a tick, the next one first, and `Passes` is what a step does to them:
`passes_step` is the inversion of `Machine.step` for it, `passes_play` that of a turn. -/

namespace NodeBus.Session

/-- The listeners that an activity has yet to tell of a tick. -/
def Activity.toTell : Activity → List Subscriber
  | .telling (.tick _) audience => audience
  | _ => []

def toTell (stack : List Activity) : List Subscriber := stack.flatMap Activity.toTell

/-- The topic whose listeners an activity is about to tell of a tick, without the bus. -/
def Activity.notifies? : Activity → Option Nat
  | .act (.notify topic _) => some topic
  | _ => none

/-- Who is told of a tick. -/
def Happening.told? : Happening → Option Subscriber
  | .heard s (.tick _) => some s
  | _ => none

/-- The topic of a tick that is taken. -/
def Happening.ticked? : Happening → Option Nat
  | .taken _ (.tick topic _) => some topic
  | _ => none

def told (now : List Happening) : List Subscriber := now.filterMap Happening.told?

@[simp] theorem told_append (now later : List Happening) :
    told (now ++ later) = told now ++ told later := List.filterMap_append

/-- Nobody is told of a tick, and none is taken. -/
def Mute (now : List Happening) : Prop :=
  told now = [] ∧ now.findSome? Happening.ticked? = none

theorem mute_nil : Mute [] := ⟨rfl, rfl⟩

theorem mute_of_ending {now : List Happening} (h : Ending now) : Mute now := by
  rcases h with rfl | ⟨who, action, reply, rfl⟩
  · exact mute_nil
  · exact ⟨rfl, rfl⟩

theorem mute_announce (n : Node) (p : Publication) : Mute (announce n p) := by
  rw [announce]
  split
  · exact mute_nil
  · exact ⟨rfl, rfl⟩
  · cases n.alarmFor p.origin <;> exact ⟨rfl, rfl⟩

/-- What a step does to those who are still to be told, by the topic that it notifies. -/
inductive Passes (n : Node) : Option Nat → List Subscriber → List Happening → List Subscriber →
    Prop where
  | rest {pending : List Subscriber} {now : List Happening}
      (mute : Mute now) : Passes n none pending now pending
  | notify (topic : Nat) (pending : List Subscriber) :
      Passes n (some topic) pending [] (((Subject.ticks topic).roster n).entries ++ pending)
  | take (l : Level) (topic slot : Nat) (pending : List Subscriber) :
      Passes n none pending [.taken l (.tick topic slot)]
        (((Subject.ticks topic).roster n).entries ++ pending)
  | tell (s : Subscriber) (t : Tick) (pending : List Subscriber) :
      Passes n none (s :: pending) [.heard s (.tick t)] pending

section Passes

variable {n : Node}

theorem passes_nothing {pending : List Subscriber} : Passes n none pending [] pending :=
  .rest mute_nil

theorem toTell_conclude (m : Machine) (action : Action) (reply : Reply) :
    toTell (m.conclude action reply).2.stack = toTell m.stack := by
  rw [Machine.conclude]
  split
  · rename_i hstack
    rw [hstack]
  · rename_i hstack
    rw [hstack]
    rfl
  · rfl

theorem passes_conclude (m : Machine) (action : Action) (reply : Reply) :
    Passes n none (toTell m.stack) (m.conclude action reply).1
      (toTell (m.conclude action reply).2.stack) := by
  rw [toTell_conclude]
  exact .rest (mute_of_ending (ending_conclude _ _ _))

theorem passes_deliver {m : Machine} {pending : List Subscriber} (l : Level) (d : Delivery)
    (bus : Bus Delivery Alarm) (topics : m.node.topics = n.topics)
    (stack : toTell m.stack = pending) :
    Passes n none pending (m.deliver l d bus).1 (toTell (m.deliver l d bus).2.stack) := by
  subst stack
  cases d with
  | notice => exact .rest ⟨rfl, rfl⟩
  | tick topic slot =>
    have hentries : ({ m.node with bus }).audience (.tick topic slot) =
        ((Subject.ticks topic).roster n).entries := by
      rw [Subject.roster, ← topics]
      rfl
    have htold : toTell (m.deliver l (.tick topic slot) bus).2.stack =
        ({ m.node with bus }).audience (.tick topic slot) ++ toTell m.stack := rfl
    rw [htold, hentries]
    exact .take l topic slot _

theorem toTell_ring (m : Machine) (raised : Option Alarm) :
    toTell (m.ring raised).stack = toTell m.stack := by
  cases raised <;> rfl

theorem passes_publish {m : Machine} {pending : List Subscriber} (d : Delivery) (l : Level)
    (origin : Origin) (reply : Bool → Node → Reply) (stack : toTell m.stack = pending) :
    Passes n none pending (m.publish d l origin reply).1
      (toTell (m.publish d l origin reply).2.stack) := by
  subst stack
  rw [publish_eq, toTell_ring]
  exact .rest (mute_announce _ _)

end Passes

theorem passes_tell (m : Machine) (news : News) (s : Subscriber) (audience : List Subscriber)
    (rest : List Activity) (hstack : m.stack = .telling news audience :: rest) :
    Passes m.node none (toTell (.telling news (s :: audience) :: rest)) (m.tell news s).1
      (toTell (m.tell news s).2.stack) := by
  have htold : toTell (m.tell news s).2.stack = toTell (.telling news audience :: rest) := by
    rw [← hstack]
    simp only [Machine.tell]
    split <;> rfl
  rw [htold]
  cases news with
  | tick t => exact .tell s t _
  | notice notice => exact .rest ⟨rfl, rfl⟩

theorem passes_perform (m : Machine) (action : Action) :
    Passes m.node (Activity.act action).notifies? (toTell m.stack) (m.perform action).1
      (toTell (m.perform action).2.stack) := by
  cases action with
  | op operation =>
    exact passes_conclude (n := m.node) { m with node := (operation.apply m.node).2 } _ _
  | notify topic tick => exact .notify topic _
  | publish | publishNotice => exact passes_publish _ _ _ _ rfl
  | run waits busy =>
    simp only [Machine.perform, Activity.notifies?]
    split <;> exact passes_nothing
  | dispatch order atOnce stream =>
    simp only [Machine.perform, Activity.notifies?]
    split
    · exact passes_nothing
    · split
      · exact passes_nothing
      · exact passes_publish _ _ _ _ rfl
  | setClock | tick | poll | drain | step | arm => exact passes_nothing

theorem passes_seek (m : Machine) (seeker : Seeker) (level : Level) :
    Passes m.node none (toTell m.stack) (m.seek seeker level).1
      (toTell (m.seek seeker level).2.stack) := by
  rw [Machine.seek]
  split
  · refine passes_deliver _ _ _ rfl ?_
    cases seeker <;> rfl
  · cases level <;> exact passes_nothing

theorem passes_tick (m : Machine) (topic slot : Nat) (period : UInt16) (stage : TickStage) :
    Passes m.node none (toTell m.stack) (m.tick topic slot period stage).1
      (toTell (m.tick topic slot period stage).2.stack) := by
  cases stage with
  | advancing now => exact passes_nothing
  | checking =>
    simp only [Machine.tick]
    split <;> exact passes_nothing
  | publishing => exact passes_publish _ _ _ _ rfl

theorem passes_work (m : Machine) (w : Worker) :
    Passes m.node none (toTell m.stack) (m.work w).1 (toTell (m.work w).2.stack) := by
  rw [Machine.work]
  dsimp only
  split
  · split
    · exact passes_deliver _ _ _ rfl rfl
    · exact passes_nothing
  · split
    · exact passes_deliver _ _ _ rfl rfl
    · exact .rest ⟨rfl, rfl⟩
  · exact passes_nothing
  · exact passes_nothing
  · split
    · exact passes_nothing
    · exact passes_nothing
    · split
      · exact passes_deliver _ _ _ rfl rfl
      · exact passes_nothing
  · split <;> exact passes_nothing

theorem passes_step {m m' : Machine} {now : List Happening} (h : m.step = some (now, m')) :
    Passes m.node (m.stack.head?.bind Activity.notifies?) (toTell m.stack) now
      (toTell m'.stack) := by
  rw [Machine.step] at h
  split at h
  · cases h
  · rename_i top rest hstack
    rw [hstack, List.head?_cons, Option.bind_some]
    simp only [Option.some.injEq] at h
    split at h
    · cases h
      exact passes_nothing
    · cases h
      exact passes_nothing
    · rename_i action
      have hperform := passes_perform { m with stack := rest } action
      rw [h] at hperform
      exact hperform
    · cases h
      exact passes_nothing
    · rename_i reply
      split at h
      · rename_i action rest'
        have hconclude := passes_conclude (n := m.node) { m with stack := rest' } action
          (reply m.node)
        rw [h] at hconclude
        exact hconclude
      · cases h
        exact passes_nothing
    · rename_i news
      cases h
      cases news <;> exact passes_nothing
    · rename_i news s audience
      have htell := passes_tell ({ m with stack := rest }.push [.telling news audience]) news s
        audience rest rfl
      rw [h] at htell
      exact htell
    · cases h
      exact .rest ⟨rfl, rfl⟩
    · rename_i seeker level
      have hseek := passes_seek { m with stack := rest } seeker level
      rw [h] at hseek
      exact hseek
    · rename_i topic slot period stage
      have htick := passes_tick { m with stack := rest } topic slot period stage
      rw [h] at htick
      exact htick
    · rename_i w
      have hwork := passes_work { m with stack := rest } w
      rw [h] at hwork
      exact hwork

/-! ## Turns -/

namespace Parties

def toTell (p : Parties) : List Subscriber := p.ongoing.flatMap Session.toTell

def notifies? (p : Parties) : Turn → Option Nat
  | .step party => (p.ongoing[party]?).bind fun stack => stack.head?.bind Activity.notifies?
  | _ => none

end Parties

/-- What a party passes on leaves those alone whom the others still have to tell. -/
theorem passes_play (p : Parties) (turn : Turn) :
    ∃ front pending pending' back, p.toTell = front ++ pending ++ back ∧
      (p.play turn).2.toTell = front ++ pending' ++ back ∧
      Passes p.node (p.notifies? turn) pending (p.play turn).1 pending' := by
  cases turn with
  | enter who script =>
    refine ⟨p.toTell, [], [], [], by simp, ?_, passes_nothing⟩
    simp [Parties.play, Parties.toTell, toTell, Activity.toTell]
  | step party =>
    simp only [Parties.play, Parties.notifies?]
    cases hstack : p.ongoing[party]? with
    | none => exact ⟨p.toTell, [], [], [], by simp, by simp, passes_nothing⟩
    | some stack =>
      obtain ⟨front, back, hbefore, hafter⟩ := flatMap_set hstack Session.toTell
      simp only [Option.map_some, Option.bind_some]
      split
      · rename_i now m hstep
        exact ⟨front, toTell stack, toTell m.stack, back, hbefore, hafter _, passes_step hstep⟩
      · rename_i hstep
        have hnil : stack = [] := stack_of_step_eq_none hstep
        subst hnil
        exact ⟨p.toTell, [], [], [], by simp, by simp, passes_nothing⟩
  | allot party pending looks =>
    simp only [Parties.play, Parties.notifies?]
    split
    · rename_i hstack
      obtain ⟨front, back, hbefore, hafter⟩ := flatMap_set hstack Session.toTell
      exact ⟨front, _, _, back, hbefore, hafter _, passes_nothing⟩
    · exact ⟨p.toTell, [], [], [], by simp, by simp, passes_nothing⟩

/-! ## Counting -/

/-- The topic of which a turn begins a delivery, over the bus or not. -/
def Parties.delivers? (p : Parties) (turn : Turn) : Option Nat :=
  (p.notifies? turn).or ((p.play turn).1.findSome? Happening.ticked?)

/-- Those who listen to the topic of a delivery, if one begins. -/
def addressed (n : Node) (delivery : Option Nat) : List Subscriber :=
  (delivery.map fun topic => ((Subject.ticks topic).roster n).entries).getD []

theorem Passes.count {n : Node} {notified : Option Nat} {pending pending' : List Subscriber}
    {now : List Happening} (h : Passes n notified pending now pending') (x : Subscriber) :
    pending'.count x + (told now).count x = pending.count x +
      (addressed n (notified.or (now.findSome? Happening.ticked?))).count x := by
  cases h with
  | rest mute =>
    obtain ⟨htold, hticked⟩ := mute
    rw [htold, hticked]
    rfl
  | notify topic => simp [addressed, told, Nat.add_comm]
  | take l topic slot =>
    have htold : told [.taken l (.tick topic slot)] = [] := rfl
    simp [htold, addressed, Happening.ticked?, Nat.add_comm]
  | tell s t =>
    have htold : told [.heard s (.tick t)] = [s] := rfl
    simp [htold, addressed, Happening.ticked?, List.count_cons]

/-- Whoever listens to the topic of a delivery that begins is told once, now or later. -/
theorem count_toTell_play (p : Parties) (turn : Turn) (x : Subscriber) :
    (p.play turn).2.toTell.count x + (told (p.play turn).1).count x =
      p.toTell.count x + (addressed p.node (p.delivers? turn)).count x := by
  obtain ⟨front, pending, pending', back, hbefore, hafter, hpasses⟩ := passes_play p turn
  have hcount := hpasses.count x
  rw [hbefore, hafter, Parties.delivers?]
  simp only [List.count_append]
  omega

end NodeBus.Session
