import NodeBus.Session.Parties

/-!
# What a small thing does

Whoever has taken a delivery owes the bus that it is counted, and whoever has found the high
level empty will look for a normal delivery: these are the engagements of a party, read off what
it has going on. `Move` lists all that one small thing can do to the bus and to the
engagements, each with what is recorded of it. It is indexed by the role of the turn, which
says who may do what: who looks at the high level takes high deliveries only, and a normal one is
taken by those only who have found the high level empty and have not looked there since, a
moment ago (`Role.glancing`) or before they began to wait.

`moves_step` is the inversion of `Machine.step` that every law about the bus is derived
from, `moves_play` that of a turn, and `move_play` counts the engagements. What a law asks of
every turn of a schedule is said with `Parties.Along`.
-/

namespace NodeBus.Session

/-! ## Records of the bus -/

/-- Whether a record is about a delivery on the bus. -/
def Happening.isTraffic : Happening → Bool
  | .offered .. | .taken .. | .settled .. => true
  | _ => false

/-- Nothing is recorded about the bus. -/
def Silent (now : List Happening) : Prop := ∀ h ∈ now, h.isTraffic = false

theorem silent_nil : Silent [] := fun _ h => by cases h

theorem silent_singleton {h : Happening} (hh : h.isTraffic = false) : Silent [h] := by
  intro h' hmem
  cases hmem with
  | head => exact hh
  | tail _ hmem => cases hmem

/-- What only traffic tells is not told where nothing is recorded about the bus. -/
theorem filterMap_of_silent {α : Type} {f : Happening → Option α} {now : List Happening}
    (h : Silent now) (hf : ∀ a, a.isTraffic = false → f a = none) : now.filterMap f = [] :=
  List.filterMap_eq_nil_iff.mpr fun a ha => hf a (h a ha)

/-! ## Engagements and roles -/

/-- What an activity has begun on the bus and not yet ended. -/
inductive Engagement where
  /-- A delivery was taken and is not counted yet. -/
  | delivering (level : Level)
  /-- The high level was found empty, and the normal level is looked at next. -/
  | glancing
  /-- A worker has found both levels empty, one after the other, and waits. -/
  | waiting
  deriving DecidableEq

/-- The engagement of a worker. -/
def Phase.engagement? : Phase → Option Engagement
  | .glancing => some .glancing
  | .pausing .. | .waiting _ => some .waiting
  | .sweeping | .rested => none

/-- The engagement of an activity. -/
def Activity.engagement? : Activity → Option Engagement
  | .settling level => some (.delivering level)
  | .seeking _ .normal => some .glancing
  | .working w => w.phase.engagement?
  | _ => none

/-- The engagements of a party, the innermost first. -/
def engagements (stack : List Activity) : List Engagement :=
  stack.filterMap Activity.engagement?

/-- What a turn is about, as far as the bus is concerned. -/
inductive Role where
  /-- The counters are reset. -/
  | resetting
  /-- A poll, a drain or a worker looks at the high level. -/
  | consuming
  /-- A consumer that has just found the high level empty looks at the normal level. -/
  | glancing
  /-- A worker that has found both levels empty waits. -/
  | waiting
  | other
  deriving DecidableEq

/-- Whether a turn may leave the bus and the engagements alone. -/
def Role.idles : Role → Bool
  | .waiting | .other => true
  | .resetting | .consuming | .glancing => false

/-- The role of a worker that is innermost. -/
def Phase.role : Phase → Role
  | .sweeping => .consuming
  | .glancing => .glancing
  | .pausing .. | .waiting _ => .waiting
  | .rested => .other

/-- The role of an activity that is innermost. -/
def Activity.role : Activity → Role
  | .act (.op .resetCounters) => .resetting
  | .seeking _ .high => .consuming
  | .seeking _ .normal => .glancing
  | .working w => w.phase.role
  | _ => .other

/-- The role of the next small thing of what a party has going on. -/
def role : List Activity → Role
  | [] => .other
  | top :: _ => top.role

/-- Who may take a delivery of a level, and what the engagement was that this ends. -/
inductive Takes : Role → List Engagement → Level → Prop where
  | first : Takes .consuming [] .high
  | next : Takes .glancing [.glancing] .normal
  | found : Takes .waiting [.waiting] .normal

/-- How a consumer goes on that takes nothing. -/
inductive Shift (b : Bus Delivery Alarm) : Role → List Engagement → List Engagement → Prop where
  | pass (empty : b.queue .high = []) : Shift b .consuming [] [.glancing]
  | leave (empty : b.queue .normal = []) : Shift b .glancing [.glancing] []
  | pause (empty : b.queue .normal = []) : Shift b .glancing [.glancing] [.waiting]
  | wake : Shift b .waiting [.waiting] []

/-- What one small thing does to the bus and to the engagements that it is about, and what is
recorded. -/
inductive Move (b : Bus Delivery Alarm) : Role → List Engagement → List Happening →
    Bus Delivery Alarm → List Engagement → Prop where
  | aside {r : Role} {now : List Happening} {b' : Bus Delivery Alarm} (idles : r.idles = true)
      (silent : Silent now) (lanes : ∀ l, b'.lane l = b.lane l) : Move b r [] now b' []
  | reset {now : List Happening} (silent : Silent now) :
      Move b .resetting [] now b.resetCounters []
  | offer {l : Level} {d : Delivery} {refusal : Option Refusal} {b' : Bus Delivery Alarm}
      {later : List Happening} (offered : b.offer l d = (refusal, b')) (silent : Silent later) :
      Move b .other [] (.offered l d refusal :: later) b' []
  | take {r : Role} {old : List Engagement} {l : Level} {d : Delivery} {b' : Bus Delivery Alarm}
      (takes : Takes r old l) (taken : b.takeFrom? l = some (d, b')) :
      Move b r old [.taken l d] b' [.delivering l]
  | settle (l : Level) :
      Move b .other [.delivering l] [.settled l ((b.settle l).queued l)] (b.settle l) []
  | shift {r : Role} {old new : List Engagement} {now : List Happening} (silent : Silent now)
      (shift : Shift b r old new) : Move b r old now b new

/-- A move, with the engagements that it leaves alone around those that it is about. -/
def Moves (b : Bus Delivery Alarm) (r : Role) (held : List Engagement) (now : List Happening)
    (b' : Bus Delivery Alarm) (held' : List Engagement) : Prop :=
  ∃ front old new back, held = front ++ old ++ back ∧ held' = front ++ new ++ back ∧
    Move b r old now b' new

section Moves

variable {b b' : Bus Delivery Alarm} {r : Role} {held held' : List Engagement}
  {now : List Happening}

theorem Move.moves {old new : List Engagement} (h : Move b r old now b' new)
    (back : List Engagement) : Moves b r (old ++ back) now b' (new ++ back) :=
  ⟨[], old, new, back, rfl, rfl, h⟩

theorem moves_aside (idles : r.idles = true) (silent : Silent now)
    (lanes : ∀ l, b'.lane l = b.lane l) (heq : held' = held) : Moves b r held now b' held' := by
  subst heq
  exact (Move.aside idles silent lanes).moves held'

theorem moves_same (idles : r.idles = true) (heq : held' = held) : Moves b r held [] b held' :=
  moves_aside idles silent_nil (fun _ => rfl) heq

theorem Moves.around (h : Moves b r held now b' held') (front back : List Engagement) :
    Moves b r (front ++ held ++ back) now b' (front ++ held' ++ back) := by
  obtain ⟨front', old, new, back', rfl, rfl, hmove⟩ := h
  exact ⟨front ++ front', old, new, back' ++ back, by simp, by simp, hmove⟩

end Moves

/-! ## Parts of actions -/

theorem bus_hear (n : Node) (news : News) (s : Subscriber) : (n.hear news s).bus = n.bus := by
  simp only [Node.hear]
  split <;> rfl

theorem conclude_node (m : Machine) (action : Action) (reply : Reply) :
    (m.conclude action reply).2.node = m.node := by
  rw [Machine.conclude]
  split <;> rfl

theorem conclude_silent (m : Machine) (action : Action) (reply : Reply) :
    Silent (m.conclude action reply).1 := by
  rw [Machine.conclude]
  split
  · exact silent_singleton rfl
  · exact silent_singleton rfl
  · exact silent_nil

/-- The end of an action is noted at most, which is no engagement. -/
theorem conclude_engagements (m : Machine) (action : Action) (reply : Reply) :
    engagements (m.conclude action reply).2.stack = engagements m.stack := by
  rw [Machine.conclude]
  split
  · rename_i hstack
    rw [hstack]
  · rename_i hstack
    rw [hstack]
    rfl
  · rfl

theorem moves_conclude {b : Bus Delivery Alarm} {r : Role} {held : List Engagement} {m : Machine}
    (action : Action) (reply : Reply) (idles : r.idles = true)
    (lanes : ∀ l, m.node.bus.lane l = b.lane l) (heq : engagements m.stack = held) :
    Moves b r held (m.conclude action reply).1 (m.conclude action reply).2.node.bus
      (engagements (m.conclude action reply).2.stack) := by
  rw [conclude_node, conclude_engagements]
  exact moves_aside idles (conclude_silent _ _ _) lanes heq

theorem moves_tell (m : Machine) (news : News) (s : Subscriber) :
    Moves m.node.bus .other (engagements m.stack) (m.tell news s).1 (m.tell news s).2.node.bus
      (engagements (m.tell news s).2.stack) := by
  have hbus : (m.tell news s).2.node.bus = m.node.bus := by
    rw [← bus_hear m.node news s]
    simp only [Machine.tell]
    split <;> rfl
  have hengagements : engagements (m.tell news s).2.stack = engagements m.stack := by
    simp only [Machine.tell]
    split <;> rfl
  rw [hbus, hengagements]
  exact moves_aside rfl (silent_singleton rfl) (fun _ => rfl) rfl

/-- A publication is not heard, queued or refused. -/
theorem publish_cases (n : Node) (d : Delivery) (l : Level) :
    n.publish d l = (.unheard, n) ∨
    (∃ bus, n.bus.offer l d = (none, bus) ∧ n.publish d l = (.queued, { n with bus })) ∨
    (∃ cause bus, n.bus.offer l d = (some cause, bus) ∧
      n.publish d l = (.refused cause, { n with bus })) := by
  rw [Node.publish]
  split
  · exact .inl rfl
  · right
    rcases n.bus.offer l d with ⟨refusal, bus⟩
    cases refusal with
    | none => exact .inl ⟨bus, rfl, rfl⟩
    | some cause => exact .inr ⟨cause, bus, rfl, rfl⟩

theorem moves_publish (m : Machine) (d : Delivery) (l : Level) (origin : Origin)
    (reply : Bool → Node → Reply) :
    Moves m.node.bus .other (engagements m.stack) (m.publish d l origin reply).1
      (m.publish d l origin reply).2.node.bus
      (engagements (m.publish d l origin reply).2.stack) := by
  rw [Machine.publish]
  rcases publish_cases m.node d l with hunheard | ⟨bus, hoffer, hqueued⟩ |
    ⟨cause, bus, hoffer, hrefused⟩
  · rw [hunheard]
    exact moves_same rfl rfl
  · rw [hqueued]
    exact (Move.offer hoffer silent_nil).moves _
  · rw [hrefused]
    dsimp only
    split
    · exact (Move.offer hoffer silent_nil).moves _
    · exact (Move.offer hoffer (silent_singleton rfl)).moves _

/-! ## Operations and actions -/

/-- An operation leaves the lanes alone, unless it resets the counters. -/
theorem lanes_apply {o : Operation} (h : o ≠ .resetCounters) (n : Node) (l : Level) :
    (o.apply n).2.bus.lane l = n.bus.lane l := by
  cases o with
  | resetCounters => exact absurd rfl h
  | start => cases l <;> rfl
  | claim => cases l <;> rfl
  | setAlarm _ => cases l <;> rfl
  | clearAlarm => cases l <;> rfl
  | register h =>
    simp only [Operation.apply]
    split <;> rfl
  | putNotice key status data now =>
    simp only [Operation.apply]
    split <;> rfl
  | _ => rfl

theorem moves_perform (m : Machine) (action : Action) :
    Moves m.node.bus (Activity.act action).role (engagements m.stack) (m.perform action).1
      (m.perform action).2.node.bus (engagements (m.perform action).2.stack) := by
  cases action with
  | op operation =>
    simp only [Machine.perform]
    by_cases hreset : operation = .resetCounters
    · subst hreset
      rw [conclude_node, conclude_engagements]
      exact (Move.reset (conclude_silent _ _ _)).moves _
    · have hidles : (Activity.act (.op operation)).role.idles = true := by
        cases operation with
        | resetCounters => exact absurd rfl hreset
        | _ => rfl
      exact moves_conclude _ _ hidles (lanes_apply hreset m.node) rfl
  | setClock now action => exact moves_same rfl rfl
  | notify topic tick => exact moves_same rfl rfl
  | publish topic slot level origin => exact moves_publish (m.push [.acting _]) ..
  | publishNotice level origin => exact moves_publish (m.push [.acting _]) ..
  | tick topic slot period => exact moves_same rfl rfl
  | poll => exact moves_same rfl rfl
  | drain => exact moves_same rfl rfl
  | step pending busy => exact moves_same rfl rfl
  | run waits busy =>
    simp only [Machine.perform]
    split
    · exact moves_aside rfl silent_nil (fun l => by cases l <;> rfl) rfl
    · exact moves_same rfl rfl
  | dispatch order atOnce stream =>
    simp only [Machine.perform]
    split
    · exact moves_same rfl rfl
    · rename_i request _
      split
      · exact moves_same rfl rfl
      · exact moves_publish { m.push [.acting _] with node := m.node.execute request } ..
  | arm who times script => exact moves_same rfl rfl

/-! ## Consumers -/

/-- Whoever looks at a level takes what is there. -/
theorem moves_deliver {m : Machine} {a : Activity} {l : Level} {d : Delivery}
    {bus : Bus Delivery Alarm} {old : List Engagement} {stack : List Activity}
    (takes : Takes a.role old l) (taken : m.node.bus.takeFrom? l = some (d, bus))
    (held : engagements (a :: stack) = old ++ engagements m.stack) :
    Moves m.node.bus a.role (engagements (a :: stack)) (m.deliver l d bus).1
      (m.deliver l d bus).2.node.bus (engagements (m.deliver l d bus).2.stack) := by
  rw [held, Machine.deliver_eq]
  exact (Move.take takes taken).moves _

theorem engagement?_after (l : Level) (seeker : Seeker) :
    (Machine.after l seeker).engagement? = none := by
  cases seeker <;> rfl

theorem moves_seek (m : Machine) (seeker : Seeker) (level : Level) :
    Moves m.node.bus (Activity.seeking seeker level).role
      (engagements (.seeking seeker level :: m.stack)) (m.seek seeker level).1
      (m.seek seeker level).2.node.bus (engagements (m.seek seeker level).2.stack) := by
  have hafter : engagements (Machine.after level seeker :: m.stack) = engagements m.stack :=
    List.filterMap_cons_none (engagement?_after level seeker)
  rw [Machine.seek]
  cases level with
  | high =>
    split
    · rename_i htaken
      exact moves_deliver .first htaken hafter.symm
    · rename_i hnone
      exact (Move.shift silent_nil (.pass (Bus.takeFrom?_eq_none_iff.mp hnone))).moves _
  | normal =>
    split
    · rename_i htaken
      have hheld : engagements (.seeking seeker .normal :: m.stack) =
          [.glancing] ++ engagements (Machine.after .normal seeker :: m.stack) := by
        rw [hafter]
        rfl
      exact moves_deliver .next htaken hheld
    · rename_i hnone
      exact (Move.shift silent_nil (.leave (Bus.takeFrom?_eq_none_iff.mp hnone))).moves _

theorem moves_work (m : Machine) (w : Worker) :
    Moves m.node.bus (Activity.working w).role (engagements (.working w :: m.stack)) (m.work w).1
      (m.work w).2.node.bus (engagements (m.work w).2.stack) := by
  obtain ⟨loops, pauses, looks, delivered, notes, phase⟩ := w
  cases phase with
  | sweeping =>
    simp only [Machine.work]
    split
    · rename_i htaken
      exact moves_deliver .first htaken rfl
    · rename_i hnone
      exact (Move.shift silent_nil (.pass (Bus.takeFrom?_eq_none_iff.mp hnone))).moves _
  | glancing =>
    simp only [Machine.work]
    split
    · rename_i htaken
      exact moves_deliver .next htaken rfl
    · rename_i hnone
      exact (Move.shift (silent_singleton rfl)
        (.pause (Bus.takeFrom?_eq_none_iff.mp hnone))).moves _
  | pausing busy pending => cases busy <;> exact moves_same rfl rfl
  | waiting pending =>
    -- The pause is over, or the worker is given up, or it looks at the normal level.
    simp only [Machine.work]
    split
    · exact (Move.shift silent_nil .wake).moves _
    · exact (Move.shift silent_nil .wake).moves _
    · split
      · rename_i htaken
        exact moves_deliver .found htaken rfl
      · exact moves_same rfl rfl
  | rested => cases loops <;> exact moves_same rfl rfl

/-! ## Ticks -/

theorem moves_tick (m : Machine) (topic slot : Nat) (period : UInt16) (stage : TickStage) :
    Moves m.node.bus .other (engagements m.stack) (m.tick topic slot period stage).1
      (m.tick topic slot period stage).2.node.bus
      (engagements (m.tick topic slot period stage).2.stack) := by
  cases stage with
  | advancing now => exact moves_same rfl rfl
  | checking =>
    simp only [Machine.tick]
    split <;> exact moves_same rfl rfl
  | publishing => exact moves_publish m ..

/-! ## Steps and turns -/

theorem moves_step {m m' : Machine} {now : List Happening} (h : m.step = some (now, m')) :
    Moves m.node.bus (role m.stack) (engagements m.stack) now m'.node.bus
      (engagements m'.stack) := by
  rw [Machine.step] at h
  split at h
  · cases h
  · rename_i top rest hstack
    rw [hstack]
    simp only [Option.some.injEq] at h
    split at h
    · cases h
      exact moves_same rfl rfl
    · cases h
      exact moves_same rfl rfl
    · -- An action begins.
      rename_i action
      have hperform := moves_perform { m with stack := rest } action
      rw [h] at hperform
      exact hperform
    · cases h
      exact moves_same rfl rfl
    · -- An action ends, if one is below.
      rename_i reply
      split at h
      · rename_i action rest'
        have hconclude := moves_conclude (b := m.node.bus) (r := .other)
          (m := { m with stack := rest' }) action (reply m.node) rfl (fun _ => rfl) rfl
        rw [h] at hconclude
        exact hconclude
      · cases h
        exact moves_same rfl rfl
    · cases h
      exact moves_same rfl rfl
    · rename_i news s audience
      have htell := moves_tell ({ m with stack := rest }.push [.telling news audience]) news s
      rw [h] at htell
      exact htell
    · cases h
      exact (Move.settle _).moves _
    · rename_i seeker level
      have hseek := moves_seek { m with stack := rest } seeker level
      rw [h] at hseek
      exact hseek
    · rename_i topic slot period stage
      have htick := moves_tick { m with stack := rest } topic slot period stage
      rw [h] at htick
      exact htick
    · rename_i w
      have hwork := moves_work { m with stack := rest } w
      rw [h] at hwork
      exact hwork

/-- The engagements of all parties. -/
def Parties.engagements (p : Parties) : List Engagement := p.ongoing.flatMap Session.engagements

/-- The role of a turn. -/
def Parties.role (p : Parties) : Turn → Role
  | .step party => (p.ongoing[party]?.map Session.role).getD .other
  | _ => .other

/-- What is read off the stacks of all parties, around one that is replaced. -/
theorem flatMap_set {α : Type} {ongoing : List (List Activity)} {party : Nat}
    {stack : List Activity} (hstack : ongoing[party]? = some stack) (f : List Activity → List α) :
    ∃ front back, ongoing.flatMap f = front ++ f stack ++ back ∧
      ∀ stack', (ongoing.set party stack').flatMap f = front ++ f stack' ++ back := by
  obtain ⟨hlt, rfl⟩ := List.getElem?_eq_some_iff.mp hstack
  refine ⟨(ongoing.take party).flatMap f, (ongoing.drop (party + 1)).flatMap f, ?_,
    fun stack' => ?_⟩
  · rw [List.append_assoc, ← List.flatMap_cons, ← List.drop_eq_getElem_cons hlt,
      ← List.flatMap_append, List.take_append_drop]
  · rw [List.set_eq_take_append_cons_drop, if_pos hlt, List.flatMap_append, List.flatMap_cons,
      ← List.append_assoc]

/-- What changes the engagements of one party changes those of all. -/
theorem moves_set {p : Parties} {b' : Bus Delivery Alarm} {r : Role} {now : List Happening}
    {party : Nat} {stack stack' : List Activity} (hstack : p.ongoing[party]? = some stack)
    (h : Moves p.node.bus r (engagements stack) now b' (engagements stack')) :
    Moves p.node.bus r p.engagements now b'
      ((p.ongoing.set party stack').flatMap Session.engagements) := by
  obtain ⟨front, back, hbefore, hafter⟩ := flatMap_set hstack Session.engagements
  rw [Parties.engagements, hbefore, hafter]
  exact h.around _ _

/-- Nothing goes on where there is nothing to do next. -/
theorem stack_of_step_eq_none {m : Machine} (h : m.step = none) : m.stack = [] := by
  rw [Machine.step] at h
  split at h
  · assumption
  · cases h

theorem moves_play (p : Parties) (turn : Turn) :
    Moves p.node.bus (p.role turn) p.engagements (p.play turn).1 (p.play turn).2.node.bus
      (p.play turn).2.engagements := by
  cases turn with
  | enter who script =>
    refine moves_same rfl ?_
    simp [Parties.play, Parties.engagements, Session.engagements, Activity.engagement?]
  | step party =>
    simp only [Parties.play, Parties.role]
    cases hstack : p.ongoing[party]? with
    | none => exact moves_same rfl rfl
    | some stack =>
      simp only [Option.map_some, Option.bind_some, Option.getD_some]
      split
      · rename_i now m hstep
        exact moves_set hstack (moves_step hstep)
      · rename_i hstep
        rw [show stack = [] from stack_of_step_eq_none hstep]
        exact moves_same rfl rfl
  | allot party pending looks =>
    simp only [Parties.play]
    split
    · rename_i hstack
      -- The worker waits as it did.
      exact moves_set hstack (moves_same (r := .other) rfl rfl)
    · exact moves_same rfl rfl

/-- A turn makes a move, and the number of engagements of each kind changes with it. -/
theorem move_play (p : Parties) (turn : Turn) :
    ∃ old new, Move p.node.bus (p.role turn) old (p.play turn).1 (p.play turn).2.node.bus new ∧
      ∀ x, (p.play turn).2.engagements.count x + old.count x =
        p.engagements.count x + new.count x := by
  obtain ⟨front, old, new, back, hbefore, hafter, hmove⟩ := moves_play p turn
  refine ⟨old, new, hmove, fun x => ?_⟩
  rw [hbefore, hafter]
  simp only [List.count_append]
  omega

theorem run_append (p : Parties) (turns later : List Turn) :
    (p.run (turns ++ later)).2 = ((p.run turns).2.run later).2 := by
  induction turns generalizing p with
  | nil => rfl
  | cons turn turns ih => exact ih (p.play turn).2

/-- Each turn of a schedule is one that `P` allows. -/
def Parties.Along (P : Parties → Turn → Prop) (p : Parties) : List Turn → Prop
  | [] => True
  | turn :: turns => P p turn ∧ (p.play turn).2.Along P turns

instance Parties.decidableAlong (P : Parties → Turn → Prop) [∀ p turn, Decidable (P p turn)]
    (p : Parties) : (turns : List Turn) → Decidable (p.Along P turns)
  | [] => isTrue trivial
  | turn :: turns =>
    have := Parties.decidableAlong P (p.play turn).2 turns
    inferInstanceAs (Decidable (P p turn ∧ (p.play turn).2.Along P turns))

end NodeBus.Session
