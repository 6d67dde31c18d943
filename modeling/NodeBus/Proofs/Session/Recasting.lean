import Mathlib.Data.List.Forall2
import NodeBus.Proofs.Session.Backpressure
import NodeBus.Proofs.Session.Courses

/-!
# Publications that are recast

An interrupt handler publishes as a task does, except that no alarm is raised if that is refused.
Machines are compared here of which one is a recast of the other: wherever it publishes from a task,
the recast may publish from an interrupt. If hooks do nothing, a machine and its recast do the same
(`alike_step`), except that a hook that was called for a publication that is recast has still to
return. There is one lemma for each part of a step.
-/

namespace NodeBus

open List (Forall₂)

/-! ## Recasting -/

/-- A publication is left where it is, or made from an interrupt instead of a task. -/
inductive Origin.Recast : Origin → Origin → Prop where
  | same (o : Origin) : Recast o o
  | eased : Recast .task .interrupt

namespace Session

inductive Action.Recast : Action → Action → Prop where
  | op (o : Operation) : Recast (.op o) (.op o)
  | setClock (now : UInt32) {a a' : Action} (action : Recast a a') :
      Recast (.setClock now a) (.setClock now a')
  | notify (topic : Nat) (tick : Tick) : Recast (.notify topic tick) (.notify topic tick)
  | publish (topic slot : Nat) (level : Level) {o o' : Origin} (origin : o.Recast o') :
      Recast (.publish topic slot level o) (.publish topic slot level o')
  | publishNotice (level : Level) {o o' : Origin} (origin : o.Recast o') :
      Recast (.publishNotice level o) (.publishNotice level o')
  | tick (topic slot : Nat) (period : UInt16) :
      Recast (.tick topic slot period) (.tick topic slot period)
  | poll : Recast .poll .poll
  | drain : Recast .drain .drain
  | step (pending : Option Nat) {busy busy' : Script} (script : Forall₂ Recast busy busy') :
      Recast (.step pending busy) (.step pending busy')
  | run (waits : Nat) {busy busy' : Script} (script : Forall₂ Recast busy busy') :
      Recast (.run waits busy) (.run waits busy')
  | dispatch (order : Order) (atOnce : Bool) (stream : UInt8) :
      Recast (.dispatch order atOnce stream) (.dispatch order atOnce stream)
  | arm (who : Caller) (times : Nat) {s s' : Script} (script : Forall₂ Recast s s') :
      Recast (.arm who times s) (.arm who times s')

/-- A script with its publications recast. -/
abbrev Script.Recast (s s' : Script) : Prop := Forall₂ Action.Recast s s'

mutual
/-- The same reply, with what is noted about a pause recast. -/
inductive Reply.Recast : Reply → Reply → Prop where
  | same (r : Reply) : Reply.Recast r r
  | worked (delivered : Option Nat) {notes notes' : List Note}
      (noted : Forall₂ Note.Recast notes notes') :
      Reply.Recast (.worked delivered notes) (.worked delivered notes')
  | served (returned : Bool) {notes notes' : List Note}
      (noted : Forall₂ Note.Recast notes notes') :
      Reply.Recast (.served returned notes) (.served returned notes')

inductive Note.Recast : Note → Note → Prop where
  | asked (wait : UInt32) : Note.Recast (.asked wait) (.asked wait)
  | did {a a' : Action} {r r' : Reply} (action : a.Recast a') (reply : Reply.Recast r r') :
      Note.Recast (.did a r) (.did a' r')
end

/-- The same happening, with the action recast whose end it is. -/
inductive Happening.Recast : Happening → Happening → Prop where
  | same (h : Happening) : Recast h h
  | did (who : Caller) {a a' : Action} {r r' : Reply} (action : a.Recast a')
      (reply : r.Recast r') : Recast (.did who a r) (.did who a' r')

inductive Pause.Recast : Pause → Pause → Prop where
  | intro (pending : Option Nat) {busy busy' : Script} (script : Script.Recast busy busy') :
      Recast ⟨pending, busy⟩ ⟨pending, busy'⟩

inductive Phase.Recast : Phase → Phase → Prop where
  | sweeping : Recast .sweeping .sweeping
  | glancing : Recast .glancing .glancing
  | pausing {busy busy' : Script} (script : Script.Recast busy busy') (pending : Option Nat) :
      Recast (.pausing busy pending) (.pausing busy' pending)
  | waiting (pending : Option Nat) : Recast (.waiting pending) (.waiting pending)
  | rested : Recast .rested .rested

inductive Worker.Recast : Worker → Worker → Prop where
  | intro {loops : Bool} {looks delivered : Nat} {pauses pauses' : List Pause}
      {notes notes' : List Note} {phase phase' : Phase}
      (ahead : Forall₂ Pause.Recast pauses pauses') (noted : Forall₂ Note.Recast notes notes')
      (round : phase.Recast phase') :
      Recast ⟨loops, pauses, looks, delivered, notes, phase⟩
        ⟨loops, pauses', looks, delivered, notes', phase'⟩

inductive Activity.Recast : Activity → Activity → Prop where
  | code (who : Caller) {todo todo' : Script} (script : Script.Recast todo todo') :
      Recast (.code who todo) (.code who todo')
  | act {a a' : Action} (action : a.Recast a') : Recast (.act a) (.act a')
  | acting {a a' : Action} (action : a.Recast a') : Recast (.acting a) (.acting a')
  | answer {f f' : Node → Reply} (reply : ∀ n, (f n).Recast (f' n)) :
      Recast (.answer f) (.answer f')
  | telling (news : News) (audience : List Subscriber) :
      Recast (.telling news audience) (.telling news audience)
  | settling (level : Level) : Recast (.settling level) (.settling level)
  | seeking (seeker : Seeker) (level : Level) :
      Recast (.seeking seeker level) (.seeking seeker level)
  | ticking (topic slot : Nat) (period : UInt16) (stage : TickStage) :
      Recast (.ticking topic slot period stage) (.ticking topic slot period stage)
  | working {w w' : Worker} (worker : w.Recast w') : Recast (.working w) (.working w')

def Caller.isHook : Caller → Bool
  | .hook _ => true
  | _ => false

/-- Callers with their scripts recast. Hooks may have been called less often. -/
structure Reactions.Recast (r r' : Reactions) : Prop where
  scripts : ∀ who call, Script.Recast ((r.get who).script call) ((r'.get who).script call)
  calls : ∀ who, who.isHook = false → (r'.get who).calls = (r.get who).calls

/-- What goes on is recast. A hook that was called for a publication that is recast may still have
to return. -/
inductive StackRecast : List Activity → List Activity → Prop where
  | level {s s' : List Activity} (stack : Forall₂ Activity.Recast s s') : StackRecast s s'
  | ringing (hook : Nat) {f f' : Node → Reply} {s s' : List Activity}
      (reply : ∀ n, (f n).Recast (f' n)) (stack : Forall₂ Activity.Recast s s') :
      StackRecast (.code (.hook hook) [] :: .answer f :: s) (.answer f' :: s')

inductive Machine.Recast : Machine → Machine → Prop where
  | intro {n : Node} {r r' : Reactions} {s s' : List Activity} (reactions : r.Recast r')
      (stack : Forall₂ Activity.Recast s s') : Recast ⟨n, r, s⟩ ⟨n, r', s'⟩

inductive Parties.Recast : Parties → Parties → Prop where
  | intro {n : Node} {r r' : Reactions} {o o' : List (List Activity)} (reactions : r.Recast r')
      (ongoing : Forall₂ StackRecast o o') : Recast ⟨n, r, o⟩ ⟨n, r', o'⟩

inductive Turn.Recast : Turn → Turn → Prop where
  | enter (who : Caller) {s s' : Script} (script : Script.Recast s s') :
      Recast (.enter who s) (.enter who s')
  | step (party : Nat) : Recast (.step party) (.step party)
  | allot (party : Nat) (pending : Option Nat) (looks : Nat) :
      Recast (.allot party pending looks) (.allot party pending looks)

/-! ## Nothing need be recast -/

mutual
theorem Action.Recast.refl : (a : Action) → a.Recast a
  | .op o => .op o
  | .setClock now a => .setClock now (Action.Recast.refl a)
  | .notify topic tick => .notify topic tick
  | .publish topic slot level o => .publish topic slot level (.same o)
  | .publishNotice level o => .publishNotice level (.same o)
  | .tick topic slot period => .tick topic slot period
  | .poll => .poll
  | .drain => .drain
  | .step pending busy => .step pending (Script.Recast.refl busy)
  | .run waits busy => .run waits (Script.Recast.refl busy)
  | .dispatch order atOnce stream => .dispatch order atOnce stream
  | .arm who times s => .arm who times (Script.Recast.refl s)

theorem Script.Recast.refl : (s : List Action) → Forall₂ Action.Recast s s
  | [] => .nil
  | a :: s => .cons (Action.Recast.refl a) (Script.Recast.refl s)
end

theorem Happening.recast_refl (now : List Happening) : Forall₂ Happening.Recast now now :=
  List.forall₂_same.mpr fun h _ => .same h

theorem Reactions.Recast.refl (r : Reactions) : r.Recast r :=
  ⟨fun _ _ => Script.Recast.refl _, fun _ _ => rfl⟩

/-! ## Callers -/

/-- No hook does anything when it is called. -/
def HooksIdle (r : Reactions) : Prop := ∀ hook call, (r.get (.hook hook)).script call = []

section Reactions

variable {r r' : Reactions}

theorem Reactions.Recast.hooksIdle (h : r.Recast r') (hidle : HooksIdle r) : HooksIdle r' := by
  intro hook call
  have hscript := h.scripts (.hook hook) call
  rw [hidle hook call] at hscript
  exact List.forall₂_nil_left_iff.mp hscript

theorem Reactions.Recast.set (h : r.Recast r') (who : Caller) {x x' : Reaction}
    (scripts : ∀ call, Script.Recast (x.script call) (x'.script call))
    (calls : who.isHook = false → x'.calls = x.calls) :
    Reactions.Recast (r.set who x) (r'.set who x') := by
  constructor
  · intro who' call
    rw [Bank.get_set, Bank.get_set]
    split
    · exact scripts call
    · exact h.scripts who' call
  · intro who' hwho'
    rw [Bank.get_set, Bank.get_set]
    split
    · rename_i heq
      exact calls (heq ▸ hwho')
    · exact h.calls who' hwho'

/-- The next scripts are recast, also of a hook that has been called less often: all of its scripts
are empty. -/
theorem Reactions.Recast.next (h : r.Recast r') (hidle : HooksIdle r) (who : Caller) :
    Script.Recast (r.get who).next (r'.get who).next := by
  have hcalls := h.calls who
  cases who with
  | hook i =>
    rw [Reaction.next, Reaction.next, hidle, h.hooksIdle hidle]
    exact .nil
  | _ =>
    rw [Reaction.next, Reaction.next, hcalls rfl]
    exact h.scripts _ _

end Reactions

/-! ## Parts of actions -/

/-- What happens is recast, and so is what comes of it. -/
structure Results (res res' : List Happening × Machine) : Prop where
  records : Forall₂ Happening.Recast res.1 res'.1
  machine : res.2.Recast res'.2

section Parts

variable {m m' : Machine}

theorem results_of_machine (now : List Happening) (h : m.Recast m') :
    Results (now, m) (now, m') := ⟨Happening.recast_refl now, h⟩

theorem Machine.Recast.push (h : m.Recast m') {s s' : List Activity}
    (hs : Forall₂ Activity.Recast s s') : (m.push s).Recast (m'.push s') := by
  obtain ⟨hr, hstack⟩ := h
  exact .intro hr (List.rel_append hs hstack)

theorem Machine.Recast.call (h : m.Recast m') (hidle : HooksIdle m.reactions) (who : Caller) :
    (m.call who).Recast (m'.call who) := by
  obtain ⟨hr, hstack⟩ := h
  have hcalls := hr.calls who
  exact .intro (hr.set who (hr.scripts who) fun hwho => congrArg (· + 1) (hcalls hwho))
    (.cons (.code who (hr.next hidle who)) hstack)

theorem Machine.Recast.ring (h : m.Recast m') (hidle : HooksIdle m.reactions)
    (raised : Option Alarm) : (m.ring raised).Recast (m'.ring raised) := by
  cases raised with
  | none => exact h
  | some alarm => exact h.call hidle (.hook alarm.hook)

theorem results_conclude (h : m.Recast m') {a a' : Action} (ha : a.Recast a') {reply reply' : Reply}
    (hreply : reply.Recast reply') : Results (m.conclude a reply) (m'.conclude a' reply') := by
  obtain ⟨hr, hstack⟩ := h
  cases hstack with
  | nil => exact results_of_machine [] (.intro hr .nil)
  | cons htop hrest =>
    have hsame := htop
    cases htop with
    | code who hscript =>
      exact ⟨.cons (.did who ha hreply) .nil, .intro hr (.cons (.code who hscript) hrest)⟩
    | working hworker =>
      obtain ⟨hpauses, hnotes, hphase⟩ := hworker
      have hnoted := List.rel_append hnotes (.cons (.did ha hreply) .nil)
      exact ⟨.cons (.did .pause ha hreply) .nil,
        .intro hr (.cons (.working (.intro hpauses hnoted hphase)) hrest)⟩
    -- Whoever else is on top takes no notice.
    | _ => exact results_of_machine [] (.intro hr (.cons hsame hrest))

theorem results_tell (h : m.Recast m') (hidle : HooksIdle m.reactions) (news : News)
    (s : Subscriber) : Results (m.tell news s) (m'.tell news s) := by
  obtain ⟨hr, hstack⟩ := h
  simp only [Machine.tell]
  split
  · rename_i n _ _ _ _ _ who _
    exact results_of_machine _
      (Machine.Recast.call (Machine.Recast.intro (n := n.hear news s) hr hstack) hidle who)
  · exact results_of_machine _ (.intro hr hstack)

theorem results_deliver (h : m.Recast m') (level : Level) (d : Delivery)
    (bus : Bus Delivery Alarm) : Results (m.deliver level d bus) (m'.deliver level d bus) := by
  obtain ⟨hr, hstack⟩ := h
  rw [Machine.deliver_eq, Machine.deliver_eq]
  exact results_of_machine _
    (.intro hr (.cons (.telling _ _) (.cons (.settling level) hstack)))

theorem results_seek (h : m.Recast m') (seeker : Seeker) (level : Level) :
    Results (m.seek seeker level) (m'.seek seeker level) := by
  have hafter : Activity.Recast (Machine.after level seeker) (Machine.after level seeker) := by
    cases seeker with
    | poll => exact .answer fun _ => .same _
    | drain delivered => exact .seeking _ _
  have hpassing :
      Activity.Recast (Machine.passing seeker level) (Machine.passing seeker level) := by
    cases level with
    | high => exact .seeking _ _
    | normal => exact .answer fun _ => .same _
  have hfound := h.push (.cons hafter .nil)
  have hempty := h.push (.cons hpassing .nil)
  obtain ⟨hr, hstack⟩ := h
  simp only [Machine.seek]
  split
  · exact results_deliver hfound _ _ _
  · exact results_of_machine [] hempty

theorem results_publish (h : m.Recast m') (hidle : HooksIdle m.reactions) (d : Delivery)
    (level : Level) (origin : Origin) {reply reply' : Bool → Node → Reply}
    (hreply : ∀ isDone n, (reply isDone n).Recast (reply' isDone n)) :
    Results (m.publish d level origin reply) (m'.publish d level origin reply') := by
  obtain ⟨hr, hstack⟩ := h
  rename_i n _ _ _ _
  rw [publish_eq, publish_eq]
  have hanswer := Machine.Recast.intro (n := n.published ⟨d, level, origin⟩) hr
    (.cons (.answer (hreply (n.outcome ⟨d, level, origin⟩).isDone)) hstack)
  exact results_of_machine _ (hanswer.ring hidle _)

theorem results_tick (h : m.Recast m') (hidle : HooksIdle m.reactions) (topic slot : Nat)
    (period : UInt16) (stage : TickStage) :
    Results (m.tick topic slot period stage) (m'.tick topic slot period stage) := by
  obtain ⟨hr, hstack⟩ := h
  cases stage with
  | advancing now =>
    exact results_of_machine [] (.intro hr (.cons (.ticking topic slot period .checking) hstack))
  | checking =>
    simp only [Machine.tick]
    split
    · exact results_of_machine []
        (.intro hr (.cons (.ticking topic slot period .publishing) hstack))
    · exact results_of_machine [] (.intro hr (.cons (.answer fun _ => .same _) hstack))
  | publishing => exact results_publish (.intro hr hstack) hidle _ _ _ fun _ _ => .same _

end Parts

/-! ## Publications that are recast -/

def Happening.isAlarm : Happening → Bool
  | .alarmed .. => true
  | _ => false

/-- Two steps are the same, or one is a publication from a task, the other the same publication from
an interrupt, which raises no alarm. -/
inductive Alike (i i' : Intent) (res res' : List Happening × Machine) : Prop where
  | same (intent : i' = i) (results : Results res res')
  | eased (d : Delivery) (level : Level) (task : i = .publication ⟨d, level, .task⟩)
      (interrupt : i' = .publication ⟨d, level, .interrupt⟩)
      (records : res'.1 = res.1.filter (!·.isAlarm)) (node : res'.2.node = res.2.node)
      (reactions : Reactions.Recast res.2.reactions res'.2.reactions)
      (stack : StackRecast res.2.stack res'.2.stack)

section Eased

variable {n : Node} {d : Delivery} {level : Level}

/-- An interrupt announces what a task does, without the alarm. -/
theorem announce_interrupt :
    announce n ⟨d, level, .interrupt⟩ =
      (announce n ⟨d, level, .task⟩).filter (!·.isAlarm) := by
  simp only [announce, Node.outcome]
  cases (n.publish d level).1 with
  | unheard => rfl
  | queued => rfl
  | refused cause =>
    have hnone : (n.alarmFor .interrupt).toList = [] := rfl
    simp [hnone, Happening.isAlarm]

theorem raised_interrupt : n.raised ⟨d, level, .interrupt⟩ = none := by
  simp only [Node.raised]
  split <;> rfl

theorem alike_publish {m m' : Machine} (h : m.Recast m') (hidle : HooksIdle m.reactions)
    {o o' : Origin} (ho : o.Recast o') :
    Alike (.publication ⟨d, level, o⟩) (.publication ⟨d, level, o'⟩)
      (m.publish d level o fun isDone _ => .flag isDone)
      (m'.publish d level o' fun isDone _ => .flag isDone) := by
  cases ho with
  | same => exact .same rfl (results_publish h hidle d level o fun _ _ => .same _)
  | eased =>
    obtain ⟨hr, hstack⟩ := h
    rename_i n r r' s s'
    rw [publish_eq, publish_eq]
    dsimp only
    rw [raised_interrupt, announce_interrupt]
    have hflag (_ : Node) : Reply.Recast (.flag (n.outcome ⟨d, level, .task⟩).isDone)
        (.flag (n.outcome ⟨d, level, .interrupt⟩).isDone) := .same _
    refine .eased d level rfl rfl rfl ?_ ?_ ?_
    · dsimp only
      rw [Machine.ring_node, Machine.ring_node]
      rfl
    · cases n.raised ⟨d, level, .task⟩ with
      | none => exact hr
      | some alarm =>
        -- The hook has been called once more.
        refine ⟨fun who call => ?_, fun who hwho => ?_⟩
        · simp only [Machine.ring, Machine.call, Machine.push, Bank.get_set]
          split
          · rename_i heq
            subst heq
            exact hr.scripts _ call
          · exact hr.scripts who call
        · simp only [Machine.ring, Machine.call, Machine.push, Bank.get_set]
          split
          · rename_i heq
            subst heq
            cases hwho
          · exact hr.calls who hwho
    · rw [Machine.ring_stack]
      cases n.raised ⟨d, level, .task⟩ with
      | none => exact .level (.cons (.answer hflag) hstack)
      | some alarm =>
        have hnext : (r.get (.hook alarm.hook)).next = [] := hidle _ _
        simp only [Option.toList_some, List.map_singleton, List.singleton_append, Machine.push,
          hnext]
        exact .ringing alarm.hook hflag hstack

end Eased

/-! ## Actions and steps -/

section Steps

variable {m m' : Machine}

theorem alike_perform (h : m.Recast m') (hidle : HooksIdle m.reactions) {a a' : Action}
    (ha : a.Recast a') : Alike a.intent a'.intent (m.perform a) (m'.perform a') := by
  have hacting := h.push (.cons (.acting ha) .nil)
  have hreactions : HooksIdle (m.push [.acting a]).reactions := hidle
  cases ha with
  | publish topic slot level ho => exact alike_publish hacting hreactions ho
  | publishNotice level ho => exact alike_publish hacting hreactions ho
  | op o =>
    obtain ⟨hr, hstack⟩ := h
    exact .same rfl (results_conclude (.intro hr hstack) (.op o) (.same _))
  | setClock now haction =>
    obtain ⟨hr, hstack⟩ := h
    exact .same rfl (results_of_machine [] (.intro hr (.cons (.act haction) hstack)))
  | notify topic tick =>
    obtain ⟨hr, hstack⟩ := h
    exact .same rfl (results_of_machine []
      (.intro hr (.cons (.telling _ _) (.cons (.answer fun _ => .same _)
        (.cons (.acting (.notify topic tick)) hstack)))))
  | tick topic slot period =>
    obtain ⟨hr, hstack⟩ := h
    exact .same rfl (results_of_machine [] (.intro hr (.cons (.ticking topic slot period _)
      (.cons (.acting (.tick topic slot period)) hstack))))
  | poll =>
    exact .same rfl (results_of_machine [] (hacting.push (.cons (.seeking .poll .high) .nil)))
  | drain =>
    exact .same rfl (results_of_machine [] (hacting.push (.cons (.seeking (.drain 0) .high) .nil)))
  | step pending hscript =>
    have hworker : Worker.Recast (.begin false [⟨pending, _⟩]) (.begin false [⟨pending, _⟩]) :=
      .intro (.cons (.intro pending hscript) .nil) .nil .sweeping
    exact .same rfl (results_of_machine [] (hacting.push (.cons (.working hworker) .nil)))
  | run waits hscript =>
    obtain ⟨hr, hstack⟩ := h
    refine .same rfl ?_
    simp only [Machine.perform]
    split
    · refine results_of_machine [] (.intro hr (.cons (.working ?_)
        (.cons (.acting (.run waits hscript)) hstack)))
      -- Only the first pause has a script of its own.
      cases waits with
      | zero => exact .intro (.cons (.intro none hscript) .nil) .nil .sweeping
      | succ waits =>
        have hlater : Forall₂ Pause.Recast (List.replicate waits ⟨some 0, []⟩)
            (List.replicate waits ⟨some 0, []⟩) :=
          List.forall₂_same.mpr fun pause hpause => by
            rw [List.eq_of_mem_replicate hpause]
            exact .intro (some 0) .nil
        exact .intro (.cons (.intro (some 0) hscript) hlater) .nil .sweeping
    · exact results_of_machine [] (.intro hr (.cons (.answer fun _ => .same _)
        (.cons (.acting (.run waits hscript)) hstack)))
  | dispatch order atOnce stream =>
    obtain ⟨hr, hstack⟩ := h
    refine .same rfl ?_
    simp only [Machine.perform]
    split
    · exact results_of_machine [] (.intro hr (.cons (.answer fun _ => .same _)
        (.cons (.acting (.dispatch order atOnce stream)) hstack)))
    · split
      · exact results_of_machine [] (.intro hr (.cons (.telling _ _)
          (.cons (.answer fun _ => .same _)
            (.cons (.acting (.dispatch order atOnce stream)) hstack))))
      · exact results_publish (.intro hr (.cons (.acting (.dispatch order atOnce stream)) hstack))
          hidle _ _ _ fun _ _ => .same _
  | arm who times hscript =>
    obtain ⟨hr, hstack⟩ := h
    refine .same rfl (results_of_machine [] (.intro (hr.set who (fun call => ?_) fun _ => rfl)
      (.cons (.answer fun _ => .same _) (.cons (.acting (.arm who times hscript)) hstack))))
    simp only [Reaction.repeating]
    split
    · exact hscript
    · exact .nil

theorem results_work (h : m.Recast m') {w w' : Worker} (hw : w.Recast w') :
    Results (m.work w) (m'.work w') := by
  obtain ⟨hr, hstack⟩ := h
  rename_i n _ _ _ _
  obtain ⟨hpauses, hnotes, hphase⟩ := hw
  cases hphase with
  | sweeping =>
    simp only [Machine.work]
    split
    · exact results_deliver
        (.intro hr (.cons (.working (.intro hpauses hnotes .sweeping)) hstack)) _ _ _
    · exact results_of_machine [] (.intro hr
        (.cons (.working (.intro hpauses hnotes .glancing)) hstack))
  | glancing =>
    simp only [Machine.work]
    split
    · exact results_deliver
        (.intro hr (.cons (.working (.intro hpauses hnotes .rested)) hstack)) _ _ _
    · -- The pause ahead is the first one, or a lasting one.
      have hnoted := List.rel_append hnotes (.cons (.asked n.bus.wait) .nil)
      refine results_of_machine _ (.intro hr (.cons (.working ?_) hstack))
      cases hpauses with
      | nil => exact .intro .nil hnoted (.pausing .nil none)
      | cons hpause hpauses =>
        obtain ⟨pending, hscript⟩ := hpause
        exact .intro hpauses hnoted (.pausing hscript pending)
  | pausing hscript pending =>
    cases hscript with
    | nil =>
      exact results_of_machine [] (.intro hr
        (.cons (.working (.intro hpauses hnotes (.waiting pending))) hstack))
    | cons haction hscript =>
      exact results_of_machine [] (.intro hr (.cons (.act haction)
        (.cons (.working (.intro hpauses hnotes (.pausing hscript pending))) hstack)))
  | waiting pending =>
    simp only [Machine.work]
    split
    · exact results_of_machine [] (.intro hr
        (.cons (.working (.intro hpauses hnotes .rested)) hstack))
    · refine results_of_machine [] (.intro hr (.cons (.answer fun _ => ?_) hstack))
      simp only [Worker.reply]
      split
      · exact .served _ hnotes
      · exact .worked _ hnotes
    · split
      · exact results_deliver
          (.intro hr (.cons (.working (.intro hpauses hnotes .rested)) hstack)) _ _ _
      · exact results_of_machine [] (.intro hr
          (.cons (.working (.intro hpauses hnotes (.waiting _))) hstack))
  | rested =>
    simp only [Machine.work]
    split
    · exact results_of_machine [] (.intro hr
        (.cons (.working (.intro hpauses hnotes .sweeping)) hstack))
    · rename_i hloops
      refine results_of_machine [] (.intro hr (.cons (.answer fun _ => ?_) hstack))
      simp only [Worker.reply, hloops]
      exact .worked _ hnotes

theorem alike_step (h : m.Recast m') (hidle : HooksIdle m.reactions)
    {res : List Happening × Machine} (hstep : m.step = some res) :
    ∃ res', m'.step = some res' ∧ Alike m.intent m'.intent res res' := by
  obtain ⟨hr, hstack⟩ := h
  cases hstack with
  | nil => cases hstep
  | cons htop hrest =>
    rename_i n r r' top top' rest rest'
    have hbelow : Machine.Recast ⟨n, r, rest⟩ ⟨n, r', rest'⟩ := .intro hr hrest
    cases htop with
    | code who hscript =>
      cases hscript with
      | nil =>
        cases hstep
        exact ⟨_, rfl, .same rfl (results_of_machine [] hbelow)⟩
      | cons haction hscript =>
        cases hstep
        exact ⟨_, rfl, .same rfl (results_of_machine []
          (.intro hr (.cons (.act haction) (.cons (.code who hscript) hrest))))⟩
    | act haction =>
      cases hstep
      exact ⟨_, rfl, alike_perform hbelow hidle haction⟩
    | acting haction =>
      cases hstep
      exact ⟨_, rfl, .same rfl (results_of_machine [] hbelow)⟩
    | answer hreply =>
      refine ⟨_, rfl, .same rfl ?_⟩
      cases hrest with
      | nil =>
        cases hstep
        exact results_of_machine [] hbelow
      | cons hnext hrest =>
        cases hnext with
        | acting haction =>
          cases hstep
          exact results_conclude (.intro hr hrest) haction (hreply n)
        | _ =>
          cases hstep
          exact results_of_machine [] hbelow
    | telling news audience =>
      cases audience with
      | nil =>
        cases hstep
        exact ⟨_, rfl, .same rfl (results_of_machine [] hbelow)⟩
      | cons s audience =>
        cases hstep
        exact ⟨_, rfl, .same rfl
          (results_tell (.intro hr (.cons (.telling news audience) hrest)) hidle news s)⟩
    | settling level =>
      cases hstep
      exact ⟨_, rfl, .same rfl (results_of_machine _ (.intro hr hrest))⟩
    | seeking seeker level =>
      cases hstep
      exact ⟨_, rfl, .same rfl (results_seek hbelow seeker level)⟩
    | ticking topic slot period stage =>
      cases hstep
      exact ⟨_, rfl, .same rfl (results_tick hbelow hidle topic slot period stage)⟩
    | working hworker =>
      cases hstep
      exact ⟨_, rfl, .same rfl (results_work hbelow hworker)⟩

end Steps

end Session

end NodeBus
