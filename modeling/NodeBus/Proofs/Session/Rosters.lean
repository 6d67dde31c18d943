import NodeBus.Proofs.Roster.Standing
import NodeBus.Proofs.Session.Steps

/-!
# Rosters along a schedule

Only the operations that join or leave change who listens to a topic (`roster_of_unasked`), and
an operation answers what the roster of its topic answers (`apply_of_call`). So along every
schedule each roster is the map in order of joining that its calls make (`refines_run`),
whoever issues them and whatever else goes on.
-/

namespace NodeBus

/-- A topic of a node. -/
inductive Subject where
  | ticks (topic : Nat)
  | notices
  deriving DecidableEq, Repr

namespace Subject

/-- Who listens to a topic. -/
def roster (s : Subject) (n : Node) : Roster Listener Context :=
  match s with
  | ticks topic => (n.topics.get topic).roster
  | notices => n.noticeTopic.roster

/-- The topic that a delivery belongs to. -/
def ofDelivery : Delivery → Subject
  | .tick topic _ => ticks topic
  | .notice => notices

theorem audience_eq (n : Node) (d : Delivery) :
    n.audience d = ((ofDelivery d).roster n).entries := by
  cases d <;> rfl

theorem roster_of_topics (s : Subject) {n n' : Node} (h : Session.SameTopics n n') :
    s.roster n' = s.roster n := by
  cases s with
  | ticks topic => rw [roster, roster, h.topics]
  | notices => rw [roster, roster, h.noticeTopic]

theorem roster_set (n : Node) (topic : Nat) (t : Topic) (s : Subject) :
    s.roster { n with topics := n.topics.set topic t } =
      if s = ticks topic then t.roster else s.roster n := by
  cases s with
  | notices => rfl
  | ticks topic' =>
    simp only [roster, Bank.get_set, ticks.injEq]
    split <;> rfl

theorem roster_setNotices (n : Node) (t : Topic) (s : Subject) :
    s.roster { n with noticeTopic := t } = if s = notices then t.roster else s.roster n := by
  cases s <;> rfl

theorem roster_quietTopics (names : List String) (topic : Nat) :
    ((Node.quietTopics names).get topic).roster = .empty := by
  refine List.foldlRecOn
    (motive := fun topics : Bank Nat Topic => (topics.get topic).roster = .empty) _ _ rfl ?_
  intro topics h entry _
  rw [Bank.get_set]
  split
  · rfl
  · exact h

end Subject

namespace Session

open Roster (Call)

/-! ## What operations ask -/

/-- What an operation asks of a roster. -/
def Operation.call? : Operation → Option (Subject × Call Listener Context)
  | subscribe topic listener context => some (.ticks topic, .join (.outside listener) context)
  | unsubscribe topic listener => some (.ticks topic, .leave (.outside listener))
  | attachCounter counter topic => some (.ticks topic, .join .counting (.counter counter))
  | detachCounter _ topic => some (.ticks topic, .leave .counting)
  | attachDisplay display topic => some (.ticks topic, .join .timekeeping (.display display))
  | subscribeNotices listener context => some (.notices, .join (.outside listener) context)
  | unsubscribeNotices listener => some (.notices, .leave (.outside listener))
  | _ => none

theorem apply_of_call {o : Operation} {s : Subject} {call : Call Listener Context}
    (h : o.call? = some (s, call)) (n : Node) :
    (o.apply n).1 = .flag (call.apply (s.roster n)).1 ∧
      ∀ s' : Subject, s'.roster (o.apply n).2 =
        if s' = s then (call.apply (s.roster n)).2 else s'.roster n := by
  cases o with
  | subscribe | unsubscribe | attachCounter | detachCounter | attachDisplay =>
    cases h
    exact ⟨rfl, Subject.roster_set n _ _⟩
  | subscribeNotices | unsubscribeNotices =>
    cases h
    exact ⟨rfl, Subject.roster_setNotices n _⟩
  | _ => cases h

theorem roster_apply_of_none {o : Operation} (h : o.call? = none) (n : Node) (s : Subject) :
    s.roster (o.apply n).2 = s.roster n := by
  cases o with
  | subscribe | unsubscribe | attachCounter | detachCounter | attachDisplay | subscribeNotices |
    unsubscribeNotices => cases h
  | register h =>
    simp only [Operation.apply]
    split <;> rfl
  | putNotice key status data now =>
    simp only [Operation.apply]
    split <;> rfl
  | _ => rfl

/-! ## Schedules -/

/-- The operation that a turn begins. -/
def Parties.operation? (p : Parties) : Turn → Option Operation
  | .step party => (p.ongoing[party]?).bind fun stack => (p.machine stack).operation?
  | _ => none

/-- What a turn asks of the roster of a topic, with what is answered. -/
def Parties.answered? (p : Parties) (s : Subject) (turn : Turn) :
    Option (Call Listener Context × Bool) :=
  (p.operation? turn).bind fun o =>
    match o.call?, (o.apply p.node).1 with
    | some (s', call), .flag answer => if s' = s then some (call, answer) else none
    | _, _ => none

/-- What was asked of the roster of a topic along a schedule, the latest first. -/
def Parties.calls (p : Parties) (s : Subject) (past : List (Call Listener Context × Bool)) :
    List Turn → List (Call Listener Context × Bool)
  | [] => past
  | turn :: turns => (p.play turn).2.calls s ((p.answered? s turn).toList ++ past) turns

/-- A turn begins an operation, or leaves all rosters alone. -/
theorem roster_play (p : Parties) (turn : Turn) :
    match p.operation? turn with
    | some o => (p.play turn).2.node = (o.apply p.node).2
    | none => ∀ s : Subject, s.roster (p.play turn).2.node = s.roster p.node := by
  cases turn with
  | enter who script => exact fun _ => rfl
  | step party =>
    simp only [Parties.play, Parties.operation?]
    cases hstack : p.ongoing[party]? with
    | none => exact fun _ => rfl
    | some stack =>
      simp only [Option.map_some, Option.bind_some]
      cases hstep : (p.machine stack).step with
      | none =>
        rw [Machine.operation?, stack_of_step_eq_none hstep]
        exact fun _ => rfl
      | some result =>
        have hdoes := does_step hstep
        cases hoperation : (p.machine stack).operation? with
        | some o =>
          rw [hoperation] at hdoes
          cases hdoes with
          | operation _ node => exact node
        | none =>
          rw [hoperation] at hdoes
          exact fun s => s.roster_of_topics hdoes.same_topics
  | allot party pending looks =>
    simp only [Parties.play, Parties.operation?]
    split <;> exact fun _ => rfl

theorem roster_of_call {p : Parties} {turn : Turn} {o : Operation} {s : Subject}
    {call : Call Listener Context} (ho : p.operation? turn = some o)
    (hcall : o.call? = some (s, call)) :
    (o.apply p.node).1 = .flag (call.apply (s.roster p.node)).1 ∧
      s.roster (p.play turn).2.node = (call.apply (s.roster p.node)).2 := by
  obtain ⟨hanswer, hroster⟩ := apply_of_call hcall p.node
  have hplay := roster_play p turn
  rw [ho] at hplay
  dsimp only at hplay
  exact ⟨hanswer, by rw [hplay, hroster s, if_pos rfl]⟩

section Refines

variable {p : Parties} {s : Subject} {past : List (Call Listener Context × Bool)}

theorem roster_of_unasked {turn : Turn} (h : p.answered? s turn = none) :
    s.roster (p.play turn).2.node = s.roster p.node := by
  have hplay := roster_play p turn
  rw [Parties.answered?] at h
  cases hoperation : p.operation? turn with
  | none =>
    rw [hoperation] at hplay
    exact hplay s
  | some o =>
    rw [hoperation] at hplay h
    dsimp only at hplay
    rw [hplay]
    cases hcall : o.call? with
    | none => exact roster_apply_of_none hcall p.node s
    | some asked =>
      obtain ⟨s', call⟩ := asked
      obtain ⟨hanswer, hroster⟩ := apply_of_call hcall p.node
      -- It asks another roster, since a call is always answered by a flag.
      have hs : ¬ s' = s := by simpa [hcall, hanswer] using h
      rw [hroster s, if_neg (Ne.symm hs)]

theorem roster_of_answered {turn : Turn} {call : Call Listener Context} {answer : Bool}
    (h : p.answered? s turn = some (call, answer)) :
    (call.apply (s.roster p.node)).1 = answer ∧
      s.roster (p.play turn).2.node = (call.apply (s.roster p.node)).2 := by
  obtain ⟨o, ho, h⟩ := Option.bind_eq_some_iff.mp h
  cases hcall : o.call? with
  | none => simp [hcall] at h
  | some asked =>
    obtain ⟨s', call'⟩ := asked
    obtain ⟨hanswer, hroster⟩ := roster_of_call ho hcall
    simp only [hcall, hanswer, Option.ite_none_right_eq_some, Option.some.injEq,
      Prod.mk.injEq] at h
    obtain ⟨rfl, rfl, rfl⟩ := h
    exact ⟨rfl, hroster⟩

theorem refines_play (h : (s.roster p.node).Refines past) (turn : Turn) :
    (s.roster (p.play turn).2.node).Refines ((p.answered? s turn).toList ++ past) := by
  cases hanswered : p.answered? s turn with
  | none =>
    rw [roster_of_unasked hanswered]
    exact h
  | some asked =>
    obtain ⟨call, answer⟩ := asked
    obtain ⟨rfl, hroster⟩ := roster_of_answered hanswered
    rw [hroster]
    exact Roster.refines_apply h call

theorem refines_run (h : (s.roster p.node).Refines past) (turns : List Turn) :
    (s.roster (p.run turns).2.node).Refines (p.calls s past turns) := by
  induction turns generalizing p past with
  | nil => exact h
  | cons turn turns ih => exact ih (refines_play h turn)

end Refines

/-! ## Telling and counting -/

/-- The topic whose listeners an activity is about to tell news at once. -/
def Activity.tells? : Activity → Option Subject
  | .act (.notify topic _) => some (.ticks topic)
  | .act (.dispatch order true _) => order.request.toOption.map fun _ => .notices
  | _ => none

theorem telling_of_tells {p : Parties} {s : Subject} {party : Nat} {a : Activity}
    {rest : List Activity} (hstack : p.ongoing[party]? = some (a :: rest))
    (h : a.tells? = some s) :
    ∃ news below, (p.play (.step party)).2.ongoing[party]? =
      some (.telling news (s.roster p.node).entries :: below) := by
  have hlt := (List.getElem?_eq_some_iff.mp hstack).1
  simp only [Parties.play, hstack, Option.map_some, Option.bind_some]
  simp only [Activity.tells?] at h
  split at h
  · rename_i topic tick
    cases h
    exact ⟨_, _, List.getElem?_set_self hlt⟩
  · rename_i order stream
    cases hrequest : order.request with
    | error cause =>
      rw [hrequest] at h
      cases h
    | ok request =>
      rw [hrequest] at h
      cases h
      simp only [Parties.machine, Machine.step, Machine.perform, hrequest]
      exact ⟨_, _, List.getElem?_set_self hlt⟩
  · cases h

/-- The operation that asks how many listen to a topic. -/
def countOf : Subject → Operation
  | .ticks topic => .listenerCount topic
  | .notices => .noticeListenerCount

end Session

end NodeBus
