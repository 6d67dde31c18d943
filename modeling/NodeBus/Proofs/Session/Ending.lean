import NodeBus.Proofs.Session.Backpressure
import NodeBus.Proofs.Session.Courses

/-!
# Where courses end

Callers may announce something when they are called: publish it over the bus, or tell listeners at
once. What is announced is told to callers. So a course need not end. It does exactly if the
announcements in it are bounded in number (`ends_iff`): a step that announces nothing takes a
delivery, or tells a listener, or brings what goes on closer to its end (`wanes_step`).
-/

namespace NodeBus.Session

/-! ## What is announced -/

/-- Whether an action tells listeners at once, without the bus: a notification, or a command that is
executed at once. -/
def Action.tellsAtOnce : Action → Bool
  | .notify .. => true
  | .dispatch order atOnce _ => atOnce && order.request.isOk
  | _ => false

def Activity.tellsAtOnce : Activity → Bool
  | .act action => action.tellsAtOnce
  | _ => false

namespace Machine

/-- Whether a machine publishes over the bus next, or tells listeners at once. -/
def announces (m : Machine) : Bool :=
  m.intent.publication?.isSome || m.stack.head?.any Activity.tellsAtOnce

/-- How often a machine announces something in its next steps: publications, whether they are
accepted or not, notifications, and commands that are executed at once. -/
def announcements (m : Machine) : Nat → Nat
  | 0 => 0
  | k + 1 =>
    match m.step with
    | none => 0
    | some (_, m') => m.announces.toNat + m'.announcements k

/-- The number of deliveries that are queued. -/
def backlog (m : Machine) : Nat := m.node.bus.queued .high + m.node.bus.queued .normal

end Machine

section Backlog

variable {m m' : Machine} {now : List Happening}

theorem backlog_of_step (h : m.step = some (now, m')) :
    m'.backlog + (takenAt .high now).length + (takenAt .normal now).length =
      m.backlog + (acceptedAt .high now).length + (acceptedAt .normal now).length := by
  obtain ⟨_, _, _, _, _, _, hmove⟩ := moves_step h
  have hconserved := conserved_of_traffic (traffic_of_move hmove)
  have hhigh := congrArg List.length (hconserved .high)
  have hnormal := congrArg List.length (hconserved .normal)
  simp only [List.length_append] at hhigh hnormal
  simp only [Machine.backlog, Bus.queued]
  omega

/-- One small thing takes in one delivery at most. -/
theorem accepted_of_traffic {b b' : Bus Delivery Alarm} (h : Traffic b now b') :
    (acceptedAt .high now).length + (acceptedAt .normal now).length ≤ 1 := by
  cases h with
  | quiet silent | reset silent => simp [acceptedAt_of_silent silent]
  | @offer l _ refusal _ _ _ silent =>
    simp only [acceptedAt_offered, acceptedAt_of_silent silent]
    cases l <;> cases refusal <;> simp
  | take | settle => simp

theorem backlog_le_of_step (h : m.step = some (now, m')) : m'.backlog ≤ m.backlog + 1 := by
  have hbacklog := backlog_of_step h
  obtain ⟨_, _, _, _, _, _, hmove⟩ := moves_step h
  have haccepted := accepted_of_traffic (traffic_of_move hmove)
  omega

theorem unaccepted_of_step (h : m.step = some (now, m')) (hquiet : m.announces = false)
    (l : Level) : acceptedAt l now = [] := by
  have hnone : m.intent.publication? = none := by
    simpa using (Bool.or_eq_false_iff.mp hquiet).1
  have hrecorded := recorded_of_deed (deed_step h)
  rw [hnone] at hrecorded
  refine List.filterMap_eq_nil_iff.mpr fun a ha => ?_
  have hother := hrecorded a ha
  cases a with
  | offered => cases hother
  | _ => rfl

/-- A step that announces nothing leaves the backlog, less what it takes. -/
theorem backlog_of_quiet (h : m.step = some (now, m')) (hquiet : m.announces = false) :
    m'.backlog + (takenAt .high now).length + (takenAt .normal now).length = m.backlog := by
  have hbacklog := backlog_of_step h
  rw [unaccepted_of_step h hquiet, unaccepted_of_step h hquiet] at hbacklog
  exact hbacklog

end Backlog

/-! ## What is left to do -/

@[simp] def sumOf {α : Type} (f : α → Nat) : List α → Nat
  | [] => 0
  | a :: l => f a + sumOf f l

theorem sumOf_append {α : Type} (f : α → Nat) (l l' : List α) :
    sumOf f (l ++ l') = sumOf f l + sumOf f l' := by
  induction l with
  | nil => exact (Nat.zero_add _).symm
  | cons a l ih => rw [List.cons_append, sumOf, sumOf, ih, Nat.add_assoc]

theorem sumOf_replicate {α : Type} (f : α → Nat) (k : Nat) (a : α) :
    sumOf f (List.replicate k a) = k * f a := by
  induction k with
  | zero => exact (Nat.zero_mul _).symm
  | succ k ih => rw [List.replicate_succ, sumOf, ih, Nat.succ_mul, Nat.add_comm]

mutual
/-- What is left to do in an action that announces nothing. -/
@[simp] def Action.weight : Action → Nat
  | .setClock _ action => action.weight + 1
  | .step _ busy => load busy + Worker.patience + 16
  | .run waits busy => load busy + 5 * waits + Worker.patience + 16
  | _ => 5

@[simp] def load : List Action → Nat
  | [] => 0
  | action :: script => action.weight + 1 + load script
end

/-- What is left to do in a phase of the worker, until a delivery is made. A pause that is over by
itself leads to another round, a lasting one does not. -/
@[simp] def Phase.weight : Phase → Nat
  | .waiting none => 2
  | .pausing busy none => load busy + 3
  | .glancing => 5
  | .sweeping => 6
  | .rested => 7
  | .waiting (some _) => 8
  | .pausing busy (some _) => load busy + 9

@[simp] def TickStage.weight : TickStage → Nat
  | .advancing _ => 3
  | .checking => 2
  | .publishing => 1

@[simp] def Worker.weight (w : Worker) : Nat :=
  sumOf (fun pause => load pause.busy + 5) w.pauses + w.looks + w.phase.weight

/-- What is left to do in an activity, if nothing is delivered and nobody is told. -/
@[simp] def Activity.weight : Activity → Nat
  | .code _ todo => load todo + 1
  | .act action => action.weight
  | .seeking _ .high => 3
  | .seeking _ .normal => 2
  | .ticking _ _ _ stage => stage.weight
  | .working w => w.weight
  | _ => 1

/-- How many listeners are left to be told. -/
@[simp] def Activity.untold : Activity → Nat
  | .telling _ audience => audience.length
  | _ => 0

def weight (stack : List Activity) : Nat := sumOf Activity.weight stack

def untold (stack : List Activity) : Nat := sumOf Activity.untold stack

section Weights

@[simp] theorem weight_nil : weight [] = 0 := rfl

@[simp] theorem weight_cons (a : Activity) (stack : List Activity) :
    weight (a :: stack) = a.weight + weight stack := rfl

@[simp] theorem untold_nil : untold [] = 0 := rfl

@[simp] theorem untold_cons (a : Activity) (stack : List Activity) :
    untold (a :: stack) = a.untold + untold stack := rfl

theorem Phase.one_lt_weight (phase : Phase) : 1 < phase.weight := by
  cases phase with
  | pausing busy pending => cases pending <;> simp only [Phase.weight] <;> omega
  | waiting pending => cases pending <;> simp only [Phase.weight] <;> omega
  | sweeping | glancing | rested => simp only [Phase.weight]; omega

/-- A worker that is given up weighs more than its answer. -/
theorem Worker.one_lt_weight (w : Worker) : 1 < w.weight :=
  Nat.lt_of_lt_of_le w.phase.one_lt_weight (Nat.le_add_left ..)

end Weights

/-- What is noted where an action ends weighs nothing. -/
theorem weight_conclude (m : Machine) (action : Action) (reply : Reply) :
    weight (m.conclude action reply).2.stack = weight m.stack ∧
      untold (m.conclude action reply).2.stack = untold m.stack := by
  rw [Machine.conclude]
  split
  · rename_i hstack
    rw [hstack]
    exact ⟨rfl, rfl⟩
  · rename_i hstack
    rw [hstack]
    exact ⟨rfl, rfl⟩
  · exact ⟨rfl, rfl⟩

/-- What a step comes to that announces nothing. -/
inductive Wanes (stack : List Activity) (result : List Happening × Machine) : Prop where
  | takes {l : Level} {d : Delivery} (taken : .taken l d ∈ result.1)
  | tells (fewer : untold result.2.stack < untold stack)
  | works (same : untold result.2.stack = untold stack)
      (less : weight result.2.stack < weight stack)

section Wanes

/-- What goes on above changes, and nothing is taken or told. -/
theorem wanes_of_less {top : Activity} {rest : List Activity} {node : Node}
    {reactions : Reactions} {now : List Happening} (above : List Activity)
    (hsame : untold above = top.untold) (hless : weight above < top.weight) :
    Wanes (top :: rest) (now, ⟨node, reactions, above ++ rest⟩) := by
  have huntold : untold (above ++ rest) = untold above + untold rest := sumOf_append ..
  have hweight : weight (above ++ rest) = weight above + weight rest := sumOf_append ..
  refine .works ?_ ?_
  · rw [huntold, hsame, untold_cons]
  · rw [hweight, weight_cons]
    exact Nat.add_lt_add_right hless _

theorem wanes_perform {m : Machine} {action : Action}
    (hquiet : Machine.announces { m with stack := .act action :: m.stack } = false) :
    Wanes (.act action :: m.stack) (m.perform action) := by
  -- Actions that announce something are no case of this.
  obtain ⟨hbus, honce⟩ := Bool.or_eq_false_iff.mp hquiet
  cases action with
  | op o =>
    obtain ⟨hweight, huntold⟩ :=
      weight_conclude { m with node := (o.apply m.node).2 } (.op o) (o.apply m.node).1
    refine .works ?_ ?_
    · simp only [Machine.perform, huntold]
      simp
    · simp only [Machine.perform, hweight]
      simp
  | setClock now action => exact wanes_of_less [.act action] rfl (by simp)
  | notify => cases honce
  | publish | publishNotice => cases hbus
  | tick topic slot period => exact wanes_of_less [.ticking .., .acting _] rfl (by simp)
  | poll => exact wanes_of_less [.seeking .poll .high, .acting .poll] rfl (by simp)
  | drain => exact wanes_of_less [.seeking (.drain 0) .high, .acting .drain] rfl (by simp)
  | step pending busy =>
    refine wanes_of_less [.working _, .acting _] rfl ?_
    simp [Worker.begin]
    omega
  | run waits busy =>
    simp only [Machine.perform]
    split
    · refine wanes_of_less [.working _, .acting _] rfl ?_
      cases waits with
      | zero => simp [Worker.begin]; omega
      | succ waits => simp [Worker.begin, sumOf_replicate]; omega
    · exact wanes_of_less [.answer _, .acting _] rfl (by simp [Worker.patience])
  | dispatch order atOnce stream =>
    simp only [Machine.perform]
    split
    · exact wanes_of_less [.answer _, .acting _] rfl (by simp)
    · rename_i request hrequest
      cases atOnce with
      | true =>
        simp [Activity.tellsAtOnce, Action.tellsAtOnce, hrequest, Except.isOk,
          Except.toBool] at honce
      | false =>
        simp [Machine.intent, Activity.intent, Action.intent, Intent.publication?, hrequest] at hbus
  | arm who times script =>
    exact wanes_of_less [.answer _, .acting _] rfl (by simp)

theorem wanes_deliver (m : Machine) (stack : List Activity) (l : Level) (d : Delivery)
    (bus : Bus Delivery Alarm) : Wanes stack (m.deliver l d bus) :=
  .takes (List.mem_singleton_self (Happening.taken l d))

theorem wanes_seek (m : Machine) (seeker : Seeker) (l : Level) :
    Wanes (.seeking seeker l :: m.stack) (m.seek seeker l) := by
  simp only [Machine.seek]
  split
  · exact wanes_deliver ..
  · cases l with
    | high => exact wanes_of_less [.seeking seeker .normal] rfl (by simp)
    | normal => exact wanes_of_less [.answer _] rfl (by simp)

theorem wanes_tick {m : Machine} {topic slot : Nat} {period : UInt16} {stage : TickStage}
    (hquiet : Machine.announces
      { m with stack := .ticking topic slot period stage :: m.stack } = false) :
    Wanes (.ticking topic slot period stage :: m.stack) (m.tick topic slot period stage) := by
  cases stage with
  | advancing now => exact wanes_of_less [.ticking ..] rfl (by simp)
  | checking =>
    simp only [Machine.tick]
    split
    · exact wanes_of_less [.ticking ..] rfl (by simp)
    · exact wanes_of_less [.answer _] rfl (by simp)
  | publishing => cases hquiet

theorem wanes_work (m : Machine) (w : Worker) : Wanes (.working w :: m.stack) (m.work w) := by
  obtain ⟨loops, pauses, looks, delivered, notes, phase⟩ := w
  cases phase with
  | sweeping =>
    simp only [Machine.work]
    split
    · exact wanes_deliver ..
    · exact wanes_of_less [.working _] rfl (by simp)
  | glancing =>
    simp only [Machine.work]
    split
    · exact wanes_deliver ..
    · refine wanes_of_less [.working _] rfl ?_
      cases pauses with
      | nil => simp [Worker.note, Pause.lasting]
      | cons pause pauses =>
        obtain ⟨pending, busy⟩ := pause
        cases pending <;> simp [Worker.note] <;> omega
  | pausing busy pending =>
    cases busy with
    | nil =>
      refine wanes_of_less [.working _] rfl ?_
      cases pending <;> simp
    | cons action busy =>
      refine wanes_of_less [.act action, .working _] rfl ?_
      cases pending <;> simp <;> omega
  | waiting pending =>
    simp only [Machine.work]
    split
    · exact wanes_of_less [.working _] rfl (by simp)
    · exact wanes_of_less [.answer _] rfl (Worker.one_lt_weight _)
    · split
      · exact wanes_deliver ..
      · refine wanes_of_less [.working _] rfl ?_
        cases pending <;> simp
  | rested =>
    simp only [Machine.work]
    split
    · exact wanes_of_less [.working _] rfl (by simp)
    · exact wanes_of_less [.answer _] rfl (Worker.one_lt_weight _)

theorem wanes_step {m m' : Machine} {now : List Happening} (h : m.step = some (now, m'))
    (hquiet : m.announces = false) : Wanes m.stack (now, m') := by
  obtain ⟨n, r, stack⟩ := m
  cases stack with
  | nil => cases h
  | cons top rest =>
    simp only [Machine.step, Option.some.injEq] at h
    rw [← h]
    cases top with
    | code who todo =>
      cases todo with
      | nil => exact wanes_of_less [] rfl (by simp)
      | cons action todo =>
        exact wanes_of_less [.act action, .code who todo] rfl (by simp; omega)
    | act action => exact wanes_perform (m := ⟨n, r, rest⟩) hquiet
    | acting | settling =>
      dsimp only
      exact .works (by simp) (by simp)
    | answer reply =>
      dsimp only
      split
      · rename_i action rest
        obtain ⟨hweight, huntold⟩ := weight_conclude ⟨n, r, rest⟩ action (reply n)
        refine .works (by simp [huntold]) ?_
        simp [hweight]
        omega
      · exact wanes_of_less [] rfl (by simp)
    | telling news audience =>
      cases audience with
      | nil => exact wanes_of_less [] rfl (by simp)
      | cons s audience =>
        -- One listener less is left, whatever this one does when it is called.
        refine .tells ?_
        simp only [Machine.tell, Machine.push, Machine.call]
        split <;> simp
    | seeking seeker l => exact wanes_seek ⟨n, r, rest⟩ seeker l
    | ticking topic slot period stage => exact wanes_tick (m := ⟨n, r, rest⟩) hquiet
    | working w => exact wanes_work ⟨n, r, rest⟩ w

end Wanes

/-! ## Courses that end -/

section Ends

variable {m m' : Machine} {now past : List Happening}

theorem announcements_of_step (h : m.step = some (now, m')) (k : Nat) :
    m.announcements (k + 1) = m.announces.toNat + m'.announcements k := by
  simp only [Machine.announcements, h]

theorem bounded_of_reaches {n : Node} {r : Reactions} (h : m.Reaches past ⟨n, r, []⟩) :
    ∃ bound, ∀ k, m.announcements k ≤ bound := by
  generalize hend : (⟨n, r, []⟩ : Machine) = m' at h
  induction h with
  | refl m =>
    subst hend
    refine ⟨0, fun k => ?_⟩
    cases k <;> exact Nat.le_refl 0
  | @step m m₁ m' now past first later ih =>
    obtain ⟨bound, hbound⟩ := ih hend
    refine ⟨bound + 1, fun k => ?_⟩
    cases k with
    | zero => exact Nat.zero_le _
    | succ k =>
      have hlater := hbound k
      have hnow := m.announces.toNat_le
      rw [announcements_of_step first]
      omega

/-- What is left of a course in which so much may still be announced. An announcement takes two of
the bound, of which one stands for the delivery that it may queue. -/
def Machine.left (m : Machine) (bound : Nat) : Nat × Nat × Nat :=
  (2 * bound + m.backlog, untold m.stack, weight m.stack)

/-- The order in which less is left after each step: the first number counts most. -/
abbrev LexLess : Nat × Nat × Nat → Nat × Nat × Nat → Prop :=
  Prod.Lex (· < ·) (Prod.Lex (· < ·) (· < ·))

theorem lexLess_of_le {a a' : Nat} {x x' : Nat × Nat} (h : a' ≤ a)
    (hx : Prod.Lex (· < ·) (· < ·) x' x) : LexLess (a', x') (a, x) := by
  rcases Nat.lt_or_eq_of_le h with hless | rfl
  · exact .left _ _ hless
  · exact .right _ hx

theorem left_of_quiet (bound : Nat) (h : m.step = some (now, m')) (hquiet : m.announces = false) :
    LexLess (m'.left bound) (m.left bound) := by
  have hbacklog := backlog_of_quiet h hquiet
  have hle : 2 * bound + m'.backlog ≤ 2 * bound + m.backlog := by omega
  cases wanes_step h hquiet with
  | @takes l d taken =>
    have htaken : 0 < (takenAt l now).length :=
      List.length_pos_of_mem (List.mem_filterMap.mpr ⟨_, taken, if_pos rfl⟩)
    refine .left _ _ ?_
    cases l <;> omega
  | tells fewer => exact lexLess_of_le hle (.left _ _ fewer)
  | works same less =>
    refine lexLess_of_le hle ?_
    dsimp only at same less
    rw [same]
    exact .right _ less

/-- Whatever is announced, less is left after a step. -/
theorem left_of_step {bound : Nat} (h : m.step = some (now, m'))
    (hbound : ∀ k, m.announcements k ≤ bound) :
    ∃ bound', (∀ k, m'.announcements k ≤ bound') ∧ LexLess (m'.left bound') (m.left bound) := by
  have hlater (k : Nat) : m.announces.toNat + m'.announcements k ≤ bound := by
    rw [← announcements_of_step h]
    exact hbound (k + 1)
  cases hannounces : m.announces with
  | false =>
    simp only [hannounces, Bool.toNat_false, Nat.zero_add] at hlater
    exact ⟨bound, hlater, left_of_quiet bound h hannounces⟩
  | true =>
    simp only [hannounces, Bool.toNat_true] at hlater
    -- The delivery that may have been queued costs one of the two that the announcement leaves.
    have hbacklog := backlog_le_of_step h
    have hone := hlater 0
    exact ⟨bound - 1, fun k => Nat.le_sub_of_add_le' (hlater k), .left _ _ (by omega)⟩

theorem ends_of_bounded (m : Machine) (bound : Nat) (h : ∀ k, m.announcements k ≤ bound) :
    ∃ past n r, m.Reaches past ⟨n, r, []⟩ := by
  cases hstep : m.step with
  | none =>
    obtain ⟨n, r, stack⟩ := m
    obtain rfl : stack = [] := stack_of_step_eq_none hstep
    exact ⟨[], n, r, .refl _⟩
  | some result =>
    obtain ⟨now, m'⟩ := result
    obtain ⟨bound', hbound', hless⟩ := left_of_step hstep h
    obtain ⟨past, n, r, hends⟩ := ends_of_bounded m' bound' hbound'
    exact ⟨_, n, r, .step hstep hends⟩
  termination_by m.left bound
  decreasing_by exact hless

theorem ends_iff {m : Machine} :
    (∃ past n r, m.Reaches past ⟨n, r, []⟩) ↔ ∃ bound, ∀ k, m.announcements k ≤ bound :=
  ⟨fun ⟨_, _, _, hends⟩ => bounded_of_reaches hends, fun ⟨bound, h⟩ => ends_of_bounded m bound h⟩

end Ends

end NodeBus.Session
