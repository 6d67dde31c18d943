import NodeBus.Proofs.Board.Feeding

/-!
# Settling is a course

The passes in which the tasks of a board take their steps are one of its courses
(`settle_is_course`). No step looks at the list of tasks (`step_withTasks`), so the
places that tasks have during a pass do not matter.
-/

namespace NodeBus.Board

/-- The board with another list of tasks. -/
def withTasks (b : Board) (tasks : List Task) : Board := { b with tasks }

/-- A step that is taken with another list of tasks. -/
def Moved.withTasks (m : Moved) (tasks : List Task) : Moved :=
  { m with board := m.board.withTasks tasks }

/-! ## Steps do not look at the tasks -/

theorem node_withTasks (b : Board) (tasks : List Task) : (b.withTasks tasks).node = b.node := rfl

theorem uptime_withTasks (b : Board) (tasks : List Task) :
    (b.withTasks tasks).uptime = b.uptime := rfl

theorem registerAll_withTasks (b : Board) (tasks : List Task) (hs : List Command.Handler) :
    (b.withTasks tasks).registerAll hs =
      ((b.registerAll hs).1, (b.registerAll hs).2.withTasks tasks) := by
  induction hs generalizing b with
  | nil => rfl
  | cons h hs ih =>
    have hregister : (b.withTasks tasks).register h =
        ((b.register h).1, (b.register h).2.withTasks tasks) := by
      unfold register withTasks
      dsimp only
      split <;> rfl
    simp only [registerAll, hregister, ih]

theorem boot_withTasks (b : Board) (tasks : List Task) :
    (b.withTasks tasks).boot = b.boot.withTasks tasks := by
  -- The node after both listeners were attached, before any handler is registered.
  let bus := (({ b.node.bus with alarm := some alarm } : Bus Delivery Alarm).start).2
  let n := (({ b.node with bus }.attachCounter counter timerTopic).2.attachDisplay display
    timerTopic).2
  have hregister := registerAll_withTasks { b with node := n } tasks handlers
  dsimp only [withTasks, n, bus] at hregister
  unfold boot
  dsimp only [attach, Moved.withTasks, withTasks]
  rw [hregister]

theorem publish_withTasks (b : Board) (tasks : List Task) (slot : Nat) (level : Level)
    (origin : Origin) : (b.withTasks tasks).publish slot level origin =
      ((b.publish slot level origin).1, (b.publish slot level origin).2.1,
        (b.publish slot level origin).2.2.withTasks tasks) := by
  unfold publish withTasks
  dsimp only
  rcases b.node.publish (.tick timerTopic slot) level with ⟨outcome, node⟩
  dsimp only
  split
  · rename_i cause _ _
    cases cause <;> rfl
  · rfl

theorem tick_withTasks (b : Board) (tasks : List Task) :
    (b.withTasks tasks).tick = (b.tick.1, b.tick.2.1, b.tick.2.2.withTasks tasks) := by
  unfold tick
  dsimp only [withTasks]
  split
  · exact publish_withTasks
      { b with node := b.node.advance timerSlot b.node.now b.tuning.period } tasks ..
  · rfl

theorem deliver_withTasks (b : Board) (tasks : List Task) (level : Level) (d : Delivery)
    (bus : Bus Delivery Alarm) : (b.withTasks tasks).deliver level d bus =
      ((b.deliver level d bus).1, (b.deliver level d bus).2.withTasks tasks) := by
  rw [deliver_eq, deliver_eq]
  rfl

theorem answer_withTasks (b : Board) (tasks : List Task) (frame : List UInt8) :
    (b.withTasks tasks).answer frame =
      ((b.answer frame).1, (b.answer frame).2.withTasks tasks) := by
  simp only [answer]
  split
  · rfl
  · split
    · rfl
    · unfold serve withTasks tell
      simp only [respond_eq]
      unfold send
      dsimp only
      split <;> rfl

theorem feed_withTasks (b : Board) (tasks : List Task) (receiver : LinkReceiver)
    (byte : UInt8) : (b.withTasks tasks).feed receiver byte =
      ((b.feed receiver byte).1, (b.feed receiver byte).2.1.withTasks tasks,
        (b.feed receiver byte).2.2) := by
  simp only [feed]
  split
  · rw [answer_withTasks]
  · rfl
  · rfl

theorem step_withTasks (b : Board) (tasks : List Task) (t : Task) :
    (b.withTasks tasks).step t = (b.step t).map (·.withTasks tasks) := by
  cases t with
  | boot => exact congrArg some (boot_withTasks b tasks)
  | workerStart =>
    refine congrArg some ?_
    unfold workerStart withTasks
    dsimp only
    split <;> rfl
  | workerSweep =>
    refine congrArg some ?_
    simp only [workerSweep, deliver_withTasks, node_withTasks, uptime_withTasks]
    split <;> rfl
  | workerWait deadline =>
    simp only [step, workerWait, deliver_withTasks, node_withTasks, uptime_withTasks]
    split
    · rfl
    · by_cases hdue : deadline ≤ b.uptime
      · simp only [hdue, if_true]
        rfl
      · simp only [hdue, if_false]
        rfl
  | timerStart => rfl
  | timer due =>
    simp only [step, timer, tick_withTasks]
    dsimp only [withTasks]
    by_cases hdue : due ≤ b.uptime
    · simp only [hdue, if_true]
      rfl
    · simp only [hdue, if_false]
      rfl
  | linkStart => rfl
  | link receiver unread =>
    cases unread with
    | nil =>
      simp only [step, link, withTasks]
      split <;> rfl
    | cons byte unread =>
      simp only [step, link, feed_withTasks]
      rfl
  | monitorStart => rfl
  | monitor due =>
    simp only [step, monitor, withTasks]
    by_cases hdue : due ≤ b.uptime
    · simp only [hdue, if_true]
      rfl
    · simp only [hdue, if_false]
      rfl

/-! ## Passes are courses -/

/-- Steps of tasks lead from one board to another. `seen` are the entries so far, the
latest first. -/
def Leads (seen : List Entry) (b : Board) (seen' : List Entry) (b' : Board) : Prop :=
  ∃ (steps : List Nat) (later : List Entry),
    b.course (steps.map .step) = (later, b') ∧ seen' = later.reverse ++ seen

theorem Leads.refl (seen : List Entry) (b : Board) : Leads seen b seen b := ⟨[], [], rfl, rfl⟩

theorem Leads.cons {seen seen' now : List Entry} {b b' b'' : Board} {i : Nat}
    (hnow : b.follow (.step i) = (now, b')) (h : Leads (now.reverse ++ seen) b' seen' b'') :
    Leads seen b seen' b'' := by
  obtain ⟨steps, later, hcourse, rfl⟩ := h
  refine ⟨i :: steps, now ++ later, ?_, ?_⟩
  · simp only [List.map_cons, course, hnow, hcourse]
  · rw [List.reverse_append, List.append_assoc]

theorem Leads.trans {seen seen' seen'' : List Entry} {b b' b'' : Board}
    (h : Leads seen b seen' b') (h' : Leads seen' b' seen'' b'') : Leads seen b seen'' b'' := by
  obtain ⟨steps, later, hcourse, rfl⟩ := h
  induction steps generalizing seen b later with
  | nil =>
    cases hcourse
    exact h'
  | cons i steps ih =>
    simp only [List.map_cons, course, Prod.mk.injEq] at hcourse
    obtain ⟨rfl, rfl⟩ := hcourse
    refine .cons rfl (ih _ rfl ?_)
    rw [← List.append_assoc, ← List.reverse_append]
    exact h'

/-- A step of the task that stands behind `before`. -/
theorem follow_withTasks {b : Board} {before after : List Task} {t : Task} {m : Moved}
    (hstep : b.step t = some m) :
    (b.withTasks (before ++ t :: after)).follow (.step before.length) =
      (m.seen, m.board.withTasks (before ++ m.task.toList ++ after ++ m.started)) := by
  have hplace : (b.withTasks (before ++ t :: after)).tasks[before.length]? = some t := by
    simp [withTasks]
  have hbind : ((b.withTasks (before ++ t :: after)).tasks[before.length]?).bind
      (b.withTasks (before ++ t :: after)).step = some (m.withTasks (before ++ t :: after)) := by
    rw [hplace, Option.bind_some, step_withTasks, hstep, Option.map_some]
  simp only [follow, hbind]
  simp [withTasks, Moved.withTasks]

theorem advance_leads (seen : List Entry) (started : List Task) (moved : Bool) (b : Board)
    (t : Task) (fuel : Nat) (before after : List Task) :
    Leads seen (b.withTasks (before ++ t :: (after ++ started)))
      (advance seen started moved b t fuel).seen
      ((advance seen started moved b t fuel).board.withTasks
        (before ++ (advance seen started moved b t fuel).left ++
          (after ++ (advance seen started moved b t fuel).started))) := by
  induction fuel generalizing seen started moved b t with
  | zero =>
    rw [advance, List.append_assoc]
    exact .refl _ _
  | succ fuel ih =>
    cases hstep : b.step t with
    | none =>
      simp only [advance, hstep, List.append_assoc]
      exact .refl _ _
    | some m =>
      refine .cons (follow_withTasks hstep) ?_
      cases htask : m.task with
      | none =>
        simp only [advance, hstep, htask, Option.toList_none, List.append_nil, List.append_assoc]
        exact .refl _ _
      | some t' =>
        have hlater := ih (m.seen.reverse ++ seen) (started ++ m.started) true m.board t'
        simp only [advance, hstep, htask, Option.toList_some, List.append_assoc,
          List.cons_append, List.nil_append] at hlater ⊢
        exact hlater

theorem visit_leads (fuel : Nat) (v : Visit) (rest : List Task) :
    Leads v.seen (v.board.withTasks (v.left ++ rest ++ v.started)) (visit fuel v rest).seen
      ((visit fuel v rest).board.withTasks
        ((visit fuel v rest).left ++ (visit fuel v rest).started)) := by
  induction rest generalizing v with
  | nil =>
    rw [List.append_nil]
    exact .refl _ _
  | cons t rest ih =>
    have hnow := advance_leads v.seen v.started v.moved v.board t fuel v.left rest
    have hlater := ih { advance v.seen v.started v.moved v.board t fuel with
      left := v.left ++ (advance v.seen v.started v.moved v.board t fuel).left }
    simp only [List.append_assoc, List.cons_append] at hnow hlater ⊢
    exact hnow.trans hlater

/-! ## Tasks that are started do not start others -/

/-- Only setting up starts tasks, and nothing becomes it. -/
theorem started_of_step {b : Board} {t : Task} {m : Moved} (ht : t ≠ .boot)
    (hstep : b.step t = some m) : m.started = [] ∧ m.task ≠ some .boot := by
  cases hlink : t.isLink with
  | false =>
    have hapart := apart_step hlink hstep
    refine ⟨hapart.started, fun hboot => ?_⟩
    have htask := hapart.task
    rw [hboot] at htask
    cases htask
  | true =>
    cases t with
    | boot => exact absurd rfl ht
    | linkStart =>
      cases hstep
      exact ⟨rfl, fun h => by cases h⟩
    | link receiver unread =>
      cases unread with
      | cons byte unread =>
        obtain rfl := Option.some.inj hstep
        exact ⟨rfl, fun h => by cases h⟩
      | nil =>
        simp only [step, link] at hstep
        split at hstep <;> cases hstep <;> exact ⟨rfl, fun h => by cases h⟩
    | _ => cases hlink

theorem started_of_advance (seen : List Entry) (started : List Task) (moved : Bool) (b : Board)
    {t : Task} (ht : t ≠ .boot) (fuel : Nat) :
    (advance seen started moved b t fuel).started = started := by
  induction fuel generalizing seen started moved b t with
  | zero => rfl
  | succ fuel ih =>
    cases hstep : b.step t with
    | none => simp only [advance, hstep]
    | some m =>
      obtain ⟨hstarted, hnext⟩ := started_of_step ht hstep
      cases htask : m.task with
      | none => simp only [advance, hstep, htask, hstarted, List.append_nil]
      | some t' =>
        have ht' : t' ≠ .boot := fun h => hnext (htask.trans (congrArg some h))
        simp only [advance, hstep, htask, hstarted, List.append_nil]
        exact ih _ _ _ _ ht'

/-- A task that sets up is not among those that have been started. -/
theorem boot_notMem_advance (seen : List Entry) {started : List Task} (moved : Bool)
    (b : Board) (t : Task) (fuel : Nat) (h : .boot ∉ started) :
    .boot ∉ (advance seen started moved b t fuel).started := by
  by_cases ht : t = .boot
  · subst ht
    cases fuel with
    | zero => exact h
    | succ fuel =>
      obtain ⟨htask, hstarted⟩ := boot_tasks b
      have hstep : b.step .boot = some b.boot := rfl
      simp only [advance, hstep, htask, hstarted]
      simpa using h
  · rwa [started_of_advance seen started moved b ht fuel]

theorem boot_notMem_visit (fuel : Nat) {v : Visit} (rest : List Task) (h : .boot ∉ v.started) :
    .boot ∉ (visit fuel v rest).started := by
  induction rest generalizing v with
  | nil => exact h
  | cons t rest ih => exact ih (boot_notMem_advance v.seen v.moved v.board t fuel h)

theorem started_of_visit (fuel : Nat) (v : Visit) {rest : List Task} (h : .boot ∉ rest) :
    (visit fuel v rest).started = v.started := by
  induction rest generalizing v with
  | nil => rfl
  | cons t rest ih =>
    have ht : t ≠ .boot := fun heq => h (heq ▸ List.mem_cons_self)
    rw [visit, ih _ fun hmem => h (List.mem_cons_of_mem t hmem)]
    exact started_of_advance v.seen v.started v.moved v.board ht fuel

/-! ## Settling -/

theorem pass_leads (seen : List Entry) (b : Board) :
    Leads seen b (pass seen b).seen (pass seen b).board := by
  let first := visit b.patience ⟨seen, b, [], [], false⟩ b.tasks
  let second := visit b.patience { first with started := [] } first.started
  have hfirst := visit_leads b.patience ⟨seen, b, [], [], false⟩ b.tasks
  have hsecond := visit_leads b.patience { first with started := [] } first.started
  have hquiet : second.started = [] :=
    started_of_visit b.patience { first with started := [] }
      (boot_notMem_visit b.patience b.tasks List.not_mem_nil)
  rw [List.append_nil] at hfirst hsecond
  change Leads first.seen (first.board.withTasks (first.left ++ first.started)) second.seen
    (second.board.withTasks (second.left ++ second.started)) at hsecond
  -- The second visit starts nothing that the pass would forget.
  rw [hquiet, List.append_nil] at hsecond
  exact hfirst.trans hsecond

theorem settleFrom_leads (seen : List Entry) (b : Board) (fuel : Nat) :
    Leads seen b (b.settleFrom seen fuel).1.reverse (b.settleFrom seen fuel).2 := by
  induction fuel generalizing seen b with
  | zero =>
    rw [settleFrom, List.reverse_reverse]
    exact .refl _ _
  | succ fuel ih =>
    have hpass := pass_leads seen b
    rw [settleFrom]
    split
    · exact hpass.trans (ih _ _)
    · rw [List.reverse_reverse]
      exact hpass

/-- What settling shows, and what it leaves, is that of one of the courses. -/
theorem settle_is_course (b : Board) :
    ∃ steps : List Nat, b.settle = b.course (steps.map .step) := by
  obtain ⟨steps, later, hcourse, hseen⟩ := b.settleFrom_leads [] b.patience
  refine ⟨steps, ?_⟩
  rw [List.append_nil, List.reverse_inj] at hseen
  rw [hcourse, settle, ← hseen]

theorem course_append (b : Board) (impulses later : List Impulse) :
    b.course (impulses ++ later) =
      ((b.course impulses).1 ++ ((b.course impulses).2.course later).1,
        ((b.course impulses).2.course later).2) := by
  induction impulses generalizing b with
  | nil => rfl
  | cons impulse impulses ih => simp only [List.cons_append, course, ih, List.append_assoc]

theorem course_arrive (b : Board) (arrivals : List Arrival) :
    b.course (arrivals.map .arrive) = ([], { b with inbox := b.inbox ++ arrivals }) := by
  induction arrivals generalizing b with
  | nil =>
    rw [List.append_nil]
    rfl
  | cons arrival arrivals ih =>
    simp only [List.map_cons, course, follow, ih, List.append_assoc, List.nil_append,
      List.singleton_append]

/-- So is what is shown when something arrives. -/
theorem receive_is_course (b : Board) (arrivals : List Arrival) :
    ∃ steps : List Nat,
      b.receive arrivals = b.course (arrivals.map .arrive ++ steps.map .step) := by
  obtain ⟨steps, hsettle⟩ := settle_is_course { b with inbox := b.inbox ++ arrivals }
  refine ⟨steps, ?_⟩
  rw [course_append, course_arrive, receive, hsettle]
  rfl

/-- So is what is shown while time passes. -/
theorem wait_is_course (b : Board) (microseconds times : Nat) :
    ∃ impulses : List Impulse,
      b.wait microseconds times = b.course impulses ∧ impulses.flatMap Impulse.content = [] := by
  induction times generalizing b with
  | zero => exact ⟨[], rfl, rfl⟩
  | succ times ih =>
    obtain ⟨steps, hsettle⟩ := settle_is_course (b.elapse microseconds)
    obtain ⟨impulses, hwait, hcontent⟩ := ih (b.elapse microseconds).settle.2
    refine ⟨.elapse microseconds :: (steps.map .step ++ impulses), ?_, ?_⟩
    · simp only [wait, course, follow, course_append, hwait, ← hsettle, List.nil_append]
    · rw [List.flatMap_cons, List.flatMap_append, hcontent, List.append_nil]
      exact List.flatMap_eq_nil_iff.mpr fun impulse hmem => by
        obtain ⟨i, _, rfl⟩ := List.mem_map.mp hmem
        rfl

end NodeBus.Board
