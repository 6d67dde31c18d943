import NodeBus.Proofs.Session.Backpressure

/-!
# High-water marks

When the calls of a delivery are over it is counted, and what is queued at its level at that
moment is its backlog. Nothing else is recorded as counted (`settledAt_play`), and nothing else
touches what a level has counted of deliveries, except a reset. So the mark of a level is the
greatest backlog since the last reset (`marks_run`), whatever was counted by calls of the delivery
in the meantime. A mark is a byte, but a backlog is never more than the level has room for.
-/

namespace NodeBus.Session

/-! ## Counting -/

/-- The level of a delivery that is counted next. -/
def counting? : List Activity → Option Level
  | .settling l :: _ => some l
  | _ => none

/-- The level of a delivery whose calls have all returned, with nobody left to tell. -/
def returned? : List Activity → Option Level
  | .telling _ [] :: .settling l :: _ => some l
  | _ => none

/-- The level at which a turn counts a delivery. -/
def Parties.counting? (p : Parties) : Turn → Option Level
  | .step party => p.ongoing[party]?.bind Session.counting?
  | _ => none

section Counting

variable (l : Level)

theorem settledAt_publish (m : Machine) (d : Delivery) (l' : Level) (origin : Origin)
    (reply : Bool → Node → Reply) : settledAt l (m.publish d l' origin reply).1 = [] := by
  rw [Machine.publish]
  rcases publish_cases m.node d l' with hunheard | ⟨bus, _, hqueued⟩ | ⟨cause, bus, _, hrefused⟩
  · rw [hunheard]
    rfl
  · rw [hqueued]
    rfl
  · rw [hrefused]
    dsimp only
    split <;> rfl

theorem settledAt_perform (m : Machine) (action : Action) :
    settledAt l (m.perform action).1 = [] := by
  cases action with
  | op o => exact settledAt_of_silent l (conclude_silent _ _ _)
  | publish topic slot level origin => exact settledAt_publish ..
  | publishNotice level origin => exact settledAt_publish ..
  | run waits busy =>
    simp only [Machine.perform]
    split <;> rfl
  | dispatch order atOnce stream =>
    simp only [Machine.perform]
    split
    · rfl
    · split
      · rfl
      · exact settledAt_publish ..
  | setClock | notify | tick | poll | drain | step | arm => rfl

theorem settledAt_seek (m : Machine) (seeker : Seeker) (level : Level) :
    settledAt l (m.seek seeker level).1 = [] := by
  rw [Machine.seek]
  split <;> rfl

theorem settledAt_tick (m : Machine) (topic slot : Nat) (period : UInt16) (stage : TickStage) :
    settledAt l (m.tick topic slot period stage).1 = [] := by
  cases stage with
  | advancing now => rfl
  | checking =>
    simp only [Machine.tick]
    split <;> rfl
  | publishing => exact settledAt_publish ..

theorem settledAt_work (m : Machine) (w : Worker) : settledAt l (m.work w).1 = [] := by
  rw [Machine.work]
  dsimp only
  split
  · split <;> rfl
  · split <;> rfl
  · rfl
  · rfl
  · split
    · rfl
    · rfl
    · split <;> rfl
  · split <;> rfl

theorem settledAt_step {m : Machine} {result : List Happening × Machine}
    (h : m.step = some result) :
    settledAt l result.1 = if counting? m.stack = some l then [m.node.bus.queued l] else [] := by
  rw [Machine.step] at h
  split at h
  · cases h
  · rename_i top rest hstack
    cases h
    rw [hstack]
    -- One case for each kind of activity, of which `settling` alone counts.
    cases top with
    | code who todo => cases todo <;> rfl
    | act action => exact settledAt_perform l { m with stack := rest } action
    | acting action => rfl
    | answer reply =>
      dsimp only
      split
      · exact settledAt_of_silent l (conclude_silent _ _ _)
      · rfl
    | telling news audience =>
      cases audience with
      | nil => rfl
      | cons s audience => exact settledAt_of_silent l (silent_singleton rfl)
    | settling l' =>
      have hqueued : (m.node.bus.settle l').queued l' = m.node.bus.queued l' :=
        congrArg List.length (Bus.queue_settle ..)
      simp only [counting?, Option.some.injEq, settledAt_settled, hqueued]
      by_cases hl : l' = l
      · rw [if_pos hl, if_pos hl, hl]
      · rw [if_neg hl, if_neg hl]
    | seeking seeker level => exact settledAt_seek l { m with stack := rest } seeker level
    | ticking topic slot period stage =>
      exact settledAt_tick l { m with stack := rest } topic slot period stage
    | working w => exact settledAt_work l { m with stack := rest } w

/-- A turn counts a delivery of a level with what is queued there at that moment, or none. -/
theorem settledAt_play (p : Parties) (turn : Turn) :
    settledAt l (p.play turn).1 =
      if p.counting? turn = some l then [p.node.bus.queued l] else [] := by
  cases turn with
  | enter who script => rfl
  | step party =>
    cases hstack : p.ongoing[party]? with
    | none => simp [Parties.play, Parties.counting?, hstack, settledAt]
    | some stack =>
      cases hstep : (p.machine stack).step with
      | none =>
        have hnil : stack = [] := stack_of_step_eq_none hstep
        simp [Parties.play, Parties.counting?, Parties.machine, hstack, hnil, Machine.step,
          counting?, settledAt]
      | some result =>
        rw [play_of_step hstack hstep, settledAt_step l hstep]
        simp only [Parties.counting?, hstack, Option.bind_some]
        rfl
  | allot party pending looks =>
    simp only [Parties.play]
    split <;> rfl

end Counting

/-! ## Marks -/

/-- A level has counted deliveries that left these backlogs. -/
structure Marks (b : Bus Delivery Alarm) (l : Level) (backlogs : List Nat) : Prop where
  dispatched : (b.counters l).dispatched = .ofNat backlogs.length
  highWater : (b.counters l).highWater.toNat = backlogs.max?.getD 0
  room : ∀ n ∈ backlogs, n ≤ l.capacity

theorem max?_concat (backlogs : List Nat) (n : Nat) :
    (backlogs ++ [n]).max?.getD 0 = max (backlogs.max?.getD 0) n := by
  have hfold (ns : List Nat) : ns.max?.getD 0 = ns.foldl max 0 := by
    rw [List.foldl_max, Nat.zero_max]
  rw [hfold, hfold, List.foldl_append]
  rfl

theorem max?_le_append (backlogs later : List Nat) :
    backlogs.max?.getD 0 ≤ (backlogs ++ later).max?.getD 0 := by
  induction later generalizing backlogs with
  | nil => exact Nat.le_of_eq (by rw [List.append_nil])
  | cons n later ih =>
    have hnow := ih (backlogs ++ [n])
    rw [max?_concat, List.append_assoc, List.singleton_append] at hnow
    exact Nat.le_trans (Nat.le_max_left _ _) hnow

section Marks

variable {b b' : Bus Delivery Alarm} {l : Level} {backlogs : List Nat}

theorem Marks.of_zero (h : b.counters l = .zero) : Marks b l [] := by
  constructor
  · rw [h]
    rfl
  · rw [h]
    rfl
  · exact fun n hn => absurd hn List.not_mem_nil

theorem Marks.of_counts (h : Marks b l backlogs)
    (hcounts : deliveryCounts b' l = deliveryCounts b l) : Marks b' l backlogs := by
  obtain ⟨hdispatched, hhighWater⟩ := Prod.mk.inj hcounts
  exact ⟨hdispatched.trans h.dispatched, hhighWater ▸ h.highWater, h.room⟩

theorem Marks.settle (h : Marks b l backlogs) (hroom : b.queued l ≤ l.capacity) :
    Marks (b.settle l) l (backlogs ++ [b.queued l]) := by
  have hcounters : (b.settle l).counters l = (b.counters l).countDelivery (b.queued l) := by
    rw [Bus.settle, Bus.counters_count, if_pos rfl]
  -- The backlog fits in a byte.
  have hclamp : (Bus.clampByte (b.queued l)).toNat = b.queued l := by
    have hcapacity : l.capacity ≤ 8 := by cases l <;> decide
    rw [Bus.clampByte, UInt8.toNat_ofNat']
    omega
  constructor
  · rw [hcounters, List.length_append, UInt32.ofNat_add, ← h.dispatched]
    rfl
  · rw [hcounters, max?_concat, ← h.highWater, Bus.Counters.countDelivery]
    dsimp only
    split
    · rename_i hlt
      rw [UInt8.lt_iff_toNat_lt, hclamp] at hlt
      rw [hclamp, Nat.max_eq_right (Nat.le_of_lt hlt)]
    · rename_i hle
      rw [UInt8.lt_iff_toNat_lt, hclamp] at hle
      rw [Nat.max_eq_left (Nat.le_of_not_lt hle)]
  · intro n hn
    rcases List.mem_append.mp hn with hn | hn
    · exact h.room n hn
    · rw [List.mem_singleton.mp hn]
      exact hroom

theorem Marks.highWater_le (h : Marks b l backlogs) :
    (b.counters l).highWater.toNat ≤ l.capacity := by
  rw [h.highWater]
  cases hmax : backlogs.max? with
  | none => exact Nat.zero_le _
  | some n => exact h.room n (List.max?_mem hmax)

/-- Of all moves only one is recorded as counted. -/
theorem settle_of_move {r : Role} {old new : List Engagement} {now : List Happening}
    (h : Move b r old now b' new) (hsettled : settledAt l now ≠ []) : b' = b.settle l := by
  cases h with
  | settle l' =>
    rw [settledAt_settled] at hsettled
    by_cases hl : l' = l
    · rw [hl]
    · exact absurd (if_neg hl) hsettled
  | aside _ silent _ => exact absurd (settledAt_of_silent l silent) hsettled
  | reset silent => exact absurd (settledAt_of_silent l silent) hsettled
  | offer _ silent => exact absurd (settledAt_of_silent l silent) hsettled
  | shift silent _ => exact absurd (settledAt_of_silent l silent) hsettled
  | take _ _ => exact absurd rfl hsettled

end Marks

/-! ## Schedules -/

/-- The backlogs at a level since the last reset, after one more turn. -/
def Parties.backlogsAfter (p : Parties) (l : Level) (seen : List Nat) (turn : Turn) : List Nat :=
  if p.role turn = .resetting then []
  else if p.counting? turn = some l then seen ++ [p.node.bus.queued l]
  else seen

/-- The backlogs at a level since the last reset along a schedule: what was queued there each time
that a delivery of that level was counted, in order. Those before the schedule are `seen`. -/
def Parties.backlogs (p : Parties) (l : Level) (seen : List Nat) : List Turn → List Nat
  | [] => seen
  | turn :: turns => (p.play turn).2.backlogs l (p.backlogsAfter l seen turn) turns

theorem backlogs_of_unreset {p : Parties} {turns : List Turn} (l : Level) (seen : List Nat)
    (h : p.Unreset turns) : ∃ later, p.backlogs l seen turns = seen ++ later := by
  induction turns generalizing p seen with
  | nil => exact ⟨[], (List.append_nil seen).symm⟩
  | cons turn turns ih =>
    obtain ⟨hrole, hturns⟩ := h
    obtain ⟨later, hlater⟩ := ih (p.backlogsAfter l seen turn) hturns
    rw [Parties.backlogs, hlater, Parties.backlogsAfter, if_neg hrole]
    split
    · exact ⟨p.node.bus.queued l :: later, by rw [List.append_assoc, List.singleton_append]⟩
    · exact ⟨later, rfl⟩

section Schedules

variable {p : Parties} {l : Level} {seen : List Nat}

theorem marks_play (h : Marks p.node.bus l seen) (hbounded : Bounded p.node.bus) (turn : Turn) :
    Marks (p.play turn).2.node.bus l (p.backlogsAfter l seen turn) := by
  obtain ⟨old, new, hmove, _⟩ := move_play p turn
  have hsettled := settledAt_play l p turn
  rw [Parties.backlogsAfter]
  by_cases hrole : p.role turn = .resetting
  · rw [hrole] at hmove
    rw [if_pos hrole, (reset_of_move hmove).1]
    exact .of_zero (Bus.counters_resetCounters ..)
  rw [if_neg hrole]
  split
  · rename_i hcounting
    rw [if_pos hcounting] at hsettled
    rw [settle_of_move hmove (by rw [hsettled]; exact List.cons_ne_nil _ _)]
    exact h.settle (hbounded l)
  · rename_i hcounting
    rw [if_neg hcounting] at hsettled
    exact h.of_counts (deliveryCounts_of_move hmove hrole hsettled)

theorem marks_run (h : Marks p.node.bus l seen) (hbounded : Bounded p.node.bus)
    (turns : List Turn) : Marks (p.run turns).2.node.bus l (p.backlogs l seen turns) := by
  induction turns generalizing p seen with
  | nil => exact h
  | cons turn turns ih =>
    exact ih (marks_play h hbounded turn) (bounded_of_traffic (traffic_play p turn) hbounded)

theorem highWater_le_run (h : Marks p.node.bus l seen) (hbounded : Bounded p.node.bus)
    {turns : List Turn} (hreset : p.Unreset turns) :
    (p.node.bus.counters l).highWater.toNat ≤
      ((p.run turns).2.node.bus.counters l).highWater.toNat := by
  obtain ⟨later, hlater⟩ := backlogs_of_unreset l seen hreset
  rw [h.highWater, (marks_run h hbounded turns).highWater, hlater]
  exact max?_le_append ..

/-- A delivery whose calls have returned is counted next, with what is queued by then. -/
theorem counting_of_returned {party : Nat} (h : p.ongoing[party]?.bind returned? = some l) :
    (p.play (.step party)).2.counting? (.step party) = some l ∧
      (p.play (.step party)).2.node = p.node := by
  obtain ⟨stack, hstack, hreturned⟩ := Option.bind_eq_some_iff.mp h
  rw [returned?.eq_def] at hreturned
  split at hreturned
  · rename_i news l' below
    cases hreturned
    have hstep : (p.machine (.telling news [] :: .settling l :: below)).step =
        some ([], p.machine (.settling l :: below)) := rfl
    constructor
    · simp only [Parties.counting?, ongoing_of_step hstack hstep]
      rfl
    · rw [play_of_step hstack hstep]
      rfl
  · cases hreturned

end Schedules

end NodeBus.Session
