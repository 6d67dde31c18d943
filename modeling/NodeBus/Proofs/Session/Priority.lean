import Mathlib.Data.List.Induction
import NodeBus.Proofs.Session.Nesting
import NodeBus.Proofs.Session.Queues

/-!
# High deliveries come first

The look at the high level and the look at the normal level that follows it are two small things.
A consumer that has found the high level empty is committed: if it comes to a normal delivery, it
takes that without another look at the high level. It takes it at once, or when it has waited.

So a high delivery is overtaken only by consumers that were committed when it was accepted, and by
each of them once: while one is queued nobody becomes committed (`committed_add_taken_le`), which
bounds the normal deliveries that are taken before it along a schedule (`taken_normal_le`). With a
single consumer at most one is committed (`committed_le_one`), so that a high delivery is overtaken
at most once.

That a consumer is at its second look says what its last turn was: the first look, which found the
high level empty (`glances_run`). What is queued there by now was accepted in between, from an
interrupt or by another party (`normal_taken_over_high`).
-/

namespace NodeBus.Session

/-- The number of consumers that have found the high level empty and take a normal delivery next,
if there is one. -/
def committed (held : List Engagement) : Nat := held.count .glancing + held.count .waiting

/-- The number of workers that wait. -/
def Parties.waiting (p : Parties) : Nat := p.engagements.count .waiting

def Parties.committed (p : Parties) : Nat := Session.committed p.engagements

/-- While a consumer is committed, there is no other: nobody else looks at the high level. -/
def Parties.SoleConsumer (p : Parties) (turns : List Turn) : Prop :=
  p.Along (fun p turn => p.committed ≠ 0 → p.role turn ≠ .consuming) turns

instance (p : Parties) (turns : List Turn) : Decidable (p.SoleConsumer turns) :=
  inferInstanceAs (Decidable (Parties.Along _ p turns))

/-! ## One turn -/

section Move

variable {b b' : Bus Delivery Alarm} {r : Role} {old new : List Engagement}
  {now : List Happening}

/-- Normal deliveries are taken by those only who have looked at the high level before. -/
theorem role_of_taken {d : Delivery} (h : Move b r old now b' new)
    (htaken : d ∈ takenAt .normal now) : r = .glancing ∨ r = .waiting := by
  cases h with
  | aside _ silent _ => simp [takenAt_of_silent silent] at htaken
  | reset silent => simp [takenAt_of_silent silent] at htaken
  | offer _ silent => simp [takenAt_of_silent silent] at htaken
  | take takes _ =>
    cases takes with
    | first => simp at htaken
    | next => exact .inl rfl
    | found => exact .inr rfl
  | settle l => simp at htaken
  | shift silent _ => simp [takenAt_of_silent silent] at htaken

/-- A worker begins to wait where it finds the normal level empty as well. -/
theorem queue_of_waiting_lt (h : Move b r old now b' new)
    (hwait : old.count .waiting < new.count .waiting) :
    r = .glancing ∧ b.queue .normal = [] := by
  cases h with
  | take takes _ => cases takes <;> simp at hwait
  | shift _ shift =>
    cases shift with
    | pause empty => exact ⟨rfl, empty⟩
    | _ => simp at hwait
  | _ => simp at hwait

/-- While a high delivery is queued, nobody becomes committed, and whoever takes a normal one is
committed no longer. -/
theorem committed_add_taken_le (h : Move b r old now b' new) (hhigh : b.queue .high ≠ []) :
    committed new + (takenAt .normal now).length ≤ committed old := by
  cases h with
  | aside _ silent _ => simp [takenAt_of_silent silent]
  | reset silent => simp [takenAt_of_silent silent]
  | offer _ silent => simp [takenAt_of_silent silent]
  | take takes _ => cases takes <;> simp [committed]
  | settle l => simp [committed]
  | shift silent shift =>
    cases shift with
    | pass empty => exact absurd empty hhigh
    | _ => simp [takenAt_of_silent silent, committed]

theorem queue_of_accepted {l : Level} {d : Delivery} (h : Move b r old now b' new)
    (haccepted : d ∈ acceptedAt l now) :
    b'.queue l = b.queue l ++ [d] ∧ old = [] ∧ new = [] := by
  cases h with
  | aside _ silent _ => simp [acceptedAt_of_silent silent] at haccepted
  | reset silent => simp [acceptedAt_of_silent silent] at haccepted
  | offer offered silent =>
    have hqueue := queue_of_offer offered l
    rw [acceptedAt_offered, acceptedAt_of_silent silent] at haccepted
    split at haccepted
    · rename_i hl
      obtain ⟨rfl, rfl⟩ := hl
      obtain rfl := List.mem_singleton.mp haccepted
      exact ⟨by simpa using hqueue, rfl, rfl⟩
    · cases haccepted
  | take _ _ => simp at haccepted
  | settle _ => simp at haccepted
  | shift silent _ => simp [acceptedAt_of_silent silent] at haccepted

theorem committed_le_of_move (h : Move b r old now b' new) :
    committed new ≤ committed old + if r = .consuming then 1 else 0 := by
  cases h with
  | take takes _ => cases takes <;> simp [committed]
  | shift _ shift => cases shift <;> simp [committed]
  | _ => simp [committed]

end Move

theorem committed_play (p : Parties) (turn : Turn) :
    ∃ old new, Move p.node.bus (p.role turn) old (p.play turn).1 (p.play turn).2.node.bus new ∧
      (p.play turn).2.committed + committed old = p.committed + committed new := by
  obtain ⟨old, new, hmove, hcount⟩ := move_play p turn
  refine ⟨old, new, hmove, ?_⟩
  have hglancing := hcount .glancing
  have hwaiting := hcount .waiting
  simp only [Parties.committed, committed]
  omega

/-! ## The look before -/

/-- Whoever is at its second look is on top, and is the only one of its party. -/
def GlancesOnTop (stack : List Activity) : Prop :=
  (engagements stack).count .glancing = if role stack = .glancing then 1 else 0

section Glance

variable {m m' : Machine} {now : List Happening}

theorem engagement?_of_glancing {a : Activity} (h : a.role = .glancing) :
    a.engagement? = some .glancing := by
  cases a with
  | act action =>
    cases action with
    | op o => cases o <;> cases h
    | _ => cases h
  | seeking seeker level =>
    cases level with
    | high => cases h
    | normal => rfl
  | working w =>
    obtain ⟨_, _, _, _, _, phase⟩ := w
    cases phase with
    | glancing => rfl
    | _ => cases h
  | _ => cases h

theorem mem_engagements_of_glancing {stack : List Activity} (h : role stack = .glancing) :
    .glancing ∈ engagements stack := by
  cases stack with
  | nil => cases h
  | cons a rest =>
    exact List.mem_filterMap.mpr ⟨a, List.mem_cons_self, engagement?_of_glancing h⟩

/-- Whoever finds the high level empty looks at the normal level next. -/
theorem role_of_pass (h : m.step = some (now, m')) (hrole : role m.stack = .consuming)
    (hempty : m.node.bus.queue .high = []) : role m'.stack = .glancing := by
  have hnone := Bus.takeFrom?_eq_none_iff.mpr hempty
  obtain ⟨n, r, stack⟩ := m
  cases stack with
  | nil => cases h
  | cons top rest =>
    cases top with
    | act action =>
      cases action with
      | op o => cases o <;> cases hrole
      | _ => cases hrole
    | seeking seeker level =>
      cases level with
      | high =>
        simp only [Machine.step, Machine.seek, hnone] at h
        cases h
        rfl
      | normal => cases hrole
    | working w =>
      obtain ⟨_, _, _, _, _, phase⟩ := w
      cases phase with
      | sweeping =>
        simp only [Machine.step, Machine.work, hnone] at h
        cases h
        rfl
      | _ => cases hrole
    | _ => cases hrole

theorem glancesOnTop_of_step (h : m.step = some (now, m')) (htop : GlancesOnTop m.stack) :
    GlancesOnTop m'.stack ∧ (role m'.stack = .glancing →
      role m.stack = .consuming ∧ m.node.bus.queue .high = []) := by
  obtain ⟨front, old, new, back, hbefore, hafter, hmove⟩ := moves_step h
  have hpass := role_of_pass h
  have hcount : (engagements m'.stack).count .glancing + old.count .glancing =
      (if role m.stack = .glancing then 1 else 0) + new.count .glancing := by
    rw [← htop, hbefore, hafter]
    simp only [List.count_append]
    omega
  generalize role m.stack = r at hmove hcount hpass
  generalize m'.node.bus = b' at hmove
  -- Unless the high level was found empty just now, nobody is at its second look afterwards.
  have hnobody (hnone : (engagements m'.stack).count .glancing = 0) : GlancesOnTop m'.stack ∧
      (role m'.stack = .glancing → r = .consuming ∧ m.node.bus.queue .high = []) := by
    have hrole : role m'.stack ≠ .glancing := fun hrole =>
      List.count_eq_zero.mp hnone (mem_engagements_of_glancing hrole)
    exact ⟨hnone.trans (if_neg hrole).symm, fun hglancing => absurd hglancing hrole⟩
  cases hmove with
  | aside idles _ _ =>
    refine hnobody ?_
    cases r <;> simp_all [Role.idles]
  | reset | offer | settle => exact hnobody (by simpa using hcount)
  | take takes _ => cases takes <;> exact hnobody (by simpa using hcount)
  | shift _ shift =>
    cases shift with
    | pass empty =>
      have hone : (engagements m'.stack).count .glancing = 1 := by simpa using hcount
      exact ⟨hone.trans (if_pos (hpass rfl empty)).symm, fun _ => ⟨rfl, empty⟩⟩
    | _ => exact hnobody (by simpa using hcount)

end Glance

section Turns

variable {p : Parties} {turn : Turn} {party : Nat}

theorem glancesOnTop_play (h : ∀ stack ∈ p.ongoing, GlancesOnTop stack) (turn : Turn) :
    ∀ stack ∈ (p.play turn).2.ongoing, GlancesOnTop stack := by
  cases turn with
  | enter who script =>
    intro stack hstack
    rcases List.mem_append.mp hstack with hstack | hstack
    · exact h stack hstack
    · rw [List.mem_singleton.mp hstack]
      rfl
  | step party =>
    simp only [Parties.play]
    split
    · rename_i now m hstep
      obtain ⟨m₀, hm₀, hstep⟩ := Option.bind_eq_some_iff.mp hstep
      obtain ⟨stack₀, hstack₀, rfl⟩ := Option.map_eq_some_iff.mp hm₀
      intro stack hstack
      rcases List.mem_or_eq_of_mem_set hstack with hstack | rfl
      · exact h stack hstack
      · exact (glancesOnTop_of_step hstep (h stack₀ (List.mem_of_getElem? hstack₀))).1
    · exact h
  | allot party pending looks =>
    simp only [Parties.play]
    split
    · rename_i hworking
      intro stack hstack
      rcases List.mem_or_eq_of_mem_set hstack with hstack | rfl
      · exact h stack hstack
      · -- The worker waits as it did.
        have hwaits := h _ (List.mem_of_getElem? hworking)
        exact hwaits
    · exact h

/-- Nobody else brings a party to its second look. -/
theorem role_of_other (hturn : turn.isOf party = false)
    (hrole : (p.play turn).2.role (.step party) = .glancing) :
    p.role (.step party) = .glancing := by
  cases turn with
  | enter who script =>
    simp only [Parties.play, Parties.role, List.getElem?_append] at hrole ⊢
    split at hrole
    · exact hrole
    · rw [List.getElem?_singleton] at hrole
      split at hrole <;> cases hrole
  | step party' =>
    have hne : party' ≠ party := by simpa [Turn.isOf] using hturn
    simp only [Parties.play] at hrole
    split at hrole
    · simp only [Parties.role, List.getElem?_set_ne hne] at hrole
      exact hrole
    · exact hrole
  | allot party' pending looks =>
    simp only [Parties.play] at hrole
    split at hrole
    · rename_i hworking
      by_cases hne : party' = party
      · subst hne
        have hlt := (List.getElem?_eq_some_iff.mp hworking).1
        simp only [Parties.role, List.getElem?_set_self hlt] at hrole
        cases hrole
      · simp only [Parties.role, List.getElem?_set_ne hne] at hrole
        exact hrole
    · exact hrole

theorem pass_of_role (h : ∀ stack ∈ p.ongoing, GlancesOnTop stack)
    (hrole : (p.play (.step party)).2.role (.step party) = .glancing) :
    p.role (.step party) = .consuming ∧ p.node.bus.queue .high = [] := by
  cases hstack : p.ongoing[party]? with
  | none => simp [Parties.play, Parties.role, hstack] at hrole
  | some stack =>
    cases hstep : (p.machine stack).step with
    | none =>
      obtain rfl : stack = [] := stack_of_step_eq_none hstep
      simp [Parties.play, Parties.role, hstack, Parties.machine, Machine.step,
        Session.role] at hrole
    | some result =>
      obtain ⟨_, hlooked⟩ := glancesOnTop_of_step hstep (h stack (List.mem_of_getElem? hstack))
      simp only [Parties.role, ongoing_of_step hstack hstep] at hrole
      simp only [Parties.role, hstack]
      exact hlooked hrole

end Turns

/-- A party is at its second look after a schedule. Its last turn was its first look, which found
the high level empty, and what is queued there by now was accepted since. -/
structure Glances (start : Parties) (before : List Turn) (party : Nat) (front back : List Turn) :
    Prop where
  split : before = front ++ .step party :: back
  idle : ∀ turn ∈ back, turn.isOf party = false
  look : (start.run front).2.role (.step party) = .consuming
  empty : (start.run front).2.node.bus.queue .high = []
  still : acceptedAt .high ((start.run front).2.run (.step party :: back)).1 = [] →
    (start.run before).2.node.bus.queue .high = []

theorem queue_high_of_look {q : Parties} {turns : List Turn} (hempty : q.node.bus.queue .high = [])
    (hnone : acceptedAt .high (q.run turns).1 = []) :
    (q.run turns).2.node.bus.queue .high = [] := by
  have hconserved := conserved_run q turns .high
  rw [hempty, hnone] at hconserved
  exact (List.append_eq_nil_iff.mp hconserved).2

/-- Whoever is at its second look has found the high level empty in its last turn. -/
theorem glances_run {start : Parties} (hnobody : start.ongoing = []) (before : List Turn) :
    (∀ stack ∈ (start.run before).2.ongoing, GlancesOnTop stack) ∧
    ∀ party, (start.run before).2.role (.step party) = .glancing →
      ∃ front back, Glances start before party front back := by
  have hnow (front back : List Turn) (party : Nat) {before : List Turn}
      (split : before = front ++ .step party :: back)
      (idle : ∀ turn ∈ back, turn.isOf party = false)
      (look : (start.run front).2.role (.step party) = .consuming)
      (empty : (start.run front).2.node.bus.queue .high = []) :
      Glances start before party front back := by
    refine ⟨split, idle, look, empty, fun hnone => ?_⟩
    rw [split, run_append]
    exact queue_high_of_look empty hnone
  induction before using List.reverseRecOn with
  | nil =>
    refine ⟨by simp [Parties.run, hnobody], fun party hrole => ?_⟩
    simp [Parties.run, Parties.role, hnobody] at hrole
  | append_singleton before turn ih =>
    obtain ⟨htop, hlooked⟩ := ih
    have hrun : (start.run (before ++ [turn])).2 = ((start.run before).2.play turn).2 :=
      run_append start before [turn]
    rw [hrun]
    refine ⟨glancesOnTop_play htop turn, fun party hrole => ?_⟩
    cases hturn : turn.isOf party with
    | true =>
      obtain rfl := Turn.eq_step hturn
      obtain ⟨look, empty⟩ := pass_of_role htop hrole
      exact ⟨before, [], hnow before [] party rfl (by simp) look empty⟩
    | false =>
      obtain ⟨front, back, h⟩ := hlooked party (role_of_other hturn hrole)
      refine ⟨front, back ++ [turn], hnow front _ party ?_ (fun other hother => ?_) h.look h.empty⟩
      · rw [h.split, List.append_assoc, List.cons_append]
      · rcases List.mem_append.mp hother with hother | hother
        · exact h.idle other hother
        · rwa [List.mem_singleton.mp hother]

/-! ## Schedules -/

/-- As long as no more high deliveries are taken than are queued now in front of some other,
only those who are committed now take normal ones. -/
theorem taken_normal_le {p : Parties} {turns : List Turn} {n : Nat}
    (hn : n < p.node.bus.queued .high)
    (htaken : (takenAt .high (p.run turns).1).length ≤ n) :
    (takenAt .normal (p.run turns).1).length ≤ p.committed := by
  induction turns generalizing p n with
  | nil => exact Nat.zero_le _
  | cons turn turns ih =>
    obtain ⟨old, new, hmove, hcommitted⟩ := committed_play p turn
    have hqueued := congrArg List.length (conserved_of_traffic (traffic_of_move hmove) .high)
    have hhigh : p.node.bus.queue .high ≠ [] := by
      intro hempty
      rw [Bus.queued, hempty] at hn
      cases hn
    have hnow := committed_add_taken_le hmove hhigh
    -- A high delivery that is taken in this turn was one of the `n` in front.
    simp only [Parties.run, takenAt_append, List.length_append] at htaken hqueued ⊢
    simp only [Bus.queued] at hn ih
    have hlater := ih (p := (p.play turn).2) (n := n - (takenAt .high (p.play turn).1).length)
      (by omega) (by omega)
    omega

/-- A high delivery is the next one to be taken after those that were queued when it was
accepted, and until then only those who were committed at that time take normal ones. -/
theorem taken_normal_of_accepted {p : Parties} {turn : Turn} {d : Delivery}
    (haccepted : d ∈ acceptedAt .high (p.play turn).1) (after : List Turn) :
    let later := ((p.play turn).2.run after).1
    let place := p.node.bus.queued .high
    (∀ d', (takenAt .high later)[place]? = some d' → d' = d) ∧
    ((takenAt .high later)[place]? = none → (takenAt .normal later).length ≤ p.committed) := by
  intro later place
  obtain ⟨old, new, hmove, hcommitted⟩ := committed_play p turn
  obtain ⟨hqueue, rfl, rfl⟩ := queue_of_accepted hmove haccepted
  refine ⟨fun d' htaken => ?_, fun hnone => ?_⟩
  · -- It is at the same place among the deliveries that are taken as it was in the queue.
    have hplace := congrArg (·[place]?) (conserved_run (p.play turn).2 after .high)
    simp only [hqueue] at hplace
    rw [List.getElem?_append_left (List.getElem?_eq_some_iff.mp htaken).1, htaken] at hplace
    simpa [place, Bus.queued] using hplace
  · rw [← Nat.add_right_cancel hcommitted]
    refine taken_normal_le (n := place) ?_ (List.getElem?_eq_none_iff.mp hnone)
    simp [Bus.queued, hqueue, place]

theorem committed_le_one {p : Parties} (h : p.committed ≤ 1) {turns : List Turn}
    (hsole : p.SoleConsumer turns) : (p.run turns).2.committed ≤ 1 := by
  induction turns generalizing p with
  | nil => exact h
  | cons turn turns ih =>
    obtain ⟨hrole, hlater⟩ := hsole
    refine ih (p := (p.play turn).2) ?_ hlater
    obtain ⟨old, new, hmove, hcommitted⟩ := committed_play p turn
    have hbegin := committed_le_of_move hmove
    split at hbegin
    · rename_i hconsuming
      -- Nobody was committed when this consumer became so.
      have hnone : p.committed = 0 := Decidable.byContradiction fun hsome => hrole hsome hconsuming
      omega
    · omega

/-- Whatever the parties do after the bus was made, and in whatever order. Whoever takes a normal
delivery has waited for it, or is at its second look: its last turn was its look at the high level,
which was empty then, and still is unless a high delivery was accepted since. A worker begins to
wait only at its second look, where it finds the normal level empty as well. Until an accepted high
delivery is taken, which is when its turn comes in the order of acceptance, normal ones are taken by
those only who were committed when it was accepted. With a single consumer that is one at most. -/
theorem high_overtaken_by_committed (wait : UInt32) (node : Node)
    (reactions : Bank Caller Reaction) (before : List Turn) (turn : Turn) :
    let start := Parties.begin { node with bus := .fresh wait } reactions
    let p := (start.run before).2
    let p' := (p.play turn).2
    let Second := ∃ party front back, turn = .step party ∧ Glances start before party front back
    (∀ d ∈ takenAt .normal (p.play turn).1, p.role turn = .waiting ∨ Second) ∧
    (p.waiting < p'.waiting → p.node.bus.queue .normal = [] ∧ Second) ∧
    ∀ d ∈ acceptedAt .high (p.play turn).1, ∀ after,
      let later := (p'.run after).1
      let place := p.node.bus.queued .high
      (∀ d', (takenAt .high later)[place]? = some d' → d' = d) ∧
      ((takenAt .high later)[place]? = none →
        (takenAt .normal later).length ≤ p.committed ∧
        (start.SoleConsumer before → (takenAt .normal later).length ≤ 1)) := by
  intro start p p' Second
  obtain ⟨old, new, hmove, hcount⟩ := move_play p turn
  have hsecond (hrole : p.role turn = .glancing) : Second := by
    cases turn with
    | step party =>
      have hnobody : start.ongoing = [] := rfl
      obtain ⟨front, back, hglances⟩ := (glances_run hnobody before).2 party hrole
      exact ⟨party, front, back, rfl, hglances⟩
    | _ => cases hrole
  refine ⟨fun d htaken => ?_, fun hlt => ?_, fun d haccepted after => ?_⟩
  · exact (role_of_taken hmove htaken).symm.imp id hsecond
  · have hwaiting := hcount .waiting
    simp only [Parties.waiting, p'] at hlt
    obtain ⟨hrole, hempty⟩ := queue_of_waiting_lt hmove (by omega)
    exact ⟨hempty, hsecond hrole⟩
  · obtain ⟨hplace, hnormal⟩ := taken_normal_of_accepted haccepted after
    refine ⟨hplace, fun hnone => ⟨hnormal hnone, fun hsole => ?_⟩⟩
    have hone : p.committed ≤ 1 := committed_le_one (p := start) (Nat.zero_le _) hsole
    exact Nat.le_trans (hnormal hnone) hone

/-- A worker waits, a normal delivery is accepted and then a high one: the worker takes the
normal one, and nothing else comes before the high one. -/
theorem high_overtaken_by_committed_once :
    let node : Node := ((Node.fresh 10 ["timer"]).subscribe 0 (.outside 0) .blank).2
    let start := Parties.begin { node with bus := .fresh 10 } (.filled .idle)
    let publications : Script := [.op .start, .publish 0 0 .normal .task, .publish 0 0 .high .task]
    let before : List Turn :=
      .enter .main publications :: .enter .main [.step none []] ::
        List.replicate 2 (.step 0) ++ List.replicate 5 (.step 1) ++ List.replicate 4 (.step 0)
    let p := (start.run before).2
    let later := ((p.play (.step 0)).2.run (List.replicate 7 (.step 1))).1
    p.waiting = 1 ∧ p.committed = 1 ∧ acceptedAt .high (p.play (.step 0)).1 = [.tick 0 0] ∧
      takenAt .high later = [] ∧ (takenAt .normal later).length = 1 := by
  intro node start publications before p later
  have hwaiting : p.waiting = 1 ∧ p.committed = 1 := by decide +kernel
  have haccepted : acceptedAt .high (p.play (.step 0)).1 = [.tick 0 0] := by decide +kernel
  have hhigh : takenAt .high later = [] := by decide +kernel
  have hnormal : takenAt .normal later ≠ [] := by decide +kernel
  have hsole : start.SoleConsumer before := by decide +kernel
  -- Nothing else about the schedule is computed.
  clear_value before
  obtain ⟨_, _, hovertaken⟩ :=
    high_overtaken_by_committed 10 node (.filled .idle) before (.step 0)
  obtain ⟨_, hbound⟩ := hovertaken (.tick 0 0) (haccepted ▸ List.mem_singleton.mpr rfl)
    (List.replicate 7 (.step 1))
  obtain ⟨_, hone⟩ := hbound (by rw [hhigh]; rfl)
  exact ⟨hwaiting.1, hwaiting.2, haccepted, hhigh,
    Nat.le_antisymm (hone hsole) (List.length_pos_iff.mpr hnormal)⟩

/-- A poll has found the high level empty when an interrupt handler publishes there. Then it takes a
normal delivery while the high one is queued, and no worker waits. -/
theorem normal_taken_over_high :
    let node : Node := ((Node.fresh 10 ["timer"]).subscribe 0 (.outside 0) .blank).2
    let start := Parties.begin { node with bus := .fresh 10 } (.filled .idle)
    let before : List Turn :=
      .enter .main [.op .start, .publish 0 0 .normal .task, .poll] ::
        List.replicate 8 (.step 0) ++ .enter .main [.publish 0 1 .high .interrupt] ::
          List.replicate 2 (.step 1)
    let p := (start.run before).2
    start.SoleConsumer (before ++ [.step 0]) ∧ p.waiting = 0 ∧
      p.ongoing[0]? = some [.seeking .poll .normal, .acting .poll, .code .main []] ∧
      p.node.bus.queue .high = [.tick 0 1] ∧
      takenAt .normal (p.play (.step 0)).1 = [.tick 0 0] := by
  intro node start before p
  have hsole : start.SoleConsumer (before ++ [.step 0]) := by decide
  have hwaiting : p.waiting = 0 := by decide
  exact ⟨hsole, hwaiting, rfl, rfl, rfl⟩

end NodeBus.Session
