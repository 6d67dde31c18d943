import NodeBus.Proofs.Session.Queues

/-!
# The counters balance

Every attempt to queue a delivery is counted at once, and comes to one of three ends: it was
too early, it found the queue full, or the delivery is accepted, which is then queued, under
way from when it is taken, and counted. What the counters leave open (`outstanding`) is
therefore what came too early and what is accepted but not counted (`outstanding_of_move`),
and that is what is queued or under way (`load_of_move`).

A reset sets the counters to zero in the midst of this. An `Epoch` is the time since the
last one: what was queued or under way when it began will be counted as delivered, though not
as an attempt. Both laws are kept along a schedule through any number of resets
(`balanced_run`). The counts are words that wrap around, and so are the equations.
-/

namespace NodeBus

namespace Bus.Counters

/-- What the counters leave open: attempts that were not refused for lack of space, less the
deliveries made. -/
def outstanding (c : Counters) : UInt32 := c.published - c.overflowed - c.dispatched

@[simp] theorem outstanding_countAttempt (c : Counters) :
    c.countAttempt.outstanding = c.outstanding + 1 := by
  simp only [outstanding, countAttempt]
  grind

@[simp] theorem outstanding_countOverflow (c : Counters) :
    c.countOverflow.outstanding = c.outstanding - 1 := by
  simp only [outstanding, countOverflow]
  grind

@[simp] theorem outstanding_countDelivery (c : Counters) (backlog : Nat) :
    (c.countDelivery backlog).outstanding = c.outstanding - 1 := by
  simp only [outstanding, countDelivery]
  grind

end Bus.Counters

namespace Session

/-! ## What a history says about the counters -/

/-- The delivery that was offered at a level before the bus was started. -/
def Happening.early? (l : Level) : Happening → Option Delivery
  | .offered l' d (some .notStarted) => if l' = l then some d else none
  | _ => none

/-- The backlog that a delivery left that was counted at a level. -/
def Happening.settled? (l : Level) : Happening → Option Nat
  | .settled l' backlog => if l' = l then some backlog else none
  | _ => none

/-- The deliveries offered at a level too early, in order. -/
def earlyAt (l : Level) (past : List Happening) : List Delivery :=
  past.filterMap (Happening.early? l)

/-- The backlogs of the deliveries counted at a level, in order. -/
def settledAt (l : Level) (past : List Happening) : List Nat :=
  past.filterMap (Happening.settled? l)

section History

variable (l l' : Level) (d : Delivery)

@[simp] theorem earlyAt_append (past later : List Happening) :
    earlyAt l (past ++ later) = earlyAt l past ++ earlyAt l later := List.filterMap_append

@[simp] theorem settledAt_append (past later : List Happening) :
    settledAt l (past ++ later) = settledAt l past ++ settledAt l later := List.filterMap_append

@[simp] theorem earlyAt_offered (refusal : Option Refusal) (later : List Happening) :
    earlyAt l (.offered l' d refusal :: later) =
      if refusal = some .notStarted ∧ l' = l then d :: earlyAt l later else earlyAt l later := by
  cases refusal with
  | none => rfl
  | some cause =>
    cases cause with
    | queueFull => rfl
    | notStarted => by_cases h : l' = l <;> simp [earlyAt, Happening.early?, h]

@[simp] theorem earlyAt_taken : earlyAt l [.taken l' d] = [] := rfl

@[simp] theorem earlyAt_settled (backlog : Nat) : earlyAt l [.settled l' backlog] = [] := rfl

@[simp] theorem settledAt_offered (refusal : Option Refusal) (later : List Happening) :
    settledAt l (.offered l' d refusal :: later) = settledAt l later := rfl

@[simp] theorem settledAt_taken : settledAt l [.taken l' d] = [] := rfl

@[simp] theorem settledAt_settled (backlog : Nat) :
    settledAt l [.settled l' backlog] = if l' = l then [backlog] else [] := by
  by_cases h : l' = l <;> simp [settledAt, Happening.settled?, h]

variable {now : List Happening}

theorem earlyAt_of_silent (h : Silent now) : earlyAt l now = [] := by
  refine filterMap_of_silent h fun a ha => ?_
  cases a with
  | offered l' d refusal => cases ha
  | _ => rfl

theorem settledAt_of_silent (h : Silent now) : settledAt l now = [] := by
  refine filterMap_of_silent h fun a ha => ?_
  cases a with
  | settled l' backlog => cases ha
  | _ => rfl

end History

/-! ## One small thing -/

section Move

variable {b b' : Bus Delivery Alarm} {r : Role} {old new : List Engagement}
  {now : List Happening}

theorem Takes.count_delivering {r : Role} {old : List Engagement} {l : Level} (h : Takes r old l)
    (l' : Level) : old.count (.delivering l') = 0 := by
  cases h <;> simp

theorem Shift.count_delivering {b : Bus Delivery Alarm} {r : Role} {old new : List Engagement}
    (h : Shift b r old new) (l : Level) :
    old.count (.delivering l) = 0 ∧ new.count (.delivering l) = 0 := by
  cases h <;> simp

theorem taken_add_of_move (h : Move b r old now b' new) (l : Level) :
    old.count (.delivering l) + (takenAt l now).length =
      (settledAt l now).length + new.count (.delivering l) := by
  cases h with
  | aside _ silent _ => simp [takenAt_of_silent silent, settledAt_of_silent l silent]
  | reset silent => simp [takenAt_of_silent silent, settledAt_of_silent l silent]
  | offer _ silent => simp [takenAt_of_silent silent, settledAt_of_silent l silent]
  | @take _ _ l' _ _ takes _ =>
    rw [takes.count_delivering]
    by_cases h : l' = l <;> simp [h]
  | settle l' => by_cases h : l' = l <;> simp [h]
  | shift silent shift =>
    obtain ⟨hold, hnew⟩ := shift.count_delivering l
    simp [takenAt_of_silent silent, settledAt_of_silent l silent, hold, hnew]

theorem load_of_move (h : Move b r old now b' new) (l : Level) :
    b.queued l + old.count (.delivering l) + (acceptedAt l now).length =
      b'.queued l + new.count (.delivering l) + (settledAt l now).length := by
  -- What is taken goes from the queue to what is under way.
  have hqueued := congrArg List.length (conserved_of_traffic (traffic_of_move h) l)
  have htaken := taken_add_of_move h l
  simp only [List.length_append] at hqueued
  simp only [Bus.queued]
  omega

theorem outstanding_of_offer {l l' : Level} {d : Delivery} {refusal : Option Refusal}
    (h : b.offer l' d = (refusal, b')) :
    (b'.counters l).outstanding = (b.counters l).outstanding +
      if refusal ≠ some .queueFull ∧ l' = l then 1 else 0 := by
  have hcounters := Bus.counters_offer b l' l d
  rw [h] at hcounters
  rw [hcounters]
  by_cases hl : l' = l
  · subst hl
    by_cases hfull : refusal = some .queueFull
    · simp [hfull]
    · simp [hfull]
  · simp [hl, Ne.symm hl]

theorem outstanding_of_move (h : Move b r old now b' new) (hr : r ≠ .resetting) (l : Level) :
    (b'.counters l).outstanding + .ofNat (settledAt l now).length =
      (b.counters l).outstanding + .ofNat (earlyAt l now).length +
        .ofNat (acceptedAt l now).length := by
  cases h with
  | aside _ silent lanes =>
    simp [earlyAt_of_silent l silent, settledAt_of_silent l silent, acceptedAt_of_silent silent,
      Bus.counters, lanes]
  | reset silent => exact absurd rfl hr
  | @offer l' d refusal _ later offered silent =>
    have hearly := earlyAt_of_silent l silent
    have hsettled := settledAt_of_silent l silent
    have haccepted := acceptedAt_of_silent silent l
    rw [outstanding_of_offer offered]
    by_cases hl : l' = l
    · -- These are the three ends that an attempt can come to.
      rcases refusal with _ | _ | _
      · simp [hl, hearly, hsettled, haccepted]
      · simp [hl, hearly, hsettled, haccepted]
      · simp [hl, hearly, hsettled, haccepted]
    · simp [hl, hearly, hsettled, haccepted]
  | take _ taken => simp [Bus.counters_of_takeFrom? taken]
  | settle l' =>
    by_cases hl : l' = l
    · simp [hl, Bus.settle]
    · simp [hl, Ne.symm hl, Bus.settle]
  | shift silent _ =>
    simp [earlyAt_of_silent l silent, settledAt_of_silent l silent, acceptedAt_of_silent silent]

theorem reset_of_move (h : Move b .resetting old now b' new) :
    b' = b.resetCounters ∧ old = [] ∧ new = [] := by
  cases h with
  | aside idles _ _ => cases idles
  | reset silent => exact ⟨rfl, rfl, rfl⟩
  | take takes _ => cases takes
  | shift _ shift => cases shift

end Move

/-! ## Schedules -/

/-- The deliveries of a level that were taken and are not counted yet. -/
def Parties.underWay (p : Parties) (l : Level) : Nat := p.engagements.count (.delivering l)

/-- The deliveries of a level that are accepted and not counted yet. -/
def Parties.load (p : Parties) (l : Level) : Nat := p.node.bus.queued l + p.underWay l

/-- The time since the counters were last reset, or else since the parties began. -/
structure Epoch where
  /-- What was queued or under way at each level when it began. -/
  carried : Level → Nat
  /-- What has happened since. -/
  past : List Happening

/-- The epoch in which nothing was ever queued. -/
def Epoch.first : Epoch := ⟨fun _ => 0, []⟩

/-- The epoch after one more turn. -/
def Parties.epochAfter (p : Parties) (e : Epoch) (turn : Turn) : Epoch :=
  if p.role turn = .resetting then ⟨p.load, []⟩ else ⟨e.carried, e.past ++ (p.play turn).1⟩

/-- The epoch after a schedule. -/
def Parties.epoch (p : Parties) (e : Epoch) : List Turn → Epoch
  | [] => e
  | turn :: turns => (p.play turn).2.epoch (p.epochAfter e turn) turns

/-- Nobody resets the counters. -/
def Parties.Unreset (p : Parties) (turns : List Turn) : Prop :=
  p.Along (fun p turn => p.role turn ≠ .resetting) turns

instance (p : Parties) (turns : List Turn) : Decidable (p.Unreset turns) :=
  inferInstanceAs (Decidable (Parties.Along _ p turns))

theorem epoch_of_unreset {p : Parties} {turns : List Turn} (e : Epoch) (h : p.Unreset turns) :
    p.epoch e turns = ⟨e.carried, e.past ++ (p.run turns).1⟩ := by
  induction turns generalizing p e with
  | nil => simp [Parties.epoch, Parties.run]
  | cons turn turns ih =>
    obtain ⟨hrole, hlater⟩ := h
    simp only [Parties.epoch, Parties.run]
    rw [ih _ hlater, Parties.epochAfter, if_neg hrole, List.append_assoc]

/-- What has happened in an epoch accounts for the counters and for what is queued or under
way. -/
structure Balanced (p : Parties) (e : Epoch) (l : Level) : Prop where
  counted : (p.node.bus.counters l).outstanding + .ofNat (settledAt l e.past).length =
    .ofNat (earlyAt l e.past).length + .ofNat (acceptedAt l e.past).length
  loaded : e.carried l + (acceptedAt l e.past).length = p.load l + (settledAt l e.past).length

theorem balanced_play {p : Parties} {e : Epoch} {l : Level} (h : Balanced p e l) (turn : Turn) :
    Balanced (p.play turn).2 (p.epochAfter e turn) l := by
  obtain ⟨old, new, hmove, hcount⟩ := move_play p turn
  have hload := load_of_move hmove l
  have hunderWay := hcount (.delivering l)
  obtain ⟨hcounted, hloaded⟩ := h
  by_cases hrole : p.role turn = .resetting
  · -- The counters are zero, and what is queued or under way is carried over.
    rw [hrole] at hmove
    obtain ⟨hbus, rfl, rfl⟩ := reset_of_move hmove
    rw [Parties.epochAfter, if_pos hrole]
    have hkept : (p.play turn).2.load l = p.load l := by
      simpa [Parties.load, Parties.underWay, Bus.queued, hbus] using hunderWay
    constructor
    · rw [hbus, Bus.counters_resetCounters]
      rfl
    · rw [hkept]
      rfl
  · have houtstanding := outstanding_of_move hmove hrole l
    rw [Parties.epochAfter, if_neg hrole]
    constructor
    · simp only [settledAt_append, earlyAt_append, acceptedAt_append, List.length_append,
        UInt32.ofNat_add]
      grind
    · simp only [settledAt_append, acceptedAt_append, List.length_append, Parties.load,
        Parties.underWay] at hloaded ⊢
      omega

theorem balanced_run {p : Parties} {e : Epoch} {l : Level} (h : Balanced p e l)
    (turns : List Turn) : Balanced (p.run turns).2 (p.epoch e turns) l := by
  induction turns generalizing p e with
  | nil => exact h
  | cons turn turns ih => exact ih (balanced_play h turn)

theorem taken_add_run (p : Parties) (turns : List Turn) (l : Level) :
    p.underWay l + (takenAt l (p.run turns).1).length =
      (settledAt l (p.run turns).1).length + (p.run turns).2.underWay l := by
  induction turns generalizing p with
  | nil => exact Nat.add_comm _ _
  | cons turn turns ih =>
    obtain ⟨old, new, hmove, hcount⟩ := move_play p turn
    have hnow := taken_add_of_move hmove l
    have hunderWay := hcount (.delivering l)
    have hlater := ih (p.play turn).2
    simp only [Parties.run, takenAt_append, settledAt_append, List.length_append,
      Parties.underWay] at hlater ⊢
    omega

/-- Whatever the parties do after the bus was made, and in whatever order: at each level, the
deliveries taken are those counted and those under way; the difference between what the
counters say was attempted and what they say became of it is what came too early in this
epoch, and the difference between what is queued or under way now and when the epoch began.
So if nobody resets the counters, nothing came too early and nothing is under way, the attempts
are the overflows, the deliveries made and those queued. -/
theorem counters_balance (wait : UInt32) (node : Node) (reactions : Bank Caller Reaction)
    (turns : List Turn) (l : Level) :
    let start := Parties.begin { node with bus := .fresh wait } reactions
    let past := (start.run turns).1
    let p := (start.run turns).2
    let e := start.epoch .first turns
    let c := p.node.bus.counters l
    (takenAt l past).length = (settledAt l past).length + p.underWay l ∧
    c.published - c.overflowed - .ofNat (earlyAt l e.past).length - c.dispatched =
      .ofNat (p.load l) - .ofNat (e.carried l) ∧
    (start.Unreset turns → earlyAt l past = [] → p.underWay l = 0 →
      c.published = c.overflowed + c.dispatched + .ofNat (p.node.bus.queued l)) := by
  intro start past p e c
  have hbalanced : Balanced p e l := by
    -- In the beginning nothing is counted, queued or under way.
    refine balanced_run (p := start) (e := .first) ⟨?_, ?_⟩ turns
    · rw [show start.node.bus.counters l = .zero from Bus.counters_fresh wait l]
      rfl
    · simp [Epoch.first, Parties.load, Bus.queued, start, Parties.begin, Parties.underWay,
        Parties.engagements, acceptedAt, settledAt]
  obtain ⟨hcounted, hloaded⟩ := hbalanced
  have hloaded := congrArg UInt32.ofNat hloaded
  simp only [UInt32.ofNat_add, Bus.Counters.outstanding] at hcounted hloaded
  refine ⟨?_, ?_, fun hreset hearly hnone => ?_⟩
  · have htaken := taken_add_run start turns l
    exact (Nat.zero_add _).symm.trans htaken
  · grind
  · have hepoch : e = ⟨fun _ => 0, [] ++ past⟩ := epoch_of_unreset .first hreset
    rw [hepoch] at hcounted hloaded
    simp [hearly, Parties.load, hnone] at hcounted hloaded
    grind

/-- Of five publications in a row one is refused at the high level and one is delivered. -/
theorem counters_balance_overflow :
    let node : Node := ((Node.fresh 10 ["timer"]).subscribe 0 (.outside 0) .blank).2
    let start := Parties.begin { node with bus := .fresh 10 } (.filled .idle)
    let turns : List Turn := .enter .main
      (.op .start :: List.replicate 5 (.publish 0 0 .high .interrupt) ++ [.poll]) ::
        List.replicate 30 (.step 0)
    let p := (start.run turns).2
    let c := p.node.bus.counters .high
    start.Unreset turns ∧ earlyAt .high (start.run turns).1 = [] ∧ p.underWay .high = 0 ∧
      c = ⟨5, 1, 1, 3⟩ ∧ c.published = c.overflowed + c.dispatched + 3 := by
  intro node start turns p c
  have hreset : start.Unreset turns := by decide +kernel
  have hearly : earlyAt .high (start.run turns).1 = [] := by decide +kernel
  have hnone : p.underWay .high = 0 := by decide +kernel
  have hcounters : c = ⟨5, 1, 1, 3⟩ := by decide +kernel
  have hqueued : p.node.bus.queued .high = 3 := by decide +kernel
  -- Nothing else about the schedule is computed.
  clear_value turns
  obtain ⟨_, _, hbalance⟩ := counters_balance 10 node (.filled .idle) turns .high
  have hsum := hbalance hreset hearly hnone
  change c.published = c.overflowed + c.dispatched + .ofNat (p.node.bus.queued .high) at hsum
  rw [hqueued] at hsum
  exact ⟨hreset, hearly, hnone, hcounters, hsum⟩

end Session

end NodeBus
