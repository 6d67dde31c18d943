import NodeBus.Proofs.Session.Traffic

/-!
# Deliveries are neither lost nor repeated

At each level, what was taken so far and what is queued are together what was
accepted, in order (`taken_append_queue`). One small thing keeps this in a form
that can be chained, `Conserved`; `conserved_of_traffic` reads it off what the
small thing does to the bus, and `conserved_run` chains it along a schedule.
-/

namespace NodeBus.Session

/-! ## What a history says about a level -/

/-- The delivery that was taken from a level. -/
def Happening.taken? (l : Level) : Happening → Option Delivery
  | .taken l' d => if l' = l then some d else none
  | _ => none

/-- The delivery that was offered at a level and queued. -/
def Happening.accepted? (l : Level) : Happening → Option Delivery
  | .offered l' d none => if l' = l then some d else none
  | _ => none

/-- The deliveries taken from a level, in order. -/
def takenAt (l : Level) (past : List Happening) : List Delivery :=
  past.filterMap (Happening.taken? l)

/-- The deliveries accepted at a level, in order. -/
def acceptedAt (l : Level) (past : List Happening) : List Delivery :=
  past.filterMap (Happening.accepted? l)

@[simp] theorem takenAt_append (l : Level) (past later : List Happening) :
    takenAt l (past ++ later) = takenAt l past ++ takenAt l later := List.filterMap_append

@[simp] theorem acceptedAt_append (l : Level) (past later : List Happening) :
    acceptedAt l (past ++ later) = acceptedAt l past ++ acceptedAt l later :=
  List.filterMap_append

@[simp] theorem takenAt_offered (l l' : Level) (d : Delivery) (refusal : Option Refusal)
    (later : List Happening) :
    takenAt l (.offered l' d refusal :: later) = takenAt l later := rfl

@[simp] theorem takenAt_taken (l l' : Level) (d : Delivery) :
    takenAt l [.taken l' d] = if l' = l then [d] else [] := by
  by_cases h : l' = l <;> simp [takenAt, Happening.taken?, h]

@[simp] theorem takenAt_settled (l l' : Level) (backlog : Nat) :
    takenAt l [.settled l' backlog] = [] := rfl

@[simp] theorem acceptedAt_offered (l l' : Level) (d : Delivery) (refusal : Option Refusal)
    (later : List Happening) :
    acceptedAt l (.offered l' d refusal :: later) =
      if refusal = none ∧ l' = l then d :: acceptedAt l later else acceptedAt l later := by
  cases refusal with
  | none => by_cases h : l' = l <;> simp [acceptedAt, Happening.accepted?, h]
  | some cause => rfl

@[simp] theorem acceptedAt_taken (l l' : Level) (d : Delivery) :
    acceptedAt l [.taken l' d] = [] := rfl

@[simp] theorem acceptedAt_settled (l l' : Level) (backlog : Nat) :
    acceptedAt l [.settled l' backlog] = [] := rfl

theorem takenAt_of_silent {now : List Happening} (h : Silent now) (l : Level) :
    takenAt l now = [] := by
  refine filterMap_of_silent h fun a ha => ?_
  cases a with
  | taken l' d => cases ha
  | _ => rfl

theorem acceptedAt_of_silent {now : List Happening} (h : Silent now) (l : Level) :
    acceptedAt l now = [] := by
  refine filterMap_of_silent h fun a ha => ?_
  cases a with
  | offered l' d refusal => cases ha
  | _ => rfl

/-! ## One small thing -/

/-- What is taken and what is then queued are what was queued and what is accepted. -/
def Conserved (b : Bus Delivery Alarm) (now : List Happening) (b' : Bus Delivery Alarm) : Prop :=
  ∀ l, takenAt l now ++ b'.queue l = b.queue l ++ acceptedAt l now

theorem conserved_of_silent {b b' : Bus Delivery Alarm} {now : List Happening} (h : Silent now)
    (hqueue : ∀ l, b'.queue l = b.queue l) : Conserved b now b' := by
  intro l
  rw [takenAt_of_silent h, acceptedAt_of_silent h, hqueue, List.append_nil]
  rfl

/-- An offer changes its own queue only, and only if it is not refused. -/
theorem queue_of_offer {b b' : Bus Delivery Alarm} {l : Level} {d : Delivery}
    {refusal : Option Refusal} (h : b.offer l d = (refusal, b')) (l' : Level) :
    b'.queue l' = if refusal = none ∧ l' = l then b.queue l ++ [d] else b.queue l' := by
  have hqueue := Bus.queue_offer b l l' d
  rwa [h] at hqueue

theorem conserved_of_traffic {b b' : Bus Delivery Alarm} {now : List Happening}
    (h : Traffic b now b') : Conserved b now b' := by
  cases h with
  | quiet silent lanes =>
    exact conserved_of_silent silent fun l => congrArg Bus.Lane.queue (lanes l)
  | reset silent => exact conserved_of_silent silent fun l => Bus.queue_resetCounters b l
  | @offer l d refusal _ later offered silent =>
    intro l'
    -- What is recorded behind the offer, an alarm at most, is not about the bus.
    rw [takenAt_offered, acceptedAt_offered, takenAt_of_silent silent,
      acceptedAt_of_silent silent, queue_of_offer offered]
    by_cases hl : l' = l
    · subst hl
      cases refusal <;> simp
    · have hne : l ≠ l' := fun heq => hl heq.symm
      simp [hl, hne]
  | @take l d _ taken =>
    intro l'
    rw [Bus.queue_of_takeFrom? taken l']
    by_cases hl : l' = l
    · subst hl
      simp
    · have hne : l ≠ l' := fun heq => hl heq.symm
      simp [hl, hne]
  | settle l =>
    intro l'
    rw [Bus.queue_settle]
    exact (List.append_nil _).symm

/-- A level holds no more than it has room for. -/
def Bounded (b : Bus Delivery Alarm) : Prop := ∀ l, b.queued l ≤ l.capacity

theorem bounded_of_queue {b b' : Bus Delivery Alarm} (h : Bounded b)
    (hqueue : ∀ l, b'.queue l = b.queue l) : Bounded b' := by
  intro l
  rw [Bus.queued, hqueue]
  exact h l

theorem bounded_offer {b b' : Bus Delivery Alarm} {l : Level} {d : Delivery}
    {refusal : Option Refusal} (h : Bounded b) (hoffer : b.offer l d = (refusal, b')) :
    Bounded b' := by
  intro l'
  rw [Bus.queued, queue_of_offer hoffer]
  split
  · rename_i haccepted
    obtain ⟨rfl, rfl⟩ := haccepted
    -- It was accepted, so there was room for one more.
    have hroom : b.queued l' < l'.capacity := by
      rw [Bus.offer] at hoffer
      dsimp only at hoffer
      split at hoffer
      · cases hoffer
      split at hoffer
      · rename_i hroom
        rwa [Bus.queued, Bus.queue_count] at hroom
      · cases hoffer
    rw [List.length_append]
    exact hroom
  · exact h l'

theorem bounded_of_traffic {b b' : Bus Delivery Alarm} {now : List Happening}
    (h : Traffic b now b') (hb : Bounded b) : Bounded b' := by
  cases h with
  | quiet silent lanes => exact bounded_of_queue hb fun l => congrArg Bus.Lane.queue (lanes l)
  | reset silent => exact bounded_of_queue hb fun l => Bus.queue_resetCounters b l
  | offer offered silent => exact bounded_offer hb offered
  | @take l d _ taken =>
    intro l'
    have hqueue := Bus.queue_of_takeFrom? taken l'
    have hl' := hb l'
    rw [Bus.queued, hqueue] at hl'
    split at hl'
    · rename_i heq
      subst heq
      exact Nat.le_of_succ_le hl'
    · exact hl'
  | settle l => exact bounded_of_queue hb fun l' => Bus.queue_settle b l l'

/-- A refused offer leaves both queues as they were. -/
theorem queue_of_refused {b b' : Bus Delivery Alarm} {now : List Happening} {l : Level}
    {d : Delivery} {cause : Refusal} (h : Traffic b now b')
    (hrefused : Happening.offered l d (some cause) ∈ now) (l' : Level) :
    b'.queue l' = b.queue l' := by
  cases h with
  | quiet silent lanes => exact congrArg Bus.Lane.queue (lanes l')
  | reset silent => exact Bus.queue_resetCounters b l'
  | offer offered silent =>
    rcases List.mem_cons.mp hrefused with heq | hlater
    · cases heq
      simpa using queue_of_offer offered l'
    · cases silent _ hlater
  | take taken => simp at hrefused
  | settle l => exact Bus.queue_settle b l l'

/-! ## Schedules -/

theorem conserved_run (p : Parties) (turns : List Turn) :
    Conserved p.node.bus (p.run turns).1 (p.run turns).2.node.bus := by
  induction turns generalizing p with
  | nil => exact conserved_of_traffic (.same _)
  | cons turn turns ih =>
    intro l
    -- The queue after the first turn joins what it did and what the others do.
    have hnow := conserved_of_traffic (traffic_play p turn) l
    have hlater := ih (p.play turn).2 l
    simp only [Parties.run, takenAt_append, acceptedAt_append, List.append_assoc]
    rw [hlater, ← List.append_assoc, hnow, List.append_assoc]

theorem bounded_run {p : Parties} (h : Bounded p.node.bus) (turns : List Turn) :
    Bounded (p.run turns).2.node.bus := by
  induction turns generalizing p with
  | nil => exact h
  | cons turn turns ih => exact ih (bounded_of_traffic (traffic_play p turn) h)

/-- Whatever the parties do after the bus was made, and in whatever order: at each level,
the deliveries taken so far followed by those queued are the deliveries accepted, in order;
the places taken and the free ones are all there are; and whatever comes next, an offer that
is refused leaves both queues as they are. -/
theorem taken_append_queue (wait : UInt32) (node : Node) (reactions : Bank Caller Reaction)
    (turns : List Turn) :
    let start := Parties.begin { node with bus := .fresh wait } reactions
    let past := (start.run turns).1
    let p := (start.run turns).2
    (∀ l, takenAt l past ++ p.node.bus.queue l = acceptedAt l past ∧
      p.node.bus.queued l ≤ l.capacity ∧
      p.node.bus.queued l + p.node.bus.freeSlots l = l.capacity) ∧
    ∀ turn l d cause, .offered l d (some cause) ∈ (p.play turn).1 →
      ∀ l', (p.play turn).2.node.bus.queue l' = p.node.bus.queue l' := by
  intro start past p
  refine ⟨fun l => ?_, fun turn l d cause hrefused l' => ?_⟩
  · have hqueue : start.node.bus.queue l = [] := Bus.queue_fresh wait l
    have hconserved := conserved_run start turns l
    have hbounded : p.node.bus.queued l ≤ l.capacity := by
      refine bounded_run (p := start) (fun l => ?_) turns l
      rw [Bus.queued, show start.node.bus.queue l = [] from Bus.queue_fresh wait l]
      exact Nat.zero_le _
    rw [hqueue, List.nil_append] at hconserved
    refine ⟨hconserved, hbounded, ?_⟩
    rw [Bus.freeSlots]
    exact Nat.add_sub_cancel' hbounded
  · exact queue_of_refused (traffic_play p turn) hrefused l'

/-- Whether a delivery was offered at a level and found its queue full. -/
def Happening.isOverflow (l : Level) : Happening → Bool
  | .offered l' _ (some .queueFull) => l' = l
  | _ => false

theorem Happening.eq_of_isOverflow {l : Level} {a : Happening} (h : a.isOverflow l = true) :
    ∃ d, a = .offered l d (some .queueFull) := by
  simp only [isOverflow] at h
  split at h
  · rename_i d
    obtain rfl := of_decide_eq_true h
    exact ⟨d, rfl⟩
  · cases h

/-- The fifth publication in a row is refused at the high level. -/
theorem taken_append_queue_full :
    let node : Node := ((Node.fresh 10 ["timer"]).subscribe 0 (.outside 0) .blank).2
    let turns : List Turn := .enter .main
      (.op .start :: List.replicate 5 (.publish 0 0 .high .interrupt)) ::
        List.replicate 15 (.step 0)
    let p := ((Parties.begin { node with bus := .fresh 10 } (.filled .idle)).run turns).2
    ∃ d, .offered .high d (some .queueFull) ∈ (p.play (.step 0)).1 ∧
      (p.play (.step 0)).2.node.bus.queue .high = List.replicate 4 (.tick 0 0) := by
  intro node turns p
  have hqueue : p.node.bus.queue .high = List.replicate 4 (.tick 0 0) := by decide +kernel
  have hoffered : (p.play (.step 0)).1.any (Happening.isOverflow .high) = true := by
    decide +kernel
  -- Nothing else about the schedule is computed.
  clear_value turns
  obtain ⟨a, hmem, hoverflow⟩ := List.any_eq_true.mp hoffered
  obtain ⟨d, rfl⟩ := Happening.eq_of_isOverflow hoverflow
  obtain ⟨_, hkeeps⟩ := taken_append_queue 10 node (.filled .idle) turns
  exact ⟨d, hmem, (hkeeps _ _ _ _ hmem .high).trans hqueue⟩

end NodeBus.Session
