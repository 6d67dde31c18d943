import NodeBus.Proofs.Session.Answers
import NodeBus.Proofs.Session.Balance
import NodeBus.Proofs.Session.Deeds

/-!
# Backpressure

While nothing is taken, a level takes as many offers as it has free places and refuses the others.
`Filled` says so of any number of offers: one small thing keeps it (`filled_of_move`), and it can be
chained (`Filled.trans`, `filled_run`), so that it holds along a schedule in which any parties
publish. Which offer a call makes decides what it answers, and whether it raises the alarm.
-/

namespace NodeBus.Session

/-! ## What a history says about offers -/

/-- The delivery that was offered at a level, with the refusal if there was one. -/
def Happening.offered? (l : Level) : Happening → Option (Delivery × Option Refusal)
  | .offered l' d refusal => if l' = l then some (d, refusal) else none
  | _ => none

def offeredAt (l : Level) (past : List Happening) : List (Delivery × Option Refusal) :=
  past.filterMap (Happening.offered? l)

section History

variable (l l' : Level) (d : Delivery)

@[simp] theorem offeredAt_append (past later : List Happening) :
    offeredAt l (past ++ later) = offeredAt l past ++ offeredAt l later := List.filterMap_append

@[simp] theorem offeredAt_offered (refusal : Option Refusal) (later : List Happening) :
    offeredAt l (.offered l' d refusal :: later) =
      if l' = l then (d, refusal) :: offeredAt l later else offeredAt l later := by
  by_cases h : l' = l <;> simp [offeredAt, Happening.offered?, h]

@[simp] theorem offeredAt_taken : offeredAt l [.taken l' d] = [] := rfl

@[simp] theorem offeredAt_settled (backlog : Nat) : offeredAt l [.settled l' backlog] = [] := rfl

theorem offeredAt_of_silent {now : List Happening} (h : Silent now) : offeredAt l now = [] := by
  refine filterMap_of_silent h fun a ha => ?_
  cases a with
  | offered => cases ha
  | _ => rfl

end History

/-! ## Filling a level -/

/-- What a level makes of offers while nothing is taken from it. -/
structure Filled (b b' : Bus Delivery Alarm) (l : Level)
    (offers : List (Delivery × Option Refusal)) : Prop where
  queue : b'.queue l = b.queue l ++ (offers.take (b.freeSlots l)).map Prod.fst
  refusal : ∀ i offer, offers[i]? = some offer →
    offer.2 = if i < b.freeSlots l then none else some .queueFull
  published : (b'.counters l).published = (b.counters l).published + .ofNat offers.length
  overflowed : (b'.counters l).overflowed =
    (b.counters l).overflowed + .ofNat (offers.length - b.freeSlots l)

section Filled

variable {b b' b'' : Bus Delivery Alarm} {l : Level}
  {offers offers' : List (Delivery × Option Refusal)}

theorem Filled.none (queue : b'.queue l = b.queue l)
    (published : (b'.counters l).published = (b.counters l).published)
    (overflowed : (b'.counters l).overflowed = (b.counters l).overflowed) :
    Filled b b' l [] := by
  constructor <;> simp [queue, published, overflowed]

theorem Filled.freeSlots (h : Filled b b' l offers) :
    b'.freeSlots l = b.freeSlots l - offers.length := by
  have hlength := congrArg List.length h.queue
  simp only [List.length_append, List.length_map, List.length_take, Bus.freeSlots,
    Bus.queued] at hlength ⊢
  omega

theorem Filled.trans (h : Filled b b' l offers) (h' : Filled b' b'' l offers') :
    Filled b b'' l (offers ++ offers') := by
  have hfree := h.freeSlots
  constructor
  · rw [h'.queue, h.queue, hfree, List.take_append, List.map_append, List.append_assoc]
  · intro i offer hi
    rw [List.getElem?_append] at hi
    split at hi
    · exact h.refusal i offer hi
    · rename_i hlength
      rw [h'.refusal _ offer hi, hfree]
      congr 1
      exact propext (by omega)
  · rw [h'.published, h.published, List.length_append, UInt32.ofNat_add, UInt32.add_assoc]
  · rw [h'.overflowed, h.overflowed, hfree, UInt32.add_assoc, ← UInt32.ofNat_add,
      List.length_append]
    congr 2
    omega

/-- A bus that is started refuses only what it has no room for. -/
theorem offer_refusal (hstarted : b.started = true) (l : Level) (d : Delivery) :
    (b.offer l d).1 = if 0 < b.freeSlots l then none else some .queueFull := by
  have hcount : (b.count l .countAttempt).started = true := by
    rw [(controls_count b l _).started, hstarted]
  simp only [Bus.offer, hcount, Bus.queued, Bus.queue_count, Bus.freeSlots, Nat.sub_pos_iff_lt,
    Bool.not_true, Bool.false_eq_true, if_false]
  split <;> rfl

theorem queue_of_started (hstarted : b.started = true) (l l' : Level) (d : Delivery) :
    (b.offer l d).2.queue l' =
      if decide (0 < b.freeSlots l) = true ∧ l' = l then b.queue l' ++ [d] else b.queue l' := by
  rw [Bus.queue_offer, offer_refusal hstarted]
  by_cases hl : l' = l
  · by_cases hfree : 0 < b.freeSlots l <;> simp [hl, hfree]
  · simp [hl]

theorem counters_of_started (hstarted : b.started = true) (l l' : Level) (d : Delivery) :
    (b.offer l d).2.counters l' =
      if l' = l then
        if decide (0 < b.freeSlots l) = true then (b.counters l').countAttempt
        else (b.counters l').countAttempt.countOverflow
      else b.counters l' := by
  rw [Bus.counters_offer, offer_refusal hstarted]
  by_cases hl : l' = l
  · by_cases hfree : 0 < b.freeSlots l <;> simp [hl, hfree]
  · simp [hl]

theorem filled_of_offer {d : Delivery} {refusal : Option Refusal} (hstarted : b.started = true)
    (h : b.offer l d = (refusal, b')) : Filled b b' l [(d, refusal)] := by
  have hrefusal := offer_refusal hstarted l d
  have hqueue := queue_of_started hstarted l l d
  have hcounters := counters_of_started hstarted l l d
  rw [h] at hrefusal hqueue hcounters
  dsimp only at hrefusal hqueue hcounters
  -- There is one offer, of number 0.
  have hrefusals : ∀ i offer, [(d, refusal)][i]? = some offer →
      offer.2 = if i < b.freeSlots l then none else some .queueFull := by
    intro i offer hi
    rw [List.getElem?_singleton] at hi
    split at hi
    · rename_i hzero
      subst hzero
      cases hi
      exact hrefusal
    · cases hi
  by_cases hfree : 0 < b.freeSlots l
  · obtain ⟨room, hroom⟩ := Nat.exists_eq_add_of_lt hfree
    refine ⟨?_, hrefusals, ?_, ?_⟩
    · simp [hqueue, hroom]
    · simp [hcounters, hfree, Bus.Counters.countAttempt]
    · simp [hcounters, hroom, Bus.Counters.countAttempt]
  · obtain hroom : b.freeSlots l = 0 := Nat.eq_zero_of_not_pos hfree
    refine ⟨?_, hrefusals, ?_, ?_⟩
    · simp [hqueue, hroom]
    · simp [hcounters, hroom, Bus.Counters.countAttempt, Bus.Counters.countOverflow]
    · simp [hcounters, hroom, Bus.Counters.countAttempt, Bus.Counters.countOverflow]

theorem filled_of_taken {l' : Level} {d : Delivery} (h : b.takeFrom? l' = some (d, b'))
    (hl : l' ≠ l) : Filled b b' l [] := by
  have hcounters := Bus.counters_of_takeFrom? h l
  refine .none ?_ (by rw [hcounters]) (by rw [hcounters])
  rw [Bus.queue_of_takeFrom? h l, if_neg (Ne.symm hl)]

theorem filled_of_move {r : Role} {old new : List Engagement} {now : List Happening}
    (h : Move b r old now b' new) (hr : r ≠ .resetting) (hstarted : b.started = true)
    (htaken : takenAt l now = []) : Filled b b' l (offeredAt l now) := by
  cases h with
  | aside _ silent lanes =>
    rw [offeredAt_of_silent l silent]
    exact .none (congrArg Bus.Lane.queue (lanes l)) (by rw [Bus.counters, lanes]; rfl)
      (by rw [Bus.counters, lanes]; rfl)
  | reset _ => exact absurd rfl hr
  | @offer l' d refusal _ later offered silent =>
    rw [offeredAt_offered, offeredAt_of_silent l silent]
    by_cases hl : l' = l
    · subst hl
      rw [if_pos rfl]
      exact filled_of_offer hstarted offered
    · have hcounters := Bus.counters_offer b l' l d
      rw [offered, if_neg (Ne.symm hl)] at hcounters
      rw [if_neg hl]
      refine .none ?_ (congrArg _ hcounters) (congrArg _ hcounters)
      rw [queue_of_offer offered, if_neg (fun h => hl h.2.symm)]
  | take _ taken => exact filled_of_taken taken (by simpa using htaken)
  | settle l' =>
    rw [offeredAt_settled]
    refine .none (Bus.queue_settle b l' l) ?_ ?_ <;>
      (simp only [Bus.settle, Bus.counters_count]; split <;> simp_all [Bus.Counters.countDelivery])
  | shift silent _ =>
    rw [offeredAt_of_silent l silent]
    exact .none rfl rfl rfl

/-- What a level has counted of deliveries. -/
def deliveryCounts (b : Bus Delivery Alarm) (l : Level) : UInt32 × UInt8 :=
  ((b.counters l).dispatched, (b.counters l).highWater)

theorem deliveryCounts_of_move {r : Role} {old new : List Engagement} {now : List Happening}
    (h : Move b r old now b' new) (hr : r ≠ .resetting) (hsettled : settledAt l now = []) :
    deliveryCounts b' l = deliveryCounts b l := by
  cases h with
  | aside _ _ lanes => simp only [deliveryCounts, Bus.counters, lanes]
  | reset _ => exact absurd rfl hr
  | @offer l' d refusal _ later offered _ =>
    have hcounters := Bus.counters_offer b l' l d
    rw [offered] at hcounters
    rw [deliveryCounts, hcounters]
    by_cases hl : l = l'
    · subst hl
      by_cases hfull : refusal = some .queueFull <;>
        simp [hfull, deliveryCounts, Bus.Counters.countAttempt, Bus.Counters.countOverflow]
    · simp [hl, deliveryCounts]
  | take _ taken => simp only [deliveryCounts, Bus.counters_of_takeFrom? taken]
  | settle l' =>
    have hl : l' ≠ l := by simpa using hsettled
    simp [deliveryCounts, Bus.settle, Ne.symm hl]
  | shift => rfl

end Filled

theorem filled_run {p : Parties} {turns : List Turn} {l : Level}
    (hstarted : p.node.bus.started = true) (hreset : p.Unreset turns)
    (htaken : takenAt l (p.run turns).1 = []) :
    Filled p.node.bus (p.run turns).2.node.bus l (offeredAt l (p.run turns).1) := by
  induction turns generalizing p with
  | nil => exact .none rfl rfl rfl
  | cons turn turns ih =>
    obtain ⟨hrole, hlater⟩ := hreset
    simp only [Parties.run, takenAt_append, List.append_eq_nil_iff] at htaken ⊢
    obtain ⟨_, _, hmove, _⟩ := move_play p turn
    have hnow := filled_of_move hmove hrole hstarted htaken.1
    rw [offeredAt_append]
    exact hnow.trans (ih ((deed_play p turn).started hstarted) hlater htaken.2)

theorem deliveryCounts_run {p : Parties} {turns : List Turn} {l : Level}
    (hreset : p.Unreset turns) (hsettled : settledAt l (p.run turns).1 = []) :
    deliveryCounts (p.run turns).2.node.bus l = deliveryCounts p.node.bus l := by
  induction turns generalizing p with
  | nil => rfl
  | cons turn turns ih =>
    obtain ⟨hrole, hlater⟩ := hreset
    simp only [Parties.run, settledAt_append, List.append_eq_nil_iff] at hsettled ⊢
    obtain ⟨_, _, hmove, _⟩ := move_play p turn
    rw [ih hlater hsettled.2, deliveryCounts_of_move hmove hrole hsettled.1]

/-! ## Attempts -/

/-- The publication that an intent comes to. -/
def Intent.publication? : Intent → Option Publication
  | .publication pub => some pub
  | .command _ false => some .ofCommand
  | _ => none

/-- The publication that a turn attempts, if somebody listens. -/
def Parties.attempt? (p : Parties) (turn : Turn) : Option Publication :=
  (p.intent turn).publication?.filter fun pub => !(p.node.audience pub.delivery).isEmpty

def Parties.attempts (p : Parties) : List Turn → List Publication
  | [] => []
  | turn :: turns => (p.attempt? turn).toList ++ (p.play turn).2.attempts turns

/-- The alarms that an attempt raises. -/
def rung (n : Node) (pub : Publication) (accepted : Bool) : List Alarm :=
  if accepted then [] else (n.alarmFor pub.origin).toList

/-- What is recorded of an attempt on a bus that is started. -/
def attempted (n : Node) (pub : Publication) (accepted : Bool) : List Happening :=
  .offered pub.level pub.delivery (if accepted then none else some .queueFull) ::
    (rung n pub accepted).map (.alarmed · .queueFull (n.topicOf pub.delivery).name)

/-- Whether a record is left by attempts only. -/
def Happening.isAttempt : Happening → Bool
  | .offered .. | .alarmed .. => true
  | _ => false

section Attempt

variable {n : Node} {pub : Publication}

theorem outcome_of_heard (hstarted : n.bus.started = true)
    (hheard : n.audience pub.delivery ≠ []) :
    n.outcome pub = (if 0 < n.bus.freeSlots pub.level then .queued else .refused .queueFull) ∧
      n.published pub = { n with bus := (n.bus.offer pub.level pub.delivery).2 } := by
  have hrefusal := offer_refusal hstarted pub.level pub.delivery
  simp only [Node.outcome, Node.published, Node.publish, List.isEmpty_iff, hheard, if_false,
    hrefusal, and_true]
  by_cases hfree : 0 < n.bus.freeSlots pub.level
  · simp [hfree]
  · simp [hfree]

theorem isDone_of_heard (hstarted : n.bus.started = true)
    (hheard : n.audience pub.delivery ≠ []) :
    (n.outcome pub).isDone = decide (0 < n.bus.freeSlots pub.level) := by
  rw [(outcome_of_heard hstarted hheard).1]
  by_cases hfree : 0 < n.bus.freeSlots pub.level <;> simp [hfree, Node.Outcome.isDone]

theorem raised_of_heard (hstarted : n.bus.started = true)
    (hheard : n.audience pub.delivery ≠ []) :
    (n.raised pub).toList = rung n pub (decide (0 < n.bus.freeSlots pub.level)) := by
  rw [Node.raised, (outcome_of_heard hstarted hheard).1]
  by_cases hfree : 0 < n.bus.freeSlots pub.level <;> simp [hfree, rung]

theorem announce_of_heard (hstarted : n.bus.started = true)
    (hheard : n.audience pub.delivery ≠ []) :
    announce n pub = attempted n pub (decide (0 < n.bus.freeSlots pub.level)) := by
  rw [announce, (outcome_of_heard hstarted hheard).1]
  by_cases hfree : 0 < n.bus.freeSlots pub.level
  · simp [attempted, rung, hfree]
  · simp [attempted, rung, hfree]

theorem outcome_of_unheard (hunheard : n.audience pub.delivery = []) :
    n.outcome pub = .unheard ∧ n.published pub = n := by
  simp [Node.outcome, Node.published, Node.publish, hunheard]

theorem announce_of_unheard (hunheard : n.audience pub.delivery = []) : announce n pub = [] := by
  rw [announce, (outcome_of_unheard hunheard).1]

theorem not_isAttempt_of_ending {now : List Happening} (h : Ending now) :
    ∀ a ∈ now, a.isAttempt = false := by
  rcases h with rfl | ⟨who, action, reply, rfl⟩
  · simp
  · simp [Happening.isAttempt]

theorem announce_congr {n' : Node} (hbus : n'.bus = n.bus)
    (htopic : n'.topicOf pub.delivery = n.topicOf pub.delivery) :
    announce n' pub = announce n pub := by
  have houtcome : n'.outcome pub = n.outcome pub := by
    simp only [Node.outcome, Node.publish, Node.audience, htopic, hbus]
    by_cases h : (n.topicOf pub.delivery).roster.entries.isEmpty = true
    · simp only [h, if_true]
    · simp only [h]
      rfl
  simp only [announce, houtcome, htopic, Node.alarmFor, hbus]

/-- What a turn records of attempts is what it records of the publication that it comes to. -/
theorem recorded_of_deed {i : Intent} {now : List Happening} {n' : Node} (h : Deed n i now n') :
    match i.publication? with
    | some pub => now = announce n pub
    | none => ∀ a ∈ now, a.isAttempt = false := by
  cases h with
  | operation ending => exact not_isAttempt_of_ending ending
  | publication pub => rfl
  | advance | tell | clock | claim => simp [Intent.publication?]
  | dispatch request => exact announce_congr rfl rfl
  | rest ending => exact not_isAttempt_of_ending ending
  | take | settle | hear | pause => simp [Intent.publication?, Happening.isAttempt]

end Attempt

section Attempts

variable {p : Parties} {turn : Turn} {pub : Publication}

theorem play_of_attempt (hstarted : p.node.bus.started = true)
    (h : p.attempt? turn = some pub) :
    (p.play turn).1 = attempted p.node pub (decide (0 < p.node.bus.freeSlots pub.level)) := by
  obtain ⟨hpub, hheard⟩ := Option.filter_eq_some_iff.mp h
  have hrecorded := recorded_of_deed (deed_play p turn)
  rw [hpub] at hrecorded
  exact hrecorded.trans (announce_of_heard hstarted (by simpa using hheard))

theorem play_of_no_attempt (h : p.attempt? turn = none) :
    ∀ a ∈ (p.play turn).1, a.isAttempt = false := by
  have hrecorded := recorded_of_deed (deed_play p turn)
  cases hpub : (p.intent turn).publication? with
  | none =>
    rw [hpub] at hrecorded
    exact hrecorded
  | some pub =>
    rw [hpub] at hrecorded
    have hunheard : p.node.audience pub.delivery = [] := by
      simpa [Parties.attempt?, hpub, Option.filter] using h
    rw [hrecorded, announce_of_unheard hunheard]
    simp

theorem offeredAt_of_no_attempt {now : List Happening} (h : ∀ a ∈ now, a.isAttempt = false)
    (l : Level) : offeredAt l now = [] := by
  refine List.filterMap_eq_nil_iff.mpr fun a ha => ?_
  have hother := h a ha
  cases a with
  | offered => cases hother
  | _ => rfl

theorem offeredAt_attempted (n : Node) (pub : Publication) (accepted : Bool) (l : Level) :
    (offeredAt l (attempted n pub accepted)).map Prod.fst =
      if pub.level = l then [pub.delivery] else [] := by
  rw [attempted, offeredAt_offered, offeredAt_of_silent]
  · by_cases hl : pub.level = l <;> simp [hl]
  · intro a ha
    obtain ⟨alarm, _, rfl⟩ := List.mem_map.mp ha
    rfl

theorem offered_run (hstarted : p.node.bus.started = true) (l : Level) (turns : List Turn) :
    (offeredAt l (p.run turns).1).map Prod.fst =
      ((p.attempts turns).filter (·.level = l)).map Publication.delivery := by
  induction turns generalizing p with
  | nil => rfl
  | cons turn turns ih =>
    have hlater := ih ((deed_play p turn).started hstarted)
    simp only [Parties.run, offeredAt_append, List.map_append, Parties.attempts,
      List.filter_append, hlater, List.append_cancel_right_eq]
    cases h : p.attempt? turn with
    | none =>
      rw [offeredAt_of_no_attempt (play_of_no_attempt h)]
      rfl
    | some pub =>
      rw [play_of_attempt hstarted h, offeredAt_attempted]
      by_cases hl : pub.level = l <;> simp [hl]

end Attempts

/-! ## Calls -/

@[simp] theorem Machine.ring_stack (m : Machine) (raised : Option Alarm) :
    (m.ring raised).stack = raised.toList.map (fun alarm =>
      .code (.hook alarm.hook) (m.reactions.get (.hook alarm.hook)).next) ++ m.stack := by
  cases raised <;> rfl

theorem perform_of_publication {m : Machine} {action : Action} {pub : Publication}
    (h : action.intent = .publication pub) :
    m.perform action = (m.push [.acting action]).publish pub.delivery pub.level pub.origin
      fun isDone _ => .flag isDone := by
  cases action with
  | publish | publishNotice =>
    cases h
    rfl
  | dispatch order atOnce stream =>
    simp only [Action.intent] at h
    split at h <;> cases h
  | _ => cases h

section Call

variable (p : Parties) (party : Nat) (action : Action) (pub : Publication)
  (below : List Activity)

/-- A call that publishes to listeners, on a bus that is started. -/
structure Publishes (accepted : Bool) : Prop where
  recorded : (p.play (.step party)).1 = attempted p.node pub accepted
  node : (p.play (.step party)).2.node =
    { p.node with bus := (p.play (.step party)).2.node.bus }
  queue : ∀ l, (p.play (.step party)).2.node.bus.queue l =
    if accepted = true ∧ l = pub.level then p.node.bus.queue l ++ [pub.delivery]
    else p.node.bus.queue l
  counters : ∀ l, (p.play (.step party)).2.node.bus.counters l =
    if l = pub.level then
      if accepted then (p.node.bus.counters l).countAttempt
      else (p.node.bus.counters l).countAttempt.countOverflow
    else p.node.bus.counters l
  /-- The hook of the alarm, if one is raised, runs before the answer. -/
  ongoing : (p.play (.step party)).2.ongoing[party]? = some
    ((rung p.node pub accepted).map (fun alarm =>
        .code (.hook alarm.hook) (p.reactions.get (.hook alarm.hook)).next) ++
      .answer (fun _ => .flag accepted) :: .acting action :: below)
  awaited : ∀ later,
    Awaited (p.play (.step party)).2 party action (fun _ => .flag accepted) below later
  answered : ∀ (later : List Turn) (ops : List Operation),
    (∀ alarm ∈ rung p.node pub accepted,
      (p.reactions.get (.hook alarm.hook)).next = ops.map .op) →
    2 * ops.length + 2 ≤ later.countP (Turn.isOf party) →
    Answered (p.play (.step party)).2 party action (fun _ => .flag accepted) below later

/-- A call that publishes to nobody. -/
structure Unheard : Prop where
  played : p.play (.step party) = ([], { p with
    ongoing := p.ongoing.set party (.answer (fun _ => .flag true) :: .acting action :: below) })
  answered : ∀ later, 1 ≤ later.countP (Turn.isOf party) →
    Answered (p.play (.step party)).2 party action (fun _ => .flag true) below later

end Call

section Call

variable {p : Parties} {party : Nat} {action : Action} {pub : Publication}
  {below : List Activity}

theorem play_of_publication (hongoing : p.ongoing[party]? = some (.act action :: below))
    (hintent : action.intent = .publication pub) :
    let m : Machine := ⟨p.node.published pub, p.reactions,
      .answer (fun _ => .flag (p.node.outcome pub).isDone) :: .acting action :: below⟩
    let m' := m.ring (p.node.raised pub)
    p.play (.step party) =
      (announce p.node pub, ⟨m'.node, m'.reactions, p.ongoing.set party m'.stack⟩) := by
  intro m m'
  refine play_of_step hongoing ?_
  have hstep : (p.machine (.act action :: below)).step =
      some ((p.machine below).perform action) := rfl
  rw [hstep, perform_of_publication hintent, publish_eq]
  rfl

theorem publishes_of_heard (hstarted : p.node.bus.started = true)
    (hongoing : p.ongoing[party]? = some (.act action :: below))
    (hintent : action.intent = .publication pub) (hheard : p.node.audience pub.delivery ≠ []) :
    Publishes p party action pub below (decide (0 < p.node.bus.freeSlots pub.level)) := by
  have hlt := (List.getElem?_eq_some_iff.mp hongoing).1
  have hplay := play_of_publication hongoing hintent
  have hpublished := (outcome_of_heard hstarted hheard).2
  have hraised := raised_of_heard hstarted hheard
  have hnode : (p.play (.step party)).2.node =
      { p.node with bus := (p.node.bus.offer pub.level pub.delivery).2 } := by
    rw [hplay, ← hpublished]
    exact Machine.ring_node ..
  have hstack : (p.play (.step party)).2.ongoing[party]? = some
      ((rung p.node pub (decide (0 < p.node.bus.freeSlots pub.level))).map (fun alarm =>
          .code (.hook alarm.hook) (p.reactions.get (.hook alarm.hook)).next) ++
        .answer (fun _ => .flag (decide (0 < p.node.bus.freeSlots pub.level))) ::
          .acting action :: below) := by
    rw [hplay]
    refine (List.getElem?_set_self hlt).trans ?_
    rw [Machine.ring_stack, hraised, isDone_of_heard hstarted hheard]
  refine ⟨?_, ?_, fun l => ?_, fun l => ?_, hstack, fun later => awaited _ hstack, ?_⟩
  · rw [hplay]
    exact announce_of_heard hstarted hheard
  · rw [hnode]
  · rw [hnode]
    exact queue_of_started hstarted pub.level l pub.delivery
  · rw [hnode]
    exact counters_of_started hstarted pub.level l pub.delivery
  · intro later ops hops hturns
    rw [← hraised] at hstack hops
    exact due_rung _ p.reactions ops hops _ later hstack
      (along_of_forall (fun _ _ => trivial) _ later) hturns

theorem unheard_of_quiet (hongoing : p.ongoing[party]? = some (.act action :: below))
    (hintent : action.intent = .publication pub) (hunheard : p.node.audience pub.delivery = []) :
    Unheard p party action below := by
  have hlt := (List.getElem?_eq_some_iff.mp hongoing).1
  have hplay := play_of_publication hongoing hintent
  obtain ⟨houtcome, hpublished⟩ := outcome_of_unheard hunheard
  rw [announce_of_unheard hunheard, hpublished, Node.raised, houtcome] at hplay
  have hstack : (p.play (.step party)).2.ongoing[party]? =
      some (.answer (fun _ => .flag true) :: .acting action :: below) := by
    rw [hplay]
    exact List.getElem?_set_self hlt
  exact ⟨hplay, fun later => answered_of_ready hstack⟩

end Call

/-- Wherever a started bus is, and whatever the parties then do without a delivery being taken or
the counters reset: each level takes as many of the attempts made at it as it had free places,
in order, refuses the others, and counts both; its other counts stay unless a delivery ends that
was under way. What an attempt records, alarms included, is decided by how many were made before
it, and nothing else records an offer or raises an alarm. Every call that publishes to listeners
is such an attempt, and is answered whether it was accepted, after its hook, if that does nothing
but operations. A call that publishes to nobody is answered that it is done and leaves all as it
is, on any bus. -/
theorem backpressure_exact (p : Parties) (turns : List Turn)
    (hstarted : p.node.bus.started = true) (hreset : p.Unreset turns)
    (htaken : ∀ l, takenAt l (p.run turns).1 = []) :
    let past := (p.run turns).1
    let q := (p.run turns).2
    let accepted (l : Level) := decide ((offeredAt l past).length < p.node.bus.freeSlots l)
    (∀ l, Filled p.node.bus q.node.bus l (offeredAt l past) ∧
      (offeredAt l past).map Prod.fst =
        ((p.attempts turns).filter (·.level = l)).map Publication.delivery ∧
      (settledAt l past = [] → deliveryCounts q.node.bus l = deliveryCounts p.node.bus l)) ∧
    (∀ turn,
      (∀ pub, q.attempt? turn = some pub →
        (q.play turn).1 = attempted q.node pub (accepted pub.level)) ∧
      (q.attempt? turn = none → ∀ a ∈ (q.play turn).1, a.isAttempt = false)) ∧
    (∀ party action pub below, q.ongoing[party]? = some (.act action :: below) →
      action.intent = .publication pub → q.node.audience pub.delivery ≠ [] →
        Publishes q party action pub below (accepted pub.level)) ∧
    ∀ (q : Parties) (party : Nat) (action : Action) (pub : Publication) (below : List Activity),
      q.ongoing[party]? = some (.act action :: below) → action.intent = .publication pub →
        q.node.audience pub.delivery = [] → Unheard q party action below := by
  intro past q accepted
  have hfilled (l : Level) : Filled p.node.bus q.node.bus l (offeredAt l past) :=
    filled_run hstarted hreset (htaken l)
  have hopen : q.node.bus.started = true := started_run hstarted turns
  have haccepted (l : Level) : decide (0 < q.node.bus.freeSlots l) = accepted l := by
    simp only [accepted, (hfilled l).freeSlots, Nat.sub_pos_iff_lt]
  refine ⟨fun l => ⟨hfilled l, offered_run hstarted l turns, deliveryCounts_run hreset⟩,
    fun turn => ⟨fun pub hpub => ?_, play_of_no_attempt⟩, ?_,
    fun q party action pub below => unheard_of_quiet⟩
  · rw [← haccepted]
    exact play_of_attempt hopen hpub
  · intro party action pub below hongoing hintent hheard
    rw [← haccepted]
    exact publishes_of_heard hopen hongoing hintent hheard

/-- Both levels have one free place, which an interrupt handler and a task take. Then the task is
refused at the high level, and the alarm is raised. -/
theorem backpressure_exact_nearly_full :
    let topics := (Node.quietTopics ["timer"]).set 0 ⟨"timer", ⟨[(.outside 0, .blank)]⟩⟩
    let bus : Bus Delivery Alarm := { (Bus.fresh 10 : Bus Delivery Alarm) with
      normal := ⟨List.replicate 7 (.tick 0 0), .zero⟩
      high := ⟨List.replicate 3 (.tick 0 0), .zero⟩
      started := true
      alarm := some ⟨3, .mark 7⟩ }
    let p := Parties.begin { Node.fresh 10 [] with bus, topics } (.filled .idle)
    let program : Script := [.publish 0 1 .high .interrupt, .publish 0 2 .normal .task,
      .publish 0 3 .high .task]
    let turns := Turn.enter .main program :: List.replicate 7 (.step 0)
    let q := (p.run turns).2
    (p.node.bus.started = true ∧ p.Unreset turns ∧ ∀ l, takenAt l (p.run turns).1 = []) ∧
    q.node.bus.queue .high = List.replicate 3 (.tick 0 0) ++ [.tick 0 1] ∧
    Publishes q 0 (.publish 0 3 .high .task) ⟨.tick 0 3, .high, .task⟩ [.code .main []] false ∧
    (q.play (.step 0)).1 = [.offered .high (.tick 0 3) (some .queueFull),
      .alarmed ⟨3, .mark 7⟩ .queueFull "timer"] := by
  intro topics bus p program turns q
  have hstarted : p.node.bus.started = true := rfl
  have hreset : p.Unreset turns := by decide
  have htaken : ∀ l, takenAt l (p.run turns).1 = [] := by
    intro l
    cases l <;> rfl
  obtain ⟨hfilled, _, hcall, _⟩ := backpressure_exact p turns hstarted hreset htaken
  have hoffered : offeredAt .high (p.run turns).1 = [(.tick 0 1, none)] := rfl
  have hongoing : q.ongoing[0]? = some [.act (.publish 0 3 .high .task), .code .main []] := rfl
  have hpublishes := hcall 0 _ _ _ hongoing rfl (by decide)
  have hrecorded := hpublishes.recorded
  refine ⟨⟨hstarted, hreset, htaken⟩, ?_, hpublishes, hrecorded⟩
  have hqueue : q.node.bus.queue .high = _ := (hfilled .high).1.queue
  rw [hqueue, hoffered]
  rfl

end NodeBus.Session
