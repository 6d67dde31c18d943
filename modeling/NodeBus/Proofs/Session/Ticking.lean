import NodeBus.Proofs.Session.Commands
import NodeBus.Proofs.Session.Recasting

/-! # Ticks of the timer

A tick takes four turns of its party: it begins and reads the clock, advances its slot, looks for
space at the normal level, and is published if it has found some. Others may act in between, so
that the space it has found may be taken when it is published (`tick_overflowed_by_interrupt`).
`BeginsTick` says where the tick is before each of its turns, and `TickTurn` lists what comes of the
last one. The count of a slot follows from what any turn does to it (`Deed.count`). -/

namespace NodeBus.Session

/-! ## Offers -/

section Offer

variable {b : Bus Delivery Alarm}

theorem refusal_of_unstarted (h : b.started = false) (l : Level) (d : Delivery) :
    (b.offer l d).1 = some .notStarted := by
  have hstarted : (b.count l .countAttempt).started = false := by
    rw [(controls_count b l _).started, h]
  simp [Bus.offer, hstarted]

theorem refusal_of_started (h : b.started = true) (l : Level) (d : Delivery) :
    (b.offer l d).1 = if b.hasSpace l then none else some .queueFull := by
  simp only [offer_refusal h, Bus.hasSpace, decide_eq_true_eq]

theorem overflowed_of_refusal {l : Level} {d : Delivery} (h : (b.offer l d).1 ≠ some .queueFull)
    (l' : Level) : ((b.offer l d).2.counters l').overflowed = (b.counters l').overflowed := by
  rw [Bus.counters_offer, if_neg h]
  by_cases hl : l' = l
  · subst hl
    simp [Bus.Counters.countAttempt]
  · rw [if_neg hl]

theorem lane_offer_of_ne {l l' : Level} (hl : l' ≠ l) (d : Delivery) :
    (b.offer l d).2.lane l' = b.lane l' := by
  have hqueue := Bus.queue_offer b l l' d
  have hcounters := Bus.counters_offer b l l' d
  rw [if_neg fun h => hl h.2] at hqueue
  rw [if_neg hl] at hcounters
  calc (b.offer l d).2.lane l'
    _ = ⟨(b.offer l d).2.queue l', (b.offer l d).2.counters l'⟩ := rfl
    _ = ⟨b.queue l', b.counters l'⟩ := by rw [hqueue, hcounters]

end Offer

/-! ## The turn in which a tick is published -/

/-- What comes of a tick that has found space: what is recorded, what becomes of the bus, what is
answered, and which alarm is raised. -/
inductive TickTurn (n : Node) (topic slot : Nat) : List Happening → Bus Delivery Alarm → Bool →
    Option Alarm → Prop where
  | unheard (unheard : n.audience (.tick topic slot) = []) :
      TickTurn n topic slot [] n.bus true none
  | queued (heard : n.audience (.tick topic slot) ≠ []) (started : n.bus.started = true)
      (space : n.bus.hasSpace .normal = true) :
      TickTurn n topic slot [.offered .normal (.tick topic slot) none]
        (n.bus.offer .normal (.tick topic slot)).2 true none
  /-- The bus is not started, or others have taken the space. -/
  | refused (heard : n.audience (.tick topic slot) ≠ []) {cause : Refusal}
      (refusal : (n.bus.offer .normal (.tick topic slot)).1 = some cause)
      (lacks : n.bus.started = false ∧ cause = .notStarted ∨
        n.bus.started = true ∧ n.bus.hasSpace .normal = false ∧ cause = .queueFull) :
      TickTurn n topic slot (.offered .normal (.tick topic slot) (some cause) ::
          n.bus.alarm.toList.map (.alarmed · cause (n.topics.get topic).name))
        (n.bus.offer .normal (.tick topic slot)).2 false n.bus.alarm

theorem outcome_of_refusal {n : Node} {pub : Publication} (hheard : n.audience pub.delivery ≠ []) :
    n.outcome pub = (n.bus.offer pub.level pub.delivery).1.elim .queued .refused ∧
      n.published pub = { n with bus := (n.bus.offer pub.level pub.delivery).2 } := by
  simp only [Node.outcome, Node.published, Node.publish, List.isEmpty_iff, hheard, if_false,
    and_true]
  cases (n.bus.offer pub.level pub.delivery).1 <;> rfl

theorem tickTurn (n : Node) (topic slot : Nat) :
    let pub := Publication.ofTick topic slot
    TickTurn n topic slot (announce n pub) (n.published pub).bus (n.outcome pub).isDone
      (n.raised pub) := by
  intro pub
  by_cases hheard : n.audience (.tick topic slot) = []
  · obtain ⟨houtcome, hpublished⟩ : n.outcome pub = .unheard ∧ n.published pub = n :=
      outcome_of_unheard hheard
    rw [announce, Node.raised, houtcome, hpublished]
    exact .unheard hheard
  · obtain ⟨houtcome, hpublished⟩ :=
      outcome_of_refusal (show n.audience pub.delivery ≠ [] from hheard)
    rw [announce, Node.raised, houtcome, hpublished]
    cases hstarted : n.bus.started with
    | false =>
      have hrefusal := refusal_of_unstarted hstarted .normal (.tick topic slot)
      rw [show (n.bus.offer pub.level pub.delivery).1 = some .notStarted from hrefusal]
      exact .refused hheard hrefusal (.inl ⟨hstarted, rfl⟩)
    | true =>
      have hrefusal := refusal_of_started hstarted .normal (.tick topic slot)
      cases hspace : n.bus.hasSpace .normal with
      | false =>
        rw [hspace, if_neg Bool.false_ne_true] at hrefusal
        rw [show (n.bus.offer pub.level pub.delivery).1 = some .queueFull from hrefusal]
        exact .refused hheard hrefusal (.inr ⟨hstarted, hspace, rfl⟩)
      | true =>
        rw [hspace, if_pos rfl] at hrefusal
        rw [show (n.bus.offer pub.level pub.delivery).1 = none from hrefusal]
        exact .queued hheard hstarted hspace

section TickTurn

variable {n : Node} {topic slot : Nat} {now : List Happening} {bus : Bus Delivery Alarm}
  {answer : Bool} {raised : Option Alarm}

theorem TickTurn.overflowed (h : TickTurn n topic slot now bus answer raised)
    (hspace : n.bus.hasSpace .normal = true) (l : Level) :
    (bus.counters l).overflowed = (n.bus.counters l).overflowed := by
  cases h with
  | unheard => rfl
  | queued heard started space =>
    refine overflowed_of_refusal ?_ l
    simp [refusal_of_started started, space]
  | refused heard refusal lacks =>
    refine overflowed_of_refusal ?_ l
    rcases lacks with ⟨_, rfl⟩ | ⟨_, hfull, rfl⟩
    · simp [refusal]
    · rw [hspace] at hfull
      cases hfull

theorem TickTurn.high (h : TickTurn n topic slot now bus answer raised) :
    bus.lane .high = n.bus.lane .high := by
  cases h with
  | unheard => rfl
  | queued | refused => exact lane_offer_of_ne (by simp) _

/-- The normal level gets the tick, if it has space, somebody listens and the bus is started. -/
theorem TickTurn.queue (h : TickTurn n topic slot now bus answer raised) :
    bus.queue .normal =
      if n.bus.started && n.bus.hasSpace .normal && !(n.audience (.tick topic slot)).isEmpty then
        n.bus.queue .normal ++ [.tick topic slot]
      else n.bus.queue .normal := by
  cases h with
  | unheard unheard => simp [unheard]
  | queued heard started space =>
    simp [Bus.queue_offer, refusal_of_started started, space, heard, started]
  | refused heard refusal lacks =>
    rw [Bus.queue_offer, refusal]
    rcases lacks with ⟨hunstarted, -⟩ | ⟨-, hfull, -⟩
    · simp [hunstarted]
    · simp [hfull]

theorem TickTurn.answer_eq (h : TickTurn n topic slot now bus answer raised) :
    answer = ((n.audience (.tick topic slot)).isEmpty ||
      n.bus.started && n.bus.hasSpace .normal) := by
  cases h with
  | unheard unheard => simp [unheard]
  | queued heard started space => simp [space, started]
  | refused heard refusal lacks =>
    rcases lacks with ⟨hunstarted, -⟩ | ⟨-, hfull, -⟩
    · simp [heard, hunstarted]
    · simp [heard, hfull]

theorem TickTurn.offered (h : TickTurn n topic slot now bus answer raised) {l : Level}
    {d : Delivery} {refusal : Option Refusal} (hmem : .offered l d refusal ∈ now) :
    l = .normal ∧ d = .tick topic slot ∧
      (refusal = some .queueFull → n.bus.hasSpace .normal = false) := by
  cases h with
  | unheard => cases hmem
  | queued =>
    cases List.mem_singleton.mp hmem
    exact ⟨rfl, rfl, nofun⟩
  | refused _ _ lacks =>
    rcases List.mem_cons.mp hmem with heq | hmem
    · cases heq
      refine ⟨rfl, rfl, fun hcause => ?_⟩
      obtain rfl := Option.some.inj hcause
      rcases lacks with ⟨-, hnotFull⟩ | ⟨-, hfull, -⟩
      · cases hnotFull
      · exact hfull
    · obtain ⟨alarm, _, heq⟩ := List.mem_map.mp hmem
      cases heq

theorem TickTurn.alarmed (h : TickTurn n topic slot now bus answer raised) {alarm : Alarm}
    {name : String} (hmem : .alarmed alarm .queueFull name ∈ now) :
    n.bus.hasSpace .normal = false := by
  cases h with
  | unheard => cases hmem
  | queued => cases List.mem_singleton.mp hmem
  | refused _ _ lacks =>
    rcases List.mem_cons.mp hmem with heq | hmem
    · cases heq
    · obtain ⟨alarm', _, heq⟩ := List.mem_map.mp hmem
      cases heq
      rcases lacks with ⟨-, hnotFull⟩ | ⟨-, hfull, -⟩
      · cases hnotFull
      · exact hfull

theorem TickTurn.raised_eq (h : TickTurn n topic slot now bus answer raised) :
    raised = none ∨ raised = n.bus.alarm := by
  cases h with
  | unheard | queued => exact .inl rfl
  | refused => exact .inr rfl

end TickTurn

/-! ## The turns before -/

section Course

variable (p : Parties) (party : Nat) (early mid late : List Turn)

namespace Parties

/-- Where the slot advances of a tick that a party begins now, if others take their turns first. -/
def atAdvance : Parties := (p.run (.step party :: early)).2

/-- Where the tick then looks for space, again after turns of others. -/
def atLook : Parties := ((p.atAdvance party early).run (.step party :: mid)).2

/-- Where the tick is then published, if it has found space, again after turns of others. -/
def atAttempt : Parties := ((p.atLook party early mid).run (.step party :: late)).2

end Parties

/-- A party is about to begin a tick, and others take their turns between those of the tick. -/
structure BeginsTick (topic slot : Nat) (period : UInt16) (below : List Activity) : Prop where
  ongoing : p.ongoing[party]? = some (.act (.tick topic slot period) :: below)
  others : ∀ turn ∈ early ++ mid ++ late, turn.isOf party = false

end Course

section Course

variable {p : Parties} {party topic slot : Nat} {period : UInt16} {below rest : List Activity}
  {early mid late : List Turn}

/-- One stage of a tick is a turn of its party. -/
theorem play_of_stage {stage : TickStage}
    (h : p.ongoing[party]? = some (.ticking topic slot period stage :: rest)) :
    let r := (p.machine rest).tick topic slot period stage
    p.play (.step party) =
      (r.1, ⟨r.2.node, r.2.reactions, p.ongoing.set party r.2.stack⟩) := by
  intro r
  have hstep : (p.machine (.ticking topic slot period stage :: rest)).step = some r := rfl
  exact play_of_step h hstep

theorem play_of_tick (h : p.ongoing[party]? = some (.act (.tick topic slot period) :: below)) :
    p.play (.step party) = ([], ⟨p.node, p.reactions, p.ongoing.set party
      (.ticking topic slot period (.advancing p.node.now) :: .acting (.tick topic slot period) ::
        below)⟩) := by
  have hstep : (p.machine (.act (.tick topic slot period) :: below)).step =
      some ((p.machine below).perform (.tick topic slot period)) := rfl
  exact play_of_step h hstep

/-- Where the normal level has space, the tick is published next, and otherwise it is answered. -/
theorem step_of_look (p : Parties) (topic slot : Nat) (period : UInt16) (rest : List Activity) :
    (p.machine (.ticking topic slot period .checking :: rest)).step = some ([], p.machine
      ((if p.node.bus.hasSpace .normal then .ticking topic slot period .publishing
        else .answer (Machine.ticked slot period false)) :: rest)) := by
  have hstep : (p.machine (.ticking topic slot period .checking :: rest)).step =
      some ((p.machine rest).tick topic slot period .checking) := rfl
  have hbus : (p.machine rest).node.bus = p.node.bus := rfl
  rw [hstep]
  simp only [Machine.tick, hbus]
  split <;> rfl

theorem play_of_look
    (h : p.ongoing[party]? = some (.ticking topic slot period .checking :: rest)) :
    p.play (.step party) = ([], ⟨p.node, p.reactions, p.ongoing.set party
      ((if p.node.bus.hasSpace .normal then .ticking topic slot period .publishing
        else .answer (Machine.ticked slot period false)) :: rest)⟩) :=
  play_of_step h (step_of_look p topic slot period rest)

/-- What a turn puts on a party's stack stays on it while others take their turns. -/
theorem ongoing_of_turn {stack : List Activity} {a : Activity} {now : List Happening} {m : Machine}
    (hstack : p.ongoing[party]? = some stack) (hstep : (p.machine stack).step = some (now, m))
    (hm : m.stack = a :: rest) (ha : ∀ w, a ≠ .working w) {turns : List Turn}
    (hturns : ∀ turn ∈ turns, turn.isOf party = false) :
    (p.run (.step party :: turns)).2.ongoing[party]? = some (a :: rest) :=
  ongoing_of_others (hm ▸ ongoing_of_step hstack hstep) ha turns hturns

namespace BeginsTick

theorem advancing (h : BeginsTick p party early mid late topic slot period below) :
    (p.atAdvance party early).ongoing[party]? = some
      (.ticking topic slot period (.advancing p.node.now) :: .acting (.tick topic slot period) ::
        below) :=
  ongoing_of_turn h.ongoing rfl rfl (by simp) fun turn hturn => h.others turn (by simp [hturn])

theorem looking (h : BeginsTick p party early mid late topic slot period below) :
    (p.atLook party early mid).ongoing[party]? = some
      (.ticking topic slot period .checking :: .acting (.tick topic slot period) :: below) :=
  ongoing_of_turn h.advancing rfl rfl (by simp) fun turn hturn => h.others turn (by simp [hturn])

theorem attempting (h : BeginsTick p party early mid late topic slot period below) :
    (p.atAttempt party early mid late).ongoing[party]? = some
      ((if (p.atLook party early mid).node.bus.hasSpace .normal then
          .ticking topic slot period .publishing
        else .answer (Machine.ticked slot period false)) ::
          .acting (.tick topic slot period) :: below) := by
  refine ongoing_of_turn h.looking (step_of_look ..) rfl (fun w => ?_) fun turn hturn =>
    h.others turn (by simp [hturn])
  split <;> simp

end BeginsTick

end Course

/-- The turn in which a tick is published that has found space. The hook of the alarm that is
raised, if any, runs before the answer. -/
structure AttemptsTick (q : Parties) (party topic slot : Nat) (period : UInt16)
    (below : List Activity) (bus : Bus Delivery Alarm) (answer : Bool) (raised : Option Alarm) :
    Prop where
  turn : TickTurn q.node topic slot (q.play (.step party)).1 bus answer raised
  node : (q.play (.step party)).2.node = { q.node with bus }
  ongoing : (q.play (.step party)).2.ongoing[party]? = some (raised.toList.map (fun alarm =>
      .code (.hook alarm.hook) (q.reactions.get (.hook alarm.hook)).next) ++
    .answer (Machine.ticked slot period answer) :: .acting (.tick topic slot period) :: below)

section Attempt

variable {q : Parties} {party topic slot : Nat} {period : UInt16} {below : List Activity}
  {bus : Bus Delivery Alarm} {answer : Bool} {raised : Option Alarm}

theorem attempts_of_publishing (h : q.ongoing[party]? = some
      (.ticking topic slot period .publishing :: .acting (.tick topic slot period) :: below)) :
    ∃ bus answer raised, AttemptsTick q party topic slot period below bus answer raised := by
  let pub := Publication.ofTick topic slot
  have hlt := (List.getElem?_eq_some_iff.mp h).1
  have hplay := play_of_stage h
  simp only [Machine.tick, publish_eq] at hplay
  refine ⟨(q.node.published pub).bus, (q.node.outcome pub).isDone, q.node.raised pub, ?_, ?_, ?_⟩
  · rw [hplay]
    exact tickTurn q.node topic slot
  · rw [hplay, Machine.ring_node]
    exact published_eq q.node (.ofTick topic slot)
  · rw [hplay]
    refine (List.getElem?_set_self hlt).trans ?_
    rw [Machine.ring_stack]
    rfl

/-- A tick that was attempted is answered after its hook, if that does nothing but operations. -/
theorem AttemptsTick.answered (h : AttemptsTick q party topic slot period below bus answer raised)
    (ops : List Operation) (hops : ∀ alarm ∈ q.node.bus.alarm,
      (q.reactions.get (.hook alarm.hook)).next = ops.map .op) (later : List Turn)
    (hturns : 2 * ops.length + 2 ≤ later.countP (Turn.isOf party)) :
    Answered (q.play (.step party)).2 party (.tick topic slot period)
      (Machine.ticked slot period answer) below later := by
  refine due_rung raised q.reactions ops (fun alarm halarm => ?_) _ later h.ongoing
    (along_of_forall (fun _ _ => trivial) _ later) hturns
  rcases h.turn.raised_eq with rfl | rfl
  · cases halarm
  · exact hops alarm (Option.mem_toList.mp halarm)

end Attempt

/-! ## The count of a slot -/

/-- Whether an operation is about to write a slot. -/
def Intent.writesSlot (slot : Nat) : Intent → Bool
  | .operation (.putTick slot' _) | .operation (.advanceTick slot' _ _)
  | .operation (.touchTick slot' _) => slot' = slot
  | _ => false

/-- Whether a tick is about to advance a slot. -/
def Intent.ticksSlot (slot : Nat) : Intent → Bool
  | .advance slot' _ _ => slot' = slot
  | _ => false

namespace Parties

/-- No operation writes a slot along a schedule. -/
def Unwritten (slot : Nat) : Parties → List Turn → Prop :=
  Along fun p turn => (p.intent turn).writesSlot slot = false

/-- The number of ticks that advance a slot along a schedule. -/
def ticks (p : Parties) (slot : Nat) : List Turn → Nat
  | [] => 0
  | turn :: turns => ((p.intent turn).ticksSlot slot).toNat + (p.play turn).2.ticks slot turns

end Parties

section Slot

variable {n n' : Node} {slot : Nat}

theorem slots_apply {o : Operation} (h : (Intent.operation o).writesSlot slot = false) :
    (o.apply n).2.slots.get slot = n.slots.get slot := by
  cases o with
  | putTick slot' | advanceTick slot' | touchTick slot' =>
    have hne : slot ≠ slot' := Ne.symm (of_decide_eq_false h)
    simp [Operation.apply, hne]
  | register handler =>
    simp only [Operation.apply]
    split <;> rfl
  | putNotice key status data now =>
    simp only [Operation.apply]
    split <;> rfl
  | _ => rfl

theorem slots_hear (news : News) (s : Subscriber) : (n.hear news s).slots = n.slots := by
  simp only [Node.hear]
  split <;> rfl

theorem count_advance (slot' : Nat) (now : UInt32) (period : UInt16) :
    ((n.advance slot' now period).slots.get slot).count =
      (n.slots.get slot).count + .ofNat (decide (slot' = slot)).toNat := by
  simp only [Node.advance, Bank.get_modify]
  by_cases h : slot' = slot
  · subst h
    simp [Tick.advance]
  · simp [h, Ne.symm h]

theorem Deed.count {i : Intent} {now : List Happening} (h : Deed n i now n')
    (hi : i.writesSlot slot = false) :
    (n'.slots.get slot).count = (n.slots.get slot).count + .ofNat (i.ticksSlot slot).toNat := by
  cases h with
  | operation ending => simp [slots_apply hi, Intent.ticksSlot]
  | advance slot' now period => exact count_advance slot' now period
  | publication | dispatch =>
    -- The bus changes, and the notice perhaps, but no slot.
    rw [published_eq]
    exact (UInt32.add_zero _).symm
  | hear s news => simp [slots_hear, Intent.ticksSlot]
  | tell | clock | take | settle | pause | claim | rest => exact (UInt32.add_zero _).symm

theorem count_run {p : Parties} {turns : List Turn} (h : p.Unwritten slot turns) :
    ((p.run turns).2.node.slots.get slot).count =
      (p.node.slots.get slot).count + .ofNat (p.ticks slot turns) := by
  induction turns generalizing p with
  | nil => exact (UInt32.add_zero _).symm
  | cons turn turns ih =>
    obtain ⟨hnow, hlater⟩ := h
    have hcount := ih hlater
    simp only [Parties.run, Parties.ticks, UInt32.ofNat_add]
    rw [hcount, (deed_play p turn).count hnow, UInt32.add_assoc]

end Slot

/-! ## When a tick overflows -/

section Tick

variable (q : Parties) (party topic slot : Nat) (period : UInt16) (below : List Activity)

/-- A slot advances, and nothing else happens. -/
structure Advances (now : UInt32) : Prop where
  recorded : (q.play (.step party)).1 = []
  advanced : (q.play (.step party)).2.node.slots.get slot =
    ⟨⟨now, (q.node.slots.get slot).envelope.kind⟩, (q.node.slots.get slot).count + 1, period⟩
  others : ∀ other ≠ slot,
    (q.play (.step party)).2.node.slots.get other = q.node.slots.get other
  bus : (q.play (.step party)).2.node.bus = q.node.bus

/-- A tick looks for space. Where there is none, it attempts nothing and is answered. -/
structure Looks : Prop where
  recorded : (q.play (.step party)).1 = []
  node : (q.play (.step party)).2.node = q.node
  full : q.node.bus.hasSpace .normal = false → ∀ later, 1 ≤ later.countP (Turn.isOf party) →
    Answered (q.play (.step party)).2 party (.tick topic slot period)
      (Machine.ticked slot period false) below later

/-- A tick that has found space is published. It overflows only if the space is gone. -/
structure Attempts : Prop where
  slots : (q.play (.step party)).2.node.slots = q.node.slots
  high : (q.play (.step party)).2.node.bus.lane .high = q.node.bus.lane .high
  offered : ∀ l d refusal, .offered l d refusal ∈ (q.play (.step party)).1 →
    l = .normal ∧ d = .tick topic slot ∧
      (refusal = some .queueFull → q.node.bus.hasSpace .normal = false)
  alarmed : ∀ alarm name, .alarmed alarm .queueFull name ∈ (q.play (.step party)).1 →
    q.node.bus.hasSpace .normal = false
  overflowed : q.node.bus.hasSpace .normal = true → ∀ l,
    ((q.play (.step party)).2.node.bus.counters l).overflowed = (q.node.bus.counters l).overflowed
  answered : HooksIdle q.reactions → ∃ answer, ∀ later, 2 ≤ later.countP (Turn.isOf party) →
    Answered (q.play (.step party)).2 party (.tick topic slot period)
      (Machine.ticked slot period answer) below later

end Tick

section Tick

variable {p q : Parties} {party topic slot : Nat} {period : UInt16} {below : List Activity}
  {early mid late : List Turn}

theorem advances_of_advancing {now : UInt32} {rest : List Activity}
    (h : q.ongoing[party]? = some (.ticking topic slot period (.advancing now) :: rest)) :
    Advances q party slot period now := by
  have hplay := play_of_stage h
  have hnode : (q.play (.step party)).2.node = q.node.advance slot now period := by
    rw [hplay]
    rfl
  constructor
  · rw [hplay]
    rfl
  · simp [hnode, Node.advance, Tick.advance, Tick.touch]
  · intro other hother
    simp [hnode, Node.advance, hother]
  · rw [hnode]
    rfl

theorem looks_of_checking (h : q.ongoing[party]? = some
      (.ticking topic slot period .checking :: .acting (.tick topic slot period) :: below)) :
    Looks q party topic slot period below := by
  have hlt := (List.getElem?_eq_some_iff.mp h).1
  have hplay := play_of_look h
  refine ⟨by rw [hplay], by rw [hplay], fun hfull later => ?_⟩
  refine answered_of_ready ?_
  rw [hplay, hfull]
  exact List.getElem?_set_self hlt

theorem attempts_of_attemptsTick {bus : Bus Delivery Alarm} {answer : Bool}
    {raised : Option Alarm}
    (h : AttemptsTick q party topic slot period below bus answer raised) :
    Attempts q party topic slot period below := by
  have hbus : (q.play (.step party)).2.node.bus = bus := by rw [h.node]
  constructor
  · rw [h.node]
  · rw [hbus]
    exact h.turn.high
  · exact fun l d refusal => h.turn.offered
  · exact fun alarm name => h.turn.alarmed
  · rw [hbus]
    exact h.turn.overflowed
  · exact fun hidle => ⟨answer, h.answered [] fun alarm _ => hidle _ _⟩

/-- Space that was found and is gone was taken by deliveries that were accepted since. -/
theorem accepted_of_lost {turns : List Turn} (hspace : q.node.bus.hasSpace .normal = true)
    (hlost : (q.run turns).2.node.bus.hasSpace .normal = false) :
    acceptedAt .normal (q.run turns).1 ≠ [] := by
  intro hnone
  -- If nothing was accepted, what is queued now was queued before.
  have hconserved := congrArg List.length (conserved_run q turns .normal)
  rw [hnone, List.append_nil, List.length_append] at hconserved
  have hfree : 0 < q.node.bus.freeSlots .normal := of_decide_eq_true hspace
  have hfull : ¬0 < (q.run turns).2.node.bus.freeSlots .normal := of_decide_eq_false hlost
  simp only [Bus.freeSlots, Bus.queued] at hfree hfull
  omega

end Tick

/-- Wherever a tick is begun, and whatever the others do before each of its turns. The tick advances
its slot, whether it is queued or not, and no other, and leaves the high level alone. Where it finds
the normal level full, it attempts nothing. Where it has found space, it counts no overflow and
raises no alarm for lack of space, unless the space is gone when it is published, which others have
then taken since. If hooks do nothing, it is answered within two more turns of its party. Along a
schedule in which no operation writes a slot, its count grows by the number of ticks, up to
wrapping. -/
theorem tick_overflows_only_if_overtaken (p : Parties) :
    (∀ party topic slot period below early mid late,
      BeginsTick p party early mid late topic slot period below →
        let q₁ := p.atAdvance party early
        let q₂ := p.atLook party early mid
        let q₃ := p.atAttempt party early mid late
        ((p.play (.step party)).1 = [] ∧ (p.play (.step party)).2.node = p.node) ∧
        Advances q₁ party slot period p.node.now ∧
        Looks q₂ party topic slot period below ∧
        (q₂.node.bus.hasSpace .normal = true → Attempts q₃ party topic slot period below ∧
          (q₃.node.bus.hasSpace .normal = false →
            acceptedAt .normal (q₂.run (.step party :: late)).1 ≠ []))) ∧
    ∀ turns slot, p.Unwritten slot turns →
      ((p.run turns).2.node.slots.get slot).count =
        (p.node.slots.get slot).count + .ofNat (p.ticks slot turns) := by
  refine ⟨fun party topic slot period below early mid late h => ?_, fun turns slot => count_run⟩
  refine ⟨?_, advances_of_advancing h.advancing, looks_of_checking h.looking, fun hspace => ?_⟩
  · rw [play_of_tick h.ongoing]
    exact ⟨rfl, rfl⟩
  · have hattempting := h.attempting
    rw [hspace, if_pos rfl] at hattempting
    obtain ⟨_, _, _, hattempts⟩ := attempts_of_publishing hattempting
    exact ⟨attempts_of_attemptsTick hattempts, accepted_of_lost hspace⟩

/-- Six deliveries are queued. An interrupt handler publishes after the look of a tick, which is
then queued as the eighth. The next tick finds the level full. -/
theorem tick_overflows_only_if_overtaken_nearly_full :
    let topics := (Node.quietTopics ["timer"]).set 0 ⟨"timer", ⟨[(.outside 0, .blank)]⟩⟩
    let bus : Bus Delivery Alarm := { (Bus.fresh 10 : Bus Delivery Alarm) with
      normal := ⟨List.replicate 6 (.tick 0 0), .zero⟩
      started := true
      alarm := some ⟨3, .blank⟩ }
    let start := Parties.begin { Node.fresh 10 [] with bus, topics } (.filled .idle)
    let p := (start.run [.enter .main [.tick 0 2 100, .tick 0 2 100],
      .enter .main [.publish 0 4 .normal .interrupt], .step 0, .step 1]).2
    let turns := List.replicate 3 (.step 0) ++ .step 1 :: List.replicate 7 (.step 0)
    let below : List Activity := [.code .main [.tick 0 2 100]]
    (BeginsTick p 0 [] [] [.step 1] 0 2 100 below ∧ p.Unwritten 2 turns ∧
      (p.atLook 0 [] []).node.bus.hasSpace .normal = true) ∧
    Attempts (p.atAttempt 0 [] [] [.step 1]) 0 0 2 100 below ∧
    ((p.run turns).2.node.slots.get 2).count = 2 ∧
    ((p.run turns).2.node.bus.counters .normal).overflowed = 0 := by
  intro topics bus start p turns below
  have hbegins : BeginsTick p 0 [] [] [.step 1] 0 2 100 below := ⟨rfl, by decide⟩
  have hunwritten : p.Unwritten 2 turns := by
    rw [Parties.Unwritten]
    decide
  have hspace : (p.atLook 0 [] []).node.bus.hasSpace .normal = true := rfl
  obtain ⟨hticks, hcount⟩ := tick_overflows_only_if_overtaken p
  obtain ⟨_, _, _, hattempts⟩ := hticks 0 0 2 100 below [] [] [.step 1] hbegins
  refine ⟨⟨hbegins, hunwritten, hspace⟩, (hattempts hspace).1, ?_, ?_⟩
  · rw [hcount turns 2 hunwritten]
    decide
  · decide

/-- Seven deliveries are queued. A tick finds space, an interrupt handler publishes, and the tick
counts an overflow and raises the alarm. -/
theorem tick_overflowed_by_interrupt :
    let topics := (Node.quietTopics ["timer"]).set 0 ⟨"timer", ⟨[(.outside 0, .blank)]⟩⟩
    let bus : Bus Delivery Alarm := { (Bus.fresh 10 : Bus Delivery Alarm) with
      normal := ⟨List.replicate 7 (.tick 0 0), .zero⟩
      started := true
      alarm := some ⟨3, .blank⟩ }
    let start := Parties.begin { Node.fresh 10 [] with bus, topics } (.filled .idle)
    let q := (start.run [.enter .main [.tick 0 2 100], .step 0, .step 0, .step 0, .step 0,
      .enter .main [.publish 0 4 .normal .interrupt], .step 1, .step 1]).2
    q.ongoing[0]? = some [.ticking 0 2 100 .publishing, .acting (.tick 0 2 100),
      .code .main []] ∧
    HooksIdle q.reactions ∧
    (q.play (.step 0)).1 = [.offered .normal (.tick 0 2) (some .queueFull),
      .alarmed ⟨3, .blank⟩ .queueFull "timer"] ∧
    (q.node.bus.counters .normal).overflowed = 0 ∧
    ((q.play (.step 0)).2.node.bus.counters .normal).overflowed = 1 := by
  intro topics bus start q
  exact ⟨rfl, fun _ _ => rfl, rfl, rfl, rfl⟩

/-! ## What a tick answers -/

section Report

variable (p : Parties) (party : Nat) (early mid late : List Turn) (topic slot : Nat)
  (period : UInt16) (below : List Activity)

/-- What a tick answers and what its turns do to the bus. -/
structure ReportsTick (answer : Bool) : Prop where
  answer_eq : answer = ((p.atLook party early mid).node.bus.hasSpace .normal &&
    (((p.atAttempt party early mid late).node.audience (.tick topic slot)).isEmpty ||
      (p.atAttempt party early mid late).node.bus.started &&
        (p.atAttempt party early mid late).node.bus.hasSpace .normal))
  begins : (p.play (.step party)).2.node.bus = p.node.bus
  advances : ((p.atAdvance party early).play (.step party)).2.node.bus =
    (p.atAdvance party early).node.bus
  looks : ((p.atLook party early mid).play (.step party)).2.node.bus =
    (p.atLook party early mid).node.bus
  queue : ((p.atAttempt party early mid late).play (.step party)).2.node.bus.queue .normal =
    if (p.atLook party early mid).node.bus.hasSpace .normal &&
        ((p.atAttempt party early mid late).node.bus.started &&
          (p.atAttempt party early mid late).node.bus.hasSpace .normal &&
          !((p.atAttempt party early mid late).node.audience (.tick topic slot)).isEmpty) then
      (p.atAttempt party early mid late).node.bus.queue .normal ++ [.tick topic slot]
    else (p.atAttempt party early mid late).node.bus.queue .normal
  awaited : ∀ later, Awaited (p.atAttempt party early mid late) party (.tick topic slot period)
    (Machine.ticked slot period answer) below (.step party :: later)
  /-- The answer comes, unless a hook runs that does more than operations. -/
  answered : ∀ (ops : List Operation) (later : List Turn),
    (∀ alarm ∈ (p.atAttempt party early mid late).node.bus.alarm,
      ((p.atAttempt party early mid late).reactions.get (.hook alarm.hook)).next = ops.map .op) →
    2 * ops.length + 2 ≤ later.countP (Turn.isOf party) →
    Answered (p.atAttempt party early mid late) party (.tick topic slot period)
      (Machine.ticked slot period answer) below (.step party :: later)

end Report

section Report

variable {p : Parties} {party topic slot : Nat} {period : UInt16} {below : List Activity}
  {early mid late : List Turn}

theorem BeginsTick.reports (h : BeginsTick p party early mid late topic slot period below) :
    ∃ answer, ReportsTick p party early mid late topic slot period below answer := by
  have hbegins : (p.play (.step party)).2.node.bus = p.node.bus := by rw [play_of_tick h.ongoing]
  have hadvances := (advances_of_advancing h.advancing).bus
  have hlooks : ((p.atLook party early mid).play (.step party)).2.node.bus =
      (p.atLook party early mid).node.bus := by
    rw [(looks_of_checking h.looking).node]
  have hattempting := h.attempting
  cases hspace : (p.atLook party early mid).node.bus.hasSpace .normal with
  | false =>
    -- The turn after the look is the answer.
    rw [hspace, if_neg Bool.false_ne_true] at hattempting
    refine ⟨false, by rw [hspace, Bool.false_and], hbegins, hadvances, hlooks, ?_,
      fun later => .answered (answered_now hattempting),
      fun ops later _ _ => answered_now hattempting⟩
    rw [hspace, Bool.false_and, if_neg Bool.false_ne_true, (play_of_ready hattempting).2]
  | true =>
    rw [hspace, if_pos rfl] at hattempting
    obtain ⟨bus, answer, raised, hattempts⟩ := attempts_of_publishing hattempting
    have hbus : ((p.atAttempt party early mid late).play (.step party)).2.node.bus = bus := by
      rw [hattempts.node]
    refine ⟨answer, ?_, hbegins, hadvances, hlooks, ?_,
      fun later => (awaited _ hattempts.ongoing).cons,
      fun ops later hops hturns => (hattempts.answered ops hops later hturns).cons⟩
    · rw [hspace, Bool.true_and]
      exact hattempts.turn.answer_eq
    · rw [hbus, hspace, Bool.true_and]
      exact hattempts.turn.queue

end Report

/-- Wherever a tick is begun, and whatever the others do before each of its turns. It is answered
true exactly if it has found space at the normal level and then either nobody listens, or the bus is
started and the space is still there. Its turns leave the queue alone, but for the one in which it
is published. Where somebody listens then, it is answered true exactly if the tick is queued, behind
the others, and it is answered false exactly if the queue is left alone. Where nobody listens the
queue is left alone in any case. -/
theorem answer_of_tick (p : Parties) (party topic slot : Nat) (period : UInt16)
    (below : List Activity) (early mid late : List Turn)
    (hbegins : BeginsTick p party early mid late topic slot period below) :
    let q := p.atAttempt party early mid late
    let before := q.node.bus.queue .normal
    let after := (q.play (.step party)).2.node.bus.queue .normal
    ∃ answer, ReportsTick p party early mid late topic slot period below answer ∧
      (q.node.audience (.tick topic slot) ≠ [] →
        (answer = true ↔ after = before ++ [.tick topic slot]) ∧
          (answer = false ↔ after = before)) ∧
      (q.node.audience (.tick topic slot) = [] →
        answer = (p.atLook party early mid).node.bus.hasSpace .normal ∧ after = before) := by
  intro q before after
  obtain ⟨answer, hreports⟩ := hbegins.reports
  have hqueue : after = _ := hreports.queue
  refine ⟨answer, hreports, fun hheard => ?_, fun hunheard => ?_⟩
  · have hempty : (q.node.audience (.tick topic slot)).isEmpty = false := by simpa using hheard
    rw [hqueue, hreports.answer_eq]
    simp only [q, before, hempty, Bool.false_or, Bool.not_false, Bool.and_true]
    split <;> simp_all
  · have hempty : (q.node.audience (.tick topic slot)).isEmpty = true := by simpa using hunheard
    rw [hqueue, hreports.answer_eq]
    simp [q, before, hempty]

/-- On a started bus a tick that somebody hears is queued as the eighth, and the next one is not. -/
theorem answer_of_tick_nearly_full :
    let topics := (Node.quietTopics ["timer"]).set 0 ⟨"timer", ⟨[(.outside 0, .blank)]⟩⟩
    let bus : Bus Delivery Alarm := { (Bus.fresh 10 : Bus Delivery Alarm) with
      normal := ⟨List.replicate 7 (.tick 0 0), .zero⟩
      started := true }
    let start := Parties.begin { Node.fresh 10 [] with bus, topics } (.filled .idle)
    let p (steps : Nat) := (start.run (.enter .main [.tick 0 2 100, .tick 0 3 100] ::
      List.replicate steps (.step 0))).2
    (BeginsTick (p 1) 0 [] [] [] 0 2 100 [.code .main [.tick 0 3 100]] ∧
      ∃ answer, ReportsTick (p 1) 0 [] [] [] 0 2 100 [.code .main [.tick 0 3 100]] answer ∧
        answer = true) ∧
    BeginsTick (p 7) 0 [] [] [] 0 3 100 [.code .main []] ∧
      ∃ answer, ReportsTick (p 7) 0 [] [] [] 0 3 100 [.code .main []] answer ∧
        answer = false := by
  intro topics bus start p
  have hfirst : BeginsTick (p 1) 0 [] [] [] 0 2 100 [.code .main [.tick 0 3 100]] :=
    ⟨rfl, by simp⟩
  have hsecond : BeginsTick (p 7) 0 [] [] [] 0 3 100 [.code .main []] := ⟨rfl, by simp⟩
  obtain ⟨answer, hreports, _⟩ := answer_of_tick (p 1) 0 0 2 100 _ [] [] [] hfirst
  obtain ⟨answer', hreports', _⟩ := answer_of_tick (p 7) 0 0 3 100 _ [] [] [] hsecond
  exact ⟨⟨hfirst, answer, hreports, hreports.answer_eq⟩, hsecond, answer', hreports',
    hreports'.answer_eq⟩

/-- Nobody listens, and a tick is answered true that is not queued. -/
theorem unheard_tick_answered_true :
    let start := Parties.begin { Node.fresh 10 ["timer"] with
      bus := (Bus.fresh 10 : Bus Delivery Alarm).start.2 } (.filled .idle)
    let turns := Turn.enter .main [.tick 0 0 100] :: List.replicate 6 (.step 0)
    (start.run turns).1 = [.did .main (.tick 0 0 100) (.ticked true 1 100)] ∧
      (start.run turns).2.node.bus.queue .normal = [] := by
  intro start turns
  exact ⟨rfl, rfl⟩

end NodeBus.Session
