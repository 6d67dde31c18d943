import NodeBus.Board.Step

/-!
# The account of a node

`Accounted` says of a node how many ticks were delivered and how many were skipped: the tick of
the slot, the queue, the tick count and the display agree on it, and nothing was refused. A
delivery keeps it with one more delivered (`accounted_deliver`), a tick with one more queued or
one more skipped (`accounted_tick`). The timer looks for space and publishes in one step, so its
publication is never refused (`tick_of_space`).
-/

namespace NodeBus.Board

/-- A node on which so many ticks of the timer were delivered and so many were skipped. -/
structure Accounted (period : UInt16) (delivered skipped : Nat) (n : Node) : Prop where
  queued : ∀ d ∈ n.bus.queue .normal, d = .tick timerTopic timerSlot
  unused : n.bus.queue .high = [] ∧ (n.bus.counters .high).published = 0
  /-- The slot has its period as soon as something waits for it to be read. -/
  paced : n.bus.queue .normal ≠ [] → (n.slots.get timerSlot).period = period
  ticked : (n.slots.get timerSlot).count =
    .ofNat (delivered + n.bus.queued .normal + skipped)
  counted : n.counters.get counter = .ofNat delivered
  dispatched : (n.bus.counters .normal).dispatched = .ofNat delivered
  millis : (n.displays.get display).millis.toNat < 1000
  displayed : (n.displays.get display).total % (1000 * UInt32.size) =
    period.toNat * delivered % (1000 * UInt32.size)
  unharmed : ∀ l, (n.bus.counters l).overflowed = 0

/-- The bus is open, and the tick count and the display listen to the timer. -/
structure Wired (n : Node) : Prop where
  started : n.bus.started = true
  listeners : (n.topics.get timerTopic).roster.entries =
    [(.counting, .counter counter), (.timekeeping, .display display)]

section Account

variable {period : UInt16} {delivered skipped : Nat} {n n' : Node}

/-- The account looks at the lanes of the bus, the slots, the tick counts and the displays. -/
theorem Accounted.congr (h : Accounted period delivered skipped n)
    (hlanes : ∀ l, n'.bus.lane l = n.bus.lane l) (hslots : n'.slots = n.slots)
    (hcounters : n'.counters = n.counters) (hdisplays : n'.displays = n.displays) :
    Accounted period delivered skipped n' := by
  have hqueue : ∀ l, n'.bus.queue l = n.bus.queue l := fun l => congrArg Bus.Lane.queue (hlanes l)
  have hbus : ∀ l, n'.bus.counters l = n.bus.counters l := fun l =>
    congrArg Bus.Lane.counters (hlanes l)
  constructor
  · simpa only [hqueue] using h.queued
  · simpa only [hqueue, hbus] using h.unused
  · simpa only [hqueue, hslots] using h.paced
  · simpa only [Bus.queued, hqueue, hslots] using h.ticked
  · simpa only [hcounters] using h.counted
  · simpa only [hbus] using h.dispatched
  · simpa only [hdisplays] using h.millis
  · simpa only [hdisplays] using h.displayed
  · simpa only [hbus] using h.unharmed

theorem accounted_fresh (period : UInt16) (wait : UInt32) (names : List String) :
    Accounted period 0 0 (.fresh wait names) where
  queued := nofun
  unused := ⟨rfl, rfl⟩
  paced := fun h => absurd rfl h
  ticked := rfl
  counted := rfl
  dispatched := rfl
  millis := (by decide : 0 < 1000)
  displayed := rfl
  unharmed := fun l => by cases l <;> rfl

/-! ## Delivering -/

theorem started_of_takeFrom? {b b' : Bus Delivery Alarm} {l : Level} {d : Delivery}
    (h : b.takeFrom? l = some (d, b')) : b'.started = b.started := by
  unfold Bus.takeFrom? at h
  split at h
  · cases h
  · cases h
    cases l <;> rfl

/-- A delivery of a tick adds one to the tick count and a period to the display. -/
theorem node_deliver {b : Board} (hwired : Wired b.node) (bus : Bus Delivery Alarm) :
    (b.deliver .normal (.tick timerTopic timerSlot) bus).2.node = { b.node with
      bus := bus.settle .normal
      counters := b.node.counters.modify counter (· + 1)
      displays := b.node.displays.modify display
        (·.add (b.node.slots.get timerSlot).period.toUInt32) } := by
  simp only [deliver_eq, tell, Node.audience, Node.topicOf, hwired.listeners]
  rfl

theorem next?_of_unused {b : Bus Delivery Alarm} (h : b.queue .high = []) :
    b.next? = (b.takeFrom? .normal).map fun (d, bus) => (.normal, d, bus) := by
  rw [Bus.next?, Bus.takeFrom?_eq_none_iff.mpr h]

theorem accounted_deliver {b : Board} {d : Delivery} {bus : Bus Delivery Alarm}
    (h : Accounted period delivered skipped b.node) (hwired : Wired b.node)
    (htaken : b.node.bus.takeFrom? .normal = some (d, bus)) :
    d = .tick timerTopic timerSlot ∧ Wired (b.deliver .normal d bus).2.node ∧
      Accounted period (delivered + 1) skipped (b.deliver .normal d bus).2.node := by
  have hqueue : b.node.bus.queue .normal = d :: bus.queue .normal :=
    Bus.queue_of_takeFrom? htaken .normal
  have hhigh : b.node.bus.queue .high = bus.queue .high := Bus.queue_of_takeFrom? htaken .high
  have hcounters := Bus.counters_of_takeFrom? htaken
  obtain rfl := h.queued d (by simp [hqueue])
  refine ⟨rfl, ?_⟩
  rw [node_deliver hwired]
  refine ⟨⟨(started_of_takeFrom? htaken).trans hwired.started, hwired.listeners⟩, ?_⟩
  -- The slot may have changed since the tick was published, but not its period.
  have hpace : (b.node.slots.get timerSlot).period = period := h.paced (by simp [hqueue])
  constructor
  · intro d' hd'
    rw [Bus.queue_settle] at hd'
    exact h.queued d' (by simp [hqueue, hd'])
  · rw [Bus.queue_settle, ← hhigh]
    refine ⟨h.unused.1, ?_⟩
    simpa [Bus.settle, hcounters] using h.unused.2
  · exact fun _ => hpace
  · rw [Bus.queued, Bus.queue_settle]
    have hticked := h.ticked
    rw [Bus.queued, hqueue, List.length_cons] at hticked
    rw [hticked]
    congr 1
    omega
  · simp [h.counted, UInt32.ofNat_add]
  · simp [Bus.settle, hcounters, Bus.Counters.countDelivery, h.dispatched, UInt32.ofNat_add]
  · simp only [Bank.get_modify, if_true]
    exact Elapsed.millis_add_lt _ _
  · simp only [Bank.get_modify, if_true]
    rw [Elapsed.total_add h.millis, hpace, UInt16.toNat_toUInt32, Nat.add_mod, h.displayed,
      ← Nat.add_mod, Nat.mul_succ period.toNat]
  · intro l
    cases l <;> simpa [Bus.settle, hcounters, Bus.Counters.countDelivery] using h.unharmed _

/-! ## Ticking -/

/-- An open bus takes a delivery for which it has space. -/
theorem offer_of_space {b : Bus Delivery Alarm} {l : Level} (hstarted : b.started = true)
    (hspace : b.hasSpace l = true) (d : Delivery) :
    ∃ b', b.offer l d = (none, b') ∧ b'.started = true ∧
      (∀ l', b'.queue l' = if l' = l then b.queue l ++ [d] else b.queue l') ∧
      ∀ l', b'.counters l' = if l' = l then (b.counters l).countAttempt else b.counters l' := by
  have hcount : (b.count l .countAttempt).started = true := by
    rw [← hstarted]
    cases l <;> rfl
  have hroom : (b.count l .countAttempt).queued l < l.capacity := by
    have hfree : 0 < l.capacity - b.queued l := of_decide_eq_true hspace
    rw [Bus.queued, Bus.queue_count]
    exact Nat.lt_of_sub_pos hfree
  have hqueue := fun l' => Bus.queue_offer b l l' d
  have hcounters := fun l' => Bus.counters_offer b l l' d
  simp only [Bus.offer, hcount, Bool.not_true, Bool.false_eq_true, hroom, if_true, if_false,
    true_and, reduceCtorEq] at hqueue hcounters ⊢
  refine ⟨_, rfl, ?_, hqueue, hcounters⟩
  cases l <;> exact hcount

section Tick

variable {b : Board} {bus : Bus Delivery Alarm}

/-- The space that the timer has found is still there when it publishes. -/
theorem tick_of_space (hwired : Wired b.node) (hspace : b.node.bus.hasSpace .normal = true)
    (hoffer : b.node.bus.offer .normal (.tick timerTopic timerSlot) = (none, bus)) :
    b.tick = (true, [], { b with
      node := { b.node.advance timerSlot b.node.now b.tuning.period with bus } }) := by
  have hheard : ((b.node.advance timerSlot b.node.now b.tuning.period).audience
      (.tick timerTopic timerSlot)).isEmpty = false := by
    simp [Node.audience, Node.topicOf, Node.advance, hwired.listeners]
  have hpublish : (b.node.advance timerSlot b.node.now b.tuning.period).publish
      (.tick timerTopic timerSlot) .normal =
        (.queued, { b.node.advance timerSlot b.node.now b.tuning.period with bus }) := by
    have hoffer' : (b.node.advance timerSlot b.node.now b.tuning.period).bus.offer .normal
      (.tick timerTopic timerSlot) = (none, bus) := hoffer
    simp [Node.publish, hheard, hoffer']
  refine (if_pos hspace).trans ?_
  simp only [publish, hpublish]
  rfl

theorem tick_of_full (hspace : ¬ b.node.bus.hasSpace .normal = true) :
    b.tick = (false, [], { b with node := b.node.advance timerSlot b.node.now b.tuning.period }) :=
  if_neg hspace

theorem accounted_of_offer
    (h : Accounted period delivered skipped n)
    (hqueue : ∀ l, bus.queue l =
      if l = .normal then n.bus.queue .normal ++ [.tick timerTopic timerSlot] else n.bus.queue l)
    (hcounters : ∀ l, bus.counters l =
      if l = .normal then (n.bus.counters .normal).countAttempt else n.bus.counters l) :
    Accounted period delivered skipped { n.advance timerSlot n.now period with bus } := by
  constructor
  · intro d hd
    rw [hqueue, if_pos rfl, List.mem_append, List.mem_singleton] at hd
    exact hd.elim (h.queued d) id
  · simpa [hqueue, hcounters] using h.unused
  · simp [Node.advance, Tick.advance]
  · simp only [Node.advance, Tick.advance, Bank.get_modify, if_true, h.ticked, Bus.queued, hqueue,
      List.length_append, List.length_singleton]
    rw [← UInt32.ofNat_one, ← UInt32.ofNat_add]
    congr 1
    omega
  · exact h.counted
  · simpa [hcounters, Bus.Counters.countAttempt] using h.dispatched
  · exact h.millis
  · exact h.displayed
  · intro l
    cases l <;> simpa [hcounters, Bus.Counters.countAttempt] using h.unharmed _

theorem accounted_of_skip (h : Accounted period delivered skipped n) :
    Accounted period delivered (skipped + 1) (n.advance timerSlot n.now period) := by
  refine { h with paced := ?_, ticked := ?_ }
  · simp [Node.advance, Tick.advance]
  · simp only [Node.advance, Tick.advance, Bank.get_modify, if_true, h.ticked]
    rw [← UInt32.ofNat_one, ← UInt32.ofNat_add, Nat.add_assoc]

theorem accounted_tick (h : Accounted b.tuning.period delivered skipped b.node)
    (hwired : Wired b.node) :
    b.tick.2.2.tuning = b.tuning ∧ b.tick.2.2.lost = b.lost ∧ Wired b.tick.2.2.node ∧
      Accounted b.tuning.period delivered (skipped + [b.tick.1].count false)
        b.tick.2.2.node := by
  by_cases hspace : b.node.bus.hasSpace .normal = true
  · obtain ⟨bus, hoffer, hstarted, hqueue, hcounters⟩ :=
      offer_of_space hwired.started hspace (.tick timerTopic timerSlot)
    rw [tick_of_space hwired hspace hoffer]
    exact ⟨rfl, rfl, ⟨hstarted, hwired.listeners⟩, accounted_of_offer h hqueue hcounters⟩
  · rw [tick_of_full hspace]
    exact ⟨rfl, rfl, ⟨hwired.started, hwired.listeners⟩, accounted_of_skip h⟩

end Tick

end Account

end NodeBus.Board
