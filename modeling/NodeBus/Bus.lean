import NodeBus.Bus.Counters

/-!
# The event bus

Deliveries wait in two bounded queues, normal and high, for a single worker.
Producers never wait: a full queue refuses the delivery.

- `Bus.offer` queues a delivery or refuses it;
- `Bus.takeFrom?` and `Bus.next?` dequeue, the latter high level first;
- `Bus.settle` counts a delivery after its listeners have run.

The bus is generic in the deliveries `δ` it carries and in the alarm `α` that is
raised when a delivery from a task is refused.
-/

namespace NodeBus

/-- The level of a delivery. -/
inductive Level where
  | normal
  | high
  deriving DecidableEq, Repr

/-- The number of deliveries that can wait at a level. -/
def Level.capacity : Level → Nat
  | .normal => 8
  | .high => 4

/-- Where a delivery is published from. Only tasks raise the alarm. -/
inductive Origin where
  | task
  | interrupt
  deriving DecidableEq, Repr

/-- Why a delivery is refused. -/
inductive Refusal where
  | queueFull
  /-- The bus has not been started. -/
  | notStarted
  deriving DecidableEq, Repr

/-- The name of a refusal in answers. -/
def Refusal.name : Refusal → String
  | .queueFull => "QueueFull"
  | .notStarted => "QueueNotReady"

namespace Bus

/-- The queue and the counters of one level. -/
structure Lane (δ : Type) where
  queue : List δ
  counters : Counters
  deriving Repr

def Lane.empty {δ : Type} : Lane δ := ⟨[], .zero⟩

/-- The wait that a bus is made with unless another is asked for. -/
def defaultWait : UInt32 := 10

end Bus

/-- Two queues, their counters, and what is shared by the two. -/
structure Bus (δ α : Type) where
  normal : Bus.Lane δ
  high : Bus.Lane δ
  /-- Whether the queues are open. -/
  started : Bool
  /-- Whether a worker serves the bus. -/
  claimed : Bool
  /-- How long the worker waits for a normal delivery, in milliseconds. -/
  wait : UInt32
  alarm : Option α
  deriving Repr

namespace Bus

variable {δ α : Type}

/-- A bus before it is started. -/
def fresh (wait : UInt32) : Bus δ α := ⟨.empty, .empty, false, false, wait, none⟩

/-- The lane of a level. -/
def lane (b : Bus δ α) : Level → Lane δ
  | .normal => b.normal
  | .high => b.high

/-- Replace the lane of a level. -/
def setLane (b : Bus δ α) (l : Level) (lane : Lane δ) : Bus δ α :=
  match l with
  | .normal => { b with normal := lane }
  | .high => { b with high := lane }

@[simp] theorem lane_setLane (b : Bus δ α) (l l' : Level) (x : Lane δ) :
    (b.setLane l x).lane l' = if l' = l then x else b.lane l' := by
  cases l <;> cases l' <;> rfl

/-- The deliveries waiting at a level, the oldest first. -/
def queue (b : Bus δ α) (l : Level) : List δ := (b.lane l).queue

/-- The counters of a level. -/
def counters (b : Bus δ α) (l : Level) : Counters := (b.lane l).counters

/-- The number of deliveries waiting at a level. -/
def queued (b : Bus δ α) (l : Level) : Nat := (b.queue l).length

/-- The number of deliveries that a level can still take. -/
def freeSlots (b : Bus δ α) (l : Level) : Nat := l.capacity - b.queued l

/-- Whether a level can take a delivery. -/
def hasSpace (b : Bus δ α) (l : Level) : Bool := 0 < b.freeSlots l

/-- Open the queues; true the first time. -/
def start (b : Bus δ α) : Bool × Bus δ α := (!b.started, { b with started := true })

/-- Become the worker of the bus; true for the first. -/
def claim (b : Bus δ α) : Bool × Bus δ α := (!b.claimed, { b with claimed := true })

/-- Apply `f` to the counters of a level. -/
def count (b : Bus δ α) (l : Level) (f : Counters → Counters) : Bus δ α :=
  b.setLane l { b.lane l with counters := f (b.counters l) }

/-- Queue a delivery, or say why not. Every attempt is counted, and of the
refusals those of a full queue. -/
def offer (b : Bus δ α) (l : Level) (d : δ) : Option Refusal × Bus δ α :=
  let b := b.count l .countAttempt
  if !b.started then (some .notStarted, b)
  else if b.queued l < l.capacity then
    (none, b.setLane l { b.lane l with queue := b.queue l ++ [d] })
  else (some .queueFull, b.count l .countOverflow)

/-- The oldest delivery of a level and the bus without it. -/
def takeFrom? (b : Bus δ α) (l : Level) : Option (δ × Bus δ α) :=
  match b.queue l with
  | [] => none
  | d :: rest => some (d, b.setLane l { b.lane l with queue := rest })

/-- The next delivery to make, high level first. -/
def next? (b : Bus δ α) : Option (Level × δ × Bus δ α) :=
  match b.takeFrom? .high with
  | some (d, b) => some (.high, d, b)
  | none => (b.takeFrom? .normal).map fun (d, b) => (.normal, d, b)

/-- Count a delivery whose listeners have run. -/
def settle (b : Bus δ α) (l : Level) : Bus δ α := b.count l (·.countDelivery (b.queued l))

/-- The counters and free places of both levels. -/
def report (b : Bus δ α) : Report :=
  ⟨⟨b.counters .normal, clampByte (b.freeSlots .normal)⟩,
    ⟨b.counters .high, clampByte (b.freeSlots .high)⟩⟩

/-- Set all counters to zero. -/
def resetCounters (b : Bus δ α) : Bus δ α :=
  (b.count .normal fun _ => .zero).count .high fun _ => .zero

/-! ## The queues after each operation -/

@[simp] theorem queue_fresh (wait : UInt32) (l : Level) : (fresh wait : Bus δ α).queue l = [] := by
  cases l <;> rfl

@[simp] theorem queue_setLane (b : Bus δ α) (l l' : Level) (x : Lane δ) :
    (b.setLane l x).queue l' = if l' = l then x.queue else b.queue l' := by
  simp only [queue, lane_setLane]
  split <;> rfl

/-- Counting leaves the queues alone. -/
@[simp] theorem queue_count (b : Bus δ α) (l l' : Level) (f : Counters → Counters) :
    (b.count l f).queue l' = b.queue l' := by
  simp only [count, queue_setLane]
  split
  · rename_i h
    rw [h, queue]
  · rfl

@[simp] theorem queue_settle (b : Bus δ α) (l l' : Level) :
    (b.settle l).queue l' = b.queue l' := queue_count ..

@[simp] theorem queue_resetCounters (b : Bus δ α) (l : Level) :
    b.resetCounters.queue l = b.queue l := by
  simp [resetCounters]

/-- A delivery that is not refused is queued behind the others of its level; one
that is refused is not queued. -/
theorem queue_offer (b : Bus δ α) (l l' : Level) (d : δ) :
    (b.offer l d).2.queue l' =
      if (b.offer l d).1 = none ∧ l' = l then b.queue l ++ [d] else b.queue l' := by
  simp only [offer]
  split
  · simp
  · split
    · by_cases h : l' = l <;> simp [h]
    · simp

/-- What is dequeued was the oldest of its level; the other level is left alone. -/
theorem queue_of_takeFrom? {b b' : Bus δ α} {l : Level} {d : δ}
    (h : b.takeFrom? l = some (d, b')) (l' : Level) :
    b.queue l' = if l' = l then d :: b'.queue l else b'.queue l' := by
  unfold takeFrom? at h
  split at h
  · cases h
  · rename_i rest hq
    cases h
    by_cases hl : l' = l
    · simp [hl, hq]
    · simp [hl]

/-- Nothing can be dequeued only where nothing is queued. -/
theorem takeFrom?_eq_none_iff {b : Bus δ α} {l : Level} :
    b.takeFrom? l = none ↔ b.queue l = [] := by
  unfold takeFrom?
  split <;> simp_all

/-! ## The counters after each operation -/

@[simp] theorem counters_fresh (wait : UInt32) (l : Level) :
    (fresh wait : Bus δ α).counters l = .zero := by
  cases l <;> rfl

@[simp] theorem counters_count (b : Bus δ α) (l l' : Level) (f : Counters → Counters) :
    (b.count l f).counters l' = if l' = l then f (b.counters l) else b.counters l' := by
  simp only [count, counters, lane_setLane]
  split <;> rfl

@[simp] theorem counters_resetCounters (b : Bus δ α) (l : Level) :
    b.resetCounters.counters l = .zero := by
  cases l <;> rfl

/-- Queueing is not counted, only the attempt and its refusal for lack of space. -/
theorem counters_offer (b : Bus δ α) (l l' : Level) (d : δ) :
    (b.offer l d).2.counters l' =
      if l' = l then
        if (b.offer l d).1 = some .queueFull then (b.counters l).countAttempt.countOverflow
        else (b.counters l).countAttempt
      else b.counters l' := by
  simp only [offer]
  split
  · simp
  · split
    · by_cases h : l' = l
      · subst h
        simp [counters, count]
      · simp [counters, count, h]
    · by_cases h : l' = l <;> simp [h]

/-- A delivery that is dequeued is not counted yet. -/
theorem counters_of_takeFrom? {b b' : Bus δ α} {l : Level} {d : δ}
    (h : b.takeFrom? l = some (d, b')) (l' : Level) : b'.counters l' = b.counters l' := by
  unfold takeFrom? at h
  split at h
  · cases h
  · cases h
    by_cases hl : l' = l
    · subst hl
      simp [counters]
    · simp [counters, hl]

end Bus

end NodeBus
