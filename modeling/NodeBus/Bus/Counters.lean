/-!
# Bus statistics

Each level of the bus counts attempts, overflows and deliveries and keeps the
greatest backlog seen after a delivery. The counts are 32-bit words that wrap
around.
-/

namespace NodeBus.Bus

/-- What a level counts. -/
structure Counters where
  /-- Attempts to queue a delivery. -/
  published : UInt32
  /-- Attempts refused because the queue was full. -/
  overflowed : UInt32
  /-- Deliveries made. -/
  dispatched : UInt32
  /-- The most deliveries left queued right after a delivery. -/
  highWater : UInt8
  deriving DecidableEq, Repr

/-- A count as a byte; what does not fit is 255. -/
def clampByte (n : Nat) : UInt8 := .ofNat (min n 255)

namespace Counters

def zero : Counters := ⟨0, 0, 0, 0⟩

def countAttempt (c : Counters) : Counters := { c with published := c.published + 1 }

def countOverflow (c : Counters) : Counters := { c with overflowed := c.overflowed + 1 }

/-- Count a delivery that left `backlog` deliveries queued. -/
def countDelivery (c : Counters) (backlog : Nat) : Counters :=
  { c with
    dispatched := c.dispatched + 1
    highWater := if c.highWater < clampByte backlog then clampByte backlog else c.highWater }

end Counters

/-- The counters of a level with its free places, as reported. -/
structure LevelReport where
  counters : Counters
  freeSlots : UInt8
  deriving DecidableEq, Repr

namespace LevelReport

def zero : LevelReport := ⟨.zero, 0⟩

/-- The text of a report in log lines. -/
def text (r : LevelReport) : String :=
  s!"LevelStats \x7b published: {r.counters.published.toNat}, " ++
  s!"overflowed: {r.counters.overflowed.toNat}, dispatched: {r.counters.dispatched.toNat}, " ++
  s!"high_water: {r.counters.highWater.toNat}, free_slots: {r.freeSlots.toNat} \x7d"

end LevelReport

/-- The reports of both levels. -/
structure Report where
  normal : LevelReport
  high : LevelReport
  deriving DecidableEq, Repr

namespace Report

def zero : Report := ⟨.zero, .zero⟩

/-- The overflows of both levels; a sum beyond the word is its greatest value. -/
def overflows (r : Report) : UInt32 :=
  .ofNat (min (r.normal.counters.overflowed.toNat + r.high.counters.overflowed.toNat) 0xFFFFFFFF)

end Report

end NodeBus.Bus
