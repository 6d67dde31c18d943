/-!
# Tuning

The four numbers that a node is built with.
-/

namespace NodeBus

/-- The numbers that a node is built with. -/
structure Tuning where
  /-- The tick period in milliseconds. -/
  period : UInt16
  /-- How long the worker waits for a normal delivery, in milliseconds. -/
  wait : UInt32
  /-- How often statistics are logged, in milliseconds. -/
  interval : UInt32
  /-- The speed of the command link. -/
  baud : UInt32
  deriving DecidableEq, Repr

/-- The numbers of an ordinary node. -/
def Tuning.standard : Tuning := ⟨100, 10, 5000, 115200⟩

end NodeBus
