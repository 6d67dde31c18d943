import NodeBus.Command.Request
import NodeBus.Frame.Receiver

/-!
# Tasks of a board

The tasks that share a board, each with what it has to remember between two of
its steps, and what arrives on the serial line.
-/

namespace NodeBus.Board

/-- What goes wrong on a serial line. -/
inductive LineFault where
  | overrun
  | broken
  | parity
  | framing
  deriving DecidableEq, Repr

/-- The name of a line fault in logged lines. -/
def LineFault.name : LineFault → String
  | .overrun => "Overrun"
  | .broken => "Break"
  | .parity => "Parity"
  | .framing => "Framing"

/-- What arrives on the serial line at once. -/
inductive Arrival where
  | bytes (bytes : List UInt8)
  | fault (fault : LineFault)
  deriving DecidableEq, Repr

/-- The receiver of the command link, which takes frames as large as a request. -/
abbrev LinkReceiver := Frame.Receiver Command.Request.maxFrame

/-- A task and where it is. Times are in microseconds since power-on. -/
inductive Task where
  /-- Sets up the node, starts the other tasks and ends. -/
  | boot
  | workerStart
  /-- Delivers, the high level first. -/
  | workerSweep
  /-- Waits for a normal delivery until the deadline. -/
  | workerWait (deadline : Nat)
  | timerStart
  | timer (due : Nat)
  | linkStart
  /-- Has read some bytes that the receiver has not been fed yet. -/
  | link (receiver : LinkReceiver) (unread : List UInt8)
  | monitorStart
  | monitor (due : Nat)

end NodeBus.Board
