import NodeBus.Node

/-!
# The log of a board

Everything that can be seen from outside a board: the lines its tasks log, the
bytes it sends, and what listeners that are no part of it are told.
-/

namespace NodeBus.Board

/-- How serious a logged line is. -/
inductive Severity where
  | trace
  | debug
  | info
  | warn
  | error
  deriving DecidableEq, Repr

/-- The name of a severity in front of its lines. -/
def Severity.name : Severity → String
  | .trace => "trace"
  | .debug => "debug"
  | .info => "info"
  | .warn => "warn"
  | .error => "error"

/-- Something seen from outside a board. -/
inductive Entry where
  | logged (severity : Severity) (line : String)
  /-- The serial line was set up. -/
  | opened (baud : UInt32)
  | sent (bytes : List UInt8)
  | heardTick (listener : Nat) (tick : Tick)
  | heardNotice (notice : Notice)
  deriving DecidableEq, Repr

namespace Entry

def info (line : String) : Entry := .logged .info line
def warn (line : String) : Entry := .logged .warn line
def error (line : String) : Entry := .logged .error line
def debug (line : String) : Entry := .logged .debug line
def trace (line : String) : Entry := .logged .trace line

/-- The text of an entry. -/
def text : Entry → String
  | .logged severity line => severity.name ++ ": " ++ line
  | .opened baud => s!"uart: {baud.toNat}"
  | .sent bytes => "tx: " ++ Bytes.hex bytes
  | .heardTick listener tick =>
    s!"cb: {listener} tick {tick.count.toNat} ts {tick.envelope.timestamp.toNat}"
  | .heardNotice notice =>
    let ok := decide (notice.response.status = .success)
    s!"rcb: ts {notice.envelope.timestamp.toNat} ok {ok} data " ++ Bytes.hex notice.response.data

/-- What an outside listener shows of the news it is told. -/
def ofNews? (news : News) (s : Subscriber) : Option Entry :=
  match s.1, news with
  | .outside i, .tick tick => some (.heardTick i tick)
  | .outside _, .notice notice => some (.heardNotice notice)
  | _, _ => none

end Entry

end NodeBus.Board
