import NodeBus.Board.Entry
import NodeBus.Board.Task
import NodeBus.Docket
import NodeBus.Tuning

/-!
# Boards

A board is a node together with its uptime, its serial line and the tasks that
run on it. This module holds what the tasks share: publishing with the alarm,
delivering, and answering a command.

One topic, one slot and one alarm are used by the board itself: its timer
publishes slot `timerSlot` on topic `timerTopic`, and the alarm counts and logs
what is refused.
-/

namespace NodeBus

/-- A node with its uptime, its serial line and its tasks. -/
structure Board where
  tuning : Tuning
  node : Node
  /-- Deliveries that were lost to a full queue, as far as the alarm was raised. -/
  lost : UInt32
  /-- Microseconds since power-on. -/
  uptime : Nat
  /-- What has arrived on the serial line and was not read yet. -/
  inbox : List Board.Arrival
  /-- How many of the next writes fail. -/
  failing : Nat
  /-- Whether the node has been set up. -/
  booted : Bool
  /-- The tasks in order of their start. -/
  tasks : List Board.Task

namespace Board

/-- The topic that ticks are published on. -/
def timerTopic : Nat := 0

/-- The slot that the timer advances. -/
def timerSlot : Nat := 0

/-- A slot that holds the initial tick. -/
def spareSlot : Nat := 1

/-- The name of the topic that ticks are published on. -/
def timerName : String := "timer"

/-- The tick count of a board. -/
def counter : Nat := 0

/-- The display of a board. -/
def display : Nat := 0

/-- The alarm of a board. -/
def alarm : Alarm := ⟨0, .blank⟩

/-- A board at power-on. The period of its timer is known from the start. -/
def powerOn (tuning : Tuning) : Board where
  tuning
  node := .fresh tuning.wait [timerName]
  lost := 0
  uptime := 0
  inbox := []
  failing := 0
  booted := false
  tasks := []

/-- The clock of the node: whole milliseconds since power-on, as a word. -/
def clock (uptime : Nat) : UInt32 := .ofNat (uptime / 1000)

/-- Let time pass. -/
def elapse (b : Board) (microseconds : Nat) : Board :=
  let uptime := b.uptime + microseconds
  { b with uptime, node := { b.node with now := clock uptime } }

/-! ## Publishing and delivering -/

/-- Raise the alarm: a full queue is counted and logged, a bus that is not
started is logged. -/
def raise (b : Board) (cause : Refusal) (topic : String) : List Entry × Board :=
  match cause with
  | .queueFull =>
    ([.warn s!"Dispatch queue full, dropped '{topic}' delivery"], { b with lost := b.lost + 1 })
  | .notStarted =>
    ([.error s!"Dispatch engine not started, '{topic}' delivery rejected"], b)

/-- Publish a slot on the timer topic: whether that counts as done, with the
alarm that it raises. -/
def publish (b : Board) (slot : Nat) (level : Level) (origin : Origin) :
    Bool × List Entry × Board :=
  let (outcome, node) := b.node.publish (.tick timerTopic slot) level
  let b := { b with node }
  match outcome, node.alarmFor origin with
  | .refused cause, some _ => (false, b.raise cause (node.topics.get timerTopic).name)
  | outcome, _ => (outcome.isDone, [], b)

/-- Tell a list of listeners. -/
def tell (b : Board) (news : News) (audience : List Subscriber) : List Entry × Board :=
  (audience.filterMap (Entry.ofNews? news), { b with node := b.node.tell news audience })

/-- Make a delivery that was dequeued, which leaves `bus`, and count it. One whose docket is
dropped tells nobody. -/
def deliver (b : Board) (level : Level) (d : Delivery) (bus : Bus Delivery Alarm) :
    List Entry × Board :=
  let b := { b with node := { b.node with bus } }
  let (heard, b) := match d.docket.open? b.node with
    | some (news, audience) => b.tell news audience
    | none => ([], b)
  (heard, { b with node := { b.node with bus := b.node.bus.settle level } })

theorem deliver_eq (b : Board) (level : Level) (d : Delivery) (bus : Bus Delivery Alarm) :
    let n : Node := { b.node with bus }
    let told := ({ b with node := n } : Board).tell (n.newsOf d) (n.audience d)
    b.deliver level d bus =
      (told.1, { told.2 with
        node := { told.2.node with bus := told.2.node.bus.settle level } }) := by
  rw [deliver, open?_docket]

/-- Advance the timer slot and publish it if a normal delivery can be taken;
whether the tick was published. -/
def tick (b : Board) : Bool × List Entry × Board :=
  let b := { b with node := b.node.advance timerSlot b.node.now b.tuning.period }
  if b.node.bus.hasSpace .normal then b.publish timerSlot .normal .task else (false, [], b)

/-! ## Commands -/

/-- Send bytes, unless writes fail. -/
def send (b : Board) (bytes : List UInt8) : List Entry × Board :=
  match b.failing with
  | 0 => ([.sent bytes], b)
  | failing + 1 =>
    ([.warn s!"Failed to send response: {LineFault.broken.name}"], { b with failing })

/-- Write a response to a buffer that takes the longest one, and send what was written. -/
def respond (b : Board) (response : Command.Response) (stream : UInt8) : List Entry × Board :=
  let room := List.replicate Command.Response.maxFrame 0
  let (written, buffer) := response.write Frame.finalFlag stream room
  match written with
  | .ok length => b.send (buffer.take length)
  | .error cause => ([.error s!"Response encoding failed: {cause.name}"], b)

/-- Execute a request, tell its notice at once, and answer on the stream that the
request came on. -/
def serve (b : Board) (request : Command.Request) (stream : UInt8) : List Entry × Board :=
  let b := { b with node := b.node.execute request }
  let notice := b.node.notice
  let (heard, b) := b.tell (.notice notice) b.node.noticeTopic.roster.entries
  let response := b.node.notice.response
  let ok := decide (notice.response.status = .success)
  let line := s!"Command {request.key.text} -> {response.status.name} (ok={ok})"
  let (sent, b) := b.respond response stream
  (heard ++ [.debug line] ++ sent, b)

/-- Answer a complete frame if it holds a request. -/
def answer (b : Board) (frame : List UInt8) : List Entry × Board :=
  match Frame.decode frame with
  | .error _ => ([], b)
  | .ok f =>
    match Command.Request.ofPayload f.payload with
    | .error cause => ([.warn s!"Malformed request: {cause.name}"], b)
    | .ok request => b.serve request f.stream

end Board

end NodeBus
