import NodeBus.Board.Step
import NodeBus.Session.Operation

/-!
# Running a board

The tasks of a board take their steps in passes: each task in turn takes steps
until it has nothing to do, and passes follow each other until no task has taken
a step. Then `Board.settle` is done and only time or an arrival can make a
difference.
-/

namespace NodeBus.Board

/-- What was seen of some tasks, in order, together with the tasks that go on and
those that were started, and whether any step was taken. -/
structure Visit where
  seen : List Entry
  board : Board
  left : List Task
  started : List Task
  moved : Bool

/-- Let one task take steps until it has nothing to do, at most `fuel` of them.
`seen` are the entries so far, the latest first. -/
def advance (seen : List Entry) (started : List Task) (moved : Bool) (b : Board) (t : Task) :
    Nat → Visit
  | 0 => ⟨seen, b, [t], started, moved⟩
  | fuel + 1 =>
    match b.step t with
    | none => ⟨seen, b, [t], started, moved⟩
    | some m =>
      let seen := m.seen.reverse ++ seen
      match m.task with
      | none => ⟨seen, m.board, [], started ++ m.started, true⟩
      | some t => advance seen (started ++ m.started) true m.board t fuel

/-- Let every task of a list advance in turn. -/
def visit (fuel : Nat) (v : Visit) : List Task → Visit
  | [] => v
  | t :: rest =>
    let w := advance v.seen v.started v.moved v.board t fuel
    visit fuel { w with left := v.left ++ w.left } rest

/-- A bound on the steps that the link takes to read and feed an arrival. -/
def Arrival.steps : Arrival → Nat
  | .bytes s => 2 * s.length + 2
  | .fault _ => 2

/-- A bound on the steps that the link takes for all that has arrived. -/
def inboxSteps : List Arrival → Nat
  | [] => 0
  | arrival :: inbox => arrival.steps + inboxSteps inbox

/-- A bound on the steps that a task can take without waiting: a timer makes up
for at most the ticks since power-on, the link reads at most what has arrived,
and the worker delivers at most what is queued. -/
def patience (b : Board) : Nat := 64 + b.uptime / 100 + inboxSteps b.inbox

/-- One pass over all tasks. Tasks that are started in a pass are reached in it. -/
def pass (seen : List Entry) (b : Board) : Visit :=
  let fuel := b.patience
  let first := visit fuel ⟨seen, b, [], [], false⟩ b.tasks
  let v := visit fuel { first with started := [] } first.started
  { v with board := { v.board with tasks := v.left } }

/-- At most `fuel` passes, until one in which no task takes a step. -/
def settleFrom (seen : List Entry) (b : Board) : Nat → List Entry × Board
  | 0 => (seen.reverse, b)
  | fuel + 1 =>
    let v := pass seen b
    if v.moved then settleFrom v.seen v.board fuel else (v.seen.reverse, v.board)

/-- Run the tasks until none has anything to do. -/
def settle (b : Board) : List Entry × Board := b.settleFrom [] b.patience

/-! ## What can be done to a board -/

/-- Add a task behind the others. -/
def spawn (b : Board) (t : Task) : Board := { b with tasks := b.tasks ++ [t] }

/-- Apply an operation to the node. -/
def operate (b : Board) (o : Session.Operation) : Session.Reply × Board :=
  let (reply, node) := o.apply b.node
  (reply, { b with node })

/-- Start the board. A board starts only once. -/
def start (b : Board) : Option (List Entry × Board) :=
  if b.booted then none else some (b.spawn .boot).settle

/-- Start another worker. -/
def startWorker (b : Board) : List Entry × Board :=
  (b.spawn .workerStart).settle

/-- Let time pass and run the tasks, `times` times. -/
def wait (b : Board) (microseconds : Nat) : Nat → List Entry × Board
  | 0 => ([], b)
  | times + 1 =>
    let (seen, b) := (b.elapse microseconds).settle
    let (later, b) := b.wait microseconds times
    (seen ++ later, b)

/-- Let something arrive on the serial line and run the tasks. -/
def receive (b : Board) (arrivals : List Arrival) : List Entry × Board :=
  { b with inbox := b.inbox ++ arrivals }.settle

/-- Publish the spare slot a number of times: whether each counts as done. -/
def publishSpare (b : Board) (level : Level) (origin : Origin) :
    Nat → List Bool × List Entry × Board
  | 0 => ([], [], b)
  | times + 1 =>
    let (done, seen, b) := b.publish spareSlot level origin
    let (others, later, b) := b.publishSpare level origin times
    (done :: others, seen ++ later, b)

/-- The ticks of the timer so far, whether they were published or not. -/
def ticks (b : Board) : UInt32 := (b.node.slots.get timerSlot).count

end NodeBus.Board
