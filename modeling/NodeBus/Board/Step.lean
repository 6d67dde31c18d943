import NodeBus.Board

/-!
# Steps of the tasks

`Board.step` takes a task from where it waits to where it may wait next. A task
that has nothing to do takes no step.

Between two steps any other task may take one; nothing here relies on the order
in which the tasks of a board take theirs.
-/

namespace NodeBus.Board

/-- What a step leads to: what is seen of it, the board, where the task is
afterwards unless it has ended, and the tasks that it has started. -/
structure Moved where
  seen : List Entry
  board : Board
  task : Option Task
  started : List Task := []

/-! ## Setting up -/

/-- The handlers of a board. -/
def handlers : List Command.Handler := [.ping, .counter counter]

/-- Attach a listener of the board itself, or log that there is no room for it. -/
def attach (b : Board) (attached : Bool × Node) (what : String) : List Entry × Board :=
  (if attached.1 then [] else [.error s!"Timer topic full, {what} not attached"],
    { b with node := attached.2 })

/-- Register a handler, or log why it is not. -/
def register (b : Board) (h : Command.Handler) : List Entry × Board :=
  match b.node.catalogue.register h with
  | .ok catalogue => ([], { b with node := { b.node with catalogue } })
  | .error cause => ([.error s!"Command {h.key.text} not registered: {cause.name}"], b)

/-- Register a list of handlers, one after the other. -/
def registerAll (b : Board) : List Command.Handler → List Entry × Board
  | [] => ([], b)
  | h :: rest =>
    let (seen, b) := b.register h
    let (later, b) := b.registerAll rest
    (seen ++ later, b)

/-- Set up the node and the serial line and start the tasks. -/
def boot (b : Board) : Moved :=
  let (first, bus) := { b.node.bus with alarm := some alarm }.start
  let b := { b with node := { b.node with bus } }
  let again := if first then [] else [.warn "Dispatch engine already started"]
  let (counting, b) := b.attach (b.node.attachCounter counter timerTopic) "counter"
  let (timekeeping, b) := b.attach (b.node.attachDisplay display timerTopic) "clock display"
  let (registering, b) := b.registerAll handlers
  { seen :=
      [.info "Courier firmware starting...", .info "Peripherals initialized"] ++ again ++
      counting ++ timekeeping ++ registering ++
      [.info s!"{b.node.catalogue.size} commands registered", .opened b.tuning.baud,
        .info s!"UART initialized at {b.tuning.baud.toNat} baud", .info "All tasks spawned"]
    board := { b with booted := true }
    task := none
    started := [.workerStart, .timerStart, .linkStart, .monitorStart] }

/-! ## The worker -/

/-- Log the start and claim the bus; a second worker ends. -/
def workerStart (b : Board) : Moved :=
  let started := Entry.info s!"Dispatch worker started (normal wait {b.node.bus.wait.toNat}ms)"
  let (first, bus) := b.node.bus.claim
  if first then ⟨[started], { b with node := { b.node with bus } }, some .workerSweep, []⟩
  else
    ⟨[started, .error "Dispatch worker already running, second worker exits"], b, none, []⟩

/-- Deliver what is next, the high level first, or begin to wait. -/
def workerSweep (b : Board) : Moved :=
  match b.node.bus.next? with
  | some (level, d, bus) =>
    let (seen, b) := b.deliver level d bus
    ⟨seen, b, some .workerSweep, []⟩
  | none => ⟨[], b, some (.workerWait (b.uptime + 1000 * b.node.bus.wait.toNat)), []⟩

/-- Deliver a normal delivery, or give up waiting once the deadline has come. -/
def workerWait (b : Board) (deadline : Nat) : Option Moved :=
  match b.node.bus.takeFrom? .normal with
  | some (d, bus) =>
    let (seen, b) := b.deliver .normal d bus
    some ⟨seen, b, some .workerSweep, []⟩
  | none => if deadline ≤ b.uptime then some ⟨[], b, some .workerSweep, []⟩ else none

/-! ## The timer and the monitor -/

/-- The time between two ticks, in microseconds. -/
def tickTime (b : Board) : Nat := 1000 * b.tuning.period.toNat

/-- The time between two logs of the statistics, in microseconds. -/
def monitorTime (b : Board) : Nat := 1000 * b.tuning.interval.toNat

/-- Tick once the time has come. Ticks that are late are made up for. -/
def timer (b : Board) (due : Nat) : Option Moved :=
  if due ≤ b.uptime then
    let (published, seen, b) := b.tick
    let count := (b.node.slots.get timerSlot).count.toNat
    let skipped := if published then [] else
      [.trace s!"Tick {count} skipped, dispatch queue busy"]
    some ⟨seen ++ skipped, b, some (.timer (due + b.tickTime)), []⟩
  else none

/-- The lines about the statistics. -/
def statistics (b : Board) : List Entry :=
  let report := b.node.bus.report
  let time := (b.node.displays.get display).text
  let count := (b.node.counters.get counter).toNat
  [.info s!"Uptime {time} | ticks counted {count} | overflows {b.lost.toNat}",
    .debug s!"Normal queue: {report.normal.text}", .debug s!"High queue: {report.high.text}"] ++
  if 0 < report.overflows then
    [.warn s!"{report.overflows.toNat} deliveries dropped since boot"] else []

/-- Log the statistics once the time has come. -/
def monitor (b : Board) (due : Nat) : Option Moved :=
  if due ≤ b.uptime then some ⟨b.statistics, b, some (.monitor (due + b.monitorTime)), []⟩
  else none

/-! ## The command link -/

/-- The most bytes read at once. -/
def readSize : Nat := 64

/-- Feed one byte to the receiver and answer the frame that it completes. -/
def feed (b : Board) (receiver : LinkReceiver) (byte : UInt8) :
    List Entry × Board × LinkReceiver :=
  match receiver.feed byte with
  | (.ok (some frame), receiver) =>
    let (seen, b) := b.answer frame
    (seen, b, receiver)
  | (.ok none, receiver) => ([], b, receiver)
  | (.error cause, receiver) => ([.warn s!"Frame rejected: {cause.name}"], b, receiver)

/-- Feed the next byte, or read again once all have been fed. -/
def link (b : Board) (receiver : LinkReceiver) (unread : List UInt8) : Option Moved :=
  match unread with
  | byte :: unread =>
    let (seen, b, receiver) := b.feed receiver byte
    some ⟨seen, b, some (.link receiver unread), []⟩
  | [] =>
    match b.inbox with
    | [] => none
    | .fault fault :: inbox =>
      some ⟨[.warn s!"UART read error: {fault.name}"], { b with inbox },
        some (.link receiver []), []⟩
    | .bytes bytes :: inbox =>
      let read := bytes.take readSize
      let left := bytes.drop readSize
      let inbox := if left.isEmpty then inbox else .bytes left :: inbox
      some ⟨[.trace s!"RX: {read.length} bytes"], { b with inbox },
        some (.link receiver read), []⟩

/-! ## All tasks -/

/-- Take one step of a task. -/
def step (b : Board) : Task → Option Moved
  | .boot => some b.boot
  | .workerStart => some b.workerStart
  | .workerSweep => some b.workerSweep
  | .workerWait deadline => b.workerWait deadline
  | .timerStart =>
    some ⟨[.info s!"Timer task started ({b.tuning.period.toNat}ms)"], b,
      some (.timer (b.uptime + b.tickTime)), []⟩
  | .timer due => b.timer due
  | .linkStart =>
    some ⟨[.info s!"Command link started ({b.node.catalogue.size} commands)"], b,
      some (.link .fresh []), []⟩
  | .link receiver unread => b.link receiver unread
  | .monitorStart =>
    some ⟨[.info "Monitor task started"], b, some (.monitor (b.uptime + b.monitorTime)), []⟩
  | .monitor due => b.monitor due

end NodeBus.Board
