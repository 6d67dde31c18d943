import NodeBus.Docket
import NodeBus.Session.Operation

/-!
# The session machine

Listeners, hooks and whoever is busy during a pause may act on the node while an
action of someone else is still going on. The machine keeps everything that is
going on on a stack, the innermost on top, and does one small thing at a time. A look
at one level of the bus is one small thing, so that others may act between the look at
the high level and the look at the normal level, and between the look for space of a
tick and its publication.

- `Machine.perform` begins an action;
- `Machine.deliver` takes a delivery from the bus, tells its listeners and counts it;
- `Machine.seek` is one look of a poll or a drain at a level;
- `Machine.tick` is one stage of a tick;
- `Machine.work` is one small thing the worker does;
- `Machine.step` is one small thing of whatever is on top.

What a listener or hook does when it is called is a `Reaction`: one script for
each of its calls.
-/

namespace NodeBus.Session

/-! ## What goes on -/

/-- What a caller does at each of its calls, and how often it was called. -/
structure Reaction where
  script : Nat → Script
  calls : Nat

namespace Reaction

/-- A caller that never does anything. -/
def idle : Reaction := ⟨fun _ => [], 0⟩

/-- The same script for the next `times` calls and nothing afterwards. -/
def repeating (times : Nat) (script : Script) : Reaction :=
  ⟨fun call => if call < times then script else [], 0⟩

/-- The script of the next call. -/
def next (r : Reaction) : Script := r.script r.calls

end Reaction

/-- How long a pause of the worker lasts and what is done meanwhile. `pending` is
the number of further looks at the queue before the pause is over, if it ever is. -/
structure Pause where
  pending : Option Nat
  busy : Script

/-- A pause that is not over by itself. -/
def Pause.lasting : Pause := ⟨none, []⟩

/-- Where the worker is in a round. -/
inductive Phase where
  /-- It delivers what is queued at the high level. -/
  | sweeping
  /-- It has found the high level empty and looks at the normal level next. -/
  | glancing
  /-- A pause has begun and others are busy. -/
  | pausing (busy : Script) (pending : Option Nat)
  /-- It looks for a normal delivery until the pause is over. -/
  | waiting (pending : Option Nat)
  /-- The round is over. -/
  | rested

/-- The worker. -/
structure Worker where
  /-- Whether a round follows every round. -/
  loops : Bool
  /-- The pauses ahead; behind them every pause is lasting. -/
  pauses : List Pause
  /-- How many more times a pause is looked after before the worker is given up. -/
  looks : Nat
  delivered : Nat
  notes : List Note
  phase : Phase

namespace Worker

/-- The number of times a worker is looked after before it is given up. -/
def patience : Nat := 64

/-- A worker that is about to begin. The first look is the one that begins. -/
def begin (loops : Bool) (pauses : List Pause) : Worker :=
  ⟨loops, pauses, patience - 1, 0, [], .sweeping⟩

/-- What a worker answers. -/
def reply (w : Worker) (givenUp : Bool) : Reply :=
  if w.loops then .served (!givenUp) w.notes
  else .worked (if givenUp then none else some w.delivered) w.notes

def note (w : Worker) (n : Note) : Worker := { w with notes := w.notes ++ [n] }

end Worker

/-- Who looks for a delivery, besides the worker. -/
inductive Seeker where
  | poll
  /-- A drain that has made so many deliveries. -/
  | drain (delivered : Nat)
  deriving DecidableEq, Repr

/-- How far a tick has come. -/
inductive TickStage where
  /-- The clock was read, and the slot advances next. -/
  | advancing (now : UInt32)
  /-- It looks for space at the normal level next. -/
  | checking
  /-- It has found space and is published next. -/
  | publishing
  deriving DecidableEq, Repr

/-- Something that is going on. -/
inductive Activity where
  /-- A script. -/
  | code (who : Caller) (todo : Script)
  /-- An action that is about to begin. -/
  | act (action : Action)
  /-- An action that ends when everything above it has ended. -/
  | acting (action : Action)
  /-- The end of the action below, with a reply read off the node. -/
  | answer (reply : Node → Reply)
  /-- News that is told to the listeners left. -/
  | telling (news : News) (audience : List Subscriber)
  /-- A delivery that is counted once it has been told. -/
  | settling (level : Level)
  /-- A poll or a drain looks at a level next, at the normal level only after it has
  found the high level empty. -/
  | seeking (seeker : Seeker) (level : Level)
  | ticking (topic slot : Nat) (period : UInt16) (stage : TickStage)
  | working (worker : Worker)

/-- A node, the reactions of its callers, and what goes on, the innermost first. -/
structure Machine where
  node : Node
  reactions : Bank Caller Reaction
  stack : List Activity

namespace Machine

/-- A program about to run. -/
def begin (node : Node) (reactions : Bank Caller Reaction) (program : Script) : Machine :=
  ⟨node, reactions, [.code .main program]⟩

/-- Put activities on top, the first one innermost. -/
def push (m : Machine) (activities : List Activity) : Machine :=
  { m with stack := activities ++ m.stack }

/-! ## Parts of actions -/

/-- The end of an action of whoever is on top. Actions during a pause are noted by
the worker. -/
def conclude (m : Machine) (action : Action) (reply : Reply) : List Happening × Machine :=
  match m.stack with
  | .code who todo :: rest =>
    ([.did who action reply], { m with stack := .code who todo :: rest })
  | .working w :: rest =>
    ([.did .pause action reply], { m with stack := .working (w.note (.did action reply)) :: rest })
  | _ => ([], m)

/-- Call a listener or hook, which then runs the script of this call. -/
def call (m : Machine) (who : Caller) : Machine :=
  let reaction := m.reactions.get who
  { m with
    reactions := m.reactions.set who { reaction with calls := reaction.calls + 1 }
    stack := .code who reaction.next :: m.stack }

/-- The caller that a listener is, if it is not part of the node. -/
def callerOf (news : News) : Listener → Option Caller
  | .outside i => match news with | .tick _ => some (.tick i) | .notice _ => some (.notice i)
  | _ => none

/-- Tell one listener. -/
def tell (m : Machine) (news : News) (s : Subscriber) : List Happening × Machine :=
  let m := { m with node := m.node.hear news s }
  ([.heard s news], match callerOf news s.1 with | some who => m.call who | none => m)

/-- Take a delivery that was dequeued, which leaves `bus`. Its docket is opened: its
listeners and its value are those of this moment. One that is dropped tells nobody, but
counts. -/
def deliver (m : Machine) (level : Level) (d : Delivery) (bus : Bus Delivery Alarm) :
    List Happening × Machine :=
  let m := { m with node := { m.node with bus } }
  ([.taken level d], match d.docket.open? m.node with
    | some (news, audience) => m.push [.telling news audience, .settling level]
    | none => m.push [.settling level])

/-- Nothing that was published is dropped. -/
theorem deliver_eq (m : Machine) (level : Level) (d : Delivery) (bus : Bus Delivery Alarm) :
    m.deliver level d bus =
      ([.taken level d], { m with node := { m.node with bus } }.push
        [.telling (({ m.node with bus } : Node).newsOf d)
          (({ m.node with bus } : Node).audience d), .settling level]) := by
  rw [deliver, open?_docket]

/-- Publish. If that is refused, the alarm is raised before the answer. -/
def publish (m : Machine) (d : Delivery) (level : Level) (origin : Origin)
    (reply : Bool → Node → Reply) : List Happening × Machine :=
  let (outcome, node) := m.node.publish d level
  let m := { m with node }.push [.answer (reply outcome.isDone)]
  match outcome with
  | .unheard => ([], m)
  | .queued => ([.offered level d none], m)
  | .refused cause =>
    match m.node.alarmFor origin with
    | none => ([.offered level d (some cause)], m)
    | some alarm =>
      ([.offered level d (some cause), .alarmed alarm cause (m.node.topicOf d).name],
        m.call (.hook alarm.hook))

/-- What a timer answers: whether its tick was queued, the count that its slot then
has, which others may have written meanwhile, and the period of the timer. -/
def ticked (slot : Nat) (period : UInt16) (queued : Bool) (n : Node) : Reply :=
  .ticked queued (n.slots.get slot).count period

/-! ## Beginning an action -/

/-- Begin an action of whoever is on top. -/
def perform (m : Machine) (action : Action) : List Happening × Machine :=
  let acting := m.push [.acting action]
  match action with
  | .op operation =>
    let (reply, node) := operation.apply m.node
    { m with node }.conclude action reply
  | .setClock now action => ([], { m with node := { m.node with now } }.push [.act action])
  | .notify topic tick =>
    ([], acting.push [.telling (.tick tick) (m.node.topics.get topic).roster.entries,
      .answer fun _ => .nothing])
  | .publish topic slot level origin =>
    acting.publish (.tick topic slot) level origin fun isDone _ => .flag isDone
  | .publishNotice level origin =>
    acting.publish .notice level origin fun isDone _ => .flag isDone
  | .tick topic slot period =>
    ([], acting.push [.ticking topic slot period (.advancing m.node.now)])
  | .poll => ([], acting.push [.seeking .poll .high])
  | .drain => ([], acting.push [.seeking (.drain 0) .high])
  | .step pending busy => ([], acting.push [.working (.begin false [⟨pending, busy⟩])])
  | .run waits busy =>
    let (first, bus) := m.node.bus.claim
    if first then
      let pauses := match waits with
        | 0 => [⟨none, busy⟩]
        | waits + 1 => ⟨some 0, busy⟩ :: List.replicate waits ⟨some 0, []⟩
      ([], { acting with node := { m.node with bus } }.push [.working (.begin true pauses)])
    else ([], acting.push [.answer fun _ => .served true []])
  | .dispatch order atOnce stream =>
    match order.request with
    | .error cause => ([], acting.push [.answer fun _ => .failed cause])
    | .ok request =>
      let acting := { acting with node := m.node.execute request }
      let reply (ok : Bool) (n : Node) := Reply.dispatched ok n.notice stream
      if atOnce then
        let notice := acting.node.notice
        ([], acting.push [.telling (.notice notice) acting.node.noticeTopic.roster.entries,
          .answer (reply (notice.response.status = .success))])
      else acting.publish .notice .normal .task reply
  | .arm who times script =>
    ([], { acting with reactions := m.reactions.set who (.repeating times script) }.push
      [.answer fun _ => .nothing])

/-! ## Looking for deliveries -/

/-- What a seeker goes on with after a delivery of a level. -/
def after (level : Level) : Seeker → Activity
  | .poll => .answer fun _ => .level (some level)
  | .drain delivered => .seeking (.drain (delivered + 1)) .high

/-- What a seeker goes on with after it has found a level empty. -/
def passing (seeker : Seeker) : Level → Activity
  | .high => .seeking seeker .normal
  | .normal => .answer fun _ => match seeker with
    | .poll => .level none
    | .drain delivered => .number delivered

/-- One look of a seeker at a level. -/
def seek (m : Machine) (seeker : Seeker) (level : Level) : List Happening × Machine :=
  match m.node.bus.takeFrom? level with
  | some (d, bus) => (m.push [after level seeker]).deliver level d bus
  | none => ([], m.push [passing seeker level])

/-! ## Ticks -/

/-- One stage of a tick. -/
def tick (m : Machine) (topic slot : Nat) (period : UInt16) :
    TickStage → List Happening × Machine
  | .advancing now =>
    ([], { m with node := m.node.advance slot now period }.push
      [.ticking topic slot period .checking])
  | .checking =>
    if m.node.bus.hasSpace .normal then ([], m.push [.ticking topic slot period .publishing])
    else ([], m.push [.answer (ticked slot period false)])
  | .publishing => m.publish (.tick topic slot) .normal .task (ticked slot period)

/-! ## The worker -/

/-- One small thing that a worker on top of the stack does. -/
def work (m : Machine) (w : Worker) : List Happening × Machine :=
  let become (w : Worker) : Machine := m.push [.working w]
  let deliver (level : Level) (d : Delivery) (bus : Bus Delivery Alarm) (phase : Phase) :=
    (become { w with delivered := w.delivered + 1, phase }).deliver level d bus
  match w.phase with
  | .sweeping =>
    match m.node.bus.takeFrom? .high with
    | some (d, bus) => deliver .high d bus .sweeping
    | none => ([], become { w with phase := .glancing })
  | .glancing =>
    match m.node.bus.takeFrom? .normal with
    | some (d, bus) => deliver .normal d bus .rested
    | none =>
      let pause := w.pauses.headD .lasting
      let wait := m.node.bus.wait
      ([.paused wait], become
        { w.note (.asked wait) with
          pauses := w.pauses.tail
          phase := .pausing pause.busy pause.pending })
  | .pausing [] pending => ([], become { w with phase := .waiting pending })
  | .pausing (action :: busy) pending =>
    ([], (become { w with phase := .pausing busy pending }).push [.act action])
  | .waiting pending =>
    match pending, w.looks with
    | some 0, _ => ([], become { w with phase := .rested })
    | _, 0 => ([], m.push [.answer fun _ => w.reply true])
    | pending, looks + 1 =>
      let w := { w with looks }
      match m.node.bus.takeFrom? .normal with
      | some (d, bus) =>
        (m.push [.working { w with delivered := w.delivered + 1, phase := .rested }]).deliver
          .normal d bus
      | none => ([], m.push [.working { w with phase := .waiting (pending.map (· - 1)) }])
  | .rested =>
    if w.loops then ([], become { w with phase := .sweeping })
    else ([], m.push [.answer fun _ => w.reply false])

/-! ## One small thing -/

/-- One small thing of whatever is on top; none when nothing goes on. -/
def step (m : Machine) : Option (List Happening × Machine) :=
  match m.stack with
  | [] => none
  | top :: rest =>
    let m := { m with stack := rest }
    some <| match top with
    | .code _ [] => ([], m)
    | .code who (action :: todo) => ([], m.push [.act action, .code who todo])
    | .act action => m.perform action
    | .acting _ => ([], m)
    | .answer reply =>
      match rest with
      | .acting action :: rest => { m with stack := rest }.conclude action (reply m.node)
      | _ => ([], m)
    | .telling _ [] => ([], m)
    | .telling news (s :: audience) => (m.push [.telling news audience]).tell news s
    | .settling level =>
      let bus := m.node.bus.settle level
      ([.settled level (bus.queued level)], { m with node := { m.node with bus } })
    | .seeking seeker level => m.seek seeker level
    | .ticking topic slot period stage => m.tick topic slot period stage
    | .working w => m.work w

end Machine

end NodeBus.Session
