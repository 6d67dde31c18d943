import NodeBus.Bank
import NodeBus.Bus
import NodeBus.Command.Catalogue
import NodeBus.Elapsed
import NodeBus.Event
import NodeBus.Roster

/-!
# Nodes

A node is the state that everything on one board shares: the bus, the topics with
their listeners, the values that are published, the tick counts and displays that
listen to the timer, the command catalogue and the clock.

Two kinds of topics publish over the bus. Tick topics publish the ticks in
numbered slots; one further topic publishes the notice of the last command. A
delivery names a topic and the place of its value. Both are looked up when it is
made, not when it is published.

- `Node.publish` queues a delivery unless nobody listens;
- `Node.newsOf` and `Node.audience` are what a delivery tells and whom;
- `Node.hear` is what telling one listener does to the node itself;
- `Node.execute` runs a command and keeps the notice of it.
-/

namespace NodeBus

/-! ## Listeners and topics -/

/-- Who can listen to a topic. All tick counts listen as one listener, told apart
by context only, and so do all displays. -/
inductive Listener where
  | counting
  | timekeeping
  /-- A listener that is no part of the node. -/
  | outside (i : Nat)
  deriving DecidableEq, Repr

/-- What a listener or an alarm is called with besides the news. -/
inductive Context where
  | blank
  | mark (n : Nat)
  | counter (i : Nat)
  | display (i : Nat)
  deriving DecidableEq, Repr

/-- A listener with its context. -/
abbrev Subscriber := Listener × Context

/-- A named roster of listeners. -/
structure Topic where
  name : String
  roster : Roster Listener Context
  deriving Repr

/-- A topic without listeners. -/
def Topic.quiet (name : String) : Topic := ⟨name, .empty⟩

/-- A publication on its way: which topic is told the value in which place. -/
inductive Delivery where
  | tick (topic slot : Nat)
  | notice
  deriving DecidableEq, Repr

/-- Who is called when a delivery is refused. -/
structure Alarm where
  hook : Nat
  context : Context
  deriving DecidableEq, Repr

/-! ## The shared state -/

/-- The state that everything on one board shares. -/
structure Node where
  bus : Bus Delivery Alarm
  /-- The tick topics. -/
  topics : Bank Nat Topic
  /-- The ticks that can be published. -/
  slots : Bank Nat Tick
  /-- The topic of command notices. -/
  noticeTopic : Topic
  /-- The notice of the last command. -/
  notice : Notice
  /-- The tick counts. -/
  counters : Bank Nat UInt32
  displays : Bank Nat Elapsed
  catalogue : Command.Catalogue
  /-- The clock in milliseconds. -/
  now : UInt32

namespace Node

/-- The name of the topic of command notices. -/
def noticeTopicName : String := "command"

/-- Tick topics without listeners, numbered in order. -/
def quietTopics (names : List String) : Bank Nat Topic :=
  names.zipIdx.foldl (fun topics (name, i) => topics.set i (.quiet name)) (.filled (.quiet ""))

/-- A node on which nothing has happened. -/
def fresh (wait : UInt32) (topicNames : List String) : Node where
  bus := .fresh wait
  topics := quietTopics topicNames
  slots := .filled .initial
  noticeTopic := .quiet noticeTopicName
  notice := .initial
  counters := .filled 0
  displays := .filled .zero
  catalogue := .empty
  now := 0

/-! ## Topics -/

/-- The topic that a delivery belongs to. -/
def topicOf (n : Node) : Delivery → Topic
  | .tick topic _ => n.topics.get topic
  | .notice => n.noticeTopic

/-- The value that a delivery tells as of now. -/
def newsOf (n : Node) : Delivery → News
  | .tick _ slot => .tick (n.slots.get slot)
  | .notice => .notice n.notice

/-- The listeners that a delivery tells as of now, in order. -/
def audience (n : Node) (d : Delivery) : List Subscriber := (n.topicOf d).roster.entries

/-- Join a tick topic. -/
def subscribe (n : Node) (topic : Nat) (l : Listener) (c : Context) : Bool × Node :=
  let t := n.topics.get topic
  let (joined, roster) := t.roster.subscribe l c
  (joined, { n with topics := n.topics.set topic { t with roster } })

/-- Leave a tick topic. -/
def unsubscribe (n : Node) (topic : Nat) (l : Listener) : Bool × Node :=
  let t := n.topics.get topic
  let (left, roster) := t.roster.unsubscribe l
  (left, { n with topics := n.topics.set topic { t with roster } })

/-- Join the topic of command notices. -/
def subscribeNotices (n : Node) (l : Listener) (c : Context) : Bool × Node :=
  let (joined, roster) := n.noticeTopic.roster.subscribe l c
  (joined, { n with noticeTopic := { n.noticeTopic with roster } })

/-- Leave the topic of command notices. -/
def unsubscribeNotices (n : Node) (l : Listener) : Bool × Node :=
  let (left, roster) := n.noticeTopic.roster.unsubscribe l
  (left, { n with noticeTopic := { n.noticeTopic with roster } })

/-- Attach a tick count to a tick topic. It takes the place of another count
that is attached there. -/
def attachCounter (n : Node) (counter topic : Nat) : Bool × Node :=
  n.subscribe topic .counting (.counter counter)

/-- Detach the tick count that is attached to a tick topic. -/
def detachCounter (n : Node) (topic : Nat) : Bool × Node := n.unsubscribe topic .counting

/-- Attach a display to a tick topic. It takes the place of another display that
is attached there. -/
def attachDisplay (n : Node) (display topic : Nat) : Bool × Node :=
  n.subscribe topic .timekeeping (.display display)

/-! ## Telling news -/

/-- What telling one listener does to the node: a tick adds one to an attached
count and its period to an attached display. Listeners outside change nothing
here. -/
def hear (n : Node) (news : News) (s : Subscriber) : Node :=
  match news, s with
  | .tick _, (.counting, .counter i) => { n with counters := n.counters.modify i (· + 1) }
  | .tick t, (.timekeeping, .display i) =>
    { n with displays := n.displays.modify i (·.add t.period.toUInt32) }
  | _, _ => n

/-- Tell a list of listeners one after the other. -/
def tell (n : Node) (news : News) (audience : List Subscriber) : Node :=
  audience.foldl (·.hear news) n

/-! ## Publishing -/

/-- What comes of a publication. -/
inductive Outcome where
  /-- Nobody listens, so nothing is queued. -/
  | unheard
  | queued
  | refused (cause : Refusal)
  deriving DecidableEq, Repr

/-- Whether a publication counts as done: it is queued, or nobody listens. -/
def Outcome.isDone : Outcome → Bool
  | .refused _ => false
  | _ => true

/-- Queue a delivery at a level, unless nobody listens. -/
def publish (n : Node) (d : Delivery) (l : Level) : Outcome × Node :=
  if (n.audience d).isEmpty then (.unheard, n)
  else
    let (refusal, bus) := n.bus.offer l d
    (match refusal with | none => .queued | some cause => .refused cause, { n with bus })

/-- The alarm that a refused publication raises: none from an interrupt. -/
def alarmFor (n : Node) (origin : Origin) : Option Alarm :=
  match origin with
  | .task => n.bus.alarm
  | .interrupt => none

/-- Advance the tick in a slot to the next one, as of a moment. -/
def advance (n : Node) (slot : Nat) (now : UInt32) (period : UInt16) : Node :=
  { n with slots := n.slots.modify slot (·.advance now period) }

/-! ## Commands -/

/-- What handlers can read. -/
def surroundings (n : Node) : Command.Surroundings := ⟨n.now, n.counters.get⟩

/-- Execute a request and keep the notice of its response. -/
def execute (n : Node) (request : Command.Request) : Node :=
  { n with notice := n.notice.update n.now (n.catalogue.respond n.surroundings request) }

end Node

end NodeBus
