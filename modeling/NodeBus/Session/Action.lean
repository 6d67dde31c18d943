import NodeBus.Node

/-!
# Actions

What a program can do with a node, as data. An operation reads or changes the
node and is over at once. Any other action may call listeners and hooks, which
may themselves act on the node before it is over.

A script is a list of actions. Scripts are run by the main program, by listeners
and hooks when they are called, and by whoever else is busy while the worker
pauses.
-/

namespace NodeBus.Session

/-- Whose script runs. -/
inductive Caller where
  | main
  /-- Whoever is busy while the worker pauses. -/
  | pause
  /-- A listener to ticks. -/
  | tick (i : Nat)
  /-- A listener to command notices. -/
  | notice (i : Nat)
  | hook (i : Nat)
  deriving DecidableEq, Repr

/-- What reads or changes a node and is over at once. -/
inductive Operation where
  | start
  | isStarted
  | waitTime
  | claim
  | setAlarm (alarm : Alarm)
  | clearAlarm
  | freeSlots (level : Level)
  | hasSpace (level : Level)
  | queued (level : Level)
  | report
  | resetCounters
  | topicName (topic : Nat)
  /-- Whether a topic publishes over the bus of the node. -/
  | sharesBus (topic : Nat)
  | listenerCount (topic : Nat)
  | subscribe (topic listener : Nat) (context : Context)
  | unsubscribe (topic listener : Nat)
  | tickIn (slot : Nat)
  | putTick (slot : Nat) (tick : Tick)
  | advanceTick (slot : Nat) (now : UInt32) (period : UInt16)
  | touchTick (slot : Nat) (now : UInt32)
  | attachCounter (counter topic : Nat)
  | detachCounter (counter topic : Nat)
  | count (counter : Nat)
  | resetCount (counter : Nat)
  | attachDisplay (display topic : Nat)
  | addTime (display : Nat) (ms : UInt32) (times : Nat)
  | resetTime (display : Nat)
  | time (display : Nat)
  | register (handler : Command.Handler)
  | catalogueSize
  /-- What the handler of a key makes of a request, without any effect. -/
  | probe (key : Command.Key) (params : List UInt8)
  | lastResponse
  | putNotice (key : Command.Key) (status : Command.Status) (data : List UInt8) (now : UInt32)
  | subscribeNotices (listener : Nat) (context : Context)
  | unsubscribeNotices (listener : Nat)
  | noticeListenerCount

/-- What is to be dispatched. -/
inductive Order where
  | parts (key : Command.Key) (params : List UInt8)
  /-- The bytes of a request frame. -/
  | frame (bytes : List UInt8)
  deriving DecidableEq, Repr

/-- The request of an order. -/
def Order.request : Order → Except Command.Error Command.Request
  | .parts key params => Command.Request.make key params
  | .frame bytes => Command.Request.ofFrame bytes

/-- What a program can do with a node. -/
inductive Action where
  | op (operation : Operation)
  /-- Set the clock, then act. -/
  | setClock (now : UInt32) (action : Action)
  /-- Tell the listeners of a tick topic at once. -/
  | notify (topic : Nat) (tick : Tick)
  | publish (topic slot : Nat) (level : Level) (origin : Origin)
  | publishNotice (level : Level) (origin : Origin)
  /-- Advance a slot and publish it if a normal delivery can be taken. -/
  | tick (topic slot : Nat) (period : UInt16)
  /-- Make the next delivery, if there is one. -/
  | poll
  /-- Make deliveries until none is queued. -/
  | drain
  /-- One round of the worker. Its pause, if it comes to one, lasts for `pending`
  further looks at the queue, or for good; meanwhile a script runs. -/
  | step (pending : Option Nat) (busy : List Action)
  /-- The worker. Its first `waits` pauses are over at once and the next lasts for
  good; a script runs in the first. -/
  | run (waits : Nat) (busy : List Action)
  /-- Execute a request and tell its notice, at once or over the bus. The answer
  shows the response as a frame of a stream. -/
  | dispatch (order : Order) (atOnce : Bool) (stream : UInt8)
  /-- Let a caller run a script at each of its next `times` calls. -/
  | arm (who : Caller) (times : Nat) (script : List Action)

/-- Actions, one after the other. -/
abbrev Script := List Action

end NodeBus.Session
