import NodeBus.Session.Action

/-!
# Replies and happenings

Every action ends with a reply. What happens in between, in order, is recorded as
a list of happenings: deliveries that are offered, taken and settled, listeners
that are told, alarms, pauses of the worker, and the end of every action.
-/

namespace NodeBus.Session

mutual
/-- What an action answers. -/
inductive Reply where
  | nothing
  | flag (b : Bool)
  | number (n : Nat)
  | name (s : String)
  | level (l : Option Level)
  | report (r : Bus.Report)
  | tick (t : Tick)
  /-- Whether a tick was queued, the count of its slot and the period of the timer. -/
  | ticked (queued : Bool) (count : UInt32) (period : UInt16)
  | time (t : Elapsed)
  | registered (refusal : Option Command.Catalogue.Error)
  | size (n : Nat)
  /-- The handler of a key and the response it makes. -/
  | found (made : Option (Command.Key × Command.Response))
  | response (r : Command.Response)
  /-- Whether a dispatch went well, the notice then kept, and the stream to answer on. -/
  | dispatched (ok : Bool) (notice : Notice) (stream : UInt8)
  | failed (cause : Command.Error)
  /-- A round of the worker: its deliveries, or none if it was given up. -/
  | worked (delivered : Option Nat) (notes : List Note)
  /-- The worker: whether it returned. -/
  | served (returned : Bool) (notes : List Note)

/-- What is noted about the pauses of the worker. -/
inductive Note where
  /-- A pause begins that is to last so many milliseconds. -/
  | asked (wait : UInt32)
  /-- An action ended while the worker paused. -/
  | did (action : Action) (reply : Reply)
end

/-- What happens in a session. -/
inductive Happening where
  /-- A delivery was offered to the bus and queued, or refused. -/
  | offered (level : Level) (delivery : Delivery) (refusal : Option Refusal)
  /-- A delivery was dequeued. -/
  | taken (level : Level) (delivery : Delivery)
  /-- A delivery was counted, which left so many queued. -/
  | settled (level : Level) (backlog : Nat)
  | heard (subscriber : Subscriber) (news : News)
  | alarmed (alarm : Alarm) (cause : Refusal) (topic : String)
  /-- The worker found nothing to deliver and pauses. -/
  | paused (wait : UInt32)
  /-- An action of a caller ended. -/
  | did (who : Caller) (action : Action) (reply : Reply)

end NodeBus.Session
