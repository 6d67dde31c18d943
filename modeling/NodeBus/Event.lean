import NodeBus.Command.Response

/-!
# Events

Every published value carries an envelope with the time of its last change and
the kind of event it is. Ticks are published by the timer, notices after each
command.
-/

namespace NodeBus

/-- The kind of an event. -/
inductive Kind where
  | base
  | timer
  | counter
  | command
  deriving DecidableEq, Repr

namespace Kind

/-- All kinds, in order of their numbers. -/
def all : List Kind := [.base, .timer, .counter, .command]

/-- The number of a kind. -/
def number : Kind → Nat
  | .base => 0
  | .timer => 1
  | .counter => 2
  | .command => 3

/-- The name of a kind in answers and records. -/
def name : Kind → String
  | .base => "Base"
  | .timer => "Timer"
  | .counter => "Counter"
  | .command => "Command"

/-- The kind with a given name. -/
def ofName? (s : String) : Option Kind := all.find? (·.name = s)

end Kind

/-- What every published value carries. -/
structure Envelope where
  /-- When the value was last changed, in milliseconds since power-on. -/
  timestamp : UInt32
  kind : Kind
  deriving DecidableEq, Repr

/-- A tick of the timer. -/
structure Tick where
  envelope : Envelope
  /-- Ticks since power-on. -/
  count : UInt32
  /-- The tick period in milliseconds. -/
  period : UInt16
  deriving DecidableEq, Repr

namespace Tick

/-- The tick before the first. -/
def initial : Tick := ⟨⟨0, .timer⟩, 0, 0⟩

/-- Refresh the timestamp. -/
def touch (t : Tick) (now : UInt32) : Tick :=
  { t with envelope := { t.envelope with timestamp := now } }

/-- The next tick. The count wraps around. -/
def advance (t : Tick) (now : UInt32) (period : UInt16) : Tick :=
  { t.touch now with count := t.count + 1, period }

end Tick

/-- A response with the time of its command. -/
structure Notice where
  envelope : Envelope
  response : Command.Response
  deriving DecidableEq, Repr

namespace Notice

/-- The notice before the first command. -/
def initial : Notice := ⟨⟨0, .command⟩, .empty .initial⟩

/-- A notice of the given response, as of `now`. -/
def update (n : Notice) (now : UInt32) (response : Command.Response) : Notice :=
  ⟨{ n.envelope with timestamp := now }, response⟩

end Notice

/-- A value that listeners are told of. -/
inductive News where
  | tick (t : Tick)
  | notice (n : Notice)
  deriving DecidableEq, Repr

end NodeBus
