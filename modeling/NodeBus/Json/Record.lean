import NodeBus.Bus
import NodeBus.Event
import NodeBus.Json.Reader

/-!
# Records

The JSON form of what a node shows to other programs. A record is written as an
object with its fields in order. It is read from an object, in which fields may
come in any order and unknown fields are ignored but no known one may be missing
or come twice, or from a list of exactly its fields in order.
-/

namespace NodeBus

namespace Json

/-- The field of a given name, of which there must be one only. -/
def field? (fields : List (Option String × Json)) (name : String) : Option Json :=
  match fields.filter (·.1 = some name) with
  | [field] => some field.2
  | _ => none

/-- The fields of a record in order. Every name in an object must have a value. -/
def fieldsOf? (names : List String) : Json → Option (List Json)
  | .object fields =>
    if fields.all (·.1.isSome) then names.mapM (field? fields) else none
  | .list items => if items.length = names.length then some items else none
  | _ => none

/-- An integer that is not negative and below a bound. -/
def natBelow? (bound : Nat) : Json → Option Nat
  | .integer (.ofNat n) => if n < bound then some n else none
  | _ => none

def byte? (j : Json) : Option UInt8 := (j.natBelow? 256).map .ofNat

def word16? (j : Json) : Option UInt16 := (j.natBelow? 65536).map .ofNat

def word32? (j : Json) : Option UInt32 := (j.natBelow? 4294967296).map .ofNat

/-- A number that is not negative. -/
def nat (n : Nat) : Json := .integer n

/-- An object with the given fields. -/
def record (fields : List (String × Json)) : Json :=
  .object (fields.map fun f => (some f.1, f.2))

end Json

/-- What has a JSON form. -/
class Record (α : Type) where
  toJson : α → Json
  ofJson? : Json → Option α

namespace Record

/-- Read a record from a text. -/
def read? {α : Type} [Record α] (text : String) : Option α := (Json.ofText? text).bind ofJson?

/-- A kind is its name, or an object with nothing under its name. -/
instance : Record Kind where
  toJson k := .text (some k.name)
  ofJson?
    | .text name => name.bind Kind.ofName?
    | .object [(name, .null)] => name.bind Kind.ofName?
    | _ => none

instance : Record Envelope where
  toJson e := .record [("timestamp", .nat e.timestamp.toNat), ("kind", toJson e.kind)]
  ofJson? j := do
    match ← j.fieldsOf? ["timestamp", "kind"] with
    | [timestamp, kind] => return ⟨← timestamp.word32?, ← ofJson? kind⟩
    | _ => none

instance : Record Tick where
  toJson t := .record [("envelope", toJson t.envelope), ("tick_count", .nat t.count.toNat),
    ("period_ms", .nat t.period.toNat)]
  ofJson? j := do
    match ← j.fieldsOf? ["envelope", "tick_count", "period_ms"] with
    | [envelope, count, period] =>
      return ⟨← ofJson? envelope, ← count.word32?, ← period.word16?⟩
    | _ => none

instance : Record Bus.LevelReport where
  toJson r := .record [("published", .nat r.counters.published.toNat),
    ("overflowed", .nat r.counters.overflowed.toNat),
    ("dispatched", .nat r.counters.dispatched.toNat),
    ("high_water", .nat r.counters.highWater.toNat), ("free_slots", .nat r.freeSlots.toNat)]
  ofJson? j := do
    match ← j.fieldsOf? ["published", "overflowed", "dispatched", "high_water", "free_slots"] with
    | [published, overflowed, dispatched, highWater, freeSlots] =>
      return ⟨⟨← published.word32?, ← overflowed.word32?, ← dispatched.word32?,
        ← highWater.byte?⟩, ← freeSlots.byte?⟩
    | _ => none

instance : Record Bus.Report where
  toJson r := .record [("normal", toJson r.normal), ("high", toJson r.high)]
  ofJson? j := do
    match ← j.fieldsOf? ["normal", "high"] with
    | [normal, high] => return ⟨← ofJson? normal, ← ofJson? high⟩
    | _ => none

/-- A record of the wait of a bus alone. -/
structure Wait where
  milliseconds : UInt32
  deriving DecidableEq, Repr

instance : Record Wait where
  toJson w := .record [("normal_wait_ms", .nat w.milliseconds.toNat)]
  ofJson? j := do
    match ← j.fieldsOf? ["normal_wait_ms"] with
    | [milliseconds] => return ⟨← milliseconds.word32?⟩
    | _ => none

end Record

end NodeBus
