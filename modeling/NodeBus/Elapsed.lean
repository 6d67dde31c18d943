/-!
# Elapsed time

The time that a display shows: seconds, which wrap around at 32 bits, and
milliseconds below a thousand. `Elapsed.text` is the form `HH:MM:SS.mmm`.
-/

namespace NodeBus

/-- Whole seconds and the milliseconds beyond them. -/
structure Elapsed where
  seconds : UInt32
  millis : UInt16
  deriving DecidableEq, Repr

namespace Elapsed

def zero : Elapsed := ⟨0, 0⟩

/-- Add a number of milliseconds. -/
def add (e : Elapsed) (ms : UInt32) : Elapsed :=
  let millis := e.millis.toUInt32 + ms % 1000
  ⟨e.seconds + ms / 1000 + millis / 1000, (millis % 1000).toUInt16⟩

/-- The time in milliseconds. -/
def total (e : Elapsed) : Nat := 1000 * e.seconds.toNat + e.millis.toNat

/-- The milliseconds stay below a thousand. -/
theorem millis_add_lt (e : Elapsed) (ms : UInt32) : (e.add ms).millis.toNat < 1000 := by
  simp only [add, UInt32.toNat_toUInt16, UInt32.toNat_mod, UInt32.reduceToNat]
  omega

/-- Time adds up, as far as the seconds go. -/
theorem total_add {e : Elapsed} (h : e.millis.toNat < 1000) (ms : UInt32) :
    (e.add ms).total % (1000 * UInt32.size) = (e.total + ms.toNat) % (1000 * UInt32.size) := by
  have := ms.toNat_lt
  simp only [total, add, UInt32.toNat_toUInt16, UInt32.toNat_mod, UInt32.toNat_add,
    UInt32.toNat_div, UInt16.toNat_toUInt32, UInt32.reduceToNat, UInt32.size]
  omega

/-! ## Hours, minutes and seconds -/

/-- Hours, from 0 to 23. -/
def hourPart (e : Elapsed) : UInt8 := (e.seconds / 3600 % 24).toUInt8

/-- Minutes of the hour. -/
def minutePart (e : Elapsed) : UInt8 := (e.seconds / 60 % 60).toUInt8

/-- Seconds of the minute. -/
def secondPart (e : Elapsed) : UInt8 := (e.seconds % 60).toUInt8

/-! ## Text -/

/-- The decimal text of a number, with zeros in front up to a width. -/
def padded (width n : Nat) : String :=
  let digits := Nat.toDigits 10 n
  .ofList (List.replicate (width - digits.length) '0' ++ digits)

/-- The most bytes of a text. -/
def room : Nat := 16

/-- Write pieces behind a text: whether they all fit into the room, and what is written. The
first piece that does not fit ends the writing. -/
def write (text : String) : List String → Bool × String
  | [] => (true, text)
  | piece :: pieces =>
    if text.utf8ByteSize + piece.utf8ByteSize ≤ room then write (text ++ piece) pieces
    else (false, text)

/-- The pieces of `HH:MM:SS.mmm`. -/
def pieces (e : Elapsed) : List String :=
  [padded 2 (e.seconds / 3600 % 24).toNat, ":", padded 2 (e.seconds / 60 % 60).toNat, ":",
    padded 2 (e.seconds % 60).toNat, ".", padded 3 e.millis.toNat]

/-- The time as `HH:MM:SS.mmm`. -/
def text (e : Elapsed) : String := (write "" e.pieces).2

end Elapsed

end NodeBus
