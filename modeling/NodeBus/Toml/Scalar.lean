import NodeBus.Toml.Lexical
import NodeBus.Toml.Tree

/-!
# Numbers and times

Integers are words of 64 bits with a sign. A float is refused if the nearest
double is positive infinity; that is decided on its digits, see `overflows`, and
on its exponent, the digits of which count up to a limit, see `cappedNumber`.
Times are checked to exist on the calendar and the clock, where a minute may have
a sixty-first second.

All of these stand on one line.
-/

namespace NodeBus.Toml

/-! ## Digits -/

/-- Read digits behind a first one. An underscore may stand between two digits. -/
def moreDigits (isDigit : Char → Bool) : Reader (List Char)
  | '_' :: c :: rest => if isDigit c then withChar c (moreDigits isDigit rest) else none
  | ['_'] => none
  | c :: rest => if isDigit c then withChar c (moreDigits isDigit rest) else some ([], c :: rest)
  | [] => some ([], [])

/-- Read one digit or more, with underscores between them. -/
def digits (isDigit : Char → Bool) : Reader (List Char)
  | c :: rest => if isDigit c then withChar c (moreDigits isDigit rest) else none
  | [] => none

/-- Read the digits of a decimal integer, which begins with zero only if it is zero. -/
def wholeDigits : Reader (List Char)
  | '0' :: rest => some (['0'], rest)
  | s => digits Char.isDigit s

/-- The number that some digits write. -/
def number (base : Nat) (digits : List Char) : Nat :=
  digits.foldl (fun n c => base * n + (Hexadecimal.digit? c).getD 0) 0

/-- Read a sign: whether it is a minus. -/
def sign : List Char → Bool × List Char
  | '-' :: rest => (true, rest)
  | '+' :: rest => (false, rest)
  | s => (false, s)

/-- An integer that fits into its word. -/
def integer? (i : Int) : Option Tree :=
  if -0x8000000000000000 ≤ i ∧ i ≤ 0x7FFFFFFFFFFFFFFF then some (.integer i) else none

/-! ## Floats -/

/-- The least magnitude that is nearer to infinity than to the greatest double. -/
def infinityBound : Nat := Nat.pow 2 1024 - Nat.pow 2 970

/-- Whether the number that some digits write, times `10 ^ exponent`, rounds to infinity.
Far from the bound, which has 309 digits, the count of digits decides. -/
def overflows (digits : List Char) (exponent : Int) : Bool :=
  match digits.dropWhile (· = '0') with
  | [] => false
  | digits =>
    let magnitude := (digits.length : Int) + exponent
    if magnitude > 309 then true
    else if magnitude < 309 then false
    else if 0 ≤ exponent then infinityBound ≤ number 10 digits * Nat.pow 10 exponent.toNat
    else infinityBound * Nat.pow 10 (-exponent).toNat ≤ number 10 digits

/-- An exponent that has reached this much takes no further digits. -/
def exponentCap : Nat := 0x10000

/-- The number that the digits of an exponent write up to the one that takes it to the
cap or beyond. -/
def cappedNumber (digits : List Char) : Nat :=
  digits.foldl (fun n c => if n < exponentCap then 10 * n + (Hexadecimal.digit? c).getD 0 else n) 0

/-- Read an exponent, if there is one. -/
def exponent : Reader Int
  | 'e' :: rest | 'E' :: rest => do
    let (minus, rest) := sign rest
    let (ds, rest) ← digits Char.isDigit rest
    let n : Int := cappedNumber ds
    return (if minus then -n else n, rest)
  | s => some (0, s)

/-- Read a float behind its first digits, which are `whole`. -/
def float (minus : Bool) (whole s : List Char) : Option (Tree × List Char) := do
  let (fraction, rest) ← match s with
    | '.' :: rest => digits Char.isDigit rest
    | s => some ([], s)
  let (e, rest) ← exponent rest
  if !minus && overflows (whole ++ fraction) (e - fraction.length) then none
  else return (.float, rest)

/-! ## Numbers -/

/-- Read the digits of a number in a base other than ten. -/
def inBase (base : Nat) (s : List Char) : Option (Tree × List Char) := do
  let isDigit (c : Char) : Bool := (Hexadecimal.digit? c).any (· < base)
  let (ds, rest) ← digits isDigit s
  return (← integer? (number base ds), rest)

/-- Read a number that has a sign or begins with a digit. -/
def signedNumber (s : List Char) : Option (Tree × List Char) :=
  let (minus, unsigned) := sign s
  match unsigned with
  | 'i' :: 'n' :: 'f' :: rest | 'n' :: 'a' :: 'n' :: rest => some (.float, rest)
  | _ => do
    let (whole, rest) ← wholeDigits unsigned
    match rest with
    | '.' :: _ | 'e' :: _ | 'E' :: _ => float minus whole rest
    | _ =>
      let n : Int := number 10 whole
      return (← integer? (if minus then -n else n), rest)

/-! ## Times -/

/-- Read a number of exactly `width` digits that is at least `low` and at most `high`. -/
def field (width low high : Nat) (s : List Char) : Option (Nat × List Char) :=
  let ds := s.take width
  let n := number 10 ds
  if ds.length = width ∧ ds.all Char.isDigit ∧ low ≤ n ∧ n ≤ high then some (n, s.drop width)
  else none

/-- Read a given character. -/
def expect (c : Char) : List Char → Option (List Char)
  | d :: rest => if d = c then some rest else none
  | [] => none

/-- The number of days of a month. -/
def daysIn (year month : Nat) : Nat :=
  if month = 2 then
    if year % 4 = 0 ∧ (year % 100 ≠ 0 ∨ year % 400 = 0) then 29 else 28
  else if month = 4 ∨ month = 6 ∨ month = 9 ∨ month = 11 then 30
  else 31

/-- Read a time of day. -/
def timeOfDay (s : List Char) : Option (List Char) := do
  let (_, s) ← field 2 0 23 s
  let s ← expect ':' s
  let (_, s) ← field 2 0 59 s
  let s ← expect ':' s
  let (_, s) ← field 2 0 60 s
  match s with
  | '.' :: c :: rest => if c.isDigit then some (rest.dropWhile Char.isDigit) else none
  | s => some s

/-- Read the distance from universal time, if there is one. -/
def offset (s : List Char) : Option (List Char) :=
  match s with
  | 'Z' :: rest | 'z' :: rest => some rest
  | '+' :: rest | '-' :: rest => do
    let (_, rest) ← field 2 0 23 rest
    let rest ← expect ':' rest
    let (_, rest) ← field 2 0 59 rest
    return rest
  | s => some s

/-- Whether a time of day begins here, as far as its first three characters show. -/
def beginsTime : List Char → Bool
  | a :: b :: ':' :: _ => a.isDigit && b.isDigit
  | _ => false

/-- Whether a date begins here, as far as its first five characters show. -/
def beginsDate : List Char → Bool
  | a :: b :: c :: d :: '-' :: _ => [a, b, c, d].all Char.isDigit
  | _ => false

/-- Read a date, with a time of day behind it if there is one. -/
def date (s : List Char) : Option (List Char) := do
  let (year, s) ← field 4 0 9999 s
  let s ← expect '-' s
  let (month, s) ← field 2 1 12 s
  let s ← expect '-' s
  let (_, s) ← field 2 1 (daysIn year month) s
  match s with
  | c :: rest =>
    if (c = 'T' || c = 't' || c = ' ') && beginsTime rest then offset (← timeOfDay rest)
    else some s
  | [] => some []

/-- Read a number or a time. -/
def scalar (s : List Char) : Option (Tree × List Char) :=
  if beginsDate s then (date s).map (.time, ·)
  else if beginsTime s then (timeOfDay s).map (.time, ·)
  else
    match s with
    | '0' :: 'x' :: rest => inBase 16 rest
    | '0' :: 'o' :: rest => inBase 8 rest
    | '0' :: 'b' :: rest => inBase 2 rest
    | s => signedNumber s

/-- Whether a text is a time and nothing else. -/
def isTime (text : String) : Bool :=
  match scalar text.toList with
  | some (.time, []) => true
  | _ => false

end NodeBus.Toml
