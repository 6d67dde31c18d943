/-!
# Hexadecimal digits

Digits of either case, the numbers that they write, and the characters that those
number.
-/

namespace NodeBus.Hexadecimal

/-- The value of a hexadecimal digit. -/
def digit? (c : Char) : Option Nat :=
  if '0' ≤ c ∧ c ≤ '9' then some (c.toNat - 48)
  else if 'a' ≤ c ∧ c ≤ 'f' then some (c.toNat - 87)
  else if 'A' ≤ c ∧ c ≤ 'F' then some (c.toNat - 55)
  else none

/-- The number that some digits write. -/
def number? (digits : List Char) : Option Nat :=
  digits.foldlM (fun n c => (digit? c).map (16 * n + ·)) 0

/-- The number that the first `width` characters write, and the text behind them. -/
def take? (width : Nat) (s : List Char) : Option (Nat × List Char) :=
  let digits := s.take width
  if digits.length < width then none else (number? digits).map (·, s.drop width)

/-- The character with a number, unless the number is half of a surrogate pair or
beyond the last character. -/
def character? (n : Nat) : Option Char :=
  if h : n.isValidChar then some (Char.ofNatAux n h) else none

end NodeBus.Hexadecimal
