import NodeBus.Json.Record

/-!
# Writing JSON texts

The text of a value without blanks: quotes, backslashes and control characters are
escaped in strings, every other character stands for itself.
-/

namespace NodeBus

namespace Json

/-- A character as it is written in a string. -/
def escape (c : Char) : List Char :=
  if c = '\x22' ∨ c = '\x5c' then ['\x5c', c]
  else if c < ' ' then
    if c = '\x08' then ['\x5c', 'b']
    else if c = '\t' then ['\x5c', 't']
    else if c = '\n' then ['\x5c', 'n']
    else if c = '\x0c' then ['\x5c', 'f']
    else if c = '\r' then ['\x5c', 'r']
    else ['\x5c', 'u', '0', '0', (c.toNat / 16).digitChar, (c.toNat % 16).digitChar]
  else [c]

/-- A string behind its opening quote. -/
def behindQuote (s : List Char) : List Char := s.flatMap escape ++ ['\x22']

/-- A string in quotes. One without a value is written as if it were empty. -/
def quoted (s : Option String) : List Char := '\x22' :: behindQuote (s.getD "").toList

/-- An integer in decimal digits. -/
def decimal (i : Int) : List Char :=
  if i < 0 then '-' :: Nat.toDigits 10 i.natAbs else Nat.toDigits 10 i.natAbs

mutual
/-- The text of a value. -/
def chars : Json → List Char
  | .null => ['n', 'u', 'l', 'l']
  | .boolean true => ['t', 'r', 'u', 'e']
  | .boolean false => ['f', 'a', 'l', 's', 'e']
  | .integer i => decimal i
  | .float literal => literal.toList
  | .text s => quoted s
  | .list items => '[' :: itemChars items
  | .object fields => '\x7b' :: fieldChars fields

/-- The items of a list with what closes it. -/
def itemChars : List Json → List Char
  | [] => [']']
  | [v] => chars v ++ [']']
  | v :: w :: items => chars v ++ ',' :: itemChars (w :: items)

/-- The fields of an object with what closes it. -/
def fieldChars : List (Option String × Json) → List Char
  | [] => ['\x7d']
  | [(name, v)] => quoted name ++ ':' :: (chars v ++ ['\x7d'])
  | (name, v) :: f :: fields => quoted name ++ ':' :: (chars v ++ ',' :: fieldChars (f :: fields))
end

/-- The text of a value. -/
def write (j : Json) : String := String.ofList j.chars

end Json

namespace Record

/-- The text of a record. -/
def write {α : Type} [Record α] (a : α) : String := (toJson a).write

end Record

end NodeBus
