import NodeBus.Hexadecimal

/-!
# JSON texts

`Json.ofText?` reads a JSON text as it stands: strings with escapes for half of a
surrogate pair are read, but have no value; an integer is a number without
fraction and exponent, and minus zero is no integer.
-/

namespace NodeBus

/-- A JSON value. -/
inductive Json where
  | null
  | boolean (b : Bool)
  | integer (i : Int)
  /-- A number that is no integer, as written. -/
  | float (literal : String)
  /-- A string. It has no value if it holds half of a surrogate pair. -/
  | text (value : Option String)
  | list (items : List Json)
  /-- An object with its fields as written. -/
  | object (fields : List (Option String × Json))

namespace Json

/-- Drop blanks and line ends. -/
def skipSpace (s : List Char) : List Char :=
  s.dropWhile fun c => c = ' ' || c = '\n' || c = '\t' || c = '\r'

/-! ## Strings -/

/-- The character that a letter or sign behind a backslash stands for. -/
def escaped? : Char → Option Char
  | '\x22' => some '\x22'
  | '\x5c' => some '\x5c'
  | '/' => some '/'
  | 'b' => some '\x08'
  | 'f' => some '\x0c'
  | 'n' => some '\n'
  | 'r' => some '\r'
  | 't' => some '\t'
  | _ => none

/-- Read the character that an escape numbers, behind its `u`. It takes two escapes
for a character beyond 16 bits; half of such a pair is no character. -/
def numbered? (s : List Char) : Option (Option Char × List Char) := do
  let (high, rest) ← Hexadecimal.take? 4 s
  if 0xD800 ≤ high ∧ high < 0xDC00 then
    match rest with
    | '\x5c' :: 'u' :: behind =>
      match Hexadecimal.take? 4 behind with
      | some (low, behind) =>
        if 0xDC00 ≤ low ∧ low < 0xE000 then
          return (Hexadecimal.character? (0x10000 + (high - 0xD800) * 0x400 + (low - 0xDC00)),
            behind)
        else return (none, rest)
      | none => return (none, rest)
    | _ => return (none, rest)
  else return (Hexadecimal.character? high, rest)

/-- Read a string up to its closing quote. -/
def string? (fuel : Nat) (s : List Char) : Option (Option (List Char) × List Char) :=
  match fuel, s with
  | 0, _ | _, [] => none
  | fuel + 1, c :: rest =>
    if c = '\x22' then some (some [], rest)
    else if c < ' ' then none
    else do
      let (c, rest) ←
        if c = '\x5c' then
          match rest with
          | 'u' :: rest => numbered? rest
          | sign :: rest => (escaped? sign).map fun c => (some c, rest)
          | [] => none
        else some (some c, rest)
      let (behind, rest) ← string? fuel rest
      return (return (← c) :: (← behind), rest)

/-- Read a string behind its opening quote. -/
def text? (s : List Char) : Option (Option String × List Char) :=
  (string? (s.length + 1) s).map fun (chars, rest) => (chars.map String.ofList, rest)

/-! ## Numbers -/

/-- Read one digit or more. -/
def digits? (s : List Char) : Option (List Char × List Char) :=
  match s.takeWhile Char.isDigit with
  | [] => none
  | ds => some (ds, s.dropWhile Char.isDigit)

/-- Read the digits of a whole number, which begins with zero only if it is zero. -/
def whole? (s : List Char) : Option (List Char × List Char) :=
  match digits? s with
  | some ('0' :: _ :: _, _) => none
  | r => r

/-- Drop a fraction, if there is one. -/
def fraction? (s : List Char) : Option (List Char) :=
  match s with
  | '.' :: rest => (digits? rest).map Prod.snd
  | s => some s

/-- Drop an exponent, if there is one. -/
def exponent? (s : List Char) : Option (List Char) :=
  match s with
  | 'e' :: rest | 'E' :: rest =>
    match rest with
    | '+' :: rest | '-' :: rest => (digits? rest).map Prod.snd
    | rest => (digits? rest).map Prod.snd
  | s => some s

/-- Whether a text begins with a minus, and the text behind it. -/
def minus (s : List Char) : Bool × List Char :=
  match s with
  | '-' :: rest => (true, rest)
  | s => (false, s)

/-- Read a number. -/
def number? (s : List Char) : Option (Json × List Char) := do
  let (minus, unsigned) := minus s
  let (ds, rest) ← whole? unsigned
  let behind ← exponent? (← fraction? rest)
  let n : Nat := ds.foldl (fun n c => 10 * n + (c.toNat - 48)) 0
  if behind.length = rest.length ∧ (!minus ∨ n ≠ 0) then
    return (.integer (if minus then -(n : Int) else n), rest)
  else return (.float (String.ofList (s.take (s.length - behind.length))), behind)

/-! ## Values -/

mutual
/-- Read a value. -/
def value? (fuel : Nat) (s : List Char) : Option (Json × List Char) :=
  match fuel with
  | 0 => none
  | fuel + 1 =>
    match skipSpace s with
    | 'n' :: 'u' :: 'l' :: 'l' :: rest => some (.null, rest)
    | 't' :: 'r' :: 'u' :: 'e' :: rest => some (.boolean true, rest)
    | 'f' :: 'a' :: 'l' :: 's' :: 'e' :: rest => some (.boolean false, rest)
    | '\x22' :: rest => (text? rest).map fun (chars, rest) => (.text chars, rest)
    | '[' :: rest =>
      match skipSpace rest with
      | ']' :: rest => some (.list [], rest)
      | rest => (items? fuel rest).map fun (items, rest) => (.list items, rest)
    | '\x7b' :: rest =>
      match skipSpace rest with
      | '\x7d' :: rest => some (.object [], rest)
      | rest => (fields? fuel rest).map fun (fields, rest) => (.object fields, rest)
    | s => number? s

/-- Read the items of a list, of which there is one at least. -/
def items? (fuel : Nat) (s : List Char) : Option (List Json × List Char) :=
  match fuel with
  | 0 => none
  | fuel + 1 => do
    let (v, rest) ← value? fuel s
    match skipSpace rest with
    | ',' :: rest =>
      let (items, rest) ← items? fuel rest
      return (v :: items, rest)
    | ']' :: rest => return ([v], rest)
    | _ => none

/-- Read the fields of an object, of which there is one at least. -/
def fields? (fuel : Nat) (s : List Char) : Option (List (Option String × Json) × List Char) :=
  match fuel with
  | 0 => none
  | fuel + 1 => do
    let (name, rest) ← match skipSpace s with
      | '\x22' :: rest => text? rest
      | _ => none
    let (v, rest) ← match skipSpace rest with
      | ':' :: rest => value? fuel rest
      | _ => none
    match skipSpace rest with
    | ',' :: rest =>
      let (fields, rest) ← fields? fuel rest
      return ((name, v) :: fields, rest)
    | '\x7d' :: rest => return ([(name, v)], rest)
    | _ => none
end

/-- The value of a JSON text. White space may surround it. -/
def ofText? (text : String) : Option Json :=
  match value? (2 * text.length + 1) text.toList with
  | some (v, rest) => if (skipSpace rest).isEmpty then some v else none
  | none => none

end Json

end NodeBus
