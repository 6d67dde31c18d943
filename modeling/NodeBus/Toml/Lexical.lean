import NodeBus.Hexadecimal
import NodeBus.Toml.Fault

/-!
# The characters of TOML

Blanks, line ends and comments, strings, and keys. A reader takes what it reads
off the front of a text, or fails. Readers that may read several lines say where
they fail.
-/

namespace NodeBus.Toml

/-- Takes something off the front of a text, or fails. -/
abbrev Reader (α : Type) := List Char → Option (α × List Char)

/-! ## Blanks and line ends -/

def isBlank (c : Char) : Bool := c = ' ' || c = '\t'

/-- Whether a character may stand in a comment or string: tabs and everything that
is not a control character of ASCII. -/
def isPrintable (c : Char) : Bool := c = '\t' || (' ' ≤ c && c ≠ '\x7f')

/-- Drop blanks. -/
def skipBlanks (s : List Char) : List Char := s.dropWhile isBlank

/-- Read a line end or the end of the text. -/
def lineEnd : List Char → Option (List Char)
  | [] => some []
  | '\n' :: rest => some rest
  | '\r' :: '\n' :: rest => some rest
  | _ => none

/-- Drop a comment, if there is one. -/
def skipComment : List Char → List Char
  | '#' :: rest => rest.dropWhile isPrintable
  | s => s

/-- Read what may stand behind a value or header: blanks, a comment, a line end. -/
def lineRest (s : List Char) : Option (List Char) := lineEnd (skipComment (skipBlanks s))

/-- Drop blanks, line ends and comments, which all may stand between the items of
a list. A comment ends with its line. -/
def skipVoid (inComment : Bool) : List Char → Except Fault (List Char)
  | [] => if inComment then .error ⟨[], .malformed⟩ else .ok []
  | '\n' :: rest => skipVoid false rest
  | '\r' :: '\n' :: rest => skipVoid false rest
  | '\r' :: rest => .error ⟨'\r' :: rest, .malformed⟩
  | c :: rest =>
    if inComment then
      if isPrintable c then skipVoid true rest else .error ⟨c :: rest, .malformed⟩
    else if isBlank c then skipVoid false rest
    else if c = '#' then skipVoid true rest
    else .ok (c :: rest)

/-! ## Strings -/

/-- Read the character that so many digits number. -/
def numbered (width : Nat) (s : List Char) : Option (Char × List Char) := do
  let (n, rest) ← Hexadecimal.take? width s
  return (← Hexadecimal.character? n, rest)

/-- Read the rest of an escape, behind the backslash. -/
def escape : Reader Char
  | 'b' :: rest => some ('\x08', rest)
  | 'f' :: rest => some ('\x0c', rest)
  | 'n' :: rest => some ('\n', rest)
  | 'r' :: rest => some ('\r', rest)
  | 't' :: rest => some ('\t', rest)
  | '\x22' :: rest => some ('\x22', rest)
  | '\x5c' :: rest => some ('\x5c', rest)
  | 'u' :: rest => numbered 4 rest
  | 'U' :: rest => numbered 8 rest
  | _ => none

/-- Put a character in front of the text that a reader has read. -/
def withChar {m : Type → Type} [Functor m] (c : Char) (r : m (List Char × List Char)) :
    m (List Char × List Char) :=
  (fun (text, rest) => (c :: text, rest)) <$> r

/-- Read the rest of an escape. One that means nothing is a fault behind its first
character, which may be a line end. -/
def escapeAt (s : List Char) : Except Fault (Char × List Char) := Fault.orAt s.tail (escape s)

/-- Read a string on one line up to its closing quote. In a literal string, closed
by a single quote, a backslash stands for itself. -/
def lineString (quote : Char) (fuel : Nat) (s : List Char) :
    Except Fault (List Char × List Char) :=
  match fuel, s with
  | 0, s | _, [] => .error ⟨s, .malformed⟩
  | fuel + 1, c :: rest =>
    if c = quote then .ok ([], rest)
    else if c = '\x5c' ∧ quote = '\x22' then do
      let (c, rest) ← escapeAt rest
      withChar c (lineString quote fuel rest)
    else if isPrintable c then withChar c (lineString quote fuel rest)
    else .error ⟨c :: rest, .malformed⟩

/-- Drop a line end, if there is one. -/
def skipLineEnd : List Char → List Char
  | '\n' :: rest => rest
  | '\r' :: '\n' :: rest => rest
  | s => s

/-- Drop blanks and line ends. -/
def skipSpace : List Char → List Char
  | '\n' :: rest => skipSpace rest
  | '\r' :: '\n' :: rest => skipSpace rest
  | c :: rest => if isBlank c then skipSpace rest else c :: rest
  | [] => []

/-- The number of further quotes that may stand in front of the closing three. -/
def spareQuotes : Nat := 2

/-- Read a string on several lines up to the closing three quotes. A backslash in
front of a line end drops all space behind it. -/
def linesString (quote : Char) (fuel : Nat) (s : List Char) :
    Except Fault (List Char × List Char) :=
  match fuel, s with
  | 0, s | _, [] => .error ⟨s, .malformed⟩
  | fuel + 1, c :: rest =>
    if c = quote then
      let quotes := (c :: rest).takeWhile (· = quote)
      let behind := (c :: rest).dropWhile (· = quote)
      if quotes.length < 3 then do
        let (text, rest) ← linesString quote fuel behind
        return (quotes ++ text, rest)
      else
        let spare := min (quotes.length - 3) spareQuotes
        .ok (quotes.take spare, (c :: rest).drop (spare + 3))
    else if c = '\x5c' ∧ quote = '\x22' then
      match skipBlanks rest with
      | '\n' :: rest => linesString quote fuel (skipSpace rest)
      | '\r' :: '\n' :: rest => linesString quote fuel (skipSpace rest)
      | _ => do
        let (c, rest) ← escapeAt rest
        withChar c (linesString quote fuel rest)
    else if c = '\r' then
      match rest with
      | '\n' :: rest => withChar '\n' (linesString quote fuel rest)
      | _ => .error ⟨c :: rest, .malformed⟩
    else if c = '\n' ∨ isPrintable c then withChar c (linesString quote fuel rest)
    else .error ⟨c :: rest, .malformed⟩

/-- The text that was read, as a string. -/
def asString (r : Except Fault (List Char × List Char)) : Except Fault (String × List Char) :=
  (fun (text, rest) => (String.ofList text, rest)) <$> r

/-- Read a string on one line, with its quotes. It has at most `fuel` characters. -/
def quotedLine (fuel : Nat) (s : List Char) : Except Fault (String × List Char) :=
  match s with
  | '\x22' :: rest => asString (lineString '\x22' fuel rest)
  | '\x27' :: rest => asString (lineString '\x27' fuel rest)
  | s => .error ⟨s, .malformed⟩

/-- Read a string, with its quotes. It has at most `fuel` characters. -/
def quoted (fuel : Nat) (s : List Char) : Except Fault (String × List Char) :=
  match s with
  | '\x22' :: '\x22' :: '\x22' :: rest => asString (linesString '\x22' fuel (skipLineEnd rest))
  | '\x27' :: '\x27' :: '\x27' :: rest => asString (linesString '\x27' fuel (skipLineEnd rest))
  | s => quotedLine fuel s

/-! ## Keys -/

/-- Whether a character may stand in a key without quotes. -/
def isBare (c : Char) : Bool := c.isAlphanum || c = '-' || c = '_'

/-- Whether a key begins here. -/
def beginsKey : List Char → Bool
  | c :: _ => c = '\x22' || c = '\x27' || isBare c
  | [] => false

/-- Read one part of a key. -/
def keyPart (fuel : Nat) (s : List Char) : Except Fault (String × List Char) :=
  match s with
  | '\x22' :: _ | '\x27' :: _ => quotedLine fuel s
  | _ =>
    match s.takeWhile isBare with
    | [] => .error ⟨s, .malformed⟩
    | name => .ok (String.ofList name, s.dropWhile isBare)

/-- How deep lists and tables may lie in each other, and how many parts a key may
have; this many are too many. -/
def tooDeep : Nat := 80

/-- Read the parts of a dotted key, at most `parts` of them, each with blanks around
it. -/
def keyParts (fuel parts : Nat) (s : List Char) : Except Fault (List String × List Char) :=
  match parts with
  | 0 => .error ⟨s, .malformed⟩
  | parts + 1 => do
    let (part, rest) ← keyPart fuel (skipBlanks s)
    match skipBlanks rest with
    | '.' :: rest =>
      let (names, rest) ← keyParts fuel parts rest
      return (part :: names, rest)
    | rest => return ([part], rest)

/-- Read a dotted key. Each of its parts has at most `fuel` characters. -/
def key (fuel : Nat) (s : List Char) : Except Fault (List String × List Char) :=
  keyParts fuel (tooDeep - 1) s

/-! ### Keys in reports -/

/-- A character between double quotes. -/
def escaped : Char → List Char
  | '\x08' => ['\x5c', 'b']
  | '\t' => ['\x5c', 't']
  | '\n' => ['\x5c', 'n']
  | '\x0c' => ['\x5c', 'f']
  | '\r' => ['\x5c', 'r']
  | '\x22' => ['\x5c', '\x22']
  | '\x5c' => ['\x5c', '\x5c']
  | c =>
    if isPrintable c then [c]
    else
      let digits := (Nat.toDigits 16 c.toNat).map Char.toUpper
      ['\x5c', 'u'] ++ List.replicate (4 - digits.length) '0' ++ digits

/-- How a key is written: without quotes if it can be; else in single quotes where
these save escapes, and in double quotes everywhere else. -/
def writtenKey (key : String) : String :=
  let cs := key.toList
  let plain (quote : Char) : Bool := cs.all fun c => isPrintable c && c ≠ quote
  if beginsKey cs && cs.all isBare then key
  else if !(plain '\x22' && plain '\x5c') && plain '\x27' then
    String.ofList ('\x27' :: cs ++ ['\x27'])
  else String.ofList ('\x22' :: cs.flatMap escaped ++ ['\x22'])

end NodeBus.Toml
