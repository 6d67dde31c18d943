import NodeBus.Toml.Scalar
import NodeBus.Toml.Value

/-!
# TOML documents

- `Entries.ofText` reads the lines of a whole document: the entries of its outermost
  table, or the first fault, if the text is no TOML or defines something twice.
- `Tree.value` is the value that these entries stand for, times included.
- `Value.ofText` is both, the value of a document.
- `parse` reports the fault of a text that is no document.

A fault is found where reading stops, with two exceptions. Entries that cannot be
defined are a fault at the beginning of their line, or behind the opening brace of
their table. A list in which something is wrong with the space behind an item is at
fault at that item.
-/

namespace NodeBus.Toml

/-! ## Values -/

/-- A dotted key with its value, and where the key stands. -/
structure Pair where
  path : List String
  place : Place
  value : Tree

/-- Put a pair into a table. -/
def Entries.insertPair (home : Option (List String)) (es : Entries) (p : Pair) :
    Except Reason Entries :=
  es.insert home ⟨p.path.getLastD "", p.place, p.value⟩ [] p.path.dropLast

/-- The entries of a table in braces, at most one for each of its pairs. -/
def Entries.ofPairs (ps : List Pair) : Except Reason Entries :=
  ps.foldlM (fun es p => es.insertPair none p) []

mutual
/-- Read a value that lies in `depth` lists and tables. -/
def value (fuel depth : Nat) (s : List Char) : Except Fault (Tree × List Char) :=
  match fuel with
  | 0 => .error ⟨s, .malformed⟩
  | fuel + 1 =>
    match s with
    | '\x22' :: _ | '\x27' :: _ => do
      let (text, rest) ← quoted fuel s
      return (.text text, rest)
    | '[' :: rest =>
      if tooDeep ≤ depth + 1 then .error ⟨s, .malformed⟩
      else do
        let (items, rest) ← listItems fuel (depth + 1) rest
        return (.list items, rest)
    | '\x7b' :: inside =>
      if tooDeep ≤ depth + 1 then .error ⟨s, .malformed⟩
      else do
        let (ps, rest) ← pairs fuel (depth + 1) inside
        let es ← Fault.because inside (Entries.ofPairs ps)
        match skipBlanks rest with
        | '\x7d' :: rest => return (.table .braces es, rest)
        | rest => .error ⟨rest, .malformed⟩
    | 't' :: 'r' :: 'u' :: 'e' :: rest => .ok (.boolean true, rest)
    | 'f' :: 'a' :: 'l' :: 's' :: 'e' :: rest => .ok (.boolean false, rest)
    | s => Fault.orAt s (scalar s)

/-- Read the items of a list up to its closing bracket. A comma may stand behind
the last. -/
def listItems (fuel depth : Nat) (s : List Char) : Except Fault (List Tree × List Char) :=
  match fuel with
  | 0 => .error ⟨s, .malformed⟩
  | fuel + 1 => do
    match ← skipVoid false s with
    | ']' :: rest => return ([], rest)
    | item =>
      let (v, rest) ← value fuel depth item
      match skipVoid false rest with
      | .error _ => .error ⟨item, .malformed⟩
      | .ok (',' :: rest) =>
        let (items, rest) ← listItems fuel depth rest
        return (v :: items, rest)
      | .ok (']' :: rest) => return ([v], rest)
      | .ok rest => .error ⟨rest, .malformed⟩

/-- Read the pairs of a table in braces, as long as keys follow. A comma behind the
last pair is left. -/
def pairs (fuel depth : Nat) (s : List Char) : Except Fault (List Pair × List Char) :=
  match fuel with
  | 0 => .error ⟨s, .malformed⟩
  | fuel + 1 =>
    if beginsKey (skipBlanks s) then do
      let (path, rest) ← key fuel s
      let rest ← Fault.orAt rest (expect '=' rest)
      let (v, rest) ← value fuel depth (skipBlanks rest)
      let p : Pair := ⟨path, s, v⟩
      match skipBlanks rest with
      | ',' :: more =>
        if beginsKey (skipBlanks more) then
          let (ps, rest) ← pairs fuel depth more
          return (p :: ps, rest)
        else return ([p], ',' :: more)
      | rest => return ([p], rest)
    else .ok ([], s)
end

/-! ## Lines -/

/-- Read a header up to its closing brackets and the end of its line. -/
def header (fuel : Nat) (close s : List Char) : Except Fault (List String × List Char) := do
  let (path, rest) ← key fuel s
  if close.isPrefixOf rest then
    return (path, ← Fault.orAt rest (lineRest (rest.drop close.length)))
  else .error ⟨rest, .malformed⟩

/-- Read lines onto the entries of a document; `path` is the header they are under. -/
def lines (fuel : Nat) (es : Entries) (path : List String) (s : List Char) :
    Except Fault Entries :=
  match fuel with
  | 0 => .error ⟨s, .malformed⟩
  | fuel + 1 =>
    match skipBlanks s with
    | [] => .ok es
    | '#' :: rest => do lines fuel es path (← Fault.orAt rest (lineEnd (skipComment ('#' :: rest))))
    | '\n' :: rest | '\r' :: '\n' :: rest => lines fuel es path rest
    | '[' :: '[' :: rest => do
      let (path, behind) ← header fuel [']', ']'] rest
      lines fuel (← Fault.because rest (es.pushTable rest path)) path behind
    | '[' :: rest => do
      let (path, behind) ← header fuel [']'] rest
      lines fuel (← Fault.because rest (es.openTable rest path)) path behind
    | s => do
      let (names, rest) ← key fuel s
      let rest ← Fault.orAt rest (expect '=' rest)
      let (v, rest) ← value (2 * fuel) 0 (skipBlanks rest)
      let rest ← Fault.orAt rest (lineRest rest)
      let insert (es : Entries) := es.insertPair (some path) ⟨names, s, v⟩
      lines fuel (← Fault.because s (es.atPath s insert [] path)) path rest

/-- The entries of a document as its lines write them. A byte order mark in front of
it is dropped. -/
def Entries.ofText (text : String) : Except Fault Entries :=
  let s := match text.toList with
    | '\ufeff' :: rest => rest
    | s => s
  lines (s.length + 1) [] [] s

/-! ## Tables that stand for times -/

/-- The reserved key. A table that begins with it stands for the time under it. -/
def timeKey : String := "$__toml_private_datetime"

/-- What a table begins with, if that is under the reserved key. -/
def Entries.timeEntry? : Entries → Option (Entry Tree)
  | e :: _ => if e.key = timeKey then some e else none
  | [] => none

/-- The time that a text under the reserved key writes. Anything else there is a fault. -/
def writtenTime (e : Entry Tree) : Except Fault Value :=
  match e.value with
  | .text s => if isTime s then .ok .time else .error ⟨e.place, .malformed⟩
  | _ => .error ⟨e.place, .malformed⟩

/-- The time that the table `es` stands for; if it stands for none, the table of the
entries `meant`. What follows the reserved key is ignored. -/
def Entries.timeOr (es : Entries) (meant : Except Fault (List (String × Value))) :
    Except Fault Value :=
  match es.timeEntry? with
  | some e => writtenTime e
  | none => meant.map .table

mutual
/-- The value that a tree stands for. -/
def Tree.value : Tree → Except Fault Value
  | .text s => .ok (.text s)
  | .integer i => .ok (.integer i)
  | .float => .ok .float
  | .boolean b => .ok (.boolean b)
  | .time => .ok .time
  | .list items => do return .list (← itemValues items)
  | .table _ entries => Entries.timeOr entries (entryValues entries)
  | .tables elements => do return .list (← elementValues elements)

/-- The values of the items of a list. -/
def itemValues : List Tree → Except Fault (List Value)
  | [] => .ok []
  | v :: items => do return (← v.value) :: (← itemValues items)

/-- The values under the keys of a table. -/
def entryValues : List (Entry Tree) → Except Fault (List (String × Value))
  | [] => .ok []
  | ⟨key, _, v⟩ :: entries => do return (key, ← v.value) :: (← entryValues entries)

/-- The values of several tables. Any of them may stand for a time. -/
def elementValues : List (List (Entry Tree)) → Except Fault (List Value)
  | [] => .ok []
  | es :: elements => do
    return (← Entries.timeOr es (entryValues es)) :: (← elementValues elements)
end

/-- The value of a document: a table, unless the document stands for a time. -/
def Value.ofText (text : String) : Except Fault Value := do
  (Tree.table .header (← Entries.ofText text)).value

/-- The value of a document, or the report on a text that is none. -/
def parse (text : String) : Except String Value := (Value.ofText text).mapError (·.report text)

end NodeBus.Toml
