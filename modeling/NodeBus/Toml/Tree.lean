import NodeBus.Toml.Lexical

/-!
# Trees of tables

The values and tables that the lines of a TOML document build up.

How a table came to be decides what may be added to it later: a table written in
braces is complete, a table with a header of its own has been defined once and
for all, and a table that only headers or dotted keys of inner tables have
mentioned may still be extended. `Entries.insert`, `Entries.openTable` and
`Entries.pushTable` are the three ways in which a line adds to a document; each
of them refuses to define anything twice and says why.
-/

namespace NodeBus.Toml

/-- How a table came to be. -/
inductive Origin where
  /-- Written in braces. -/
  | braces
  /-- By a header of its own. -/
  | header
  /-- By a header of a table inside it. -/
  | innerHeader
  /-- By a dotted key. -/
  | dottedKey
  deriving DecidableEq, Repr

/-- What stands under a key of a table, and where that was written: where the key is
first mentioned, or the header of its own that a table has. -/
structure Entry (α : Type) where
  key : String
  place : Place
  value : α

/-- A value with the tables in it as they came to be. -/
inductive Tree where
  | text (s : String)
  | integer (i : Int)
  | float
  | boolean (b : Bool)
  | time
  | list (items : List Tree)
  | table (origin : Origin) (entries : List (Entry Tree))
  /-- Tables with one header each, written in double brackets. -/
  | tables (elements : List (List (Entry Tree)))

/-- The kind of a value, as reports name it. -/
def Tree.kind : Tree → String
  | .text _ => "string"
  | .integer _ => "integer"
  | .float => "float"
  | .boolean _ => "boolean"
  | .time => "datetime"
  | .list _ => "array"
  | .table .braces _ => "inline table"
  | .table _ _ => "table"
  | .tables _ => "array of tables"

/-- The entries of a table in order. An entry takes its place where it is first
mentioned, and a table moves behind the others when its own header defines it. -/
abbrev Entries := List (Entry Tree)

namespace Entries

/-- The value under a key. -/
def get? (es : Entries) (key : String) : Option Tree := (es.find? (·.key = key)).map Entry.value

/-- Put an entry in the place of the one that has its key, or behind the others if
there is none. -/
def put (es : Entries) (new : Entry Tree) : Entries :=
  if es.any (·.key = new.key) then
    es.map fun e => if e.key = new.key then { e with value := new.value } else e
  else es ++ [new]

theorem get?_put (es : Entries) (new : Entry Tree) (key : String) :
    (es.put new).get? key = if key = new.key then some new.value else es.get? key := by
  unfold put get?
  split
  · rename_i h
    induction es with
    | nil => simp at h
    | cons e es ih =>
      by_cases he : e.key = new.key
      · by_cases hk : key = new.key
        · simp [he, hk]
        · have hn : new.key ≠ key := fun c => hk c.symm
          have hrest : ∀ rest : Entries,
              (rest.map fun e => if e.key = new.key then { e with value := new.value } else e).find?
                (·.key = key) = rest.find? (·.key = key) := by
            intro rest
            induction rest with
            | nil => rfl
            | cons r rest ihr =>
              by_cases hr : r.key = new.key
              · simp [hr, hn, ihr]
              · simp only [List.map_cons, hr, if_false, List.find?_cons, ihr]
          simp [he, hk, hn, hrest]
      · have hin : es.any (·.key = new.key) = true := by simpa [he] using h
        by_cases hk : e.key = key
        · simp [hk, show key ≠ new.key from fun c => he (hk.trans c)]
        · simpa [he, hk] using ih hin
  · rename_i h
    by_cases hk : key = new.key
    · have hnone : es.find? (·.key = new.key) = none := by
        rw [List.find?_eq_none]
        intro e he hc
        exact h (List.any_eq_true.mpr ⟨e, he, hc⟩)
      simp [hk, List.find?_append, hnone]
    · have hn : new.key ≠ key := fun c => hk c.symm
      simp [hk, hn, List.find?_append]

/-- Put an entry behind the entries of all other keys. -/
def putLast (es : Entries) (new : Entry Tree) : Entries := es.filter (·.key ≠ new.key) ++ [new]

theorem get?_putLast (es : Entries) (new : Entry Tree) (key : String) :
    (es.putLast new).get? key = if key = new.key then some new.value else es.get? key := by
  unfold putLast get?
  rw [List.find?_append]
  by_cases hk : key = new.key
  · have hnone : (es.filter (·.key ≠ new.key)).find? (·.key = key) = none := by
      rw [List.find?_eq_none]
      intro e he hc
      simp_all
    rw [hnone]
    simp [hk]
  · have hrest : (es.filter (·.key ≠ new.key)).find? (·.key = key) = es.find? (·.key = key) := by
      rw [List.find?_filter]
      congr 1
      funext e
      by_cases he : e.key = key <;> simp [he, hk]
    rw [hrest]
    simp [hk, show new.key ≠ key from fun c => hk c.symm]

/-- Put an entry under a key that has none. `home` is the path of the table as reports
name it. -/
def putNew (home : Option (List String)) (new : Entry Tree) (es : Entries) :
    Except Reason Entries :=
  match es.get? new.key with
  | none => .ok (es ++ [new])
  | some _ => .error (.repeated new.key home)

/-- Apply `f` to the last of several tables. -/
def inLast (f : Entries → Except Reason Entries) (tables : List Entries) : Except Reason Tree :=
  match tables.getLast? with
  | none => .error .malformed
  | some last => do return .tables (tables.dropLast ++ [← f last])

/-- Put an entry under a dotted key: into the table that a path leads to. The tables
on the path are made by it or have been made by dotted keys before; on the way to the
last of them, tables that inner headers have mentioned and the last of several tables
may be passed. `passed` is the path so far. Tables in braces have no `home`. -/
def insert (home : Option (List String)) (new : Entry Tree) (passed : List String)
    (es : Entries) : List String → Except Reason Entries
  | [] => es.putNew home new
  | name :: path =>
    let passed := passed ++ [name]
    let deeper (origin : Origin) (inner : Entries) : Except Reason Entries := do
      return es.put ⟨name, new.place, .table origin (← insert home new passed inner path)⟩
    match es.get? name with
    | none => deeper .dottedKey []
    | some (.table .dottedKey inner) => deeper .dottedKey inner
    | some (.table .innerHeader inner) =>
      if path.isEmpty then .error (.repeated new.key none) else deeper .innerHeader inner
    | some (.tables elements) =>
      if path.isEmpty then .error (.repeated new.key none)
      else do return es.put ⟨name, new.place, ← inLast (insert home new passed · path) elements⟩
    | some (.table .header _) => .error (.repeated name none)
    | some v =>
      match v, home with
      | .table .braces _, none => .error (.repeated name none)
      | v, _ => .error (.notTable passed v.kind)

/-- Apply `f` to the table that a path leads to, or to the last of the tables there.
Tables that are missing on the way are made at `place`. `passed` is the path so far. -/
def atPath (place : Place) (f : Entries → Except Reason Entries) (passed : List String)
    (es : Entries) : List String → Except Reason Entries
  | [] => f es
  | name :: path =>
    let passed := passed ++ [name]
    let deeper (origin : Origin) (inner : Entries) : Except Reason Entries := do
      return es.put ⟨name, place, .table origin (← atPath place f passed inner path)⟩
    match es.get? name with
    | none => deeper .innerHeader []
    | some (.tables elements) => do
      return es.put ⟨name, place, ← inLast (atPath place f passed · path) elements⟩
    | some v =>
      match v with
      | .table .braces _ => .error (.notTable passed v.kind)
      | .table origin inner => deeper origin inner
      | v => .error (.notTable passed v.kind)

/-! ## Headers -/

/-- That the header of a table names a key that is defined already. -/
def repeatedHeader (around : List String) (key : String) : Reason :=
  .repeated (writtenKey key) (some around)

/-- Define the table under a key, which may have been mentioned by inner headers. -/
def define (place : Place) (around : List String) (key : String) (es : Entries) :
    Except Reason Entries :=
  match es.get? key with
  | none => .ok (es.putLast ⟨key, place, .table .header []⟩)
  | some (.table .innerHeader inner) => .ok (es.putLast ⟨key, place, .table .header inner⟩)
  | some _ => .error (repeatedHeader around key)

/-- Begin another one of the tables under a key. -/
def another (place : Place) (around : List String) (key : String) (es : Entries) :
    Except Reason Entries :=
  match es.get? key with
  | none => .ok (es.put ⟨key, place, .tables [[]]⟩)
  | some (.tables elements) => .ok (es.put ⟨key, place, .tables (elements ++ [[]])⟩)
  | some _ => .error (repeatedHeader around key)

/-- Apply `f` to the table around the one that a header names. -/
def aroundHeader (place : Place)
    (f : Place → List String → String → Entries → Except Reason Entries) (es : Entries)
    (header : List String) : Except Reason Entries :=
  match header.getLast? with
  | none => .error .malformed
  | some key => es.atPath place (f place header.dropLast key) [] header.dropLast

/-- The document after the header of a table. -/
def openTable (es : Entries) (place : Place) (header : List String) : Except Reason Entries :=
  es.aroundHeader place define header

/-- The document after the header of one of several tables. -/
def pushTable (es : Entries) (place : Place) (header : List String) : Except Reason Entries :=
  es.aroundHeader place another header

end Entries

end NodeBus.Toml
