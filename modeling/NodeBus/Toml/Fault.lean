/-!
# Faults in a document

Where a document is at fault and why. `Fault.report` is what a reader is told: the
line that holds the fault, with its number, and the reason.

Readers of one line need not say where in it they fail, so that a place stands for
its line.
-/

namespace NodeBus.Toml

/-- A place in a text, given by what is left of the text from there on. -/
abbrev Place := List Char

/-! ## Reasons -/

/-- Why a text is no document. -/
inductive Reason where
  /-- It breaks off, or something else than what it holds has to stand there. -/
  | malformed
  /-- A key is defined twice: in the outermost table or the one of a header, whose
  path is `home`, or in another table, which is not named. -/
  | repeated (key : String) (home : Option (List String))
  /-- A path leads through a value of some other kind than a table. -/
  | notTable (path : List String) (kind : String)
  deriving DecidableEq, Repr

namespace Reason

/-- The words for a reason. Those for a malformed text quote nothing of it and are
left out. -/
def message : Reason → String
  | malformed => ""
  | repeated key none => s!"duplicate key `{key}`"
  | repeated key (some []) => s!"duplicate key `{key}` in document root"
  | repeated key (some home) =>
    let table := ".".intercalate home
    s!"duplicate key `{key}` in table `{table}`"
  | notTable path kind =>
    let name := ".".intercalate path
    s!"dotted key `{name}` attempted to extend non-table type ({kind})"

end Reason

/-- Why a text is no document, and where that shows. -/
structure Fault where
  place : Place
  reason : Reason
  deriving DecidableEq, Repr

namespace Fault

/-- What `r` has read; nothing read is a fault at `place`. -/
def orAt {α : Type} (place : Place) (r : Option α) : Except Fault α :=
  match r with
  | some a => .ok a
  | none => .error ⟨place, .malformed⟩

/-- What `r` gives; a reason to refuse it is a fault at `place`. -/
def because {α : Type} (place : Place) (r : Except Reason α) : Except Fault α :=
  r.mapError (⟨place, ·⟩)

/-! ## Reports -/

/-- The number of line ends in front of a place. The end of a text counts as part of
its last line, also behind a line end. -/
def line (f : Fault) (text : List Char) : Nat :=
  (text.take (min (text.length - f.place.length) (text.length - 1))).count '\n'

/-- The line behind so many line ends. -/
def lineAt : Nat → List Char → List Char
  | 0, text => text.takeWhile (· ≠ '\n')
  | n + 1, text => lineAt n ((text.dropWhile (· ≠ '\n')).drop 1)

/-- The line of a fault in a text, with its number, and below it the reason. -/
def report (f : Fault) (text : String) : String :=
  let number := f.line text.toList
  let quoted := String.ofList (lineAt number text.toList)
  s!"{number + 1} | {quoted}\n{f.reason.message}\n"

end Fault

end NodeBus.Toml
