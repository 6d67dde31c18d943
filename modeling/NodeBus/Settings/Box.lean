/-!
# Boxed messages

Diagnostics are shown in a box. `boxLines` puts a message of several lines between
the borders: a line of at most 64 bytes is padded to 64 characters, a longer one
is cut behind 61 bytes. A cut that would fall inside a character is not made, and
then there is no boxed message.
-/

namespace NodeBus.Settings

/-! ## Lines -/

/-- Drop the carriage return at the end of a line that is given backwards. -/
def dropReturn : List Char → List Char
  | '\r' :: line => line
  | line => line

/-- The lines of a text. A line ends with a line feed, with or without a carriage
return in front of it; what is behind the last line feed is a line unless it is
empty. `line` is the line so far, backwards. -/
def linesFrom (line : List Char) : List Char → List (List Char)
  | [] => if line.isEmpty then [] else [line.reverse]
  | '\n' :: rest => (dropReturn line).reverse :: linesFrom [] rest
  | c :: rest => linesFrom (c :: line) rest

/-- The lines of a text. -/
def textLines (text : String) : List (List Char) := linesFrom [] text.toList

/-! ## Bytes of a line -/

/-- The number of bytes of a line. -/
def byteLength : List Char → Nat
  | [] => 0
  | c :: rest => c.utf8Size + byteLength rest

/-- The characters that make up the first `n` bytes of a line, unless a character
lies across their end. -/
def takeBytes (n : Nat) : List Char → Option (List Char)
  | [] => some []
  | c :: rest =>
    if n = 0 then some []
    else if c.utf8Size ≤ n then (takeBytes (n - c.utf8Size) rest).map (c :: ·)
    else none

/-! ## Borders -/

/-- Pad a line with blanks to a number of characters. -/
def padTo (width : Nat) (line : List Char) : List Char :=
  line ++ List.replicate (width - line.length) ' '

/-- The most bytes of a line in a box, and the number of characters it is padded to. -/
def lineWidth : Nat := 64

/-- What stands behind a line that was cut. -/
def ellipsis : List Char := ['.', '.', '.']

/-- A line that fits into a box. -/
def fit (line : List Char) : Option (List Char) :=
  if byteLength line ≤ lineWidth then some line
  else (takeBytes (lineWidth - ellipsis.length) line).map (· ++ ellipsis)

/-- A line between the borders of a box. -/
def boxLine (line : List Char) : Option (List Char) :=
  (fit line).map fun line => "║  ".toList ++ padTo lineWidth line ++ " ║".toList

/-- The lines of a message between the borders of a box. -/
def boxLines (message : String) : Option String :=
  ((textLines message).mapM boxLine).map fun lines =>
    "\n".intercalate (lines.map String.ofList)

/-! ## Boxes -/

/-- A border of a box between two corners. -/
def border (left right : String) : String :=
  left ++ String.ofList (List.replicate 66 '═') ++ right

/-- A text between the borders of a box. -/
def row (text : String) : String := "║" ++ String.ofList (padTo 66 text.toList) ++ "║"

/-- A box around rows, on lines of its own. -/
def box (rows : List String) : String :=
  "\n" ++ String.join ((border "╔" "╗" :: rows ++ [border "╚" "╝"]).map (· ++ "\n"))

/-- A complaint as an item of a list in a box. -/
def item (complaint : String) : String :=
  "║  • " ++ String.ofList (padTo 62 complaint.toList) ++ " ║"

end NodeBus.Settings
