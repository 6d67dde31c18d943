/-!
# The byte window of a receiver

Bytes are added behind and removed in front. The removed part stays in the
array until it is half of it, so that both ends cost constant time on average.
`toList` is the content; the lemmas say what each operation does to it.
-/

namespace NodeBus.Frame

/-- The bytes of an array from a position on. -/
structure Window where
  cells : Array UInt8
  start : Nat

namespace Window

/-- The bytes in the window, in order of arrival. -/
def toList (w : Window) : List UInt8 := w.cells.toList.drop w.start

def empty : Window := ⟨#[], 0⟩

def size (w : Window) : Nat := w.cells.size - w.start

/-- The byte at position `i`. -/
def get? (w : Window) (i : Nat) : Option UInt8 := w.cells[w.start + i]?

/-- Add a byte behind. -/
def push (w : Window) (b : UInt8) : Window :=
  let start := min w.start w.cells.size
  ⟨w.cells.push b, start⟩

/-- Remove the first `n` bytes. -/
def drop (w : Window) (n : Nat) : Window :=
  let start := w.start + n
  if 2 * start < w.cells.size then ⟨w.cells, start⟩
  else ⟨w.cells.extract start, 0⟩

/-- The first `n` bytes. -/
def take (w : Window) (n : Nat) : List UInt8 :=
  (w.cells.extract w.start (w.start + n)).toList

/-! ## The content after each operation -/

@[simp] theorem toList_empty : empty.toList = [] := rfl

theorem size_eq_length (w : Window) : w.size = w.toList.length := by
  simp [size, toList]

theorem get?_eq_getElem? (w : Window) (i : Nat) : w.get? i = w.toList[i]? := by
  simp [get?, toList]

@[simp] theorem toList_push (w : Window) (b : UInt8) : (w.push b).toList = w.toList ++ [b] := by
  simp only [toList, push, Array.toList_push]
  by_cases h : w.start ≤ w.cells.size
  · rw [Nat.min_eq_left h, List.drop_append_of_le_length (by simpa using h)]
  · rw [Nat.min_eq_right (by omega), List.drop_of_length_le (i := w.start) (by simp; omega)]
    simp

@[simp] theorem toList_drop (w : Window) (n : Nat) : (w.drop n).toList = w.toList.drop n := by
  simp only [drop]
  split
  · simp [toList, List.drop_drop]
  · simp only [toList, Array.toList_extract, List.extract_eq_take_drop, List.drop_zero,
      List.drop_drop]
    exact List.take_of_length_le (by simp)

theorem take_eq (w : Window) (n : Nat) : w.take n = w.toList.take n := by
  simp [take, toList]

theorem size_push (w : Window) (b : UInt8) : (w.push b).size = w.size + 1 := by
  simp [size_eq_length]

theorem size_drop (w : Window) (n : Nat) : (w.drop n).size = w.size - n := by
  simp [size_eq_length]

end Window

end NodeBus.Frame
