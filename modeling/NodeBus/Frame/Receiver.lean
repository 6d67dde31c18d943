import NodeBus.Frame
import NodeBus.Frame.Window

/-!
# Receiving frames from a byte stream

A receiver takes a stream one byte at a time and hands out each complete frame
on the byte that completes it. It looks for the magic bytes, judges the
candidate that starts there as soon as enough of it has arrived, and on a
rejection gives up one byte only, so that a frame that starts inside a false
header is still found.

- `Receiver.settle` skips bytes in front of the next possible start of a frame;
- `Receiver.judge` decides about the candidate at the front;
- `Receiver.hunt` repeats both until the candidate is a frame or needs more bytes;
- `Receiver.feed` adds one byte.

A receiver of capacity `n` holds frames of at most `n` bytes.
-/

namespace NodeBus.Frame

/-- A receiver for frames of at most `capacity` bytes. `returned` is the length
of the frame that the last byte completed; it is dropped with the next byte. -/
structure Receiver (capacity : Nat) where
  held : Window
  returned : Nat

namespace Receiver

/-- What is known about the candidate at the front of the window. -/
inductive Verdict where
  /-- It may become a frame; more bytes are needed. -/
  | incomplete
  /-- It is a frame of this length. -/
  | frame (length : Nat)
  /-- It cannot become a frame. -/
  | rejected (cause : Error)
  deriving DecidableEq, Repr

variable {capacity : Nat}

/-- A receiver that has seen nothing. -/
def fresh : Receiver capacity := ⟨.empty, 0⟩

/-- Forget everything that was received. -/
def reset (_ : Receiver capacity) : Receiver capacity := fresh

/-- Drop bytes until the window is empty, starts with both magic bytes, or holds
the first magic byte alone. -/
def settle (w : Window) : Window :=
  match h : w.get? 0 with
  | none => w
  | some first =>
    have : (w.drop 1).size < w.size := by
      have : 0 < w.size := by
        rw [Window.get?_eq_getElem?] at h
        rw [Window.size_eq_length]
        exact (List.getElem?_eq_some_iff.mp h).1
      rw [Window.size_drop]
      omega
    if first ≠ magic₀ then settle (w.drop 1)
    else match w.get? 1 with
      | none => w
      | some second => if second ≠ magic₁ then settle (w.drop 1) else w
termination_by w.size

/-- Judge the candidate at the front of a settled window. -/
def judge (capacity : Nat) (w : Window) : Verdict :=
  match w.get? 2, w.get? 5, w.get? 6 with
  | none, _, _ => .incomplete
  | some v, low?, high? =>
    if v ≠ version then .rejected .unsupportedVersion
    else match low?, high? with
      | some low, some high =>
        let total := (Bytes.word16 low high).toNat + overhead
        if total > capacity then .rejected .payloadTooLarge
        else if w.size < total then .incomplete
        else match decode (w.take total) with
          | .ok _ => .frame total
          | .error cause => .rejected cause
      | _, _ => .incomplete

theorem size_settle_le (w : Window) : (settle w).size ≤ w.size := by
  fun_induction settle w with
  | case1 => exact Nat.le_refl _
  | case2 _ _ _ _ _ ih => omega
  | case3 => exact Nat.le_refl _
  | case4 _ _ _ _ _ _ _ _ ih => omega
  | case5 => exact Nat.le_refl _

/-- Only a window with bytes in it is judged to be anything but incomplete. -/
theorem size_pos_of_judge {w : Window} (h : judge capacity w ≠ .incomplete) : 0 < w.size := by
  rw [Window.size_eq_length, List.length_pos_iff]
  rintro hw
  simp [judge, Window.get?_eq_getElem?, hw] at h

/-- Reject candidates one byte at a time until the front is a frame or needs more
bytes: the first rejection, the length of the frame, and the window left. -/
def hunt (capacity : Nat) (rejection : Option Error) (w : Window) :
    Option Error × Option Nat × Window :=
  match h : judge capacity (settle w) with
  | .incomplete => (rejection, none, settle w)
  | .frame length => (rejection, some length, settle w)
  | .rejected cause =>
    have : ((settle w).drop 1).size < w.size := by
      have := size_settle_le w
      have : 0 < (settle w).size :=
        size_pos_of_judge (by simp [h] : judge capacity (settle w) ≠ .incomplete)
      rw [Window.size_drop]
      omega
    hunt capacity (rejection.or (some cause)) ((settle w).drop 1)
termination_by w.size

/-- Add one byte. The answer is the frame that it completes, if any; a rejected
candidate is reported unless a frame is found behind it. A byte for which there
is no room is reported and the receiver starts afresh. -/
def feed (r : Receiver capacity) (b : UInt8) :
    Except Error (Option (List UInt8)) × Receiver capacity :=
  let held := r.held.drop r.returned
  if capacity ≤ held.size then (.error .bufferTooSmall, r.reset)
  else match hunt capacity none (held.push b) with
    | (_, some length, w) => (.ok (some (w.take length)), ⟨w, length⟩)
    | (some cause, none, w) => (.error cause, ⟨w, 0⟩)
    | (none, none, w) => (.ok none, ⟨w, 0⟩)

/-- The bytes held beyond the frame that was returned last. -/
def pending (r : Receiver capacity) : List UInt8 := r.held.toList.drop r.returned

/-- Feed a list of bytes: what each byte gave, and the receiver afterwards. -/
def feedAll (r : Receiver capacity) :
    List UInt8 → List (Except Error (Option (List UInt8))) × Receiver capacity
  | [] => ([], r)
  | b :: bytes =>
    let (given, r) := r.feed b
    let (later, r) := feedAll r bytes
    (given :: later, r)

theorem feedAll_append (r : Receiver capacity) (s later : List UInt8) :
    r.feedAll (s ++ later) =
      ((r.feedAll s).1 ++ ((r.feedAll s).2.feedAll later).1,
        ((r.feedAll s).2.feedAll later).2) := by
  induction s generalizing r with
  | nil => rfl
  | cons b s ih => simp only [List.cons_append, feedAll, ih]

/-- The frame that a byte completed, if any. -/
def frameOf? : Except Error (Option (List UInt8)) → Option (List UInt8)
  | .ok frame? => frame?
  | .error _ => none

/-- The frames among what a list of bytes gave, in order. -/
def frames (given : List (Except Error (Option (List UInt8)))) : List (List UInt8) :=
  given.filterMap frameOf?

end Receiver

end NodeBus.Frame
