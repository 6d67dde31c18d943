import NodeBus.Frame

/-!
# The frames in a byte string

`scan capacity s` walks a whole byte string from left to right and lists the
frames in it: where a complete frame of at most `capacity` bytes starts it is
taken and the walk goes on behind it, otherwise the walk moves one byte on. It
is what a receiver of that capacity finds in `s`, however `s` is cut into
pieces. `scanFrom` says in addition where each frame starts.
-/

namespace NodeBus.Frame

/-- The complete frame of at most `capacity` bytes that `s` starts with. -/
def frameAt? (capacity : Nat) (s : List UInt8) : Option (List UInt8) :=
  match s with
  | m₀ :: m₁ :: v :: _ :: _ :: low :: high :: _ =>
    let total := (Bytes.word16 low high).toNat + overhead
    if m₀ = magic₀ ∧ m₁ = magic₁ ∧ v = version ∧ total ≤ capacity ∧ total ≤ s.length then
      match decode (s.take total) with
      | .ok _ => some (s.take total)
      | .error _ => none
    else none
  | _ => none

/-- A frame at the front is a nonempty part of the string. -/
theorem length_of_frameAt? {capacity : Nat} {s f : List UInt8} (h : frameAt? capacity s = some f) :
    0 < f.length ∧ f.length ≤ s.length := by
  unfold frameAt? at h
  split at h
  · dsimp only at h
    split at h
    · rename_i hc
      split at h
      · cases h
        have := hc.2.2.2.2
        simp only [overhead, headerSize, checksumSize, List.length_take] at *
        omega
      · cases h
    · cases h
  · cases h

/-- The frames in a byte string, from left to right. -/
def scan (capacity : Nat) (s : List UInt8) : List (List UInt8) :=
  match s with
  | [] => []
  | b :: rest =>
    match h : frameAt? capacity (b :: rest) with
    | some f =>
      have : rest.length + 1 - f.length < rest.length + 1 := by
        have := length_of_frameAt? h
        omega
      f :: scan capacity ((b :: rest).drop f.length)
    | none => scan capacity rest
termination_by s.length

/-- The frames in a byte string, each with the place where it starts. The string itself
starts at `place`. -/
def scanFrom (capacity place : Nat) (s : List UInt8) : List (Nat × List UInt8) :=
  match s with
  | [] => []
  | b :: rest =>
    match h : frameAt? capacity (b :: rest) with
    | some f =>
      have : rest.length + 1 - f.length < rest.length + 1 := by
        have := length_of_frameAt? h
        omega
      (place, f) :: scanFrom capacity (place + f.length) ((b :: rest).drop f.length)
    | none => scanFrom capacity (place + 1) rest
termination_by s.length

/-- Places aside, these are the frames of the scan. -/
theorem map_snd_scanFrom (capacity place : Nat) (s : List UInt8) :
    (scanFrom capacity place s).map Prod.snd = scan capacity s := by
  fun_induction scanFrom capacity place s with
  | case1 => rw [scan, List.map_nil]
  | case2 _ b rest f h _ ih =>
    rw [List.map_cons, ih, scan]
    split
    · rename_i f' h'
      rw [Option.some.inj (h.symm.trans h')]
    · rename_i h'
      cases h.symm.trans h'
  | case3 _ b rest h ih =>
    rw [ih, scan]
    split
    · rename_i f h'
      cases h.symm.trans h'
    · rfl

end NodeBus.Frame
