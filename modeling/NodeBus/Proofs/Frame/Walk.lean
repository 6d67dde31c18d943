import NodeBus.Proofs.Frame.Prefix

/-!
# Walking along a byte string

`Walk` cuts the scan of a byte string into pieces: a walk goes from a byte string to
a suffix of it, finding frames on its way. `scan_of_walk` and `scanFrom_of_walk` say
what that means for the frames of the whole string and for the places where they start.

The two walks that are right whatever follows, over a frame (`walk_of_frameAt?`) and over
the first byte of a barren string (`walk_of_barren`), are all that a receiver does.
-/

namespace NodeBus.Frame

variable {capacity : Nat}

/-- The scan of a byte string goes on to a suffix of it and finds frames on its way. -/
inductive Walk (capacity : Nat) : List UInt8 → List (List UInt8) → List UInt8 → Prop where
  | stay (s : List UInt8) : Walk capacity s [] s
  | take {s g s' : List UInt8} {found : List (List UInt8)} (h : frameAt? capacity s = some g)
      (rest : Walk capacity (s.drop g.length) found s') : Walk capacity s (g :: found) s'
  | skip {b : UInt8} {s s' : List UInt8} {found : List (List UInt8)}
      (h : frameAt? capacity (b :: s) = none) (rest : Walk capacity s found s') :
      Walk capacity (b :: s) found s'

theorem Walk.trans {s s' s'' : List UInt8} {found later : List (List UInt8)}
    (h : Walk capacity s found s') (h' : Walk capacity s' later s'') :
    Walk capacity s (found ++ later) s'' := by
  induction h with
  | stay s => exact h'
  | take hframe _ ih => exact .take hframe (ih h')
  | skip hnone _ ih => exact .skip hnone (ih h')

theorem Walk.suffix {s s' : List UInt8} {found : List (List UInt8)}
    (h : Walk capacity s found s') : s' <:+ s := by
  induction h with
  | stay s => exact List.suffix_refl s
  | take _ _ ih => exact ih.trans (List.drop_suffix ..)
  | skip _ _ ih => exact ih.trans (List.suffix_cons ..)

/-! ## Walks that are right whatever follows -/

theorem walk_of_frameAt? {s g : List UInt8} (h : frameAt? capacity s = some g)
    (later : List UInt8) : Walk capacity (s ++ later) [g] (s.drop g.length ++ later) := by
  refine .take (frameAt?_append h later) ?_
  rw [List.drop_append_of_le_length (length_of_frameAt? h).2]
  exact .stay _

theorem walk_of_barren {s : List UInt8} (h : Barren capacity s) (later : List UInt8) :
    Walk capacity (s ++ later) [] (s.drop 1 ++ later) := by
  cases s with
  | nil => exact .stay _
  | cons b rest => exact .skip (h later) (.stay _)

/-- Where not even an empty frame is allowed, none is found. -/
theorem walk_of_small (h : capacity < overhead) (s later : List UInt8) :
    Walk capacity (s ++ later) [] later := by
  have hbarren (s : List UInt8) : Barren capacity s := by
    refine barren_of_forall fun later g f _ hlength hf => ?_
    have := overhead_le_of_decode hf
    omega
  induction s with
  | nil => exact .stay _
  | cons b rest ih => exact (walk_of_barren (hbarren (b :: rest)) later).trans ih

/-! ## What a walk says about the scan -/

theorem scanFrom_of_frameAt? {s g : List UInt8} (h : frameAt? capacity s = some g)
    (place : Nat) : scanFrom capacity place s =
      (place, g) :: scanFrom capacity (place + g.length) (s.drop g.length) := by
  cases s with
  | nil => cases h
  | cons b rest =>
    rw [scanFrom]
    split
    · rename_i g' hg'
      obtain rfl : g' = g := Option.some.inj (hg'.symm.trans h)
      rfl
    · rename_i hnone
      rw [hnone] at h
      cases h

theorem scanFrom_of_frameAt?_eq_none {b : UInt8} {s : List UInt8}
    (h : frameAt? capacity (b :: s) = none) (place : Nat) :
    scanFrom capacity place (b :: s) = scanFrom capacity (place + 1) s := by
  rw [scanFrom]
  split
  · rename_i g hg
    rw [h] at hg
    cases hg
  · rfl

theorem le_of_mem_scanFrom {place : Nat} {s : List UInt8} {x : Nat × List UInt8}
    (h : x ∈ scanFrom capacity place s) : place ≤ x.1 := by
  fun_induction scanFrom capacity place s with
  | case1 => cases h
  | case2 place b rest f _ _ ih =>
    rcases List.mem_cons.mp h with rfl | h
    · exact Nat.le_refl _
    · exact Nat.le_trans (Nat.le_add_right ..) (ih h)
  | case3 place b rest _ ih => exact Nat.le_trans (Nat.le_succ _) (ih h)

/-- The frames that a walk finds start where it passes, and the scan goes on where it ends. -/
theorem scanFrom_of_walk {s s' : List UInt8} {found : List (List UInt8)}
    (h : Walk capacity s found s') (place : Nat) :
    ∃ placed end', end' + s'.length = place + s.length ∧
      scanFrom capacity place s = placed ++ scanFrom capacity end' s' ∧
      placed.map Prod.snd = found := by
  -- The place moves along with the walk.
  induction h generalizing place with
  | stay s => exact ⟨[], place, rfl, rfl, rfl⟩
  | @take s g s' found hframe _ ih =>
    obtain ⟨placed, end', hend, hscan, hplaced⟩ := ih (place + g.length)
    refine ⟨(place, g) :: placed, end', ?_, ?_, ?_⟩
    · have := (length_of_frameAt? hframe).2
      rw [hend, List.length_drop]
      omega
    · rw [scanFrom_of_frameAt? hframe, hscan, List.cons_append]
    · rw [List.map_cons, hplaced]
  | @skip b s s' found hnone _ ih =>
    obtain ⟨placed, end', hend, hscan, hplaced⟩ := ih (place + 1)
    refine ⟨placed, end', ?_, ?_, hplaced⟩
    · rw [hend, List.length_cons]
      omega
    · rw [scanFrom_of_frameAt?_eq_none hnone, hscan]

theorem scan_of_walk {s s' : List UInt8} {found : List (List UInt8)}
    (h : Walk capacity s found s') : scan capacity s = found ++ scan capacity s' := by
  obtain ⟨placed, end', _, hscan, hplaced⟩ := scanFrom_of_walk h 0
  rw [← map_snd_scanFrom capacity 0, hscan, List.map_append, hplaced, map_snd_scanFrom]

end NodeBus.Frame
