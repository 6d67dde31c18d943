import NodeBus.Frame.Receiver
import NodeBus.Proofs.Frame.Walk

/-!
# A receiver finds the frames of the scan

What a receiver has returned so far, followed by the frames in the bytes that it
still holds, are the frames of the whole stream (`frames_append_scan_pending`).

The receiver walks along the stream, and what it returns is what the walk finds
(`walk_feedAll`). That is so whatever follows, because every byte that it gives up is
the front of a barren byte string, and every frame that it returns is a frame whatever
follows (`Prefix`).
-/

namespace NodeBus.Frame.Receiver

variable {capacity : Nat}

/-! ## Skipping -/

theorem walk_settle (w : Window) (later : List UInt8) :
    Walk capacity (w.toList ++ later) [] ((settle w).toList ++ later) := by
  fun_induction settle w with
  | case1 => exact .stay _
  | case2 w first hfirst _ hne ih =>
    rw [Window.get?_eq_getElem?] at hfirst
    have hbarren : Barren capacity w.toList :=
      barren_of_byte hfirst hne fun h => (front_of_decode h).1
    rw [Window.toList_drop] at ih
    exact (walk_of_barren hbarren later).trans ih
  | case3 => exact .stay _
  | case4 w _ _ _ _ second hsecond hne ih =>
    rw [Window.get?_eq_getElem?] at hsecond
    have hbarren : Barren capacity w.toList :=
      barren_of_byte hsecond hne fun h => (front_of_decode h).2.1
    rw [Window.toList_drop] at ih
    exact (walk_of_barren hbarren later).trans ih
  | case5 => exact .stay _

/-! ## Judging -/

/-- A candidate is given up for its version, for its length, or, once it is there as a
whole, because it cannot be decoded. -/
theorem rejected_cases {w : Window} {cause : Error} (h : judge capacity w = .rejected cause) :
    (∃ v, w.toList[2]? = some v ∧ v ≠ version ∧ cause = .unsupportedVersion) ∨
    ∃ low high, w.toList[2]? = some version ∧ w.toList[5]? = some low ∧
      w.toList[6]? = some high ∧
      (capacity < (Bytes.word16 low high).toNat + overhead ∧ cause = .payloadTooLarge ∨
        (Bytes.word16 low high).toNat + overhead ≤ w.toList.length ∧
          decode (w.toList.take ((Bytes.word16 low high).toNat + overhead)) = .error cause) := by
  rw [judge] at h
  simp only [Window.get?_eq_getElem?, Window.size_eq_length, Window.take_eq] at h
  split at h
  · cases h
  · rename_i v hv
    split at h
    · rename_i hversion
      cases h
      exact .inl ⟨v, hv, hversion, rfl⟩
    · rename_i hversion
      obtain rfl : v = version := Decidable.not_not.mp hversion
      split at h
      · rename_i low high hlow hhigh
        refine .inr ⟨low, high, hv, hlow, hhigh, ?_⟩
        split at h
        · rename_i hlong
          cases h
          exact .inl ⟨hlong, rfl⟩
        · split at h
          · cases h
          · rename_i hpresent
            split at h
            · cases h
            · rename_i hrefused
              cases h
              exact .inr ⟨Nat.le_of_not_lt hpresent, hrefused⟩
      · cases h

theorem barren_of_judge {w : Window} {cause : Error} (h : judge capacity w = .rejected cause) :
    Barren capacity w.toList := by
  rcases rejected_cases h with ⟨v, hv, hversion, _⟩ |
    ⟨low, high, _, hlow, hhigh, ⟨hlong, _⟩ | ⟨hpresent, hrefused⟩⟩
  · exact barren_of_byte hv hversion fun h => (front_of_decode h).2.2
  · exact barren_of_length hlow hhigh hlong
  · exact barren_of_refused hlow hhigh hpresent hrefused

/-- A candidate that is judged to be a frame is the frame at the front. -/
theorem frameAt?_of_judge {w : Window} {n : Nat} (h : judge capacity w = .frame n) :
    frameAt? capacity w.toList = some (w.take n) ∧ (w.take n).length = n := by
  rw [judge] at h
  simp only [Window.get?_eq_getElem?, Window.size_eq_length, Window.take_eq] at h ⊢
  split at h
  · cases h
  · split at h
    · cases h
    · split at h
      · split at h
        · cases h
        · rename_i hfits
          split at h
          · cases h
          · rename_i hpresent
            split at h
            · rename_i f hdecode
              cases h
              have hlength := List.length_take_of_le (Nat.le_of_not_lt hpresent)
              refine ⟨frameAt?_eq_some_iff.mpr ⟨List.take_prefix .., ?_, f, hdecode⟩, hlength⟩
              rw [hlength]
              exact Nat.le_of_not_lt hfits
            · cases h
      · cases h

/-- What may still become a frame has room for its last byte. -/
theorem size_lt_of_judge {w : Window} (hcapacity : headerSize ≤ capacity)
    (h : judge capacity w = .incomplete) : w.size < capacity := by
  rw [judge] at h
  simp only [headerSize, Window.get?_eq_getElem?, Window.size_eq_length] at hcapacity h ⊢
  split at h
  · rename_i hnone
    have := List.getElem?_eq_none_iff.mp hnone
    omega
  · split at h
    · cases h
    · split at h
      · split at h
        · cases h
        · split at h
          · omega
          · split at h <;> cases h
      · rename_i hnone
        apply Nat.lt_of_not_le
        intro hsize
        exact hnone _ _ (List.getElem?_eq_getElem (by omega))
          (List.getElem?_eq_getElem (by omega))

/-! ## Hunting -/

theorem size_hunt_le (capacity : Nat) (rejection : Option Error) (w : Window) :
    (hunt capacity rejection w).2.2.size ≤ w.size := by
  fun_induction hunt capacity rejection w with
  | case1 => exact size_settle_le _
  | case2 => exact size_settle_le _
  | case3 _ _ _ _ _ ih => omega

/-- Bytes that are given up are fronts without a frame. -/
theorem walk_hunt (capacity : Nat) (rejection : Option Error) (w : Window) (later : List UInt8) :
    Walk capacity (w.toList ++ later) [] ((hunt capacity rejection w).2.2.toList ++ later) := by
  fun_induction hunt capacity rejection w with
  | case1 => exact walk_settle ..
  | case2 => exact walk_settle ..
  | case3 _ w cause hjudge _ ih =>
    -- The first byte of the rejected candidate goes, and so did those in front of it.
    rw [Window.toList_drop] at ih
    exact (walk_settle w later).trans ((walk_of_barren (barren_of_judge hjudge) later).trans ih)

/-- What is found is what the front is judged to be in the end. -/
theorem judge_hunt (capacity : Nat) (rejection : Option Error) (w : Window) :
    judge capacity (hunt capacity rejection w).2.2 =
      match (hunt capacity rejection w).2.1 with
      | none => .incomplete
      | some n => .frame n := by
  fun_induction hunt capacity rejection w with
  | case1 _ _ h => exact h
  | case2 _ _ _ h => exact h
  | case3 _ _ _ _ _ ih => exact ih

/-! ## Feeding -/

/-- There is room for another byte, if there is room for a header at all. -/
def Roomy (r : Receiver capacity) : Prop := headerSize ≤ capacity → r.pending.length < capacity

theorem roomy_fresh : (fresh : Receiver capacity).Roomy := by
  intro h
  exact Nat.lt_of_lt_of_le (by decide : 0 < headerSize) h

/-- What a byte gives and leaves, in terms of what was held before. -/
theorem feed_cases (r : Receiver capacity) (b : UInt8) :
    (capacity ≤ r.pending.length ∧ r.feed b = (.error .bufferTooSmall, fresh)) ∨
    (r.pending.length < capacity ∧ ∃ (rejection : Option Error) (found : Option Nat) (w : Window),
      hunt capacity none ((r.held.drop r.returned).push b) = (rejection, found, w) ∧
      (r.feed b).2 = ⟨w, found.getD 0⟩ ∧
      (r.feed b).1 = match found, rejection with
        | some n, _ => .ok (some (w.take n))
        | none, some cause => .error cause
        | none, none => .ok none) := by
  have hheld : (r.held.drop r.returned).size = r.pending.length := by
    rw [Window.size_eq_length, Window.toList_drop, pending]
  by_cases hroom : capacity ≤ r.pending.length
  · left
    refine ⟨hroom, ?_⟩
    rw [feed]
    simp only [hheld, hroom, if_true, reset]
  · right
    refine ⟨Nat.lt_of_not_le hroom, ?_⟩
    rcases hhunt : hunt capacity none ((r.held.drop r.returned).push b) with ⟨rejection, found, w⟩
    refine ⟨rejection, found, w, rfl, ?_⟩
    rw [feed]
    simp only [hheld, hroom, if_false, hhunt]
    cases found with
    | some n => exact ⟨rfl, rfl⟩
    | none => cases rejection with
      | some cause => exact ⟨rfl, rfl⟩
      | none => exact ⟨rfl, rfl⟩

/-- What is held after a byte is no longer than the capacity, whatever was held before. -/
theorem size_feed_le (r : Receiver capacity) (b : UInt8) : (r.feed b).2.held.size ≤ capacity := by
  rcases feed_cases r b with ⟨_, hfeed⟩ | ⟨hroom, rejection, found, w, hhunt, hleft, _⟩
  · rw [hfeed]
    exact Nat.zero_le _
  · have hsize := size_hunt_le capacity none ((r.held.drop r.returned).push b)
    rw [hhunt, Window.size_push, Window.size_eq_length (r.held.drop _),
      Window.toList_drop] at hsize
    rw [hleft]
    exact Nat.le_trans hsize hroom

theorem roomy_feed (r : Receiver capacity) (b : UInt8) : (r.feed b).2.Roomy := by
  intro hcapacity
  have hsize := size_feed_le r b
  rcases feed_cases r b with ⟨_, hfeed⟩ | ⟨_, rejection, found, w, hhunt, hleft, _⟩
  · rw [hfeed]
    exact roomy_fresh hcapacity
  · have hjudge := judge_hunt capacity none ((r.held.drop r.returned).push b)
    rw [hhunt] at hjudge
    rw [hleft] at hsize ⊢
    cases found with
    | none => exact Window.size_eq_length w ▸ size_lt_of_judge hcapacity hjudge
    | some n =>
      -- The frame itself is at least an empty one, and it is no longer pending.
      obtain ⟨hfound, hlength⟩ := frameAt?_of_judge hjudge
      have hpos := (length_of_frameAt? hfound).1
      have hheld : w.size ≤ capacity := hsize
      simp only [pending, Option.getD_some, List.length_drop, ← Window.size_eq_length]
      omega

/-- From what is held and what follows, a byte goes on to what is held afterwards, and
finds the frame that it completes. -/
theorem walk_feed {r : Receiver capacity} (h : r.Roomy) (b : UInt8) (later : List UInt8) :
    Walk capacity (r.pending ++ b :: later) (frameOf? (r.feed b).1).toList
      ((r.feed b).2.pending ++ later) := by
  rcases feed_cases r b with ⟨hfull, hfeed⟩ | ⟨_, rejection, found, w, hhunt, hleft, hgiven⟩
  · -- Only a receiver that is too small for any frame runs out of room.
    have hsmall : capacity < overhead := by
      have := mt h (Nat.not_lt_of_le hfull)
      simp only [headerSize, overhead, checksumSize] at this ⊢
      omega
    have hwalk := walk_of_small hsmall (r.pending ++ [b]) later
    rw [List.append_assoc] at hwalk
    rw [hfeed]
    exact hwalk
  · have hwalk := walk_hunt capacity none ((r.held.drop r.returned).push b) later
    have hjudge := judge_hunt capacity none ((r.held.drop r.returned).push b)
    rw [hhunt] at hwalk hjudge
    rw [Window.toList_push, Window.toList_drop, List.append_assoc] at hwalk
    change Walk capacity (r.pending ++ b :: later) [] (w.toList ++ later) at hwalk
    rw [hleft, hgiven]
    cases found with
    | none => cases rejection <;> exact hwalk
    | some n =>
      obtain ⟨hfound, hlength⟩ := frameAt?_of_judge hjudge
      have hframe := walk_of_frameAt? hfound later
      rw [hlength] at hframe
      exact hwalk.trans hframe

/-! ## Whole streams -/

theorem length_pending_feedAll_le {r : Receiver capacity} (h : r.held.size ≤ capacity)
    (s : List UInt8) : (r.feedAll s).2.pending.length ≤ capacity := by
  induction s generalizing r with
  | nil =>
    rw [Window.size_eq_length] at h
    rw [feedAll, pending, List.length_drop]
    exact Nat.le_trans (Nat.sub_le ..) h
  | cons b s ih => exact ih (size_feed_le r b)

theorem walk_feedAll {r : Receiver capacity} (h : r.Roomy) (s later : List UInt8) :
    Walk capacity (r.pending ++ (s ++ later)) (frames (r.feedAll s).1)
      ((r.feedAll s).2.pending ++ later) := by
  induction s generalizing r with
  | nil => exact .stay _
  | cons b s ih =>
    -- `later` stands for the bytes that are still to come, so it grows by the rest of `s`.
    have hframes : frames (r.feedAll (b :: s)).1 =
        (frameOf? (r.feed b).1).toList ++ frames ((r.feed b).2.feedAll s).1 := by
      simp only [feedAll, frames, List.filterMap_cons]
      cases frameOf? (r.feed b).1 <;> rfl
    rw [List.cons_append, hframes]
    exact (walk_feed h b (s ++ later)).trans (ih (roomy_feed r b))

theorem scan_feedAll {r : Receiver capacity} (h : r.Roomy) (s later : List UInt8) :
    scan capacity (r.pending ++ (s ++ later)) =
      frames (r.feedAll s).1 ++ scan capacity ((r.feedAll s).2.pending ++ later) :=
  scan_of_walk (walk_feedAll h s later)

/-- However a stream has gone on so far, the frames that a fresh or reset receiver has
returned, followed by the frames in the bytes that it holds beyond the last of them, are
the frames in the stream. So none is lost, returned twice, out of order or made up, and
those that are still to come are in no more bytes than the receiver has room for. -/
theorem frames_append_scan_pending (s : List UInt8) (used : Receiver capacity) :
    (frames ((fresh : Receiver capacity).feedAll s).1 ++
        scan capacity ((fresh : Receiver capacity).feedAll s).2.pending = scan capacity s ∧
      ((fresh : Receiver capacity).feedAll s).2.pending.length ≤ capacity) ∧
    frames (used.reset.feedAll s).1 ++ scan capacity (used.reset.feedAll s).2.pending =
        scan capacity s ∧
      (used.reset.feedAll s).2.pending.length ≤ capacity := by
  have hscan := scan_feedAll (roomy_fresh : (fresh : Receiver capacity).Roomy) s []
  have hlength : ((fresh : Receiver capacity).feedAll s).2.pending.length ≤ capacity :=
    length_pending_feedAll_le (Nat.zero_le _) s
  rw [List.append_nil, List.append_nil] at hscan
  exact ⟨⟨hscan.symm, hlength⟩, hscan.symm, hlength⟩

end NodeBus.Frame.Receiver
