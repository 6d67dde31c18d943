import NodeBus.Proofs.Frame.Acceptance
import NodeBus.Proofs.Frame.Reassembly

/-!
# A receiver keeps up with the stream

A receiver that has room for a header never runs out of room, and it holds less than a
frame of the greatest length. So a frame has been returned as soon as that many bytes
have come since its first (`frames_prompt`), whatever came before it and however many
candidates are given up on the way.

The errors of such a receiver are those of candidates, and a candidate is judged only
after its magic bytes were found and only as a whole, so most errors of `decode` do not
arise (`rejected_of_judge`).
-/

namespace NodeBus.Frame

/-- With a header in order, and as many bytes as it states, only the checksum can be wrong. -/
theorem checksumMismatch_of_decode {flags stream low high : UInt8} {rest : List UInt8}
    {cause : Error} (hlength : rest.length = (Bytes.word16 low high).toNat + checksumSize)
    (h : decode (magic₀ :: magic₁ :: version :: flags :: stream :: low :: high :: rest) =
      .error cause) : cause = .checksumMismatch := by
  rcases (headed_of_header hlength.symm).decode_cases with ⟨_, _, haccepted⟩ | ⟨_, hrefused⟩
  · rw [haccepted] at h
    cases h
  · rw [hrefused] at h
    cases h
    rfl

namespace Receiver

variable {capacity : Nat}

/-! ## Errors -/

/-- The causes for which a candidate is given up. -/
def rejections : List Error := [.unsupportedVersion, .payloadTooLarge, .checksumMismatch]

/-- What a settled window starts with. -/
theorem front_settle (w : Window) :
    (settle w).toList = [] ∨ (settle w).toList = [magic₀] ∨
      ∃ rest, (settle w).toList = magic₀ :: magic₁ :: rest := by
  fun_induction settle w with
  | case1 w hnone =>
    rw [Window.get?_eq_getElem?, List.getElem?_eq_none_iff, Nat.le_zero,
      List.length_eq_zero_iff] at hnone
    exact .inl hnone
  | case2 _ _ _ _ _ ih => exact ih
  | case3 w first hfirst _ hfirst' hnone =>
    rw [Window.get?_eq_getElem?] at hfirst hnone
    obtain rfl : first = magic₀ := Decidable.not_not.mp hfirst'
    rcases hs : w.toList with _ | ⟨b, _ | ⟨b', rest⟩⟩
    · simp [hs] at hfirst
    · simp only [hs, List.getElem?_cons_zero, Option.some.injEq] at hfirst
      exact .inr (.inl (by rw [hfirst]))
    · simp [hs] at hnone
  | case4 _ _ _ _ _ _ _ _ ih => exact ih
  | case5 w first hfirst _ hfirst' second hsecond hsecond' =>
    rw [Window.get?_eq_getElem?] at hfirst hsecond
    obtain rfl : first = magic₀ := Decidable.not_not.mp hfirst'
    obtain rfl : second = magic₁ := Decidable.not_not.mp hsecond'
    rcases hs : w.toList with _ | ⟨b, _ | ⟨b', rest⟩⟩
    · simp [hs] at hfirst
    · simp [hs] at hsecond
    · simp only [hs, List.getElem?_cons_zero, List.getElem?_cons_succ, Option.some.injEq]
        at hfirst hsecond
      exact .inr (.inr ⟨rest, by rw [hfirst, hsecond]⟩)

theorem rejected_of_judge {w : Window} {cause : Error} {rest : List UInt8}
    (hfront : w.toList = magic₀ :: magic₁ :: rest) (h : judge capacity w = .rejected cause) :
    cause ∈ rejections := by
  rcases rejected_cases h with ⟨_, _, _, rfl⟩ |
    ⟨low, high, hversion, hlow, hhigh, ⟨_, rfl⟩ | ⟨hpresent, hrefused⟩⟩
  · decide
  · decide
  · -- All bytes of the candidate are there, so its header can be read off.
    rw [hfront] at hversion hlow hhigh hpresent hrefused
    obtain ⟨flags, stream, rest, rfl⟩ := header_of_getElem? hversion hlow hhigh
    have htotal : (Bytes.word16 low high).toNat + overhead =
        (Bytes.word16 low high).toNat + checksumSize + 7 := by
      simp [overhead, headerSize, checksumSize]
    rw [htotal] at hpresent hrefused
    simp only [List.take_succ_cons] at hrefused
    simp only [List.length_cons] at hpresent
    rw [checksumMismatch_of_decode (List.length_take_of_le (by omega)) hrefused]
    decide

theorem rejected_of_hunt (capacity : Nat) (rejection : Option Error) (w : Window)
    (h : ∀ cause, rejection = some cause → cause ∈ rejections) {cause : Error}
    (hcause : (hunt capacity rejection w).1 = some cause) : cause ∈ rejections := by
  fun_induction hunt capacity rejection w with
  | case1 => exact h _ hcause
  | case2 => exact h _ hcause
  | case3 rejection w cause' hjudge _ ih =>
    refine ih (fun cause'' heq => ?_) hcause
    rcases Option.or_eq_some_iff.mp heq with heq | ⟨_, heq⟩
    · exact h _ heq
    · cases heq
      -- A window with less than both magic bytes is not judged yet.
      rcases front_settle w with hfront | hfront | ⟨rest, hfront⟩
      · simp [judge, Window.get?_eq_getElem?, hfront] at hjudge
      · simp [judge, Window.get?_eq_getElem?, hfront] at hjudge
      · exact rejected_of_judge hfront hjudge

theorem rejected_of_feed {r : Receiver capacity} (hcapacity : headerSize ≤ capacity) (h : r.Roomy)
    {b : UInt8} {cause : Error} (hcause : (r.feed b).1 = .error cause) : cause ∈ rejections := by
  rcases feed_cases r b with ⟨hfull, _⟩ | ⟨_, rejection, found, w, hhunt, _, hgiven⟩
  · have := h hcapacity
    omega
  · rw [hgiven] at hcause
    cases found with
    | some n => cases hcause
    | none =>
      cases rejection with
      | none => cases hcause
      | some cause' =>
        cases hcause
        exact rejected_of_hunt capacity none _ (fun _ h => by cases h) (by rw [hhunt])

theorem rejected_of_feedAll {r : Receiver capacity} (hcapacity : headerSize ≤ capacity)
    (h : r.Roomy) {s : List UInt8} {cause : Error} (hcause : .error cause ∈ (r.feedAll s).1) :
    cause ∈ rejections := by
  induction s generalizing r with
  | nil => cases hcause
  | cons b s ih =>
    rcases List.mem_cons.mp hcause with hnow | hlater
    · exact rejected_of_feed hcapacity h hnow.symm
    · exact ih (roomy_feed r b) hlater

/-! ## Delay -/

theorem roomy_feedAll {r : Receiver capacity} (h : r.Roomy) (s : List UInt8) :
    (r.feedAll s).2.Roomy := by
  induction s generalizing r with
  | nil => exact h
  | cons b s ih => exact ih (roomy_feed r b)

/-- A frame that starts before the bytes that are still held has been returned. -/
theorem getElem?_frames_of_lt {s later f : List UInt8} {k place : Nat}
    (h : (scanFrom capacity 0 (s ++ later))[k]? = some (place, f))
    (hplace : place + ((fresh : Receiver capacity).feedAll s).2.pending.length < s.length) :
    (frames ((fresh : Receiver capacity).feedAll s).1)[k]? = some f := by
  have hwalk := walk_feedAll (roomy_fresh : (fresh : Receiver capacity).Roomy) s later
  obtain ⟨placed, stop, hstop, hscan, hplaced⟩ := scanFrom_of_walk hwalk 0
  change stop + _ = 0 + (s ++ later).length at hstop
  change scanFrom capacity 0 (s ++ later) = _ at hscan
  simp only [List.length_append] at hstop
  rw [hscan] at h
  by_cases hk : k < placed.length
  · rw [List.getElem?_append_left hk] at h
    rw [← hplaced, List.getElem?_map, h]
    rfl
  · -- All other frames start where the walk has not been yet.
    rw [List.getElem?_append_right (Nat.le_of_not_lt hk)] at h
    have hle := le_of_mem_scanFrom (List.mem_of_getElem? h)
    simp only at hle
    omega

/-- A receiver that has room for a header never runs out of room, whatever it is fed: its
errors are the three for which candidates are given up, and beyond the frame that it
returned last it holds less than its capacity. So, whatever the rest of the stream may be,
each frame of the scan has been returned once as many bytes as the capacity have come since
the place where it starts: it is the frame of the same number among those returned. -/
theorem frames_prompt (hcapacity : headerSize ≤ capacity) (s : List UInt8) :
    (∀ cause, .error cause ∈ ((fresh : Receiver capacity).feedAll s).1 →
      cause ∈ [.unsupportedVersion, .payloadTooLarge, .checksumMismatch]) ∧
    ((fresh : Receiver capacity).feedAll s).2.pending.length ≤ capacity - 1 ∧
    ∀ (later : List UInt8) (k place : Nat) (f : List UInt8),
      (scanFrom capacity 0 (s ++ later))[k]? = some (place, f) →
      place + capacity ≤ s.length →
      (frames ((fresh : Receiver capacity).feedAll s).1)[k]? = some f := by
  have hpending := roomy_feedAll (roomy_fresh : (fresh : Receiver capacity).Roomy) s hcapacity
  refine ⟨fun cause hcause => ?_, by omega, fun later k place f hframe hfed => ?_⟩
  · exact rejected_of_feedAll hcapacity roomy_fresh hcause
  · exact getElem?_frames_of_lt hframe (by omega)

/-- A frame that starts inside a false header and is as long as the capacity has been
returned with its last byte. -/
theorem frames_prompt_nested :
    let ping : List UInt8 := [0xAC, 0xDA, 1, 1, 0, 3, 0, 0, 1, 0, 0x98, 0xF4]
    let s : List UInt8 := [0xAC, 0xDA, 1, 1, 0] ++ ping
    headerSize ≤ 12 ∧ (scanFrom 12 0 (s ++ [0xAC]))[0]? = some (5, ping) ∧ 5 + 12 ≤ s.length ∧
      (frames ((fresh : Receiver 12).feedAll s).1)[0]? = some ping := by
  intro ping s
  have hframe : (scanFrom 12 0 (s ++ [0xAC]))[0]? = some (5, ping) := by decide +kernel
  exact ⟨by decide, hframe, by decide,
    (frames_prompt (by decide) s).2.2 [0xAC] 0 5 ping hframe (by decide)⟩

end Receiver

end NodeBus.Frame
