import NodeBus.Frame.Scan
import NodeBus.Proofs.Frame.Codec

/-!
# Frames at the front of a byte string

`frameAt?_eq_some_iff` says what `frameAt?` finds without its header checks: the
prefix that `decode` accepts, if it is not too long. The header of an accepted
byte string is known (`header_of_decode`), so there is at most one such prefix,
and a few bytes at the front can rule out that there ever will be one
(`Barren`).
-/

namespace NodeBus.Frame

variable {capacity : Nat}

/-! ## The header of an accepted byte string -/

theorem header_of_decode {input : List UInt8} {f : Frame} (h : decode input = .ok f) :
    ∃ low high rest,
      input = magic₀ :: magic₁ :: version :: f.flags :: f.stream :: low :: high :: rest ∧
      input.length = (Bytes.word16 low high).toNat + overhead := by
  obtain ⟨hpayload, rfl⟩ := bytes_of_decode h
  refine ⟨_, _, _, rfl, ?_⟩
  rw [Bytes.word16_of_ofWord16 (w := UInt16.ofNat f.payload.length) rfl,
    toNat_lengthField hpayload, length_bytes, size]

theorem overhead_le_of_decode {input : List UInt8} {f : Frame} (h : decode input = .ok f) :
    overhead ≤ input.length := by
  rw [length_of_decode h]
  exact Nat.le_add_left ..

/-- Every accepted byte string starts with the same three bytes. -/
theorem front_of_decode {input : List UInt8} {f : Frame} (h : decode input = .ok f) :
    input[0]? = some magic₀ ∧ input[1]? = some magic₁ ∧ input[2]? = some version := by
  obtain ⟨_, _, rest, rfl, _⟩ := header_of_decode h
  exact ⟨rfl, rfl, rfl⟩

/-- The length of an accepted prefix is read off the length field. -/
theorem length_of_prefix_decode {s g : List UInt8} {f : Frame} {low high : UInt8}
    (h : decode g = .ok f) (hg : g <+: s) (hlow : s[5]? = some low) (hhigh : s[6]? = some high) :
    g.length = (Bytes.word16 low high).toNat + overhead := by
  obtain ⟨low', high', rest, rfl, hlength⟩ := header_of_decode h
  obtain ⟨later, rfl⟩ := hg
  obtain rfl : low' = low := by simpa using hlow
  obtain rfl : high' = high := by simpa using hhigh
  exact hlength

/-! ## The frame at the front -/

/-- The frame at the front is the prefix that is accepted, if it is not too long. -/
theorem frameAt?_eq_some_iff {s g : List UInt8} :
    frameAt? capacity s = some g ↔ g <+: s ∧ g.length ≤ capacity ∧ ∃ f, decode g = .ok f := by
  constructor
  · intro h
    unfold frameAt? at h
    split at h
    · dsimp only at h
      split at h
      · rename_i hfits
        split at h
        · rename_i f hdecode
          cases h
          refine ⟨List.take_prefix .., ?_, f, hdecode⟩
          exact Nat.le_trans (List.length_take_le ..) hfits.2.2.2.1
        · cases h
      · cases h
    · cases h
  · rintro ⟨⟨later, rfl⟩, hcapacity, f, hdecode⟩
    -- The header of `g` passes every check, and its length field cuts off `later`.
    obtain ⟨low, high, rest, rfl, hlength⟩ := header_of_decode hdecode
    rw [hlength] at hcapacity
    have htake : (magic₀ :: magic₁ :: version :: f.flags :: f.stream :: low :: high :: rest ++
        later).take ((Bytes.word16 low high).toNat + overhead) =
        magic₀ :: magic₁ :: version :: f.flags :: f.stream :: low :: high :: rest := by
      rw [← hlength, List.take_left]
    have hpresent : (Bytes.word16 low high).toNat + overhead ≤
        (magic₀ :: magic₁ :: version :: f.flags :: f.stream :: low :: high :: rest ++
          later).length := by
      rw [← hlength, List.length_append]
      exact Nat.le_add_right ..
    simp only [List.cons_append] at htake hpresent ⊢
    simp only [frameAt?, hcapacity, hpresent, and_self, if_true, htake, hdecode]

theorem frameAt?_append {s g : List UInt8} (h : frameAt? capacity s = some g)
    (later : List UInt8) : frameAt? capacity (s ++ later) = some g := by
  obtain ⟨hstart, hg⟩ := frameAt?_eq_some_iff.mp h
  exact frameAt?_eq_some_iff.mpr ⟨hstart.trans (List.prefix_append ..), hg⟩

/-! ## Fronts without a frame -/

/-- No frame starts at the front of `s`, whatever follows `s`. -/
def Barren (capacity : Nat) (s : List UInt8) : Prop :=
  ∀ later, frameAt? capacity (s ++ later) = none

/-- A front is barren if every frame that starts there leads to a contradiction. -/
theorem barren_of_forall {s : List UInt8}
    (h : ∀ later g f, g <+: s ++ later → g.length ≤ capacity → decode g = .ok f → False) :
    Barren capacity s := by
  intro later
  cases hfound : frameAt? capacity (s ++ later) with
  | none => rfl
  | some g =>
    obtain ⟨hstart, hlength, f, hdecode⟩ := frameAt?_eq_some_iff.mp hfound
    exact (h later g f hstart hlength hdecode).elim

theorem getElem?_append_of_some {s : List UInt8} {i : Nat} {b : UInt8} (h : s[i]? = some b)
    (later : List UInt8) : (s ++ later)[i]? = some b := by
  rw [List.getElem?_append_left (List.getElem?_eq_some_iff.mp h).1, h]

/-- A byte in a place where every accepted byte string has another one. -/
theorem barren_of_byte {s : List UInt8} {i : Nat} {b b' : UInt8} (h : s[i]? = some b)
    (hne : b ≠ b')
    (hfront : ∀ {input : List UInt8} {f : Frame}, decode input = .ok f → input[i]? = some b') :
    Barren capacity s := by
  refine barren_of_forall fun later g f hg _ hf => hne ?_
  obtain ⟨rest, hrest⟩ := hg
  have hbyte := getElem?_append_of_some h later
  rw [← hrest, getElem?_append_of_some (hfront hf)] at hbyte
  exact (Option.some.inj hbyte).symm

theorem barren_of_length {s : List UInt8} {low high : UInt8} (hlow : s[5]? = some low)
    (hhigh : s[6]? = some high) (h : capacity < (Bytes.word16 low high).toNat + overhead) :
    Barren capacity s := by
  refine barren_of_forall fun later g f hg hlength hf => ?_
  -- The length field is complete, so it is also that of every frame found later.
  have := length_of_prefix_decode hf hg (getElem?_append_of_some hlow later)
    (getElem?_append_of_some hhigh later)
  omega

/-- All bytes of the candidate are there and are not a frame. -/
theorem barren_of_refused {s : List UInt8} {low high : UInt8} {cause : Error}
    (hlow : s[5]? = some low) (hhigh : s[6]? = some high)
    (hpresent : (Bytes.word16 low high).toNat + overhead ≤ s.length)
    (h : decode (s.take ((Bytes.word16 low high).toNat + overhead)) = .error cause) :
    Barren capacity s := by
  refine barren_of_forall fun later g f hg _ hf => ?_
  have hlength := length_of_prefix_decode hf hg (getElem?_append_of_some hlow later)
    (getElem?_append_of_some hhigh later)
  rw [← hlength] at hpresent h
  -- The bytes of the candidate are those of `g`, so both readings are of one byte string.
  have hsame : g = s.take g.length :=
    (List.prefix_iff_eq_take.mp hg).trans (List.take_append_of_le_length hpresent)
  rw [← hsame, hf] at h
  cases h

end NodeBus.Frame
