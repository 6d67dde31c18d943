import NodeBus.Proofs.Frame.Recovery
import Mathlib.Data.List.Infix

/-!
# Clean streams

On a clean stream there is only noise between the frames. Whatever the frames carry, a
receiver with room for them returns each of them with its last byte and answers nothing
to any other byte (`feedAll_parcels`).

Between frames a receiver holds nothing, or the first magic byte alone, which the noise
may end in (`feedAll_noise`). So noise of any length never fills it.
-/

namespace NodeBus.Frame

/-! ## What is on the line -/

/-- What some frame is written as, in a buffer that has room for it. -/
def Written (g : List UInt8) : Prop :=
  ∃ (f : Frame) (buffer : List UInt8) (n : Nat),
    (f.write buffer).1 = .ok n ∧ (f.write buffer).2.take n = g

theorem Written.exists_decode {g : List UInt8} (h : Written g) : ∃ f, decode g = .ok f := by
  obtain ⟨f, buffer, n, hwrite, rfl⟩ := h
  obtain ⟨rfl, hpayload, hroom⟩ := fits_of_write hwrite
  rw [take_write hpayload hroom]
  exact ⟨f, decode_bytes hpayload⟩

theorem written_bytes {f : Frame} (h : f.payload.length ≤ maxPayload) : Written f.bytes := by
  have hroom : f.size ≤ f.bytes.length := by simp
  exact ⟨f, f.bytes, f.size, by rw [write_of_fits h hroom], take_write h hroom⟩

/-- The bytes of a frame with the noise that comes before them. -/
structure Parcel where
  noise : List UInt8
  wire : List UInt8

namespace Parcel

def bytes (p : Parcel) : List UInt8 := p.noise ++ p.wire

/-- The answers to the bytes: the frame with its last byte, and nothing before. -/
def answers (p : Parcel) : List (Except Error (Option (List UInt8))) :=
  List.replicate (p.noise.length + p.wire.length - 1) (.ok none) ++ [.ok (some p.wire)]

/-- There is nothing but noise and one frame for a receiver of the given capacity. -/
structure Clean (capacity : Nat) (p : Parcel) : Prop where
  noise : Noise p.noise
  written : Written p.wire
  fits : p.wire.length ≤ capacity

end Parcel

instance : DecidablePred Noise := fun s => inferInstanceAs (Decidable ¬ [magic₀, magic₁] <:+: s)

theorem Noise.of_infix {s t : List UInt8} (h : Noise t) (hpart : s <:+: t) : Noise s :=
  fun hmagic => h (hmagic.trans hpart)

namespace Receiver

variable {capacity : Nat}

/-! ## Noise -/

/-- Of noise, only a first magic byte at its end is kept. -/
theorem settle_noise {w : Window} (h : Noise w.toList) :
    (settle w).toList <:+ w.toList ∧ (settle w).toList.length ≤ 1 := by
  have hsuffix := (@walk_settle 0 w []).suffix
  simp only [List.append_nil] at hsuffix
  refine ⟨hsuffix, ?_⟩
  rcases front_settle w with hnone | hfirst | ⟨rest, hboth⟩
  · rw [hnone]
    exact Nat.zero_le 1
  · rw [hfirst]
    exact Nat.le_refl 1
  · rw [hboth] at hsuffix
    exact absurd (h.of_infix hsuffix.isInfix) (not_noise_magic rest)

theorem feed_noise {r : Receiver capacity} {b : UInt8} (hnoise : Noise (r.pending ++ [b]))
    (hroom : r.pending.length < capacity) :
    (r.feed b).1 = .ok none ∧ (r.feed b).2.pending <:+ r.pending ++ [b] ∧
      (r.feed b).2.pending.length ≤ 1 := by
  have hwindow : ((r.held.drop r.returned).push b).toList = r.pending ++ [b] := by
    rw [Window.toList_push, Window.toList_drop]
    rfl
  obtain ⟨hsuffix, hlength⟩ := settle_noise (w := (r.held.drop r.returned).push b)
    (by rw [hwindow]; exact hnoise)
  rw [hwindow] at hsuffix
  -- A single byte is no candidate yet.
  have hjudge : judge capacity (settle ((r.held.drop r.returned).push b)) = .incomplete := by
    rw [judge, Window.get?_eq_getElem?, List.getElem?_eq_none (by omega)]
  rcases feed_cases r b with ⟨hfull, _⟩ | ⟨_, rejection, found, w, hhunt, hleft, hgiven⟩
  · omega
  · cases (hunt_of_incomplete hjudge).symm.trans hhunt
    rw [hgiven, hleft]
    exact ⟨rfl, hsuffix, hlength⟩

theorem feedAll_noise {r : Receiver capacity} {noise : List UInt8} (hcapacity : 1 < capacity)
    (hnoise : Noise (r.pending ++ noise)) (hpending : r.pending.length ≤ 1) :
    (r.feedAll noise).1 = List.replicate noise.length (.ok none) ∧
      Noise (r.feedAll noise).2.pending ∧ (r.feedAll noise).2.pending.length ≤ 1 := by
  induction noise generalizing r with
  | nil =>
    rw [List.append_nil] at hnoise
    exact ⟨rfl, hnoise, hpending⟩
  | cons b noise ih =>
    have hsplit : r.pending ++ b :: noise = r.pending ++ [b] ++ noise := by simp
    rw [hsplit] at hnoise
    obtain ⟨hgiven, hsuffix, hlength⟩ :=
      feed_noise (hnoise.of_infix (List.prefix_append ..).isInfix) (by omega)
    -- What is kept and what is to come is still the end of noise.
    have hrest : (r.feed b).2.pending ++ noise <:+ r.pending ++ [b] ++ noise := by
      obtain ⟨gone, hgone⟩ := hsuffix
      exact ⟨gone, by rw [← List.append_assoc, hgone]⟩
    obtain ⟨hlater, hleft⟩ := ih (hnoise.of_infix hrest.isInfix) hlength
    refine ⟨?_, hleft⟩
    change (r.feed b).1 :: ((r.feed b).2.feedAll noise).1 = _
    rw [hgiven, hlater]
    rfl

/-! ## Frames -/

theorem feedAll_parcel {r : Receiver capacity} {p : Parcel} (hclean : p.Clean capacity)
    (hpending : r.pending = []) :
    (r.feedAll p.bytes).1 = p.answers ∧ (r.feedAll p.bytes).2.pending = [] := by
  obtain ⟨f, hf⟩ := hclean.written.exists_decode
  have hoverhead := overhead_le_of_decode hf
  have hfits := hclean.fits
  simp only [overhead, headerSize, checksumSize] at hoverhead
  have hnoise : Noise (r.pending ++ p.noise) := by rw [hpending]; exact hclean.noise
  obtain ⟨hquiet, hnoise, hlength⟩ :=
    feedAll_noise (by omega) hnoise (by rw [hpending]; exact Nat.zero_le 1)
  have hframe := feedAll_frame hf hfits hnoise (by omega)
  rw [Parcel.bytes, feedAll_append]
  refine ⟨?_, pending_feedAll_frame hf hfits hnoise (by omega)⟩
  simp only [hquiet, hframe]
  rw [Parcel.answers, Nat.add_sub_assoc (by omega), ← List.append_assoc,
    List.replicate_append_replicate]

/-- A receiver of any capacity answers to a clean stream, of any number of frames with any
content, with each frame on its last byte and with nothing on every other byte. -/
theorem feedAll_parcels {r : Receiver capacity} {parcels : List Parcel}
    (hclean : ∀ p ∈ parcels, p.Clean capacity) (hpending : r.pending = []) :
    (r.feedAll (parcels.flatMap Parcel.bytes)).1 = parcels.flatMap Parcel.answers := by
  induction parcels generalizing r with
  | nil => rfl
  | cons p parcels ih =>
    obtain ⟨hp, hrest⟩ := List.forall_mem_cons.mp hclean
    obtain ⟨hgiven, hleft⟩ := feedAll_parcel hp hpending
    rw [List.flatMap_cons, feedAll_append, List.flatMap_cons]
    simp only [hgiven, ih hrest hleft]

theorem frames_answers (parcels : List Parcel) :
    frames (parcels.flatMap Parcel.answers) = parcels.map Parcel.wire := by
  induction parcels with
  | nil => rfl
  | cons p parcels ih =>
    have hframe : frames p.answers = [p.wire] := by
      rw [frames, Parcel.answers, List.filterMap_append, List.filterMap_replicate_of_none rfl]
      rfl
    rw [List.flatMap_cons, List.map_cons, ← ih, frames, List.filterMap_append, ← frames, hframe]
    rfl

end Receiver

end NodeBus.Frame
