import NodeBus.Proofs.Checksum.Syndrome
import NodeBus.Proofs.Frame.Codec

/-!
# Damaged frames are refused

The register is zero behind every byte string that is accepted, its checksum included.
Bits that are turned over on the way add their syndrome to it, wherever in the frame they
are, so a frame is refused if the syndrome is not zero: after a burst of errors
(`decode_flip_burst`), and after an odd number of errors or two of them anywhere in a
frame of at most 4095 bytes (`decode_flip_scattered`).
-/

namespace NodeBus.Frame

open Bytes (flip differences)
open Checksum (crc syndrome)

theorem crc_of_decode {input : List UInt8} {f : Frame} (h : decode input = .ok f) :
    crc 0 input = 0 := by
  obtain ⟨_, rfl⟩ := bytes_of_decode h
  exact (Checksum.crc_append_eq_zero_iff 0 _ f.body).mpr rfl

/-- Errors that lead from an accepted byte string to an accepted one cannot be seen. -/
theorem syndrome_of_decode {input : List UInt8} {f g : Frame} {ks : List Nat}
    (hin : ∀ k ∈ ks, k < 8 * input.length) (hread : decode input = .ok f)
    (hdamaged : decode (flip ks input) = .ok g) : syndrome (8 * input.length) ks = 0 := by
  have hcrc := crc_of_decode hdamaged
  rwa [Checksum.crc_flip hin, crc_of_decode hread, UInt16.zero_xor] at hcrc

theorem decode_flip_of_syndrome {input : List UInt8} {f : Frame} {ks : List Nat}
    (hin : ∀ k ∈ ks, k < 8 * input.length) (hread : decode input = .ok f)
    (h : syndrome (8 * input.length) ks ≠ 0) : ∃ cause, decode (flip ks input) = .error cause := by
  cases hdamaged : decode (flip ks input) with
  | error cause => exact ⟨cause, rfl⟩
  | ok g => exact absurd (syndrome_of_decode hin hread hdamaged) h

/-- Whatever frame is sent and wherever in it, header and checksum included, a burst of
errors hits it: if all bits that are turned over lie within sixteen consecutive ones, and
there is at least one, the frame is refused. -/
theorem decode_flip_burst {input : List UInt8} {f : Frame} {ks : List Nat} {start : Nat}
    (hread : decode input = .ok f) (hsome : ks ≠ []) (hnodup : ks.Nodup)
    (hin : ∀ k ∈ ks, k < 8 * input.length)
    (hwindow : ∀ k ∈ ks, start ≤ k ∧ k < start + 16) :
    ∃ cause, decode (flip ks input) = .error cause :=
  decode_flip_of_syndrome hin hread (Checksum.syndrome_burst hsome hnodup hin hwindow)

set_option maxRecDepth 4000 in
/-- A burst from the last bit of the payload to the last but one of the checksum. -/
theorem decode_flip_burst_across :
    let ping : List UInt8 := [0xAC, 0xDA, 1, 1, 0, 3, 0, 0, 1, 0, 0x98, 0xF4]
    decode ping = .ok ⟨1, 0, [0, 1, 0]⟩ ∧ [79, 80, 94] ≠ [] ∧ [79, 80, 94].Nodup ∧
      (∀ k ∈ [79, 80, 94], k < 8 * ping.length) ∧
      (∀ k ∈ [79, 80, 94], 79 ≤ k ∧ k < 79 + 16) ∧
      ∃ cause, decode (flip [79, 80, 94] ping) = .error cause := by
  intro ping
  have hread : decode ping = .ok ⟨1, 0, [0, 1, 0]⟩ :=
    decode_eq_ok_iff.mpr ⟨by decide, by decide⟩
  have hwindow : ∀ k ∈ [79, 80, 94], 79 ≤ k ∧ k < 79 + 16 := by decide
  exact ⟨hread, by decide, by decide, by decide, hwindow,
    decode_flip_burst hread (by decide) (by decide) (by decide) hwindow⟩

/-- Accepted byte strings of equal length, at most 4095 bytes, that are not the same. -/
theorem four_le_differences {input input' : List UInt8} {f f' : Frame}
    (hread : decode input = .ok f) (hread' : decode input' = .ok f')
    (hlength : input'.length = input.length) (hshort : input.length ≤ 4095)
    (hne : input' ≠ input) : 4 ≤ (differences input input').length := by
  have hin : ∀ k ∈ differences input input', k < 8 * input.length :=
    fun k hk => (Bytes.mem_differences.mp hk).1
  have hflip : flip (differences input input') input = input' := Bytes.flip_differences hlength
  have hzero : syndrome (8 * input.length) (differences input input') = 0 :=
    syndrome_of_decode hin hread (by rw [hflip, hread'])
  have hnodup := Bytes.nodup_differences input input'
  have hodd : ¬ Odd (differences input input').length :=
    fun hodd => Checksum.syndrome_odd hodd hzero
  generalize differences input input' = ks at *
  -- None is excluded by `hne`, two are too close together, and one and three are odd.
  match ks with
  | [] => exact absurd hflip.symm hne
  | [_] => exact absurd odd_one hodd
  | [i, j] =>
    refine absurd hzero (Checksum.syndrome_pair (hin i (by simp)) (hin j (by simp)) ?_ (by omega))
    simpa using hnodup
  | [_, _, _] => exact absurd ⟨1, rfl⟩ hodd
  | _ :: _ :: _ :: _ :: ks => simp

/-- Whatever frame is sent, it is refused if an odd number of its bits is turned over. A
frame of at most 4095 bytes is also refused if any two of its bits are. So frames of equal
length, at most 4095 bytes, differ in four bits or more. -/
theorem decode_flip_scattered {input : List UInt8} {f : Frame} (hread : decode input = .ok f) :
    (∀ ks : List Nat, ks.Nodup → (∀ k ∈ ks, k < 8 * input.length) → Odd ks.length →
      ∃ cause, decode (flip ks input) = .error cause) ∧
    (input.length ≤ 4095 →
      (∀ i j : Nat, i < 8 * input.length → j < 8 * input.length → i ≠ j →
        ∃ cause, decode (flip [i, j] input) = .error cause) ∧
      ∀ (input' : List UInt8) (f' : Frame), decode input' = .ok f' →
        input'.length = input.length → input' ≠ input →
        4 ≤ (differences input input').length) := by
  refine ⟨fun ks _ hin hodd => ?_, fun hshort => ⟨fun i j hi hj hne => ?_, ?_⟩⟩
  · exact decode_flip_of_syndrome hin hread (Checksum.syndrome_odd hodd)
  · refine decode_flip_of_syndrome (by simp [hi, hj]) hread ?_
    exact Checksum.syndrome_pair hi hj hne (by omega)
  · intro input' f' hread' hlength hne
    exact four_le_differences hread hread' hlength hshort hne

set_option maxRecDepth 4000 in
/-- Three errors, two errors, and another frame of the same length. -/
theorem decode_flip_scattered_ping :
    let ping : List UInt8 := [0xAC, 0xDA, 1, 1, 0, 3, 0, 0, 1, 0, 0x98, 0xF4]
    let count : List UInt8 := [0xAC, 0xDA, 1, 1, 0, 3, 0, 1, 1, 0, 0x44, 0xAE]
    decode ping = .ok ⟨1, 0, [0, 1, 0]⟩ ∧
      ([24, 56, 95].Nodup ∧ (∀ k ∈ [24, 56, 95], k < 8 * ping.length) ∧ Odd [24, 56, 95].length ∧
        ∃ cause, decode (flip [24, 56, 95] ping) = .error cause) ∧
      (ping.length ≤ 4095 ∧ 24 < 8 * ping.length ∧ 95 < 8 * ping.length ∧ 24 ≠ 95 ∧
        ∃ cause, decode (flip [24, 95] ping) = .error cause) ∧
      decode count = .ok ⟨1, 0, [1, 1, 0]⟩ ∧ count.length = ping.length ∧ count ≠ ping ∧
        4 ≤ (differences ping count).length := by
  intro ping count
  have hping : decode ping = .ok ⟨1, 0, [0, 1, 0]⟩ :=
    decode_eq_ok_iff.mpr ⟨by decide, by decide⟩
  have hcount : decode count = .ok ⟨1, 0, [1, 1, 0]⟩ :=
    decode_eq_ok_iff.mpr ⟨by decide, by decide⟩
  obtain ⟨hodd, hshort⟩ := decode_flip_scattered hping
  obtain ⟨hpair, hdistance⟩ := hshort (by decide)
  exact ⟨hping, ⟨by decide, by decide, by decide, hodd _ (by decide) (by decide) (by decide)⟩,
    ⟨by decide, by decide, by decide, by decide, hpair 24 95 (by decide) (by decide) (by decide)⟩,
    hcount, by decide, by decide, hdistance count _ hcount (by decide) (by decide)⟩

end NodeBus.Frame
