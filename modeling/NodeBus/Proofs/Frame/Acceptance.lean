import NodeBus.Proofs.Checksum.Register
import NodeBus.Proofs.Frame.Codec

/-!
# What the checksum decides

`decode` comes to the checksum last, so a byte string that has passed the checks before it
(`Headed`) can only be refused for its checksum. That does not have to be found for this:
with the whole byte string, checksum included, in the register, it is zero exactly if the
byte string is accepted (`Headed.decode_cases`, `accepted_iff_crc_eq_zero`).
-/

namespace NodeBus.Frame

open Checksum (crc)

/-- Either the register is cleared and the byte string accepted, or neither. -/
theorem Headed.decode_cases {s : List UInt8} (h : Headed s) :
    (crc 0 s = 0 ∧ ∃ f, decode s = .ok f) ∨
      (crc 0 s ≠ 0 ∧ decode s = .error .checksumMismatch) := by
  obtain ⟨f, w, hpayload, rfl⟩ := h.exists_body
  have hcleared := Checksum.crc_append_eq_zero_iff 0 w f.body
  rw [decode_body hpayload]
  by_cases hw : w = crc 0 f.body
  · exact .inl ⟨hcleared.mpr hw, f, if_pos hw.symm⟩
  · exact .inr ⟨mt hcleared.mp hw, if_neg (Ne.symm hw)⟩

/-- Whatever the register starts from, it is zero behind a byte string and a word exactly if the
word is what it held behind the byte string. So a byte string that passes the checks on its size,
its magic bytes, its version and its length is accepted exactly if the checksum of the whole is
zero. Any fixed bytes take different registers to different ones. -/
theorem accepted_iff_crc_eq_zero :
    (∀ (start w : UInt16) (s : List UInt8),
      crc start (s ++ Bytes.ofWord16 w) = 0 ↔ w = crc start s) ∧
    (∀ s : List UInt8, Headed s → ((∃ f, decode s = .ok f) ↔ crc 0 s = 0)) ∧
    ∀ s : List UInt8, Function.Injective fun start => crc start s := by
  refine ⟨Checksum.crc_append_eq_zero_iff, fun s h => ?_, fun s a b => Checksum.crc_injective⟩
  rcases h.decode_cases with ⟨hzero, haccepted⟩ | ⟨hnonzero, hrefused⟩
  · exact iff_of_true haccepted hzero
  · refine iff_of_false ?_ hnonzero
    rintro ⟨f, haccepted⟩
    rw [hrefused] at haccepted
    cases haccepted

set_option maxRecDepth 4000 in
/-- A frame of three bytes, the same with one bit of its checksum turned over, and two registers
that it takes to different ones. -/
theorem accepted_iff_crc_eq_zero_ping :
    let ping : List UInt8 := [0xAC, 0xDA, 1, 1, 0, 3, 0, 0, 1, 0, 0x98, 0xF4]
    let damaged : List UInt8 := [0xAC, 0xDA, 1, 1, 0, 3, 0, 0, 1, 0, 0x98, 0x74]
    (Headed ping ∧ ∃ f, decode ping = .ok f) ∧ (Headed damaged ∧ ¬∃ f, decode damaged = .ok f) ∧
      crc 0 ping ≠ crc 0x1D0F ping := by
  intro ping damaged
  obtain ⟨_, haccepted, hinjective⟩ := accepted_iff_crc_eq_zero
  have hping : Headed ping := ⟨by decide, rfl, rfl, 3, 0, rfl, rfl, rfl⟩
  have hdamaged : Headed damaged := ⟨by decide, rfl, rfl, 3, 0, rfl, rfl, rfl⟩
  exact ⟨⟨hping, (haccepted ping hping).mpr (by decide)⟩,
    ⟨hdamaged, mt (haccepted damaged hdamaged).mp (by decide)⟩,
    fun heq => absurd (hinjective ping heq) (by decide)⟩

end NodeBus.Frame
