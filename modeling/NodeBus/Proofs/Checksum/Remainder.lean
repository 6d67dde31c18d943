import Mathlib
import NodeBus.Bytes.Bits
import NodeBus.Proofs.Checksum.Register

/-!
# The checksum is a remainder

A byte string is a polynomial over the field of two elements, whose highest coefficient is the bit
that comes first on the line. A register is one whose constant coefficient is its top bit. In these
terms a shift multiplies by `x` modulo the generator (`residue_shift`) and a byte adds its
polynomial (`residue_absorb`), so that the checksum of a byte string is the remainder of its
polynomial, moved up by sixteen places (`residue_crc`).
-/

namespace NodeBus.Checksum

open Finset Polynomial

/-! ## Polynomials -/

/-- The polynomial of a byte string: its first bit is the highest coefficient. -/
noncomputable def message (s : List UInt8) : (ZMod 2)[X] :=
  ∑ k ∈ range (8 * s.length), if Bytes.bit s k then X ^ (8 * s.length - 1 - k) else 0

/-- The polynomial of a word: its low bit is the constant coefficient. -/
noncomputable def ofWord (w : UInt16) : (ZMod 2)[X] :=
  ∑ i ∈ range 16, if w.toNat.testBit i then X ^ i else 0

/-- A word with its bits in reverse order. -/
def reverse (w : UInt16) : UInt16 := .ofBitVec w.toBitVec.reverse

theorem testBit_reverse (w : UInt16) {i : Nat} (h : i < 16) :
    (reverse w).toNat.testBit i = w.toNat.testBit (15 - i) := by
  have hmsb : w.toBitVec.reverse.getLsbD i = w.toBitVec.getLsbD (15 - i) := by
    rw [BitVec.getLsbD_reverse, BitVec.getMsbD_eq_getLsbD, decide_eq_true h, Bool.true_and]
  exact hmsb

theorem ofWord_reverse (r : UInt16) :
    ofWord (reverse r) = ∑ i ∈ range 16, if r.toNat.testBit i then X ^ (15 - i) else 0 := by
  rw [ofWord, ← sum_range_reflect]
  refine sum_congr rfl fun i hi => ?_
  rw [mem_range] at hi
  rw [testBit_reverse r (by omega), show 15 - (16 - 1 - i) = i by omega]

theorem degree_ofWord_lt (w : UInt16) : (ofWord w).degree < 16 := by
  change (ofWord w).degree < ((16 : Nat) : WithBot Nat)
  rw [ofWord, ← mem_degreeLT]
  refine Submodule.sum_mem _ fun i hi => ?_
  rw [mem_range] at hi
  rw [mem_degreeLT]
  split
  · rw [degree_X_pow]
    exact_mod_cast hi
  · rw [degree_zero]
    exact WithBot.bot_lt_coe _

theorem ofWord_reverse_xor (a b : UInt16) :
    ofWord (reverse (a ^^^ b)) = ofWord (reverse a) + ofWord (reverse b) := by
  rw [ofWord_reverse, ofWord_reverse, ofWord_reverse, ← sum_add_distrib]
  refine sum_congr rfl fun i _ => ?_
  rw [UInt16.toNat_xor, Nat.testBit_xor]
  cases a.toNat.testBit i <;> cases b.toNat.testBit i <;> simp [CharTwo.add_self_eq_zero]

/-- The first byte of a string stands above all the others. -/
theorem message_cons (b : UInt8) (s : List UInt8) :
    message (b :: s) = message [b] * X ^ (8 * s.length) + message s := by
  rw [message, message, message, List.length_cons, Nat.mul_succ, Nat.add_comm, sum_range_add,
    sum_mul]
  congr 1
  · refine sum_congr rfl fun k hk => ?_
    have hk : k < 8 := mem_range.mp hk
    rw [Bytes.bit_of_lt hk, Bytes.bit_of_lt hk, ite_mul, zero_mul, ← pow_add]
    congr 2
    simp only [List.length_singleton]
    omega
  · refine sum_congr rfl fun k _ => ?_
    rw [Nat.add_comm 8 k, Bytes.bit_add_eight]
    congr 2
    omega

/-- A byte comes into the register at the top eight places. -/
theorem ofWord_reverse_byte (b : UInt8) :
    ofWord (reverse b.toUInt16) = message [b] * X ^ 8 := by
  have hhigh {i : Nat} (hi : 8 ≤ i) : b.toUInt16.toNat.testBit i = false := by
    rw [UInt8.toNat_toUInt16]
    exact Nat.testBit_lt_two_pow
      (Nat.lt_of_lt_of_le b.toNat_lt (Nat.pow_le_pow_right (by decide) hi))
  rw [ofWord_reverse, message, show 16 = 8 + 8 from rfl, sum_range_add, sum_mul]
  have hrest : ∑ i ∈ range 8, (if b.toUInt16.toNat.testBit (8 + i) then
      (X : (ZMod 2)[X]) ^ (15 - (8 + i)) else 0) = 0 :=
    sum_eq_zero fun i _ => by rw [hhigh (by omega)]; rfl
  rw [hrest, add_zero]
  refine sum_congr rfl fun k hk => ?_
  have hk : k < 8 := mem_range.mp hk
  rw [Bytes.bit_of_lt hk, ite_mul, zero_mul, ← pow_add, UInt8.toNat_toUInt16]
  congr 2
  simp only [List.length_singleton]
  omega

/-! ## Residues -/

/-- The generator with its coefficients in the usual order. -/
noncomputable def modulus : (ZMod 2)[X] := X ^ 16 + X ^ 12 + X ^ 5 + 1

theorem degree_modulus : modulus.degree = 16 := by
  rw [modulus]
  compute_degree!

theorem monic_modulus : modulus.Monic := by
  rw [modulus]
  monicity!

/-- The residue of a register modulo the generator. -/
noncomputable def residue (r : UInt16) : AdjoinRoot modulus :=
  AdjoinRoot.mk modulus (ofWord (reverse r))

theorem residue_xor (a b : UInt16) : residue (a ^^^ b) = residue a + residue b := by
  rw [residue, ofWord_reverse_xor, map_add]
  rfl

theorem residue_zero : residue 0 = 0 := by
  rw [residue, ofWord_reverse]
  simp

theorem ofWord_reverse_generator : ofWord (reverse generator) = X ^ 12 + X ^ 5 + 1 := by
  have hbits : ∀ i < 16, generator.toNat.testBit i = decide (i = 3 ∨ i = 10 ∨ i = 15) := by
    decide
  rw [ofWord_reverse, sum_congr rfl fun i hi => by rw [hbits i (mem_range.mp hi)]]
  simp [sum_range_succ]

/-- Moved down by one bit, a register is multiplied by `x`, without what gets beyond the top. -/
theorem ofWord_reverse_shiftRight (r : UInt16) :
    ofWord (reverse (r >>> 1)) + (if r.toNat.testBit 0 then X ^ 16 else 0) =
      X * ofWord (reverse r) := by
  have hmoved (i : Nat) : (r >>> 1).toNat.testBit i = r.toNat.testBit (i + 1) := by
    rw [UInt16.toNat_shiftRight, Nat.testBit_shiftRight, Nat.add_comm]
    rfl
  have hend : r.toNat.testBit 16 = false := Nat.testBit_lt_two_pow r.toNat_lt
  rw [ofWord_reverse, ofWord_reverse, sum_range_succ, hmoved, hend, if_neg Bool.false_ne_true,
    add_zero, sum_range_succ' (fun i => if r.toNat.testBit i then X ^ (15 - i) else 0), mul_add,
    mul_sum]
  refine congrArg₂ (· + ·) (sum_congr rfl fun i hi => ?_) ?_
  · rw [mem_range] at hi
    rw [hmoved, mul_ite, mul_zero, ← pow_succ', show 15 - (i + 1) + 1 = 15 - i by omega]
  · rw [mul_ite, mul_zero, ← pow_succ']

theorem residue_shift (r : UInt16) : residue (shift r) = AdjoinRoot.root modulus * residue r := by
  have hmoved : residue (r >>> 1) + AdjoinRoot.mk modulus
      (if r.toNat.testBit 0 then X ^ 16 else 0) = AdjoinRoot.root modulus * residue r := by
    rw [residue, ← map_add, ofWord_reverse_shiftRight, map_mul, AdjoinRoot.mk_X]
    rfl
  rcases Nat.mod_two_eq_zero_or_one r.toNat with heven | hodd
  · have hbit : r.toNat.testBit 0 = false := by simp [heven]
    rw [hbit, if_neg Bool.false_ne_true, map_zero, add_zero] at hmoved
    rw [shift_of_even heven, hmoved]
  · -- What gets beyond the top is the generator, but for its lower coefficients.
    have hbit : r.toNat.testBit 0 = true := by simp [hodd]
    have hgenerator : residue generator = AdjoinRoot.mk modulus (X ^ 16) := by
      rw [residue, ofWord_reverse_generator, AdjoinRoot.mk_eq_mk, CharTwo.sub_eq_add]
      exact ⟨1, by rw [modulus]; ring⟩
    rw [hbit, if_pos rfl, ← hgenerator] at hmoved
    rw [shift_of_odd hodd, residue_xor, hmoved]

theorem residue_shifts (n : Nat) (r : UInt16) :
    residue (shifts n r) = AdjoinRoot.root modulus ^ n * residue r := by
  induction n with
  | zero => rw [pow_zero, one_mul, shifts]
  | succ n ih => rw [shifts_succ, residue_shift, ih, pow_succ', mul_assoc]

/-- A byte adds its polynomial to that of the bytes before. -/
theorem residue_absorb (r : UInt16) (b : UInt8) :
    residue (absorb r b) = AdjoinRoot.root modulus ^ 8 * residue r +
      AdjoinRoot.root modulus ^ 16 * AdjoinRoot.mk modulus (message [b]) := by
  have hbyte : residue b.toUInt16 =
      AdjoinRoot.root modulus ^ 8 * AdjoinRoot.mk modulus (message [b]) := by
    rw [residue, ofWord_reverse_byte, map_mul, map_pow, AdjoinRoot.mk_X, mul_comm]
  rw [absorb, residue_shifts, residue_xor, hbyte]
  ring

theorem residue_crc (r : UInt16) (s : List UInt8) :
    residue (crc r s) = AdjoinRoot.root modulus ^ (8 * s.length) * residue r +
      AdjoinRoot.root modulus ^ 16 * AdjoinRoot.mk modulus (message s) := by
  induction s generalizing r with
  | nil => simp [message]
  | cons b s ih =>
    rw [crc_cons, ih, residue_absorb, message_cons b s, map_add, map_mul, map_pow, AdjoinRoot.mk_X,
      List.length_cons]
    ring

/-! ## The checksum -/

theorem crc_modulus (s : List UInt8) :
    ofWord (reverse (crc 0 s)) = (message s * X ^ 16) %ₘ modulus := by
  have hclass : AdjoinRoot.mk modulus (message s * X ^ 16) =
      AdjoinRoot.mk modulus (ofWord (reverse (crc 0 s))) := by
    have hresidue := residue_crc 0 s
    rw [residue_zero, mul_zero, zero_add] at hresidue
    rw [map_mul, map_pow, AdjoinRoot.mk_X, mul_comm, ← hresidue]
    rfl
  have hsmall : (ofWord (reverse (crc 0 s))).degree < modulus.degree := by
    rw [degree_modulus]
    exact degree_ofWord_lt _
  rw [modByMonic_eq_of_dvd_sub monic_modulus (AdjoinRoot.mk_eq_mk.mp hclass),
    (modByMonic_eq_self_iff monic_modulus).mpr hsmall]

theorem crc_foldl (r : UInt16) (chunks : List (List UInt8)) :
    chunks.foldl crc r = crc r chunks.flatten := by
  induction chunks generalizing r with
  | nil => rfl
  | cons chunk chunks ih => rw [List.foldl_cons, ih, List.flatten_cons, crc_append]

theorem crc_xor (a b : UInt16) {s t : List UInt8} (h : s.length = t.length) :
    crc (a ^^^ b) (s.zipWith (· ^^^ ·) t) = crc a s ^^^ crc b t := by
  induction s generalizing a b t with
  | nil =>
    cases t with
    | nil => rfl
    | cons y t => cases h
  | cons x s ih =>
    cases t with
    | nil => cases h
    | cons y t => rw [List.zipWith_cons_cons, crc_cons, crc_cons, crc_cons, absorb_xor,
        ih _ _ (Nat.succ.inj h)]

/-- The checksum of a byte string is the remainder of its polynomial, moved up by sixteen places, by
the generator. It can be taken piece by piece, and it is linear in what it starts from and in the
bytes together. -/
theorem crc_eq_remainder :
    (∀ s, ofWord (reverse (crc 0 s)) =
      (message s * X ^ 16) %ₘ (X ^ 16 + X ^ 12 + X ^ 5 + 1 : (ZMod 2)[X])) ∧
    (∀ (start : UInt16) (chunks : List (List UInt8)),
      chunks.foldl crc start = crc start chunks.flatten) ∧
    ∀ (a b : UInt16) (s t : List UInt8), s.length = t.length →
      crc (a ^^^ b) (s.zipWith (· ^^^ ·) t) = crc a s ^^^ crc b t :=
  ⟨crc_modulus, crc_foldl, fun a b _ _ h => crc_xor a b h⟩

/-- The lowest bit of a byte is sent first and stands for `x⁷`. -/
theorem crc_eq_remainder_bit :
    message [1] = X ^ 7 ∧
      (message [1] * X ^ 16) %ₘ (X ^ 16 + X ^ 12 + X ^ 5 + 1 : (ZMod 2)[X]) =
        ofWord (reverse 0x1189) ∧
      [1, 2].length = [3, 4].length ∧
      crc (0x1234 ^^^ 0xFFFF) [2, 6] = crc 0x1234 [1, 2] ^^^ crc 0xFFFF [3, 4] := by
  obtain ⟨hremainder, _, hlinear⟩ := crc_eq_remainder
  have hcrc : crc 0 [1] = 0x1189 := by decide
  have hbits : ∀ k < 8, Bytes.bit [1] k = decide (k = 0) := by decide
  have hmessage : message [1] = X ^ 7 := by
    rw [message, sum_congr rfl fun k hk => by rw [hbits k (mem_range.mp hk)]]
    simp
  exact ⟨hmessage, by rw [← hremainder, hcrc], rfl, hlinear 0x1234 0xFFFF [1, 2] [3, 4] rfl⟩

end NodeBus.Checksum
