import NodeBus.Bytes
import NodeBus.Checksum
import Mathlib.Data.Nat.Bitwise

/-!
# The checksum register is linear

Shifts and bytes act linearly on the register: what goes in as an exclusive sum comes
out as one. No two registers are shifted to the same one, so a difference between two
registers never goes away by itself (`shifts_injective`).

A word that is absorbed low byte first meets the register bit by bit (`crc_ofWord16`).
That is why the checksum, and no other word, behind what it covers leaves a register of
zeros (`crc_append_eq_zero_iff`).
-/

namespace NodeBus.Checksum

theorem xor_xor_cancel (a b c : UInt16) : (a ^^^ c) ^^^ (b ^^^ c) = a ^^^ b := by
  rw [UInt16.xor_assoc, UInt16.xor_comm b, ← UInt16.xor_assoc c, UInt16.xor_self, UInt16.zero_xor]

/-! ## One shift -/

theorem and_one_eq_zero_iff (r : UInt16) : r &&& 1 = 0 ↔ r.toNat % 2 = 0 := by
  rw [← UInt16.toNat_inj, UInt16.toNat_and, ← Nat.and_one_is_mod]
  rfl

theorem shift_of_even {r : UInt16} (h : r.toNat % 2 = 0) : shift r = r >>> 1 := by
  rw [shift, if_pos ((and_one_eq_zero_iff r).mpr h)]

theorem shift_of_odd {r : UInt16} (h : r.toNat % 2 = 1) : shift r = (r >>> 1) ^^^ generator := by
  rw [shift, if_neg (mt (and_one_eq_zero_iff r).mp (by omega))]

theorem shift_xor (a b : UInt16) : shift (a ^^^ b) = shift a ^^^ shift b := by
  have hsum : (a ^^^ b).toNat % 2 = (a.toNat + b.toNat) % 2 := by
    rw [UInt16.toNat_xor, Nat.xor_mod_two_eq]
  rcases Nat.mod_two_eq_zero_or_one a.toNat with ha | ha <;>
    rcases Nat.mod_two_eq_zero_or_one b.toNat with hb | hb
  · rw [shift_of_even ha, shift_of_even hb, shift_of_even (by omega), UInt16.shiftRight_xor]
  · rw [shift_of_even ha, shift_of_odd hb, shift_of_odd (by omega), UInt16.shiftRight_xor,
      UInt16.xor_assoc]
  · rw [shift_of_odd ha, shift_of_even hb, shift_of_odd (by omega), UInt16.shiftRight_xor,
      UInt16.xor_assoc, UInt16.xor_comm (b >>> 1), ← UInt16.xor_assoc]
  · -- A bit falls out of both, and the generator comes in twice.
    rw [shift_of_odd ha, shift_of_odd hb, shift_of_even (by omega), UInt16.shiftRight_xor,
      xor_xor_cancel]

theorem eq_zero_of_shift {r : UInt16} (h : shift r = 0) : r = 0 := by
  rcases Nat.mod_two_eq_zero_or_one r.toNat with hr | hr
  · rw [shift_of_even hr, ← UInt16.toNat_inj, UInt16.toNat_shiftRight] at h
    rw [← UInt16.toNat_inj]
    change r.toNat >>> 1 = 0 at h
    change r.toNat = 0
    omega
  · -- The generator has a top bit, which a register that was moved down has not.
    rw [shift_of_odd hr, UInt16.xor_eq_zero_iff, ← UInt16.toNat_inj, UInt16.toNat_shiftRight] at h
    change r.toNat >>> 1 = 0x8408 at h
    have := r.toNat_lt
    omega

theorem shift_injective {a b : UInt16} (h : shift a = shift b) : a = b := by
  rw [← UInt16.xor_eq_zero_iff, ← shift_xor] at h
  exact UInt16.xor_eq_zero_iff.mp (eq_zero_of_shift h)

/-! ## Any number of shifts -/

theorem shifts_add (m n : Nat) (r : UInt16) : shifts (m + n) r = shifts n (shifts m r) := by
  induction m generalizing r with
  | zero => rw [Nat.zero_add, shifts]
  | succ m ih => rw [Nat.succ_add, shifts, shifts, ih]

theorem shifts_succ (n : Nat) (r : UInt16) : shifts (n + 1) r = shift (shifts n r) :=
  shifts_add n 1 r

@[simp] theorem shifts_zero (n : Nat) : shifts n 0 = 0 := by
  induction n with
  | zero => rfl
  | succ n ih => exact ih

theorem shifts_xor (n : Nat) (a b : UInt16) : shifts n (a ^^^ b) = shifts n a ^^^ shifts n b := by
  induction n with
  | zero => rfl
  | succ n ih => rw [shifts_succ, shifts_succ, shifts_succ, ih, shift_xor]

theorem shifts_injective {n : Nat} {a b : UInt16} (h : shifts n a = shifts n b) : a = b := by
  induction n with
  | zero => exact h
  | succ n ih =>
    rw [shifts_succ, shifts_succ] at h
    exact ih (shift_injective h)

theorem shifts_eq_zero_iff {n : Nat} {r : UInt16} : shifts n r = 0 ↔ r = 0 := by
  constructor
  · intro h
    exact shifts_injective (h.trans (shifts_zero n).symm)
  · rintro rfl
    exact shifts_zero n

/-- As long as zeros fall out, a shift only moves the register down. -/
theorem toNat_shifts_of_dvd {n : Nat} {r : UInt16} (h : 2 ^ n ∣ r.toNat) :
    (shifts n r).toNat = r.toNat / 2 ^ n := by
  induction n generalizing r with
  | zero => rw [shifts, Nat.pow_zero, Nat.div_one]
  | succ n ih =>
    rw [Nat.pow_succ'] at h ⊢
    have hhalf : (shift r).toNat = r.toNat / 2 := by
      rw [shift_of_even (Nat.mod_eq_zero_of_dvd (Nat.dvd_trans (Nat.dvd_mul_right 2 _) h)),
        UInt16.toNat_shiftRight]
      exact Nat.shiftRight_one _
    have hdvd : 2 ^ n ∣ (shift r).toNat := by
      rw [hhalf]
      exact Nat.dvd_div_of_mul_dvd h
    rw [shifts, ih hdvd, hhalf, Nat.div_div_eq_div_mul]

/-! ## Bytes and words -/

theorem absorb_xor (a b : UInt16) (x y : UInt8) :
    absorb (a ^^^ b) (x ^^^ y) = absorb a x ^^^ absorb b y := by
  have hpairs : (a ^^^ b) ^^^ (x ^^^ y).toUInt16 = (a ^^^ x.toUInt16) ^^^ (b ^^^ y.toUInt16) := by
    rw [UInt8.toUInt16_xor, UInt16.xor_assoc, UInt16.xor_assoc, ← UInt16.xor_assoc b,
      UInt16.xor_comm b, UInt16.xor_assoc]
  rw [absorb, hpairs, shifts_xor, absorb, absorb]

theorem absorb_zero (r : UInt16) : absorb r 0 = shifts 8 r := by
  rw [absorb]
  change shifts 8 (r ^^^ 0) = _
  rw [UInt16.xor_zero]

theorem absorb_injective {a b : UInt16} {x : UInt8} (h : absorb a x = absorb b x) : a = b :=
  (UInt16.xor_left_inj x.toUInt16).mp (shifts_injective h)

/-- Any fixed bytes take different registers to different ones. -/
theorem crc_injective {a b : UInt16} {s : List UInt8} (h : crc a s = crc b s) : a = b := by
  induction s generalizing a b with
  | nil => exact h
  | cons x s ih =>
    rw [crc_cons, crc_cons] at h
    exact absorb_injective (ih h)

/-- What two starts differ by is shifted along, whatever the bytes are. -/
theorem crc_xor_start (a e : UInt16) (s : List UInt8) :
    crc (a ^^^ e) s = crc a s ^^^ shifts (8 * s.length) e := by
  induction s generalizing a e with
  | nil => rfl
  | cons b s ih =>
    have hbyte : absorb (a ^^^ e) b = absorb a b ^^^ shifts 8 e := by
      rw [← absorb_zero, ← absorb_xor, UInt8.xor_zero]
    rw [crc_cons, crc_cons, hbyte, ih, List.length_cons, Nat.mul_succ, Nat.add_comm, shifts_add]

theorem crc_ofWord16 (r w : UInt16) : crc r (Bytes.ofWord16 w) = shifts 16 (r ^^^ w) := by
  let low : UInt8 := .ofNat w.toNat
  let high : UInt8 := .ofNat (w.toNat / 256)
  have hlow : low.toUInt16.toNat = w.toNat % 2 ^ 8 := by
    simp only [low, UInt8.toNat_toUInt16, UInt8.toNat_ofNat']
  have hhigh : high.toUInt16.toNat = w.toNat / 2 ^ 8 := by
    have := w.toNat_lt
    simp only [high, UInt8.toNat_toUInt16, UInt8.toNat_ofNat']
    omega
  have hdvd : 2 ^ 8 ∣ (w ^^^ low.toUInt16).toNat := by
    apply Nat.dvd_of_mod_eq_zero
    rw [UInt16.toNat_xor, Nat.xor_mod_two_pow, hlow, Nat.mod_mod, Nat.xor_self]
  -- Without its low byte, the word is moved down to its high byte by the shifts of the low one.
  have hmoved : high.toUInt16 = shifts 8 (w ^^^ low.toUInt16) := by
    rw [← UInt16.toNat_inj, toNat_shifts_of_dvd hdvd, UInt16.toNat_xor, Nat.xor_div_two_pow, hlow,
      hhigh, Nat.mod_div_self, Nat.xor_zero]
  calc crc r (Bytes.ofWord16 w)
      = shifts 8 (shifts 8 (r ^^^ low.toUInt16) ^^^ high.toUInt16) := rfl
    _ = shifts 8 (shifts 8 (r ^^^ w)) := by rw [hmoved, ← shifts_xor, xor_xor_cancel]
    _ = shifts 16 (r ^^^ w) := (shifts_add 8 8 _).symm

/-- The register is cleared by its own value alone. -/
theorem crc_append_eq_zero_iff (r w : UInt16) (s : List UInt8) :
    crc r (s ++ Bytes.ofWord16 w) = 0 ↔ w = crc r s := by
  rw [crc_append, crc_ofWord16, shifts_eq_zero_iff, UInt16.xor_eq_zero_iff, eq_comm]

end NodeBus.Checksum
