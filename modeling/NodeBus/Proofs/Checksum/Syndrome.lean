import NodeBus.Bytes.Bits
import NodeBus.Proofs.Checksum.Powers

/-!
# What a checksum sees of bit errors

A bit that is turned over changes the checksum by a power of `x` that depends on its
place only, so errors change it by a sum of powers, their syndrome (`crc_flip`). Errors
with a syndrome other than zero are seen:

- errors within 16 bits, because single bits of a register are independent;
- an odd number of errors, because the generator has an even number of terms, so that a
  shift keeps the parity of the register;
- two errors less than a period of the powers of `x` apart.
-/

namespace NodeBus.Checksum

open Bytes (flip flipAt flip_cons flipAt_of_lt flipAt_add_eight lt_or_exists_add_eight
  length_flip)

/-- What errors in the bits of the given numbers, among `n` bits, change in the register. -/
def syndrome (n : Nat) (ks : List Nat) : UInt16 := total (ks.map fun k => power (n - k + 15))

/-! ## Errors in bytes -/

/-- A bit that is turned over in a byte comes into the register of zeros alone. -/
theorem absorb_flip {k : Nat} (h : k < 8) (r : UInt16) (b : UInt8) :
    absorb r (b ^^^ .ofNat (1 <<< k)) = absorb r b ^^^ power (8 - k + 15) := by
  have hunit : (UInt8.ofNat (1 <<< k)).toUInt16 = unit k := by
    rw [← UInt16.toNat_inj, toNat_unit (by omega), UInt8.toNat_toUInt16, UInt8.toNat_ofNat',
      Nat.one_shiftLeft]
    exact Nat.mod_eq_of_lt (Nat.pow_lt_pow_right (by decide) h)
  -- Byte and register meet in the low eight bits, where `x^(15 - k)` is bit `k`.
  have halone : absorb 0 (.ofNat (1 <<< k)) = power (8 - k + 15) := by
    rw [absorb, hunit, UInt16.zero_xor, ← power_of_le (by omega), shifts_power]
    congr 1
    omega
  rw [← halone, ← absorb_xor, UInt16.xor_zero]

theorem crc_flipAt {k : Nat} {s : List UInt8} (h : k < 8 * s.length) (r : UInt16) :
    crc r (flipAt k s) = crc r s ^^^ power (8 * s.length - k + 15) := by
  induction s generalizing r k with
  | nil => exact absurd h (Nat.not_lt_zero _)
  | cons b s ih =>
    rw [List.length_cons] at h ⊢
    rcases lt_or_exists_add_eight k with hk | ⟨k, rfl⟩
    · -- The bytes behind shift the change along.
      rw [flipAt_of_lt hk, crc_cons, crc_cons, absorb_flip hk, crc_xor_start, shifts_power]
      congr 2
      omega
    · rw [flipAt_add_eight, crc_cons, crc_cons, ih (by omega)]
      congr 2
      omega

theorem crc_flip {ks : List Nat} {s : List UInt8} (h : ∀ k ∈ ks, k < 8 * s.length) (r : UInt16) :
    crc r (flip ks s) = crc r s ^^^ syndrome (8 * s.length) ks := by
  induction ks with
  | nil => exact UInt16.xor_zero.symm
  | cons k ks ih =>
    have hk : k < 8 * (flip ks s).length := by
      rw [length_flip]
      exact h k List.mem_cons_self
    rw [flip_cons, crc_flipAt hk, ih fun k' hk' => h k' (List.mem_cons_of_mem _ hk'), length_flip,
      UInt16.xor_assoc, UInt16.xor_comm (syndrome _ _)]
    rfl

/-! ## Errors close together -/

theorem testBit_total_unit {places : List Nat} {i : Nat} (h : ∀ j ∈ places, j < 16)
    (hi : i ∉ places) : (total (places.map unit)).toNat.testBit i = false := by
  induction places with
  | nil => exact Nat.zero_testBit i
  | cons j places ih =>
    obtain ⟨hne, hi⟩ := List.ne_and_not_mem_of_not_mem_cons hi
    obtain ⟨hj, h⟩ := List.forall_mem_cons.mp h
    rw [List.map_cons, total_cons, UInt16.toNat_xor, Nat.testBit_xor, toNat_unit hj,
      Nat.testBit_two_pow, ih h hi, decide_eq_false (Ne.symm hne), Bool.false_xor]

theorem total_unit_ne_zero {places : List Nat} (hsome : places ≠ []) (hnodup : places.Nodup)
    (h : ∀ j ∈ places, j < 16) : total (places.map unit) ≠ 0 := by
  cases places with
  | nil => exact absurd rfl hsome
  | cons i places =>
    obtain ⟨hi, _⟩ := List.nodup_cons.mp hnodup
    obtain ⟨hi16, h⟩ := List.forall_mem_cons.mp h
    intro hzero
    rw [List.map_cons, total_cons, UInt16.xor_eq_zero_iff] at hzero
    -- No other place has the first bit.
    have hbit := testBit_total_unit h hi
    rw [← hzero, toNat_unit hi16, Nat.testBit_two_pow_self] at hbit
    cases hbit

theorem syndrome_burst {n start : Nat} {ks : List Nat} (hsome : ks ≠ []) (hnodup : ks.Nodup)
    (hbelow : ∀ k ∈ ks, k < n) (hwindow : ∀ k ∈ ks, start ≤ k ∧ k < start + 16) :
    syndrome n ks ≠ 0 := by
  -- Seen from the start of the window, the errors are bits of one register.
  have hregister : syndrome n ks =
      shifts (n - start) (total ((ks.map (· - start)).map unit)) := by
    rw [syndrome, shifts_total, List.map_map, List.map_map]
    congr 1
    refine List.map_congr_left fun k hk => ?_
    have := hbelow k hk
    have := hwindow k hk
    simp only [Function.comp]
    rw [← power_of_le (by omega), shifts_power]
    congr 1
    omega
  have hplaces : total ((ks.map (· - start)).map unit) ≠ 0 := by
    refine total_unit_ne_zero (by simpa using hsome) ?_ fun i hi => ?_
    · refine hnodup.map_on fun k hk k' hk' heq => ?_
      have := hwindow k hk
      have := hwindow k' hk'
      omega
    · obtain ⟨k, hk, rfl⟩ := List.mem_map.mp hi
      have := hwindow k hk
      omega
  intro hzero
  rw [hregister] at hzero
  exact hplaces (shifts_eq_zero_iff.mp hzero)

/-! ## An odd number of errors -/

/-- Whether an odd number of bits is set. -/
def parity (r : UInt16) : Bool := (List.range 16).foldr (fun i p => r.toNat.testBit i ^^ p) false

@[simp] theorem parity_zero : parity 0 = false := by decide

theorem parity_xor (a b : UInt16) : parity (a ^^^ b) = (parity a ^^ parity b) := by
  simp only [parity, UInt16.toNat_xor, Nat.testBit_xor]
  induction List.range 16 with
  | nil => rfl
  | cons i l ih =>
    rw [List.foldr_cons, List.foldr_cons, List.foldr_cons, ih, Bool.xor_assoc, Bool.xor_assoc,
      Bool.xor_left_comm (b.toNat.testBit i)]

theorem parity_shift (r : UInt16) : parity (shift r) = parity r := by
  refine eq_of_unit (f := fun r => parity (shift r)) Bool.xor (fun a b => ?_) parity_xor ?_ r
  · rw [shift_xor, parity_xor]
  · decide

theorem parity_power (n : Nat) : parity (power n) = true := by
  induction n with
  | zero => decide
  | succ n ih => rw [power, shifts_succ, parity_shift, ← power, ih]

theorem parity_syndrome (n : Nat) (ks : List Nat) :
    parity (syndrome n ks) = decide (ks.length % 2 = 1) := by
  induction ks with
  | nil => exact parity_zero
  | cons k ks ih =>
    rw [syndrome, List.map_cons, total_cons, parity_xor, parity_power, ← syndrome, ih,
      List.length_cons, Bool.true_xor, ← decide_not, decide_eq_decide]
    omega

theorem syndrome_odd {n : Nat} {ks : List Nat} (h : Odd ks.length) : syndrome n ks ≠ 0 := by
  intro hzero
  have hparity := parity_syndrome n ks
  rw [hzero, parity_zero, decide_eq_true (Nat.odd_iff.mp h)] at hparity
  cases hparity

/-! ## Two errors -/

theorem syndrome_pair {n i j : Nat} (hi : i < n) (hj : j < n) (hne : i ≠ j)
    (hnear : n ≤ 32767) : syndrome n [i, j] ≠ 0 := by
  intro hzero
  rw [syndrome, List.map_cons, List.map_cons, List.map_nil, total_cons, total_cons, total_nil,
    UInt16.xor_zero, UInt16.xor_eq_zero_iff] at hzero
  rcases Nat.lt_or_gt_of_ne hne with hlt | hlt
  · exact power_ne_power (by omega) (by omega) hzero.symm
  · exact power_ne_power (by omega) (by omega) hzero

end NodeBus.Checksum
