import NodeBus.Proofs.Checksum.Register
import Mathlib.Data.Nat.Prime.Basic
import Mathlib.Dynamics.PeriodicPts.Defs
import Mathlib.Tactic.NormNum.Prime

/-!
# The register as a polynomial

Read in reflected order, a register is a polynomial of degree at most 15 over the field
of two elements: its bit `15 - i` is the coefficient of `xⁱ`. A shift multiplies by `x`
modulo the generator, so `power n` is `xⁿ`.

The powers of `x` repeat after 32767 steps and not earlier (`minimalPeriod_shift`). To see
that, only a few powers have to be computed, and those by squaring: the square of a sum
is the sum of the squares.
-/

namespace NodeBus.Checksum

/-! ## Sums of registers -/

/-- The exclusive sum of registers. -/
def total (terms : List UInt16) : UInt16 := terms.foldr (· ^^^ ·) 0

@[simp] theorem total_nil : total [] = 0 := rfl

@[simp] theorem total_cons (r : UInt16) (terms : List UInt16) :
    total (r :: terms) = r ^^^ total terms := rfl

theorem shifts_total (n : Nat) (terms : List UInt16) :
    shifts n (total terms) = total (terms.map (shifts n)) := by
  induction terms with
  | nil => exact shifts_zero n
  | cons r terms ih => rw [total_cons, shifts_xor, ih, List.map_cons, total_cons]

theorem total_map_xor {α : Type} (f g : α → UInt16) (l : List α) :
    total (l.map fun a => f a ^^^ g a) = total (l.map f) ^^^ total (l.map g) := by
  induction l with
  | nil => simp
  | cons a l ih =>
    simp only [List.map_cons, total_cons, ih]
    ac_rfl

/-! ## Single bits -/

/-- The register in which only bit `i` is set. -/
def unit (i : Nat) : UInt16 := .ofNat (2 ^ i)

theorem toNat_unit {i : Nat} (h : i < 16) : (unit i).toNat = 2 ^ i := by
  rw [unit, UInt16.toNat_ofNat']
  exact Nat.mod_eq_of_lt (Nat.pow_lt_pow_right (by decide) h)

/-- A register with a top bit is smaller without it. -/
theorem toNat_xor_unit_lt {n : Nat} {r : UInt16} (hn : n < 16) (hr : r.toNat < 2 ^ (n + 1))
    (htop : r.toNat.testBit n = true) : (r ^^^ unit n).toNat < 2 ^ n := by
  refine Nat.lt_pow_two_of_testBit _ fun i hi => ?_
  rw [UInt16.toNat_xor, toNat_unit hn, Nat.testBit_xor, Nat.testBit_two_pow]
  rcases Nat.eq_or_lt_of_le hi with rfl | hi
  · simp [htop]
  · rw [Nat.testBit_lt_two_pow (Nat.lt_of_lt_of_le hr (Nat.pow_le_pow_right (by decide) hi)),
      decide_eq_false (Nat.ne_of_lt hi), Bool.xor_false]

/-- Linear functions of a register are equal if they are on single bits. -/
theorem eq_of_unit {α : Type} {f g : UInt16 → α} (add : α → α → α)
    (hf : ∀ a b, f (a ^^^ b) = add (f a) (f b)) (hg : ∀ a b, g (a ^^^ b) = add (g a) (g b))
    (h : ∀ i < 16, f (unit i) = g (unit i)) (r : UInt16) : f r = g r := by
  -- The induction is on how many low bits may be set.
  suffices hbelow : ∀ n ≤ 16, ∀ r : UInt16, r.toNat < 2 ^ n → f r = g r from
    hbelow 16 (Nat.le_refl _) r r.toNat_lt
  intro n
  induction n with
  | zero =>
    intro _ r hr
    obtain rfl : r = unit 0 ^^^ unit 0 := by
      rw [UInt16.xor_self, ← UInt16.toNat_inj]
      exact Nat.lt_one_iff.mp hr
    rw [hf, hg, h 0 (by decide)]
  | succ n ih =>
    intro hn r hr
    cases htop : r.toNat.testBit n with
    | false => exact ih (by omega) r (Nat.lt_pow_two_of_testBit _ fun i hi => by
        rcases Nat.eq_or_lt_of_le hi with rfl | hi
        · exact htop
        · exact Nat.testBit_lt_two_pow
            (Nat.lt_of_lt_of_le hr (Nat.pow_le_pow_right (by decide) hi)))
    | true =>
      -- The top bit is taken off.
      have hrest := ih (by omega) _ (toNat_xor_unit_lt hn hr htop)
      have hsplit : r = (r ^^^ unit n) ^^^ unit n := by
        rw [UInt16.xor_assoc, UInt16.xor_self, UInt16.xor_zero]
      rw [hsplit, hf, hg, hrest, h n hn]

/-! ## Powers of `x` -/

/-- `xⁿ` modulo the generator. -/
def power (n : Nat) : UInt16 := shifts n (unit 15)

theorem shifts_power (m n : Nat) : shifts m (power n) = power (n + m) :=
  (shifts_add n m _).symm

set_option maxRecDepth 2000 in
theorem power_of_le {i : Nat} (h : i ≤ 15) : power (15 - i) = unit i := by
  have hall : ∀ i < 16, power (15 - i) = unit i := by decide
  exact hall i (Nat.lt_succ_of_le h)

/-- The square of a polynomial modulo the generator. -/
def square (r : UInt16) : UInt16 :=
  total ((List.range 16).map fun i => if r.toNat.testBit i then power (2 * (15 - i)) else 0)

theorem square_xor (a b : UInt16) : square (a ^^^ b) = square a ^^^ square b := by
  rw [square, square, square, ← total_map_xor]
  congr 2
  funext i
  rw [UInt16.toNat_xor, Nat.testBit_xor]
  cases a.toNat.testBit i <;> cases b.toNat.testBit i <;> simp

set_option maxRecDepth 2000 in
theorem square_shift (r : UInt16) : square (shift r) = shifts 2 (square r) := by
  -- Both sides are linear, so the sixteen single bits decide it.
  refine eq_of_unit (f := fun r => square (shift r)) (g := fun r => shifts 2 (square r))
    (· ^^^ ·) (fun a b => ?_) (fun a b => ?_) ?_ r
  · simp only [shift_xor, square_xor]
  · simp only [square_xor, shifts_xor]
  · decide

theorem power_two_mul (n : Nat) : power (2 * n) = square (power n) := by
  induction n with
  | zero => decide
  | succ n ih =>
    calc power (2 * (n + 1))
        = shifts 2 (power (2 * n)) := (shifts_power 2 (2 * n)).symm
      _ = square (shift (power n)) := by rw [ih, square_shift]
      _ = square (power (n + 1)) := by rw [power, power, shifts_succ]

/-- A power by squaring, from the binary digits of its exponent. -/
theorem power_digits (digits : List Bool) :
    power (digits.foldr Nat.bit 0) =
      digits.foldr (fun d p => cond d (shift (square p)) (square p)) (power 0) := by
  induction digits with
  | nil => rfl
  | cons d digits ih =>
    rw [List.foldr_cons, List.foldr_cons, ← ih]
    cases d with
    | false => exact power_two_mul _
    | true =>
      rw [cond_true, ← power_two_mul]
      exact shifts_succ ..

/-! ## The period -/

theorem power_eq_iterate (n : Nat) : power n = shift^[n] (power 0) := by
  change shifts n (power 0) = _
  generalize power 0 = r
  induction n generalizing r with
  | zero => rfl
  | succ n ih => exact ih (shift r)

theorem power_eq_power_zero_iff (n : Nat) :
    power n = power 0 ↔ Function.minimalPeriod shift (power 0) ∣ n := by
  rw [← Function.isPeriodicPt_iff_minimalPeriod_dvd, power_eq_iterate]
  rfl

set_option maxRecDepth 2000 in
theorem power_32767 : power 32767 = power 0 := by
  change power ((List.replicate 15 true).foldr Nat.bit 0) = _
  rw [power_digits]
  decide

set_option maxRecDepth 2000 in
/-- The exponents are 32767 without one of its prime factors. -/
theorem power_ne_of_proper : power 4681 ≠ power 0 ∧ power 1057 ≠ power 0 ∧ power 217 ≠ power 0 := by
  refine ⟨?_, ?_, ?_⟩
  · change power ([true, false, false, true, false, false, true, false, false, true, false, false,
      true].foldr Nat.bit 0) ≠ _
    rw [power_digits]
    decide
  · change power ([true, false, false, false, false, true, false, false, false, false,
      true].foldr Nat.bit 0) ≠ _
    rw [power_digits]
    decide
  · change power ([true, false, false, true, true, false, true, true].foldr Nat.bit 0) ≠ _
    rw [power_digits]
    decide

theorem minimalPeriod_shift : Function.minimalPeriod shift (power 0) = 32767 := by
  obtain ⟨c, hc⟩ := (power_eq_power_zero_iff 32767).mp power_32767
  by_contra hshort
  -- A shorter period leaves a cofactor `c` other than one, so it still divides 32767
  -- without a prime factor of `c`, and 32767 = 7 * 31 * 151 has three of them.
  have hprime : c.minFac.Prime := Nat.minFac_prime (by rintro rfl; omega)
  have hproper {q m : Nat} (hq : c.minFac = q) (hm : 32767 = q * m) : power m = power 0 := by
    obtain ⟨d, hd⟩ := Nat.minFac_dvd c
    have hpos : 0 < q := hq ▸ hprime.pos
    refine (power_eq_power_zero_iff m).mpr ⟨d, Nat.eq_of_mul_eq_mul_left hpos ?_⟩
    rw [← hm, hc, hd, hq, Nat.mul_left_comm]
  have hdvd : c.minFac ∣ 7 * 31 * 151 := (Nat.minFac_dvd c).trans ⟨_, hc.trans (Nat.mul_comm ..)⟩
  obtain ⟨h4681, h1057, h217⟩ := power_ne_of_proper
  rcases hprime.dvd_mul.mp hdvd with hdvd | h151
  · rcases hprime.dvd_mul.mp hdvd with h7 | h31
    · rw [Nat.prime_dvd_prime_iff_eq hprime (by norm_num)] at h7
      exact h4681 (hproper h7 rfl)
    · rw [Nat.prime_dvd_prime_iff_eq hprime (by norm_num)] at h31
      exact h1057 (hproper h31 rfl)
  · rw [Nat.prime_dvd_prime_iff_eq hprime (by norm_num)] at h151
    exact h217 (hproper h151 rfl)

/-- Powers with exponents less than a period apart are different. -/
theorem power_ne_power {i j : Nat} (hlt : i < j) (hnear : j < i + 32767) : power i ≠ power j := by
  intro h
  -- The shifts that both have in common can be taken back.
  have hback : power (j - i) = power 0 := by
    apply shifts_injective (n := i)
    rw [shifts_power, shifts_power, Nat.zero_add, h, Nat.sub_add_cancel (Nat.le_of_lt hlt)]
  rw [power_eq_power_zero_iff, minimalPeriod_shift] at hback
  have hle := Nat.le_of_dvd (Nat.sub_pos_of_lt hlt) hback
  omega

end NodeBus.Checksum
