/-!
# The bits of a byte string

Bit number `k` of a byte string is bit `k % 8` of its byte `k / 8`, the low bit of a
byte first, as a serial line sends them.

- `flip` turns over the bits with given numbers, what noise on a line does;
- `differences` are the numbers of the bits in which two byte strings differ.

Turning over the differences makes one byte string of equal length out of the other
(`flip_differences`).
-/

namespace NodeBus.Bytes

/-- The bit of number `k`; there are no bits set behind the end. -/
def bit (s : List UInt8) (k : Nat) : Bool := (s.getD (k / 8) 0).toNat.testBit (k % 8)

/-- Turn over the bit of number `k`. -/
def flipAt (k : Nat) (s : List UInt8) : List UInt8 :=
  s.modify (k / 8) (· ^^^ .ofNat (1 <<< (k % 8)))

/-- Turn over the bits with the given numbers. -/
def flip (ks : List Nat) (s : List UInt8) : List UInt8 := ks.foldr flipAt s

/-- The numbers of the bits of `s` that are other ones in `t`. -/
def differences (s t : List UInt8) : List Nat :=
  (List.range (8 * s.length)).filter fun k => bit s k != bit t k

@[simp] theorem length_flipAt (k : Nat) (s : List UInt8) : (flipAt k s).length = s.length := by
  simp [flipAt]

@[simp] theorem flip_nil (s : List UInt8) : flip [] s = s := rfl

theorem flip_cons (k : Nat) (ks : List Nat) (s : List UInt8) :
    flip (k :: ks) s = flipAt k (flip ks s) := rfl

@[simp] theorem length_flip (ks : List Nat) (s : List UInt8) : (flip ks s).length = s.length := by
  induction ks with
  | nil => rfl
  | cons k ks ih => rw [flip_cons, length_flipAt, ih]

/-! ## Byte by byte -/

theorem flipAt_of_lt {k : Nat} (h : k < 8) (b : UInt8) (s : List UInt8) :
    flipAt k (b :: s) = (b ^^^ .ofNat (1 <<< k)) :: s := by
  rw [flipAt, Nat.div_eq_of_lt h, Nat.mod_eq_of_lt h, List.modify_zero_cons]

theorem flipAt_add_eight (k : Nat) (b : UInt8) (s : List UInt8) :
    flipAt (k + 8) (b :: s) = b :: flipAt k s := by
  rw [flipAt, Nat.add_div_right k (by decide), Nat.add_mod_right, List.modify_succ_cons, flipAt]

theorem bit_of_lt {k : Nat} (h : k < 8) (b : UInt8) (s : List UInt8) :
    bit (b :: s) k = b.toNat.testBit k := by
  rw [bit, Nat.div_eq_of_lt h, Nat.mod_eq_of_lt h, List.getD_cons_zero]

theorem bit_add_eight (k : Nat) (b : UInt8) (s : List UInt8) :
    bit (b :: s) (k + 8) = bit s k := by
  rw [bit, Nat.add_div_right k (by decide), Nat.add_mod_right, List.getD_cons_succ, bit]

/-- A number of a bit is one in the first byte or one behind it. -/
theorem lt_or_exists_add_eight (k : Nat) : k < 8 ∨ ∃ j, k = j + 8 := by
  rcases Nat.lt_or_ge k 8 with h | h
  · exact .inl h
  · exact .inr ⟨k - 8, by omega⟩

/-! ## Bit by bit -/

theorem bit_flipAt {k : Nat} {s : List UInt8} (h : k < 8 * s.length) (i : Nat) :
    bit (flipAt k s) i = (bit s i ^^ decide (i = k)) := by
  induction s generalizing k i with
  | nil => exact absurd h (Nat.not_lt_zero _)
  | cons b s ih =>
    rw [List.length_cons] at h
    rcases lt_or_exists_add_eight k with hk | ⟨k, rfl⟩ <;>
      rcases lt_or_exists_add_eight i with hi | ⟨i, rfl⟩
    · have hpow : 2 ^ k < 2 ^ 8 := Nat.pow_lt_pow_right (by decide) hk
      rw [flipAt_of_lt hk, bit_of_lt hi, bit_of_lt hi, UInt8.toNat_xor, Nat.testBit_xor,
        UInt8.toNat_ofNat', Nat.one_shiftLeft, Nat.mod_eq_of_lt hpow, Nat.testBit_two_pow]
      simp only [eq_comm]
    · rw [flipAt_of_lt hk, bit_add_eight, bit_add_eight, decide_eq_false (by omega), Bool.xor_false]
    · rw [flipAt_add_eight, bit_of_lt hi, bit_of_lt hi, decide_eq_false (by omega), Bool.xor_false]
    · rw [flipAt_add_eight, bit_add_eight, bit_add_eight, ih (by omega)]
      simp

theorem bit_flip {ks : List Nat} {s : List UInt8} (hnodup : ks.Nodup)
    (h : ∀ k ∈ ks, k < 8 * s.length) (i : Nat) :
    bit (flip ks s) i = (bit s i ^^ decide (i ∈ ks)) := by
  induction ks with
  | nil => simp
  | cons k ks ih =>
    obtain ⟨hk, hnodup⟩ := List.nodup_cons.mp hnodup
    have hrest := ih hnodup fun k' hk' => h k' (List.mem_cons_of_mem _ hk')
    rw [flip_cons, bit_flipAt (by simpa using h k List.mem_cons_self), hrest]
    by_cases hi : i = k
    · subst hi
      simp [hk]
    · simp [hi]

/-- Byte strings of equal length with the same bits are the same. -/
theorem eq_of_bit {s t : List UInt8} (hlength : s.length = t.length)
    (h : ∀ k < 8 * s.length, bit s k = bit t k) : s = t := by
  induction s generalizing t with
  | nil => exact (List.length_eq_zero_iff.mp hlength.symm).symm
  | cons b s ih =>
    cases t with
    | nil => cases hlength
    | cons c t =>
      rw [List.length_cons] at h
      have hhead : b = c := by
        apply UInt8.toNat_inj.mp
        apply Nat.eq_of_testBit_eq
        intro i
        rcases Nat.lt_or_ge i 8 with hi | hi
        · have := h i (by omega)
          rwa [bit_of_lt hi, bit_of_lt hi] at this
        · have hpow : 2 ^ 8 ≤ 2 ^ i := Nat.pow_le_pow_right (by decide) hi
          rw [Nat.testBit_lt_two_pow (Nat.lt_of_lt_of_le b.toNat_lt hpow),
            Nat.testBit_lt_two_pow (Nat.lt_of_lt_of_le c.toNat_lt hpow)]
      have htail : s = t := by
        refine ih (Nat.succ.inj hlength) fun k hk => ?_
        have := h (k + 8) (by omega)
        rwa [bit_add_eight, bit_add_eight] at this
      rw [hhead, htail]

/-! ## Differences -/

theorem mem_differences {s t : List UInt8} {k : Nat} :
    k ∈ differences s t ↔ k < 8 * s.length ∧ bit s k ≠ bit t k := by
  simp [differences]

theorem nodup_differences (s t : List UInt8) : (differences s t).Nodup :=
  List.Pairwise.filter _ List.nodup_range

theorem flip_differences {s t : List UInt8} (h : t.length = s.length) :
    flip (differences s t) s = t := by
  refine eq_of_bit (by rw [length_flip, h]) fun k hk => ?_
  rw [length_flip] at hk
  rw [bit_flip (nodup_differences s t) fun k hk => (mem_differences.mp hk).1]
  by_cases hbit : bit s k = bit t k
  · rw [decide_eq_false fun hmem => (mem_differences.mp hmem).2 hbit, Bool.xor_false, hbit]
  · rw [decide_eq_true (mem_differences.mpr ⟨hk, hbit⟩), Bool.xor_true]
    exact Bool.not_eq.mpr hbit

end NodeBus.Bytes
