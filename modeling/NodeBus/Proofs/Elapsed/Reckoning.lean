import NodeBus.Elapsed

/-! # Reckoning with elapsed time

* `ofMillis`: the time that so many milliseconds make, whichever way they came (`add_ofMillis`).
* `checkedAdd`: the same addition where nothing but the seconds may wrap.
* `write_of_fits`, `padded_eq_decimal`: the text is written in full, at a fixed width.
-/

namespace NodeBus.Elapsed

/-! ## Adding up -/

/-- The time of `ms` milliseconds. Its seconds wrap around. -/
def ofMillis (ms : Nat) : Elapsed := ⟨.ofNat (ms / 1000), .ofNat (ms % 1000)⟩

/-- What periods of milliseconds come to. -/
def sum : List UInt32 → Nat
  | [] => 0
  | ms :: past => ms.toNat + sum past

@[simp] theorem sum_append (past later : List UInt32) :
    sum (past ++ later) = sum past + sum later := by
  induction past with
  | nil => simp [sum]
  | cons ms past ih => simp only [List.cons_append, sum, ih, Nat.add_assoc]

section OfMillis

variable (ms : Nat)

theorem millis_ofMillis : (ofMillis ms).millis.toNat = ms % 1000 := by
  simp only [ofMillis, UInt16.toNat_ofNat']
  omega

theorem seconds_ofMillis : (ofMillis ms).seconds.toNat = ms / 1000 % UInt32.size := by
  simp [ofMillis, UInt32.size]

theorem total_ofMillis : (ofMillis ms).total = ms % (1000 * UInt32.size) := by
  rw [total, millis_ofMillis, seconds_ofMillis, UInt32.size]
  omega

theorem add_ofMillis (more : UInt32) : (ofMillis ms).add more = ofMillis (ms + more.toNat) := by
  have hmore := more.toNat_lt
  rw [add, ofMillis, ofMillis, mk.injEq]
  constructor
  · apply UInt32.toNat_inj.mp
    simp only [UInt32.toNat_add, UInt32.toNat_div, UInt32.toNat_mod, UInt32.toNat_ofNat',
      UInt16.toNat_toUInt32, UInt16.toNat_ofNat', UInt32.reduceToNat]
    omega
  · apply UInt16.toNat_inj.mp
    simp only [UInt32.toNat_add, UInt32.toNat_mod, UInt32.toNat_toUInt16, UInt16.toNat_toUInt32,
      UInt16.toNat_ofNat', UInt32.reduceToNat]
    omega

theorem foldl_add_ofMillis (past : List UInt32) :
    past.foldl add (ofMillis ms) = ofMillis (ms + sum past) := by
  induction past generalizing ms with
  | nil => rfl
  | cons more past ih => rw [List.foldl_cons, add_ofMillis, ih, sum, Nat.add_assoc]

end OfMillis

theorem repeat_add (e : Elapsed) (ms : UInt32) (times : Nat) :
    times.repeat (·.add ms) e = (List.replicate times ms).foldl add e := by
  induction times with
  | zero => rfl
  | succ times ih =>
    rw [Nat.repeat, ih, List.replicate_succ', List.foldl_append, List.foldl_cons, List.foldl_nil]

/-! ## Arithmetic that may fail -/

/-- The sum of two words, if it is one. -/
def sum32? (a b : UInt32) : Option UInt32 :=
  if a.toNat + b.toNat < UInt32.size then some (a + b) else none

/-- A word as half a word, if it is one. -/
def word16? (a : UInt32) : Option UInt16 :=
  if a.toNat < UInt16.size then some a.toUInt16 else none

/-- `add`, which fails where anything but the seconds overflows. -/
def checkedAdd (e : Elapsed) (ms : UInt32) : Option Elapsed := do
  let millis ← sum32? e.millis.toUInt32 (ms % 1000)
  let rest ← word16? (millis % 1000)
  return ⟨e.seconds + ms / 1000 + millis / 1000, rest⟩

theorem checkedAdd_eq (e : Elapsed) (ms : UInt32) : e.checkedAdd ms = some (e.add ms) := by
  have hsum : e.millis.toUInt32.toNat + (ms % 1000).toNat < UInt32.size := by
    have := e.millis.toNat_lt
    simp only [UInt16.toNat_toUInt32, UInt32.toNat_mod, UInt32.reduceToNat, UInt32.size]
    omega
  have hrest : ((e.millis.toUInt32 + ms % 1000) % 1000).toNat < UInt16.size := by
    simp only [UInt32.toNat_mod, UInt32.reduceToNat, UInt16.size]
    omega
  rw [checkedAdd, sum32?, if_pos hsum, Option.bind_eq_bind, Option.bind_some, word16?, if_pos hrest]
  rfl

/-! ## Hours, minutes and seconds -/

section Parts

variable (e : Elapsed)

theorem toNat_hourPart : e.hourPart.toNat = e.seconds.toNat / 3600 % 24 := by
  simp only [hourPart, UInt32.toNat_toUInt8, UInt32.toNat_mod, UInt32.toNat_div, UInt32.reduceToNat]
  omega

theorem toNat_minutePart : e.minutePart.toNat = e.seconds.toNat / 60 % 60 := by
  simp only [minutePart, UInt32.toNat_toUInt8, UInt32.toNat_mod, UInt32.toNat_div,
    UInt32.reduceToNat]
  omega

theorem toNat_secondPart : e.secondPart.toNat = e.seconds.toNat % 60 := by
  simp only [secondPart, UInt32.toNat_toUInt8, UInt32.toNat_mod, UInt32.reduceToNat]
  omega

/-- The parts are the digits of the seconds to the base 60, of the hours those within a day. -/
theorem seconds_eq_parts : ∃ hours : Nat,
    e.seconds.toNat = (hours * 60 + e.minutePart.toNat) * 60 + e.secondPart.toNat ∧
      e.minutePart.toNat < 60 ∧ e.secondPart.toNat < 60 ∧ e.hourPart.toNat = hours % 24 := by
  refine ⟨e.seconds.toNat / 3600, ?_⟩
  rw [toNat_hourPart, toNat_minutePart, toNat_secondPart]
  omega

end Parts

/-! ## The text -/

/-- The last digits of a number. -/
def decimal : Nat → Nat → List Char
  | 0, _ => []
  | width + 1, n => decimal width (n / 10) ++ [Nat.digitChar (n % 10)]

@[simp] theorem length_decimal (width n : Nat) : (decimal width n).length = width := by
  induction width generalizing n with
  | zero => rfl
  | succ width ih => rw [decimal, List.length_append, ih, List.length_singleton]

theorem decimal_zero (width : Nat) : decimal width 0 = List.replicate width '0' := by
  induction width with
  | zero => rfl
  | succ width ih =>
    rw [decimal, Nat.zero_div, ih, List.replicate_succ']
    rfl

/-- A number that fits into a width is written with its last digits. -/
theorem padded_eq_decimal {width n : Nat} (h : (Nat.toDigits 10 n).length ≤ width) :
    padded width n = .ofList (decimal width n) := by
  rw [padded]
  congr 1
  induction width generalizing n with
  | zero => exact absurd h (Nat.not_le.mpr Nat.length_toDigits_pos)
  | succ width ih =>
    by_cases hn : n < 10
    · rw [Nat.toDigits_of_lt_base hn, decimal, Nat.div_eq_of_lt hn, Nat.mod_eq_of_lt hn,
        decimal_zero]
      rfl
    · -- The last digit comes off the end.
      have hdigits := Nat.toDigits_of_base_le (by decide) (Nat.le_of_not_lt hn)
      rw [hdigits, List.length_append, List.length_singleton] at h
      rw [hdigits, decimal, ← ih (Nat.le_of_succ_le_succ h), List.length_append,
        List.length_singleton, Nat.add_sub_add_right, List.append_assoc]

/-- The characters of `HH:MM:SS.mmm`. -/
def face (e : Elapsed) : List Char :=
  decimal 2 e.hourPart.toNat ++ ':' :: decimal 2 e.minutePart.toNat ++
    ':' :: decimal 2 e.secondPart.toNat ++ '.' :: decimal 3 e.millis.toNat

theorem length_face (e : Elapsed) : e.face.length = 12 := by
  simp [face]

/-- The bytes of all pieces. -/
def bytes : List String → Nat
  | [] => 0
  | piece :: pieces => piece.utf8ByteSize + bytes pieces

theorem write_of_bytes_le {text : String} {pieces : List String}
    (h : text.utf8ByteSize + bytes pieces ≤ room) :
    write text pieces = (true, pieces.foldl (· ++ ·) text) := by
  induction pieces generalizing text with
  | nil => rfl
  | cons piece pieces ih =>
    rw [bytes] at h
    rw [write, if_pos (by omega), List.foldl_cons]
    apply ih
    rw [String.utf8ByteSize_append]
    omega

/-- A digit is a single byte. -/
theorem utf8ByteSize_digit {n : Nat} (h : n < 10) :
    (String.singleton (Nat.digitChar n)).utf8ByteSize = 1 := by
  obtain rfl | rfl | rfl | rfl | rfl | rfl | rfl | rfl | rfl | rfl :
    n = 0 ∨ n = 1 ∨ n = 2 ∨ n = 3 ∨ n = 4 ∨ n = 5 ∨ n = 6 ∨ n = 7 ∨ n = 8 ∨ n = 9 := by omega
  all_goals rfl

theorem utf8ByteSize_decimal (width n : Nat) :
    (String.ofList (decimal width n)).utf8ByteSize = width := by
  induction width generalizing n with
  | zero => rfl
  | succ width ih =>
    have hlast := utf8ByteSize_digit (Nat.mod_lt n (by decide : 0 < 10))
    rw [decimal, String.ofList_append, String.utf8ByteSize_append, ih]
    exact congrArg (width + ·) hlast

section Text

variable {e : Elapsed}

theorem pieces_eq (h : e.millis.toNat < 1000) :
    e.pieces = [.ofList (decimal 2 e.hourPart.toNat), ":", .ofList (decimal 2 e.minutePart.toNat),
      ":", .ofList (decimal 2 e.secondPart.toNat), ".", .ofList (decimal 3 e.millis.toNat)] := by
  have htwo {n : Nat} (hn : n < 60) : padded 2 n = .ofList (decimal 2 n) :=
    padded_eq_decimal ((Nat.length_toDigits_le_iff (by decide) (by decide)).mpr (by omega))
  have hthree : padded 3 e.millis.toNat = .ofList (decimal 3 e.millis.toNat) :=
    padded_eq_decimal ((Nat.length_toDigits_le_iff (by decide) (by decide)).mpr h)
  have hhour : e.seconds.toNat / 3600 % 24 < 60 := by omega
  simp only [pieces, toNat_hourPart, toNat_minutePart, toNat_secondPart, UInt32.toNat_mod,
    UInt32.toNat_div, UInt32.reduceToNat, hthree, htwo hhour, htwo (Nat.mod_lt _ (by decide))]

theorem write_pieces (h : e.millis.toNat < 1000) :
    write "" e.pieces = (true, .ofList e.face) := by
  have hbytes : "".utf8ByteSize + bytes e.pieces ≤ room := by
    simp only [pieces_eq h, bytes, utf8ByteSize_decimal]
    decide
  rw [write_of_bytes_le hbytes, pieces_eq h]
  simp [face, String.append_assoc]

end Text

end NodeBus.Elapsed
