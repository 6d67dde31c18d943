import Mathlib
import NodeBus.Json.Writer

/-!
# Reading what was written

The reader of JSON texts undoes the writer on every value that a record is made of
(`ofText?_write`): each kind of text is read up to its last character, whatever comes behind it.
-/

namespace NodeBus

namespace Json

/-! ## Strings -/

theorem character?_toNat (c : Char) : Hexadecimal.character? c.toNat = some c :=
  dif_pos c.valid

theorem digit?_digitChar : ∀ d < 16, Hexadecimal.digit? d.digitChar = some d := by
  decide

theorem take?_digitChar {d e : Nat} (hd : d < 16) (he : e < 16) (rest : List Char) :
    Hexadecimal.take? 4 ('0' :: '0' :: d.digitChar :: e.digitChar :: rest) =
      some (16 * d + e, rest) := by
  have hzero : Hexadecimal.digit? '0' = some 0 := by decide
  simp [Hexadecimal.take?, Hexadecimal.number?, hzero, digit?_digitChar d hd, digit?_digitChar e he]

theorem numbered?_control {c : Char} (h : c < ' ') (rest : List Char) :
    numbered? ('0' :: '0' :: (c.toNat / 16).digitChar :: (c.toNat % 16).digitChar :: rest) =
      some (some c, rest) := by
  have hc : c.toNat < 32 := h
  have hnumber : 16 * (c.toNat / 16) + c.toNat % 16 = c.toNat := by omega
  have hhalf : ¬ (0xD800 ≤ c.toNat ∧ c.toNat < 0xDC00) := by omega
  simp [numbered?, take?_digitChar (by omega : c.toNat / 16 < 16)
    (by omega : c.toNat % 16 < 16), hnumber, hhalf, character?_toNat]

/-- What a string is if it begins with a character and goes on as read. -/
def before (c : Char) (read : Option (Option (List Char) × List Char)) :
    Option (Option (List Char) × List Char) :=
  read.map fun (cs, rest) => (cs.map (c :: ·), rest)

theorem string?_plain {c : Char} (hquote : c ≠ '\x22') (hslash : c ≠ '\x5c') (hc : ¬ c < ' ')
    (fuel : Nat) (rest : List Char) :
    string? (fuel + 1) (c :: rest) = before c (string? fuel rest) := by
  simp only [string?, hquote, hslash, hc, if_false, Option.bind_eq_bind, Option.bind_some]
  rcases string? fuel rest with _ | ⟨_ | cs, rest⟩ <;> rfl

theorem string?_sign {sign c : Char} (hu : sign ≠ 'u') (h : escaped? sign = some c)
    (fuel : Nat) (rest : List Char) :
    string? (fuel + 1) ('\x5c' :: sign :: rest) = before c (string? fuel rest) := by
  have hslash : ¬ ('\x5c' : Char) < ' ' := by decide
  simp only [string?, hslash, if_false, if_true, Char.reduceEq, h, Option.map_some,
    Option.bind_eq_bind, Option.bind_some]
  rcases string? fuel rest with _ | ⟨_ | cs, rest⟩ <;> rfl

theorem string?_number {c : Char} {digits rest : List Char}
    (h : numbered? digits = some (some c, rest)) (fuel : Nat) :
    string? (fuel + 1) ('\x5c' :: 'u' :: digits) = before c (string? fuel rest) := by
  have hslash : ¬ ('\x5c' : Char) < ' ' := by decide
  simp only [string?, hslash, if_false, if_true, Char.reduceEq, h, Option.bind_eq_bind,
    Option.bind_some]
  rcases string? fuel rest with _ | ⟨_ | cs, rest⟩ <;> rfl

/-- A character is read back from what it is written as. -/
theorem string?_escape (c : Char) (fuel : Nat) (rest : List Char) :
    string? (fuel + 1) (escape c ++ rest) = before c (string? fuel rest) := by
  unfold escape
  split_ifs with hsign hcontrol h h h h h
  · obtain rfl | rfl := hsign <;> exact string?_sign (by decide) rfl fuel rest
  · exact string?_sign (by decide) (h ▸ rfl) fuel rest
  · exact string?_sign (by decide) (h ▸ rfl) fuel rest
  · exact string?_sign (by decide) (h ▸ rfl) fuel rest
  · exact string?_sign (by decide) (h ▸ rfl) fuel rest
  · exact string?_sign (by decide) (h ▸ rfl) fuel rest
  · exact string?_number (numbered?_control hcontrol rest) fuel
  · exact string?_plain (fun h => hsign (.inl h)) (fun h => hsign (.inr h)) hcontrol fuel rest

theorem escape_ne_nil (c : Char) : escape c ≠ [] := by
  unfold escape
  split_ifs <;> exact List.cons_ne_nil _ _

theorem string?_behindQuote {s : List Char} {fuel : Nat} (h : s.length < fuel) (rest : List Char) :
    string? fuel (behindQuote s ++ rest) = some (some s, rest) := by
  -- A character takes one of the fuel, with however many it is written.
  induction s generalizing fuel with
  | nil =>
    obtain ⟨fuel, rfl⟩ := Nat.exists_eq_add_of_lt h
    simp [behindQuote, string?]
  | cons c s ih =>
    obtain ⟨fuel, rfl⟩ : ∃ k, fuel = k + 1 := ⟨fuel - 1, by grind⟩
    have hbehind : behindQuote (c :: s) ++ rest = escape c ++ (behindQuote s ++ rest) := by
      simp [behindQuote]
    rw [hbehind, string?_escape, ih (by simpa using h)]
    rfl

theorem length_lt_length_behindQuote (s : List Char) : s.length < (behindQuote s).length := by
  induction s with
  | nil => exact Nat.one_pos
  | cons c s ih =>
    have := List.length_pos_of_ne_nil (escape_ne_nil c)
    simp only [behindQuote, List.flatMap_cons, List.length_append, List.length_cons] at ih ⊢
    omega

theorem text?_behindQuote (s : String) (rest : List Char) :
    text? (behindQuote s.toList ++ rest) = some (some s, rest) := by
  have hfuel : s.toList.length < (behindQuote s.toList ++ rest).length + 1 := by
    have := length_lt_length_behindQuote s.toList
    rw [List.length_append]
    omega
  rw [text?, string?_behindQuote hfuel]
  simp

/-! ## Numbers -/

/-- A text that stands behind a value: it is empty, or begins with a sign that ends the value. -/
def Closed (rest : List Char) : Prop := ∀ c ∈ rest.head?, c = ',' ∨ c = ']' ∨ c = '\x7d'

theorem closed_nil : Closed [] := by
  intro c hc
  cases hc

theorem closed_cons {c : Char} (h : c = ',' ∨ c = ']' ∨ c = '\x7d') (rest : List Char) :
    Closed (c :: rest) := by
  rintro _ ⟨⟩
  exact h

theorem digits?_toDigits (n : Nat) {rest : List Char} (h : Closed rest) :
    digits? (Nat.toDigits 10 n ++ rest) = some (Nat.toDigits 10 n, rest) := by
  have hdigits : ∀ c ∈ Nat.toDigits 10 n, c.isDigit :=
    fun c hc => Nat.isDigit_of_mem_toDigits (by decide) (by decide) hc
  have hend : rest.takeWhile Char.isDigit = [] ∧ rest.dropWhile Char.isDigit = rest := by
    cases rest with
    | nil => exact ⟨rfl, rfl⟩
    | cons c rest => obtain rfl | rfl | rfl := h c rfl <;> exact ⟨rfl, rfl⟩
  have htake : (Nat.toDigits 10 n ++ rest).takeWhile Char.isDigit = Nat.toDigits 10 n := by
    rw [List.takeWhile_append_of_pos hdigits, hend.1, List.append_nil]
  have hdrop : (Nat.toDigits 10 n ++ rest).dropWhile Char.isDigit = rest := by
    rw [List.dropWhile_append_of_pos hdigits, hend.2]
  unfold digits?
  rw [htake, hdrop]
  cases hn : Nat.toDigits 10 n with
  | nil => exact absurd hn Nat.toDigits_ne_nil
  | cons d ds => rfl

/-- Only zero begins with a zero. -/
theorem head?_toDigits_ne {n : Nat} (h : 0 < n) : (Nat.toDigits 10 n).head? ≠ some '0' := by
  induction n using Nat.strongRecOn with
  | ind n ih =>
    rcases Nat.lt_or_ge n 10 with hn | hn
    · rw [Nat.toDigits_of_lt_base hn]
      exact fun hzero => absurd (Option.some.inj hzero) (by clear ih; interval_cases n <;> decide)
    · -- The digits in front of the last one are those of the tenth part.
      rw [Nat.toDigits_of_base_le (by decide) hn, List.head?_append_of_ne_nil _ Nat.toDigits_ne_nil]
      exact ih (n / 10) (by omega) (by omega)

theorem whole?_toDigits (n : Nat) {rest : List Char} (h : Closed rest) :
    whole? (Nat.toDigits 10 n ++ rest) = some (Nat.toDigits 10 n, rest) := by
  rw [whole?, digits?_toDigits n h]
  split
  case h_1 d ds _ heq =>
    -- a zero with digits behind it
    have hdigits : Nat.toDigits 10 n = '0' :: d :: ds := (Prod.mk.inj (Option.some.inj heq)).1
    rcases Nat.eq_zero_or_pos n with rfl | hn
    · cases hdigits
    · exact absurd (congrArg List.head? hdigits) (head?_toDigits_ne hn)
  case h_2 => rfl

theorem fraction?_closed {rest : List Char} (h : Closed rest) : fraction? rest = some rest := by
  cases rest with
  | nil => rfl
  | cons c rest => obtain rfl | rfl | rfl := h c rfl <;> rfl

theorem exponent?_closed {rest : List Char} (h : Closed rest) : exponent? rest = some rest := by
  cases rest with
  | nil => rfl
  | cons c rest => obtain rfl | rfl | rfl := h c rfl <;> rfl

theorem foldl_toDigits (n : Nat) :
    (Nat.toDigits 10 n).foldl (fun n c => 10 * n + (c.toNat - 48)) 0 = n :=
  Nat.ofDigitChars_ten_toDigits

theorem exists_toDigits_eq_cons (n : Nat) :
    ∃ d ds, d.isDigit ∧ Nat.toDigits 10 n = d :: ds := by
  obtain ⟨d, ds, hds⟩ := List.exists_cons_of_ne_nil (Nat.toDigits_ne_nil (b := 10) (n := n))
  exact ⟨d, ds, Nat.isDigit_of_mem_toDigits (by decide) (by decide) (hds ▸ List.mem_cons_self), hds⟩

theorem minus_decimal (i : Int) (rest : List Char) :
    minus (decimal i ++ rest) = (decide (i < 0), Nat.toDigits 10 i.natAbs ++ rest) := by
  unfold decimal
  split
  case isTrue hi => simp [minus, hi]
  case isFalse hi =>
    obtain ⟨d, ds, hd, hds⟩ := exists_toDigits_eq_cons i.natAbs
    have hne : d ≠ '-' := by
      rintro rfl
      exact absurd hd (by decide)
    simp [minus, hi, hds, hne]

theorem number?_decimal (i : Int) {rest : List Char} (h : Closed rest) :
    number? (decimal i ++ rest) = some (.integer i, rest) := by
  simp only [number?, minus_decimal, whole?_toDigits _ h, fraction?_closed h, exponent?_closed h,
    foldl_toDigits, Option.bind_eq_bind, Option.bind_some]
  by_cases hi : i < 0
  · have hn : i.natAbs ≠ 0 := by omega
    have hneg : -(i.natAbs : Int) = i := by omega
    simp only [hi, hneg]
    rw [if_pos ⟨trivial, .inr hn⟩]
    rfl
  · have hpos : (i.natAbs : Int) = i := by omega
    simp only [hi, hpos]
    rfl

/-! ## Values -/

/-- A value of the kinds records are made of: every number in it is an integer, every string in it
has a value. -/
inductive Plain : Json → Prop
  | null : Plain .null
  | boolean (b : Bool) : Plain (.boolean b)
  | integer (i : Int) : Plain (.integer i)
  | text (s : String) : Plain (.text (some s))
  | list {items : List Json} (plain : ∀ v ∈ items, Plain v) : Plain (.list items)
  | object {fields : List (Option String × Json)} (named : ∀ f ∈ fields, f.1.isSome)
      (plain : ∀ f ∈ fields, Plain f.2) : Plain (.object fields)

/-- A value is read back from its text, with fuel for each character of it. -/
def ReadBack (j : Json) : Prop :=
  ∀ ⦃fuel rest⦄, j.chars.length ≤ fuel → Closed rest →
    value? fuel (j.chars ++ rest) = some (j, rest)

theorem skipSpace_cons {c : Char} (h : c ∉ [' ', '\n', '\t', '\r']) (s : List Char) :
    skipSpace (c :: s) = c :: s := by
  simp only [List.mem_cons, List.not_mem_nil, or_false, not_or] at h
  simp [skipSpace, h]

/-- A character that a number can begin with. -/
def Numeric (c : Char) : Prop := c = '-' ∨ c.isDigit

theorem Numeric.not_mem {c : Char} (h : Numeric c) {s : List Char} (hs : ∀ d ∈ s, ¬ Numeric d) :
    c ∉ s :=
  fun hc => hs c hc h

theorem decimal_eq_cons (i : Int) : ∃ c s, Numeric c ∧ decimal i = c :: s := by
  unfold decimal
  split
  case isTrue => exact ⟨_, _, .inl rfl, rfl⟩
  case isFalse =>
    obtain ⟨d, ds, hd, hds⟩ := exists_toDigits_eq_cons i.natAbs
    exact ⟨d, ds, .inr hd, hds⟩

theorem value?_decimal (i : Int) (fuel : Nat) (rest : List Char) :
    value? (fuel + 1) (decimal i ++ rest) = number? (decimal i ++ rest) := by
  obtain ⟨c, s, hc, hs⟩ := decimal_eq_cons i
  have hne : c ∉ ['n', 't', 'f', '\x22', '[', '\x7b'] := hc.not_mem (by simp [Numeric])
  simp only [List.mem_cons, List.not_mem_nil, or_false, not_or] at hne
  rw [hs, List.cons_append, value?, skipSpace_cons (hc.not_mem (by simp [Numeric]))]
  simp [hne]

theorem chars_eq_cons {j : Json} (h : j.Plain) :
    ∃ c s, c ∉ [' ', '\n', '\t', '\r', ']'] ∧ j.chars = c :: s := by
  cases h with
  | null => exact ⟨_, _, by decide, rfl⟩
  | boolean b => cases b <;> exact ⟨_, _, by decide, rfl⟩
  | integer i =>
    obtain ⟨c, s, hc, hs⟩ := decimal_eq_cons i
    exact ⟨c, s, hc.not_mem (by simp [Numeric]), by rw [chars, hs]⟩
  | text s => exact ⟨'\x22', _, by decide, by rw [chars, quoted]⟩
  | list => exact ⟨'[', _, by decide, by rw [chars]⟩
  | object => exact ⟨'\x7b', _, by decide, by rw [chars]⟩

theorem items?_last {v : Json} (h : ReadBack v) {fuel : Nat} (hfuel : v.chars.length ≤ fuel)
    (rest : List Char) : items? (fuel + 1) (v.chars ++ ']' :: rest) = some ([v], rest) := by
  rw [items?, h hfuel (closed_cons (by decide) rest)]
  rfl

theorem items?_more {v : Json} (h : ReadBack v) {fuel : Nat} (hfuel : v.chars.length ≤ fuel)
    {behind rest : List Char} {items : List Json}
    (hmore : items? fuel behind = some (items, rest)) :
    items? (fuel + 1) (v.chars ++ ',' :: behind) = some (v :: items, rest) := by
  rw [items?, h hfuel (closed_cons (by decide) behind)]
  simp only [Option.bind_eq_bind, Option.bind_some, skipSpace_cons (c := ',') (by decide), hmore]
  rfl

/-- The items of a list are read back if each of them is. -/
theorem items?_itemChars {items : List Json} (hne : items ≠ []) (h : ∀ v ∈ items, ReadBack v)
    {fuel : Nat} (hfuel : (itemChars items).length ≤ fuel) (rest : List Char) :
    items? fuel (itemChars items ++ rest) = some (items, rest) := by
  induction items generalizing fuel with
  | nil => exact absurd rfl hne
  | cons v items ih =>
    have hv : ReadBack v := h v List.mem_cons_self
    cases items with
    | nil =>
      simp only [itemChars, List.length_append, List.length_cons, List.length_nil] at hfuel
      obtain ⟨fuel, rfl⟩ : ∃ k, fuel = k + 1 := ⟨fuel - 1, by omega⟩
      simpa [itemChars] using items?_last hv (by omega) rest
    | cons w items =>
      simp only [itemChars, List.length_append, List.length_cons] at hfuel
      obtain ⟨fuel, rfl⟩ : ∃ k, fuel = k + 1 := ⟨fuel - 1, by omega⟩
      have hmore : items? fuel (itemChars (w :: items) ++ rest) = some (w :: items, rest) :=
        ih (List.cons_ne_nil w items) (fun v hv => h v (List.mem_cons_of_mem _ hv)) (by omega)
      simpa [itemChars] using items?_more hv (by omega) hmore

theorem fields?_last (name : String) {v : Json} (h : ReadBack v) {fuel : Nat}
    (hfuel : v.chars.length ≤ fuel) (rest : List Char) :
    fields? (fuel + 1) (quoted (some name) ++ ':' :: (v.chars ++ '\x7d' :: rest)) =
      some ([(some name, v)], rest) := by
  have hv := h hfuel (closed_cons (by decide) rest : Closed ('\x7d' :: rest))
  rw [fields?, quoted, List.cons_append]
  simp only [skipSpace_cons (c := '\x22') (by decide), skipSpace_cons (c := ':') (by decide),
    Option.getD_some, text?_behindQuote, hv, Option.bind_eq_bind, Option.bind_some]
  rfl

theorem fields?_more (name : String) {v : Json} (h : ReadBack v) {fuel : Nat}
    (hfuel : v.chars.length ≤ fuel) {behind rest : List Char}
    {fields : List (Option String × Json)} (hmore : fields? fuel behind = some (fields, rest)) :
    fields? (fuel + 1) (quoted (some name) ++ ':' :: (v.chars ++ ',' :: behind)) =
      some ((some name, v) :: fields, rest) := by
  have hv := h hfuel (closed_cons (by decide) behind : Closed (',' :: behind))
  rw [fields?, quoted, List.cons_append]
  simp only [skipSpace_cons (c := '\x22') (by decide), skipSpace_cons (c := ':') (by decide),
    skipSpace_cons (c := ',') (by decide), Option.getD_some, text?_behindQuote, hv, hmore,
    Option.bind_eq_bind, Option.bind_some]
  rfl

/-- The fields of an object are read back if each has a name, and a value that is read back. -/
theorem fields?_fieldChars {fields : List (Option String × Json)} (hne : fields ≠ [])
    (hnamed : ∀ f ∈ fields, f.1.isSome) (h : ∀ f ∈ fields, ReadBack f.2)
    {fuel : Nat} (hfuel : (fieldChars fields).length ≤ fuel) (rest : List Char) :
    fields? fuel (fieldChars fields ++ rest) = some (fields, rest) := by
  induction fields generalizing fuel with
  | nil => exact absurd rfl hne
  | cons f fields ih =>
    obtain ⟨name, v⟩ := f
    obtain ⟨name, rfl⟩ := Option.isSome_iff_exists.mp (hnamed _ List.mem_cons_self)
    have hv : ReadBack v := h _ List.mem_cons_self
    cases fields with
    | nil =>
      simp only [fieldChars, List.length_append, List.length_cons, List.length_nil] at hfuel
      obtain ⟨fuel, rfl⟩ : ∃ k, fuel = k + 1 := ⟨fuel - 1, by omega⟩
      simpa [fieldChars] using fields?_last name hv (by omega) rest
    | cons g fields =>
      simp only [fieldChars, List.length_append, List.length_cons] at hfuel
      obtain ⟨fuel, rfl⟩ : ∃ k, fuel = k + 1 := ⟨fuel - 1, by omega⟩
      have hmore : fields? fuel (fieldChars (g :: fields) ++ rest) = some (g :: fields, rest) :=
        ih (List.cons_ne_nil g fields) (fun f hf => hnamed f (List.mem_cons_of_mem _ hf))
          (fun f hf => h f (List.mem_cons_of_mem _ hf)) (by omega)
      simpa [fieldChars] using fields?_more name hv (by omega) hmore

theorem Plain.readBack_of_succ {j : Json} (hj : j.Plain)
    (h : ∀ ⦃fuel rest⦄, j.chars.length ≤ fuel + 1 → Closed rest →
      value? (fuel + 1) (j.chars ++ rest) = some (j, rest)) : j.ReadBack := by
  intro fuel rest hfuel hrest
  obtain ⟨c, s, -, hs⟩ := chars_eq_cons hj
  have hpos : 0 < j.chars.length := by simp [hs]
  obtain ⟨fuel, rfl⟩ : ∃ k, fuel = k + 1 := ⟨fuel - 1, by omega⟩
  exact h hfuel hrest

theorem value?_quoted (s : String) (fuel : Nat) (rest : List Char) :
    value? (fuel + 1) (quoted (some s) ++ rest) = some (.text (some s), rest) := by
  rw [quoted, List.cons_append, value?, skipSpace_cons (by decide)]
  simp [text?_behindQuote]

theorem value?_list {items : List Json} (hplain : ∀ v ∈ items, Plain v)
    (h : ∀ v ∈ items, ReadBack v) {fuel : Nat} (hfuel : (itemChars items).length ≤ fuel)
    (rest : List Char) :
    value? (fuel + 1) ('[' :: (itemChars items ++ rest)) = some (.list items, rest) := by
  rw [value?, skipSpace_cons (by decide)]
  cases items with
  | nil => simp [itemChars, skipSpace_cons (c := ']') (by decide)]
  | cons v items =>
    have hitems := items?_itemChars (List.cons_ne_nil v items) h hfuel rest
    -- The reader looks first whether the list is closed at once. No item begins like that.
    obtain ⟨c, s, hc, hs⟩ := chars_eq_cons (hplain v List.mem_cons_self)
    obtain ⟨s', hs'⟩ : ∃ s', itemChars (v :: items) ++ rest = c :: s' := by
      cases items <;> exact ⟨_, by rw [itemChars, hs]; rfl⟩
    rw [hs'] at hitems ⊢
    simp only [List.mem_cons, List.not_mem_nil, or_false, not_or] at hc
    simp only [skipSpace_cons (c := c) (by simp [hc])]
    simp [hc, hitems]

theorem value?_object {fields : List (Option String × Json)} (hnamed : ∀ f ∈ fields, f.1.isSome)
    (h : ∀ f ∈ fields, ReadBack f.2) {fuel : Nat} (hfuel : (fieldChars fields).length ≤ fuel)
    (rest : List Char) :
    value? (fuel + 1) ('\x7b' :: (fieldChars fields ++ rest)) = some (.object fields, rest) := by
  rw [value?, skipSpace_cons (by decide)]
  cases fields with
  | nil => simp [fieldChars, skipSpace_cons (c := '\x7d') (by decide)]
  | cons f fields =>
    have hfields := fields?_fieldChars (List.cons_ne_nil f fields) hnamed h hfuel rest
    obtain ⟨s', hs'⟩ : ∃ s', fieldChars (f :: fields) ++ rest = '\x22' :: s' := by
      cases fields <;> exact ⟨_, by rw [fieldChars, quoted]; rfl⟩
    rw [hs'] at hfields ⊢
    simp only [skipSpace_cons (c := '\x22') (by decide)]
    simp [hfields]

/-- Every value that a record is made of is read back: the first character of its text says of
which kind it is, and there is one case for each kind. -/
theorem Plain.readBack {j : Json} (h : j.Plain) : j.ReadBack := by
  induction h with
  | null => exact Plain.null.readBack_of_succ fun _ _ _ _ => rfl
  | boolean b => exact (Plain.boolean b).readBack_of_succ fun _ _ _ _ => by cases b <;> rfl
  | integer i =>
    refine (Plain.integer i).readBack_of_succ fun fuel rest _ hrest => ?_
    rw [chars, value?_decimal, number?_decimal i hrest]
  | text s =>
    refine (Plain.text s).readBack_of_succ fun fuel rest _ _ => ?_
    rw [chars, value?_quoted]
  | list plain ih =>
    refine (Plain.list plain).readBack_of_succ fun fuel rest hfuel _ => ?_
    simp only [chars, List.length_cons] at hfuel
    rw [chars, List.cons_append, value?_list plain ih (by omega)]
  | object named plain ih =>
    refine (Plain.object named plain).readBack_of_succ fun fuel rest hfuel _ => ?_
    simp only [chars, List.length_cons] at hfuel
    rw [chars, List.cons_append, value?_object named ih (by omega)]

/-- What is written is read back. -/
theorem ofText?_write {j : Json} (h : j.Plain) : ofText? j.write = some j := by
  have hread : value? (2 * j.chars.length + 1) (j.chars ++ []) = some (j, []) :=
    h.readBack (by omega) closed_nil
  rw [List.append_nil] at hread
  simp only [ofText?, write, String.length_ofList, String.toList_ofList, hread]
  rfl

theorem write_injective {j k : Json} (hj : j.Plain) (hk : k.Plain) (h : j.write = k.write) :
    j = k := by
  rw [← Option.some_inj, ← ofText?_write hj, h, ofText?_write hk]

end Json

end NodeBus
