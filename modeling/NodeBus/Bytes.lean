/-!
# Bytes on the wire

Words travel low byte first. `ofWord16` and `word16` are inverse to each other.
`overwrite` puts bytes into a buffer; `hex` is the lowercase text of a byte string
used in log lines.
-/

namespace NodeBus.Bytes

/-! ## Little-endian words -/

/-- The two bytes of a 16-bit word, low byte first. -/
def ofWord16 (w : UInt16) : List UInt8 :=
  [.ofNat w.toNat, .ofNat (w.toNat / 256)]

/-- The 16-bit word whose low byte comes first. -/
def word16 (low high : UInt8) : UInt16 := .ofNat (low.toNat + 256 * high.toNat)

/-- The four bytes of a 32-bit word, low byte first. -/
def ofWord32 (w : UInt32) : List UInt8 :=
  [.ofNat w.toNat, .ofNat (w.toNat / 256), .ofNat (w.toNat / 65536),
    .ofNat (w.toNat / 16777216)]

@[simp] theorem length_ofWord16 (w : UInt16) : (ofWord16 w).length = 2 := rfl

@[simp] theorem length_ofWord32 (w : UInt32) : (ofWord32 w).length = 4 := rfl

theorem toNat_word16 (low high : UInt8) :
    (word16 low high).toNat = low.toNat + 256 * high.toNat := by
  have := low.toNat_lt
  have := high.toNat_lt
  simp only [word16, UInt16.toNat_ofNat']
  omega

/-- Two bytes are written back from their word. -/
theorem ofWord16_word16 (low high : UInt8) : ofWord16 (word16 low high) = [low, high] := by
  have := low.toNat_lt
  have := high.toNat_lt
  simp only [ofWord16, toNat_word16, List.cons.injEq, and_true, ← UInt8.toNat_inj,
    UInt8.toNat_ofNat']
  omega

/-- A word is read back from its two bytes. -/
theorem word16_of_ofWord16 {w : UInt16} {low high : UInt8} (h : ofWord16 w = [low, high]) :
    word16 low high = w := by
  have := w.toNat_lt
  simp only [ofWord16, List.cons.injEq, and_true] at h
  obtain ⟨rfl, rfl⟩ := h
  simp only [← UInt16.toNat_inj, toNat_word16, UInt8.toNat_ofNat']
  omega

theorem ofWord16_inj {v w : UInt16} : ofWord16 v = ofWord16 w ↔ v = w := by
  constructor
  · intro h
    rw [← word16_of_ofWord16 h, word16_of_ofWord16 rfl]
  · rintro rfl
    rfl

/-! ## Buffers -/

/-- A buffer with bytes put over what was there from `place` on. -/
def overwrite (buffer : List UInt8) (place : Nat) (bytes : List UInt8) : List UInt8 :=
  buffer.take place ++ (bytes ++ buffer.drop (place + bytes.length))

/-- What is put behind the front of a buffer makes its front longer. -/
theorem overwrite_front {front : List UInt8} {place : Nat} (h : front.length = place)
    (bytes rest : List UInt8) :
    overwrite (front ++ rest) place bytes = (front ++ bytes) ++ rest.drop bytes.length := by
  subst h
  rw [overwrite, List.take_left, List.drop_append, List.drop_eq_nil_of_le (by omega),
    Nat.add_sub_cancel_left, List.nil_append, List.append_assoc]

/-! ## Hexadecimal text -/

/-- The lowercase hexadecimal digit of a number below sixteen. -/
def hexDigit (n : UInt8) : Char :=
  if n < 10 then Char.ofNat (48 + n.toNat) else Char.ofNat (87 + n.toNat)

/-- Two lowercase hexadecimal digits per byte, high digit first. -/
def hex (bytes : List UInt8) : String :=
  String.ofList (bytes.flatMap fun (b : UInt8) => [hexDigit (b >>> 4), hexDigit (b &&& 15)])

end NodeBus.Bytes
