/-!
# The frame checksum

A 16-bit cyclic redundancy check in reflected form: each byte is added to the
low end of the register, which then takes eight shifts towards the low bit; a
bit that falls out adds the reflected generator `0x8408`.

`crc_append` says that a checksum can be computed piece by piece.
-/

namespace NodeBus.Checksum

/-- The generator `x¹⁶ + x¹² + x⁵ + 1` with its bits in reflected order. -/
def generator : UInt16 := 0x8408

/-- One shift of the register towards its low bit. -/
def shift (register : UInt16) : UInt16 :=
  if register &&& 1 = 0 then register >>> 1 else (register >>> 1) ^^^ generator

/-- `shift` taken `n` times. -/
def shifts : Nat → UInt16 → UInt16
  | 0, register => register
  | n + 1, register => shifts n (shift register)

/-- The register after one more byte. -/
def absorb (register : UInt16) (byte : UInt8) : UInt16 :=
  shifts 8 (register ^^^ byte.toUInt16)

/-- The checksum of `bytes`, continued from `start`; a fresh one starts at 0. -/
def crc (start : UInt16) (bytes : List UInt8) : UInt16 :=
  bytes.foldl absorb start

@[simp] theorem crc_nil (start : UInt16) : crc start [] = start := rfl

theorem crc_cons (start : UInt16) (b : UInt8) (bytes : List UInt8) :
    crc start (b :: bytes) = crc (absorb start b) bytes := rfl

/-- The checksum of a whole continues the checksum of its first part. -/
theorem crc_append (start : UInt16) (left right : List UInt8) :
    crc start (left ++ right) = crc (crc start left) right := by
  simp [crc, List.foldl_append]

end NodeBus.Checksum
