import NodeBus.Proofs.Frame.Codec

/-!
# Checked access

`decode?` reads a frame as `decode` does, byte by byte from memory: each index, each range and each
sum is checked, and there is no answer where one is out of range. There always is one
(`decode?_eq`).
-/

namespace NodeBus

/-! ## Access -/

namespace Bytes

/-- The bytes from one place up to another. -/
def slice? (s : List UInt8) (start stop : Nat) : Option (List UInt8) :=
  if start ≤ stop ∧ stop ≤ s.length then some ((s.take stop).drop start) else none

/-- Put bytes over the first `stop` ones, which are to be as many. -/
def copy? (s : List UInt8) (stop : Nat) (bytes : List UInt8) : Option (List UInt8) := do
  let place ← slice? s 0 stop
  if place.length = bytes.length then some (overwrite s 0 bytes) else none

/-- A sum, as a word of 32 bits. -/
def sum? (m n : Nat) : Option Nat := if m + n < 4294967296 then some (m + n) else none

def difference? (m n : Nat) : Option Nat := if n ≤ m then some (m - n) else none

theorem slice?_of_le {s : List UInt8} {start stop : Nat} (hstart : start ≤ stop)
    (hstop : stop ≤ s.length) : slice? s start stop = some ((s.take stop).drop start) :=
  if_pos ⟨hstart, hstop⟩

theorem copy?_of_le {s bytes : List UInt8} (h : bytes.length ≤ s.length) :
    copy? s bytes.length bytes = some (overwrite s 0 bytes) := by
  rw [copy?, slice?_of_le (Nat.zero_le _) h]
  exact if_pos (List.length_take_of_le h)

theorem ofWord16_eq_iff {w : UInt16} {low high : UInt8} :
    ofWord16 w = [low, high] ↔ w = word16 low high :=
  ⟨fun h => (word16_of_ofWord16 h).symm, fun h => h ▸ ofWord16_word16 low high⟩

end Bytes

namespace Frame

open Bytes (slice? sum?)

/-! ## A complete frame -/

def decode? (s : List UInt8) : Option (Except Error Frame) := do
  if s.length < overhead then return .error .truncated
  if (← slice? s 0 2) ≠ [magic₀, magic₁] then return .error .badMagic
  if (← s[2]?) ≠ version then return .error .unsupportedVersion
  let length := (Bytes.word16 (← s[5]?) (← s[6]?)).toNat
  if (← sum? length overhead) ≠ s.length then return .error .lengthMismatch
  let checksumPlace ← sum? headerSize length
  let expected := Checksum.crc 0 (← slice? s 0 checksumPlace)
  let received := Bytes.word16 (← s[checksumPlace]?) (← s[checksumPlace + 1]?)
  if expected ≠ received then return .error .checksumMismatch
  return .ok ⟨← s[3]?, ← s[4]?, ← slice? s headerSize checksumPlace⟩

/-- Whatever length is stated, a word has room for all places of the frame. -/
theorem sum?_overhead (low high : UInt8) :
    sum? (Bytes.word16 low high).toNat overhead =
      some ((Bytes.word16 low high).toNat + overhead) := by
  have := (Bytes.word16 low high).toNat_lt
  exact if_pos (by simp only [overhead, headerSize, checksumSize]; omega)

theorem sum?_headerSize (low high : UInt8) :
    sum? headerSize (Bytes.word16 low high).toNat =
      some (headerSize + (Bytes.word16 low high).toNat) := by
  have := (Bytes.word16 low high).toNat_lt
  exact if_pos (by simp only [headerSize]; omega)

/-- What is read off a frame behind its header. -/
theorem accesses_of_payload (m₀ m₁ v flags stream l₀ l₁ c₀ c₁ : UInt8) (payload : List UInt8) :
    let s := m₀ :: m₁ :: v :: flags :: stream :: l₀ :: l₁ :: (payload ++ [c₀, c₁])
    let place := headerSize + payload.length
    slice? s 0 place = some (s.take place) ∧ s[place]? = some c₀ ∧ s[place + 1]? = some c₁ ∧
      slice? s headerSize place = some payload := by
  intro s place
  have hplace : place = payload.length + 7 := Nat.add_comm ..
  have hsize : place ≤ s.length := by simp [s, hplace]
  refine ⟨?_, ?_, ?_, ?_⟩
  · rw [Bytes.slice?_of_le (Nat.zero_le _) hsize, List.drop_zero]
  · simp [s, hplace]
  · simp [s, hplace]
  · rw [Bytes.slice?_of_le (Nat.le_add_right ..) hsize, List.drop_take, Nat.add_sub_cancel_left]
    exact congrArg some List.take_left

theorem decode?_eq (s : List UInt8) : decode? s = some (decode s) := by
  match s with
  | [] | [_] | [_, _] | [_, _, _] | [_, _, _, _] | [_, _, _, _, _] | [_, _, _, _, _, _] => rfl
  | m₀ :: m₁ :: v :: flags :: stream :: l₀ :: l₁ :: rest =>
    have hsize : (m₀ :: m₁ :: v :: flags :: stream :: l₀ :: l₁ :: rest).length =
        headerSize + rest.length := Nat.add_comm rest.length 7
    have hmagic : slice? (m₀ :: m₁ :: v :: flags :: stream :: l₀ :: l₁ :: rest) 0 2 =
        some [m₀, m₁] := Bytes.slice?_of_le (Nat.zero_le 2) (by simp)
    have hversion : (m₀ :: m₁ :: v :: flags :: stream :: l₀ :: l₁ :: rest)[2]? = some v := rfl
    have hflags : (m₀ :: m₁ :: v :: flags :: stream :: l₀ :: l₁ :: rest)[3]? = some flags := rfl
    have hstream : (m₀ :: m₁ :: v :: flags :: stream :: l₀ :: l₁ :: rest)[4]? = some stream := rfl
    have hlow : (m₀ :: m₁ :: v :: flags :: stream :: l₀ :: l₁ :: rest)[5]? = some l₀ := rfl
    have hhigh : (m₀ :: m₁ :: v :: flags :: stream :: l₀ :: l₁ :: rest)[6]? = some l₁ := rfl
    -- The conditions are those of `decode`, which counts the bytes behind the header.
    have hshort : headerSize + rest.length < overhead ↔ rest.length < checksumSize :=
      Nat.add_lt_add_iff_left
    have hfront : [m₀, m₁] ≠ [magic₀, magic₁] ↔ m₀ ≠ magic₀ ∨ m₁ ≠ magic₁ := by
      simp only [ne_eq, List.cons.injEq, and_true, Decidable.not_and_iff_not_or_not]
    have hlength (length : Nat) :
        length + overhead ≠ headerSize + rest.length ↔ length + checksumSize ≠ rest.length := by
      simp only [overhead]
      omega
    simp only [decode?, decode, hsize, hmagic, hversion, hflags, hstream, hlow, hhigh,
      sum?_overhead, sum?_headerSize, hshort, hfront, hlength, Option.bind_eq_bind,
      Option.bind_some, Option.pure_def]
    generalize (Bytes.word16 l₀ l₁).toNat = length
    by_cases hcount : rest.length < checksumSize
    · rw [if_pos hcount, if_pos hcount]
    rw [if_neg hcount, if_neg hcount]
    by_cases hnoise : m₀ ≠ magic₀ ∨ m₁ ≠ magic₁
    · rw [if_pos hnoise, if_pos hnoise]
    rw [if_neg hnoise, if_neg hnoise]
    by_cases hother : v ≠ version
    · rw [if_pos hother, if_pos hother]
    rw [if_neg hother, if_neg hother]
    by_cases hmismatch : length + checksumSize ≠ rest.length
    · rw [if_pos hmismatch, if_pos hmismatch]
    rw [if_neg hmismatch, if_neg hmismatch]
    obtain ⟨payload, c₀, c₁, rfl, rfl⟩ := exists_checksum (Decidable.not_not.mp hmismatch)
    obtain ⟨hcovered, hc₀, hc₁, hpayload⟩ :=
      accesses_of_payload m₀ m₁ v flags stream l₀ l₁ c₀ c₁ payload
    simp only [hcovered, hc₀, hc₁, hpayload, Option.bind_some, List.drop_left, List.take_left,
      ne_eq, Bytes.ofWord16_eq_iff, apply_ite some]

end Frame

end NodeBus
