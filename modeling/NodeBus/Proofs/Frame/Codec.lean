import NodeBus.Frame

/-!
# One wire form for each frame

`decode` and `bytes` are inverse to each other: `decode` accepts a byte string
exactly if it is the wire form of a frame whose payload the length field can
state, and answers with that frame. What passes the checks before that of the
checksum (`Headed`) is a header and a payload in front of some word, and
`decode_body` says what becomes of it. `write_of_fits` carries this over to
buffers, and `write_decode_inverse` is the statement for both directions.
-/

namespace NodeBus.Frame

/-! ## Headers -/

theorem header_of_getElem? {m₀ m₁ v low high : UInt8} {s : List UInt8}
    (hv : (m₀ :: m₁ :: s)[2]? = some v) (hlow : (m₀ :: m₁ :: s)[5]? = some low)
    (hhigh : (m₀ :: m₁ :: s)[6]? = some high) :
    ∃ flags stream rest, s = v :: flags :: stream :: low :: high :: rest := by
  match s with
  | v' :: flags :: stream :: low' :: high' :: rest =>
    cases hv
    cases hlow
    cases hhigh
    exact ⟨flags, stream, rest, rfl⟩
  | [] | [_] | [_, _] | [_, _, _] | [_, _, _, _] => cases hhigh

/-- Behind the payload stands the checksum. -/
theorem exists_checksum {length : Nat} {rest : List UInt8}
    (h : length + checksumSize = rest.length) :
    ∃ payload c₀ c₁, rest = payload ++ [c₀, c₁] ∧ payload.length = length := by
  have htail : (rest.drop length).length = 2 := by
    rw [List.length_drop, ← h]
    exact Nat.add_sub_cancel_left ..
  rcases hs : rest.drop length with _ | ⟨c₀, _ | ⟨c₁, _ | _⟩⟩
  · simp [hs] at htail
  · simp [hs] at htail
  · exact ⟨rest.take length, c₀, c₁, hs ▸ (List.take_append_drop ..).symm,
      List.length_take_of_le (by omega)⟩
  · simp [hs] at htail

/-- What is asked of a byte string before its checksum, in wire order. -/
structure Headed (s : List UInt8) : Prop where
  size : overhead ≤ s.length
  magic : s.take 2 = [magic₀, magic₁]
  version : s[2]? = some version
  length : ∃ low high, s[5]? = some low ∧ s[6]? = some high ∧
    (Bytes.word16 low high).toNat + overhead = s.length

theorem headed_of_header {flags stream low high : UInt8} {rest : List UInt8}
    (h : (Bytes.word16 low high).toNat + checksumSize = rest.length) :
    Headed (magic₀ :: magic₁ :: version :: flags :: stream :: low :: high :: rest) := by
  have hsize : (magic₀ :: magic₁ :: version :: flags :: stream :: low :: high :: rest).length =
      (Bytes.word16 low high).toNat + overhead := by
    simp only [List.length_cons, overhead, headerSize]
    omega
  exact ⟨by omega, rfl, rfl, low, high, rfl, rfl, hsize.symm⟩

/-- The header and the payload of a frame, and then some word. -/
theorem Headed.exists_body {s : List UInt8} (h : Headed s) :
    ∃ (f : Frame) (w : UInt16),
      f.payload.length ≤ maxPayload ∧ s = f.body ++ Bytes.ofWord16 w := by
  obtain ⟨low, high, hlow, hhigh, hlength⟩ := h.length
  have hversion := h.version
  obtain ⟨tail, rfl⟩ : ∃ tail, s = magic₀ :: magic₁ :: tail :=
    ⟨s.drop 2, (List.take_append_drop 2 s).symm.trans (by rw [h.magic]; rfl)⟩
  obtain ⟨flags, stream, rest, rfl⟩ := header_of_getElem? hversion hlow hhigh
  have hrest : (Bytes.word16 low high).toNat + checksumSize = rest.length := by
    simp only [overhead, headerSize, List.length_cons] at hlength
    omega
  obtain ⟨payload, c₀, c₁, rfl, hpayload⟩ := exists_checksum hrest
  refine ⟨⟨flags, stream, payload⟩, Bytes.word16 c₀ c₁, ?_, ?_⟩
  · have := (Bytes.word16 low high).toNat_lt
    simp only [hpayload, maxPayload]
    omega
  · -- Both words are written back from their bytes.
    simp only [body, hpayload, UInt16.ofNat_toNat, Bytes.ofWord16_word16]
    rfl

/-! ## Reading what was written -/

/-- The length field states the length of every payload that it has room for. -/
theorem toNat_lengthField {n : Nat} (h : n ≤ maxPayload) : (UInt16.ofNat n).toNat = n := by
  simp only [maxPayload] at h
  rw [UInt16.toNat_ofNat']
  exact Nat.mod_eq_of_lt (by omega)

/-- A header and a payload are accepted in front of their checksum only. -/
theorem decode_body {f : Frame} (h : f.payload.length ≤ maxPayload) (w : UInt16) :
    decode (f.body ++ Bytes.ofWord16 w) =
      if Checksum.crc 0 f.body = w then .ok f else .error .checksumMismatch := by
  have hlength : (Bytes.word16 (.ofNat (UInt16.ofNat f.payload.length).toNat)
      (.ofNat ((UInt16.ofNat f.payload.length).toNat / 256))).toNat = f.payload.length := by
    rw [Bytes.word16_of_ofWord16 (w := UInt16.ofNat f.payload.length) rfl]
    exact toNat_lengthField h
  have htake : (f.body ++ Bytes.ofWord16 w).take (headerSize + f.payload.length) = f.body := by
    rw [← length_body, List.take_left]
  have hread : f.body ++ Bytes.ofWord16 w = magic₀ :: magic₁ :: version :: f.flags :: f.stream ::
      .ofNat (UInt16.ofNat f.payload.length).toNat ::
      .ofNat ((UInt16.ofNat f.payload.length).toNat / 256) ::
      (f.payload ++ Bytes.ofWord16 w) := rfl
  rw [hread] at htake ⊢
  rw [decode, if_neg (by simp [checksumSize]), if_neg (by simp), if_neg (by simp)]
  dsimp only
  rw [hlength, if_neg (by simp [checksumSize]), htake, List.drop_left, List.take_left]
  simp only [ne_eq, ite_not, Bytes.ofWord16_inj]

theorem decode_bytes {f : Frame} (h : f.payload.length ≤ maxPayload) :
    decode f.bytes = .ok f := by
  rw [bytes, decode_body h, if_pos rfl]

/-! ## Writing what was read -/

theorem headed_of_decode {input : List UInt8} {f : Frame} (h : decode input = .ok f) :
    Headed input := by
  unfold decode at h
  split at h
  · rename_i m₀ m₁ v flags stream l₀ l₁ rest
    split at h
    · cases h
    split at h
    · cases h
    split at h
    · cases h
    dsimp only at h
    split at h
    · cases h
    rename_i hmagic hversion hlength
    obtain ⟨rfl, rfl⟩ : m₀ = magic₀ ∧ m₁ = magic₁ := by
      simpa only [not_or, ne_eq, Decidable.not_not] using hmagic
    obtain rfl : v = version := Decidable.not_not.mp hversion
    exact headed_of_header (Decidable.not_not.mp hlength)
  · cases h

/-- A byte string that is accepted is the wire form of what it is read as. -/
theorem bytes_of_decode {input : List UInt8} {f : Frame} (h : decode input = .ok f) :
    f.payload.length ≤ maxPayload ∧ f.bytes = input := by
  obtain ⟨g, w, hpayload, rfl⟩ := (headed_of_decode h).exists_body
  rw [decode_body hpayload] at h
  split at h
  · rename_i hchecksum
    cases h
    exact ⟨hpayload, by rw [bytes, hchecksum]⟩
  · cases h

/-- Exactly the wire forms are accepted. -/
theorem decode_eq_ok_iff {input : List UInt8} {f : Frame} :
    decode input = .ok f ↔ f.payload.length ≤ maxPayload ∧ f.bytes = input := by
  constructor
  · exact bytes_of_decode
  · rintro ⟨h, rfl⟩
    exact decode_bytes h

theorem length_of_decode {input : List UInt8} {f : Frame} (h : decode input = .ok f) :
    input.length = f.payload.length + overhead := by
  rw [← (bytes_of_decode h).2, length_bytes, size]

/-! ## Buffers -/

/-- A frame that is not too large as a whole states its length. -/
theorem stated_of_size_le {f : Frame} {n : Nat} (h : f.size ≤ n)
    (hn : n ≤ maxPayload + overhead) : f.payload.length ≤ maxPayload := by
  rw [size] at h
  omega

/-- A frame that fits into a buffer is written in front of what was there. -/
theorem write_of_fits {f : Frame} {buffer : List UInt8} (hpayload : f.payload.length ≤ maxPayload)
    (hroom : f.size ≤ buffer.length) :
    f.write buffer = (.ok f.size, f.bytes ++ buffer.drop f.size) := by
  rw [write_eq, if_neg (by omega), if_neg (by omega)]

theorem take_size (f : Frame) (rest : List UInt8) : (f.bytes ++ rest).take f.size = f.bytes := by
  rw [← length_bytes, List.take_left]

theorem take_write {f : Frame} {buffer : List UInt8} (hpayload : f.payload.length ≤ maxPayload)
    (hroom : f.size ≤ buffer.length) : (f.write buffer).2.take f.size = f.bytes := by
  rw [write_of_fits hpayload hroom, take_size]

/-- A frame that is written fits, and its size is answered. -/
theorem fits_of_write {f : Frame} {buffer : List UInt8} {n : Nat}
    (h : (f.write buffer).1 = .ok n) :
    n = f.size ∧ f.payload.length ≤ maxPayload ∧ f.size ≤ buffer.length := by
  rw [write_eq] at h
  split at h
  · cases h
  split at h
  · cases h
  cases h
  exact ⟨rfl, by omega, by omega⟩

/-! ## Both directions -/

/-- Writing and reading are inverse to each other. A frame whose payload the length
field can state is written to every buffer that has room for it, whatever the buffer
held, and read back from exactly the bytes written. Whatever a byte string is read as
is written as the same bytes again. So the byte strings that are accepted are those
that are written, and every other one is refused. -/
theorem write_decode_inverse :
    (∀ (f : Frame) (buffer : List UInt8), f.payload.length ≤ maxPayload →
      f.payload.length + overhead ≤ buffer.length →
      (f.write buffer).1 = .ok (f.payload.length + overhead) ∧
      decode ((f.write buffer).2.take (f.payload.length + overhead)) = .ok f) ∧
    (∀ (input : List UInt8) (f : Frame), decode input = .ok f →
      f.payload.length ≤ maxPayload ∧
      ∀ buffer : List UInt8, input.length ≤ buffer.length →
        (f.write buffer).1 = .ok input.length ∧ (f.write buffer).2.take input.length = input) ∧
    (∀ input : List UInt8,
      (∃ f, decode input = .ok f) ↔
        ∃ (f : Frame) (buffer : List UInt8) (n : Nat),
          (f.write buffer).1 = .ok n ∧ (f.write buffer).2.take n = input) := by
  refine ⟨?_, ?_, ?_⟩
  · intro f buffer hpayload hroom
    have hwritten := take_write hpayload hroom
    rw [size] at hwritten
    refine ⟨by rw [write_of_fits hpayload hroom, size], ?_⟩
    rw [hwritten]
    exact decode_bytes hpayload
  · intro input f h
    obtain ⟨hpayload, rfl⟩ := bytes_of_decode h
    refine ⟨hpayload, fun buffer hroom => ?_⟩
    rw [length_bytes] at hroom ⊢
    exact ⟨by rw [write_of_fits hpayload hroom], take_write hpayload hroom⟩
  · intro input
    constructor
    · rintro ⟨f, h⟩
      obtain ⟨hpayload, rfl⟩ := bytes_of_decode h
      refine ⟨f, f.bytes, f.size, ?_, take_write hpayload (by simp)⟩
      rw [write_of_fits hpayload (by simp)]
    · rintro ⟨f, buffer, n, hwrite, rfl⟩
      obtain ⟨rfl, hpayload, hroom⟩ := fits_of_write hwrite
      rw [take_write hpayload hroom]
      exact ⟨f, decode_bytes hpayload⟩

/-- Both directions at a frame of three bytes in a buffer that held other bytes. -/
theorem write_decode_inverse_ping :
    let f : Frame := ⟨1, 0, [0, 1, 0]⟩
    let input : List UInt8 := [0xAC, 0xDA, 1, 1, 0, 3, 0, 0, 1, 0, 0x98, 0xF4]
    let buffer : List UInt8 := List.replicate 14 0xFF
    f.payload.length ≤ maxPayload ∧ f.payload.length + overhead ≤ buffer.length ∧
      decode ((f.write buffer).2.take (f.payload.length + overhead)) = .ok f ∧
      decode input = .ok f ∧ input.length ≤ buffer.length ∧
      (f.write buffer).2.take input.length = input := by
  have hread : decode [0xAC, 0xDA, 1, 1, 0, 3, 0, 0, 1, 0, 0x98, 0xF4] =
      .ok ⟨1, 0, [0, 1, 0]⟩ := decode_eq_ok_iff.mpr ⟨by decide, by decide +kernel⟩
  exact ⟨by decide, by decide, (write_decode_inverse.1 _ _ (by decide) (by decide)).2, hread,
    by decide, ((write_decode_inverse.2.1 _ _ hread).2 _ (by decide)).2⟩

end NodeBus.Frame
