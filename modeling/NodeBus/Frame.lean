import NodeBus.Bytes
import NodeBus.Checksum

/-!
# Frames

A frame carries one payload over a serial link:

```text
AC DA | version | flags | stream | length (2) | payload | checksum (2)
```

Words are little-endian and the checksum covers everything before it.

- `Frame.bytes` is the wire form, `Frame.write` puts it into a buffer;
- `Frame.decode` accepts exactly complete wire forms and names the first
  condition, in wire order, that fails otherwise.
-/

namespace NodeBus

/-- A payload with the header fields its sender chose. -/
structure Frame where
  flags : UInt8
  stream : UInt8
  payload : List UInt8
  deriving DecidableEq, Repr

namespace Frame

/-! ## Layout -/

/-- The first byte of every frame. -/
def magic₀ : UInt8 := 0xAC

/-- The second byte of every frame. -/
def magic₁ : UInt8 := 0xDA

/-- The protocol version every frame names. -/
def version : UInt8 := 1

/-- The flag bit of the last frame of a message. -/
def finalFlag : UInt8 := 1

/-- The stream of frames that belong to none. -/
def noStream : UInt8 := 0

def headerSize : Nat := 7
def checksumSize : Nat := 2

/-- What a frame adds to its payload. -/
def overhead : Nat := headerSize + checksumSize

/-- The longest payload that the length field can state. -/
def maxPayload : Nat := 0xFFFF

/-- A frame that is a whole message and belongs to no stream. -/
def single (payload : List UInt8) : Frame := ⟨finalFlag, noStream, payload⟩

/-- Whether this is the last frame of its message. -/
def isFinal (f : Frame) : Bool := f.flags &&& finalFlag != 0

/-! ## Errors -/

/-- Why a frame cannot be written or read. -/
inductive Error where
  /-- The payload is longer than the length field can state. -/
  | payloadTooLarge
  /-- The destination has no room for the frame. -/
  | bufferTooSmall
  /-- There are fewer bytes than an empty frame has. -/
  | truncated
  | badMagic
  | unsupportedVersion
  /-- The stated payload length disagrees with the number of bytes. -/
  | lengthMismatch
  | checksumMismatch
  deriving DecidableEq, Repr

/-- The name of an error in answers and log lines. -/
def Error.name : Error → String
  | .payloadTooLarge => "PayloadTooLarge"
  | .bufferTooSmall => "BufferTooSmall"
  | .truncated => "Truncated"
  | .badMagic => "BadMagic"
  | .unsupportedVersion => "UnsupportedVersion"
  | .lengthMismatch => "LengthMismatch"
  | .checksumMismatch => "ChecksumMismatch"

/-! ## Writing -/

/-- The header and payload of a frame, which its checksum covers. -/
def body (f : Frame) : List UInt8 :=
  magic₀ :: magic₁ :: version :: f.flags :: f.stream ::
    (Bytes.ofWord16 (.ofNat f.payload.length) ++ f.payload)

/-- The wire form of a frame. -/
def bytes (f : Frame) : List UInt8 :=
  f.body ++ Bytes.ofWord16 (Checksum.crc 0 f.body)

/-- The number of bytes on the wire. -/
def size (f : Frame) : Nat := f.payload.length + overhead

@[simp] theorem length_body (f : Frame) : f.body.length = headerSize + f.payload.length := by
  simp [body, headerSize]
  omega

@[simp] theorem length_bytes (f : Frame) : f.bytes.length = f.size := by
  simp [bytes, size, overhead, headerSize, checksumSize]
  omega

/-- Put the header and the payload into a buffer, field by field. -/
def writeBody (f : Frame) (buffer : List UInt8) : List UInt8 :=
  let buffer := Bytes.overwrite buffer 0 [magic₀, magic₁]
  let buffer := Bytes.overwrite buffer 2 [version]
  let buffer := Bytes.overwrite buffer 3 [f.flags]
  let buffer := Bytes.overwrite buffer 4 [f.stream]
  let buffer := Bytes.overwrite buffer 5 (Bytes.ofWord16 (.ofNat f.payload.length))
  Bytes.overwrite buffer headerSize f.payload

/-- Write a frame to the start of `buffer`: the number of bytes written and the
buffer afterwards. The checksum is that of the bytes which the buffer then holds in
front of it. -/
def write (f : Frame) (buffer : List UInt8) : Except Error Nat × List UInt8 :=
  if f.payload.length > maxPayload then (.error .payloadTooLarge, buffer)
  else if buffer.length < f.size then (.error .bufferTooSmall, buffer)
  else
    let buffer := f.writeBody buffer
    let checksumPlace := headerSize + f.payload.length
    let checksum := Checksum.crc 0 (buffer.take checksumPlace)
    (.ok f.size, Bytes.overwrite buffer checksumPlace (Bytes.ofWord16 checksum))

theorem writeBody_eq (f : Frame) (buffer : List UInt8) :
    f.writeBody buffer = f.body ++ buffer.drop (headerSize + f.payload.length) := by
  have hmagic : Bytes.overwrite buffer 0 [magic₀, magic₁] = [magic₀, magic₁] ++ buffer.drop 2 :=
    rfl
  have hbody : [magic₀, magic₁] ++ [version] ++ [f.flags] ++ [f.stream] ++
      Bytes.ofWord16 (.ofNat f.payload.length) ++ f.payload = f.body := rfl
  rw [writeBody, hmagic, Bytes.overwrite_front, Bytes.overwrite_front, Bytes.overwrite_front,
    Bytes.overwrite_front, Bytes.overwrite_front, hbody]
  · simp only [List.drop_drop]
    rfl
  all_goals rfl

/-- A frame that is written stands in front of what was behind its place. -/
theorem write_eq (f : Frame) (buffer : List UInt8) :
    f.write buffer =
      if f.payload.length > maxPayload then (.error .payloadTooLarge, buffer)
      else if buffer.length < f.size then (.error .bufferTooSmall, buffer)
      else (.ok f.size, f.bytes ++ buffer.drop f.size) := by
  have hsize : f.body.length + checksumSize = f.size := by
    simp only [length_body, size, overhead]
    omega
  have hbehind : (buffer.drop f.body.length).drop checksumSize = buffer.drop f.size := by
    rw [List.drop_drop, hsize]
  rw [write]
  split
  · rfl
  split
  · rfl
  dsimp only
  rw [writeBody_eq, ← length_body, List.take_left, Bytes.overwrite_front rfl, ← bytes,
    Bytes.length_ofWord16]
  exact congrArg _ (congrArg _ hbehind)

/-! ## Reading -/

/-- Read a complete frame. The conditions are checked in wire order: enough
bytes, magic, version, length, checksum. -/
def decode (input : List UInt8) : Except Error Frame :=
  match input with
  | m₀ :: m₁ :: v :: flags :: stream :: l₀ :: l₁ :: rest =>
    if rest.length < checksumSize then .error .truncated
    else if m₀ ≠ magic₀ ∨ m₁ ≠ magic₁ then .error .badMagic
    else if v ≠ version then .error .unsupportedVersion
    else
      let length := (Bytes.word16 l₀ l₁).toNat
      if length + checksumSize ≠ rest.length then .error .lengthMismatch
      else if Bytes.ofWord16 (Checksum.crc 0 (input.take (headerSize + length)))
          ≠ rest.drop length then .error .checksumMismatch
      else .ok ⟨flags, stream, rest.take length⟩
  | _ => .error .truncated

end Frame

end NodeBus
