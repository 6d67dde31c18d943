import NodeBus.Command.Key

/-!
# Responses

A response names the command it answers, says how the command ended and carries
up to sixteen data bytes. Its payload is

```text
cluster | id | status | number of data bytes | data
```

The data lie in a fixed store of sixteen bytes that is never cleared: behind the
data are the bytes that earlier contents left there. They are part of the value,
so that two responses which say the same may differ, but no payload shows them.

`Response.ofPayload` accepts exactly what `Response.payload` writes.
-/

namespace NodeBus.Command

/-- The most data bytes of a response. -/
def maxData : Nat := 16

/-- The fixed part of a response payload. -/
def responseHeader : Nat := 4

/-- The answer to a command. `residue` is what lies behind the data in the store. -/
structure Response where
  key : Key
  status : Status
  data : List UInt8
  residue : List UInt8
  fills : data.length + residue.length = maxData
  deriving DecidableEq, Repr

namespace Response

/-- The largest response frame. -/
def maxFrame : Nat := Frame.overhead + responseHeader + maxData

/-- A successful response without data in a cleared store. -/
def empty (key : Key) : Response := ⟨key, .success, [], List.replicate maxData 0, rfl⟩

/-- The whole store: the data and what lies behind. -/
def store (r : Response) : List UInt8 := r.data ++ r.residue

/-! ## Setting the contents -/

/-- Replace the data by at most sixteen bytes. -/
def put (r : Response) (data : List UInt8) (h : data.length ≤ maxData) : Response :=
  { r with
    data
    residue := r.store.drop data.length
    fills := by
      have := r.fills
      simp only [store, List.length_drop, List.length_append]
      omega }

/-- Replace the data, unless there is too much. -/
def setData (r : Response) (data : List UInt8) : Except Error Response :=
  if h : data.length ≤ maxData then .ok (r.put data h) else .error .dataTooLong

/-- Replace the data by a word, low byte first. -/
def setWord (r : Response) (w : UInt32) : Response :=
  r.put (Bytes.ofWord32 w) (by simp [maxData])

/-- Drop the data; the store keeps the bytes. -/
def clearData (r : Response) : Response := r.put [] (Nat.zero_le _)

/-- Change the status. -/
def setStatus (r : Response) (s : Status) : Response := { r with status := s }

/-! ## Wire form -/

/-- The payload of a response. -/
def payload (r : Response) : List UInt8 :=
  r.key.cluster.byte :: r.key.id :: r.status.byte :: .ofNat r.data.length :: r.data

/-- Read a response from a payload. -/
def ofPayload (payload : List UInt8) : Except Error Response :=
  match payload with
  | cluster :: id :: status :: length :: data =>
    if length.toNat > maxData then .error .dataTooLong
    else if data.length ≠ length.toNat then .error .lengthMismatch
    else match Status.ofByte? status with
      | none => .error (.unknownStatus status)
      | some s => ((empty ⟨.ofByte cluster, id⟩).setStatus s).setData data
  | _ => .error .payloadTooShort

/-- Read a response from a complete frame. -/
def ofFrame (bytes : List UInt8) : Except Error Response :=
  match Frame.decode bytes with
  | .ok frame => ofPayload frame.payload
  | .error cause => .error (.frame cause)

/-- The frame of a response with the given header fields. -/
def frame (r : Response) (flags stream : UInt8) : Frame := ⟨flags, stream, r.payload⟩

/-- Write the frame of a response to the start of `buffer`. -/
def write (r : Response) (flags stream : UInt8) (buffer : List UInt8) :
    Except Error Nat × List UInt8 :=
  let (written, buffer) := (r.frame flags stream).write buffer
  (written.mapError .frame, buffer)

@[simp] theorem data_put (r : Response) (data : List UInt8) (h : data.length ≤ maxData) :
    (r.put data h).data = data := rfl

@[simp] theorem data_setWord (r : Response) (w : UInt32) :
    (r.setWord w).data = Bytes.ofWord32 w := rfl

@[simp] theorem data_clearData (r : Response) : r.clearData.data = [] := rfl

@[simp] theorem length_payload (r : Response) :
    r.payload.length = responseHeader + r.data.length := by
  simp [payload, responseHeader]
  omega

end Response

end NodeBus.Command
