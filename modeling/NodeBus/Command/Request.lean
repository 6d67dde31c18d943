import NodeBus.Command.Key

/-!
# Requests

A request names a command and carries up to eight parameter bytes. Its payload
is

```text
cluster | id | number of parameters | parameters
```

`Request.payload` writes it and `Request.ofPayload` accepts exactly what
`payload` writes.
-/

namespace NodeBus.Command

/-- The most parameter bytes of a request. -/
def maxParams : Nat := 8

/-- The fixed part of a request payload. -/
def requestHeader : Nat := 3

/-- A command with its parameters. -/
structure Request where
  key : Key
  params : List UInt8
  fits : params.length ≤ maxParams
  deriving DecidableEq, Repr

namespace Request

/-- The largest request frame. -/
def maxFrame : Nat := Frame.overhead + requestHeader + maxParams

/-- A request with the given parameters, unless there are too many. -/
def make (key : Key) (params : List UInt8) : Except Error Request :=
  if h : params.length ≤ maxParams then .ok ⟨key, params, h⟩ else .error .paramsTooLong

/-- The payload of a request. -/
def payload (r : Request) : List UInt8 :=
  r.key.cluster.byte :: r.key.id :: .ofNat r.params.length :: r.params

/-- Read a request from a payload. -/
def ofPayload (payload : List UInt8) : Except Error Request :=
  match payload with
  | cluster :: id :: length :: params =>
    if length.toNat > maxParams then .error .paramsTooLong
    else if params.length ≠ length.toNat then .error .lengthMismatch
    else make ⟨.ofByte cluster, id⟩ params
  | _ => .error .payloadTooShort

/-- Read a request from a complete frame. -/
def ofFrame (bytes : List UInt8) : Except Error Request :=
  match Frame.decode bytes with
  | .ok frame => ofPayload frame.payload
  | .error cause => .error (.frame cause)

/-- The frame of a request with the given header fields. -/
def frame (r : Request) (flags stream : UInt8) : Frame := ⟨flags, stream, r.payload⟩

/-- Write the frame of a request to the start of `buffer`. -/
def write (r : Request) (flags stream : UInt8) (buffer : List UInt8) :
    Except Error Nat × List UInt8 :=
  let (written, buffer) := (r.frame flags stream).write buffer
  (written.mapError .frame, buffer)

@[simp] theorem length_payload (r : Request) :
    r.payload.length = requestHeader + r.params.length := by
  simp [payload, requestHeader]
  omega

end Request

end NodeBus.Command
