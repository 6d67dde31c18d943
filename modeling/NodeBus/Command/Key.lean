import NodeBus.Frame

/-!
# Command keys and outcomes

A command is named by a cluster and an id within it, its outcome by a status.
Both have one byte on the wire; `Cluster.ofByte` accepts every byte,
`Status.ofByte?` only the five known ones.
-/

namespace NodeBus.Command

/-! ## Clusters -/

/-- The first level of command names. `unknown` carries a byte that names no
known cluster; such commands are still routed by their byte. -/
inductive Cluster where
  | system
  | sensor
  | unknown (byte : UInt8)
  deriving DecidableEq, Repr

namespace Cluster

/-- The cluster a byte stands for. -/
def ofByte (b : UInt8) : Cluster :=
  if b = 0 then .system else if b = 1 then .sensor else .unknown b

/-- The byte of a cluster. -/
def byte : Cluster → UInt8
  | .system => 0
  | .sensor => 1
  | .unknown b => b

@[simp] theorem byte_ofByte (b : UInt8) : (ofByte b).byte = b := by
  simp only [ofByte]
  split
  · simp_all [byte]
  · split <;> simp_all [byte]

/-- The name of a cluster in log lines. -/
def name : Cluster → String
  | .system => "System"
  | .sensor => "Sensor"
  | .unknown b => s!"Unknown({b.toNat})"

end Cluster

/-! ## Keys -/

/-- The name of a command. -/
structure Key where
  cluster : Cluster
  id : UInt8
  deriving DecidableEq, Repr

namespace Key

/-- The connectivity check, which answers with the node's clock. -/
def ping : Key := ⟨.system, 1⟩

/-- The current tick count. -/
def counter : Key := ⟨.sensor, 1⟩

/-- The key of a response that answers no command yet. -/
def initial : Key := ⟨.system, 0⟩

/-- The text of a key in log lines. -/
def text (k : Key) : String :=
  "CommandKey \x7b cluster: " ++ k.cluster.name ++ s!", command_id: {k.id.toNat} \x7d"

end Key

/-! ## Statuses -/

/-- How a command ended. -/
inductive Status where
  | success
  /-- No handler is registered for the key. -/
  | notFound
  /-- The handler rejected the parameters. -/
  | invalidParam
  /-- The handler cannot serve the command now. -/
  | busy
  /-- The handler failed. -/
  | error
  deriving DecidableEq, Repr

namespace Status

/-- The byte of a status. -/
def byte : Status → UInt8
  | .success => 0
  | .notFound => 1
  | .invalidParam => 2
  | .busy => 3
  | .error => 4

/-- The status a byte stands for, if any. -/
def ofByte? (b : UInt8) : Option Status :=
  [.success, .notFound, .invalidParam, .busy, .error].find? (·.byte = b)

@[simp] theorem ofByte?_byte (s : Status) : ofByte? s.byte = some s := by
  cases s <;> rfl

theorem byte_of_ofByte? {b : UInt8} {s : Status} (h : ofByte? b = some s) : s.byte = b := by
  simpa using List.find?_some h

/-- The name of a status in log lines. -/
def name : Status → String
  | .success => "Success"
  | .notFound => "NotFound"
  | .invalidParam => "InvalidParam"
  | .busy => "Busy"
  | .error => "Error"

end Status

/-! ## Errors -/

/-- Why a command cannot be built or read. -/
inductive Error where
  /-- The enclosing frame is at fault. -/
  | frame (cause : Frame.Error)
  /-- The payload is shorter than its fixed part. -/
  | payloadTooShort
  /-- More parameter bytes than a request can hold. -/
  | paramsTooLong
  /-- More data bytes than a response can hold. -/
  | dataTooLong
  /-- The stated length disagrees with the number of bytes. -/
  | lengthMismatch
  | unknownStatus (byte : UInt8)
  deriving DecidableEq, Repr

/-- The name of an error in answers and log lines. -/
def Error.name : Error → String
  | .frame cause => s!"Frame({cause.name})"
  | .payloadTooShort => "PayloadTooShort"
  | .paramsTooLong => "ParamsTooLong"
  | .dataTooLong => "DataTooLong"
  | .lengthMismatch => "LengthMismatch"
  | .unknownStatus b => s!"UnknownStatus({b.toNat})"

end NodeBus.Command
