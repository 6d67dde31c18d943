import NodeBus.Proofs.Command.Contents
import NodeBus.Proofs.Frame.Searching

/-!
# Reading never leaves the bytes there are

Requests and responses are read with checked access from payloads and frames, into stores of a
fixed size. With `Frame.decode?` and `Frame.Memory.feed?` this is all that is read from a link;
`never_out_of_range` is the statement for all of it.
-/

namespace NodeBus.Command

open Bytes (slice? copy?)

/-- Read a complete frame, and then its payload. -/
def framed? {α : Type} (read? : List UInt8 → Option (Except Error α)) (bytes : List UInt8) :
    Option (Except Error α) := do
  match ← Frame.decode? bytes with
  | .ok frame => read? frame.payload
  | .error cause => return .error (.frame cause)

theorem framed?_eq {α : Type} {read? : List UInt8 → Option (Except Error α)}
    {read : List UInt8 → Except Error α} (h : ∀ payload, read? payload = some (read payload))
    (bytes : List UInt8) :
    framed? read? bytes = some (match Frame.decode bytes with
      | .ok frame => read frame.payload
      | .error cause => .error (.frame cause)) := by
  rw [framed?, Frame.decode?_eq, Option.bind_eq_bind, Option.bind_some]
  cases Frame.decode bytes with
  | ok frame => exact h frame.payload
  | error cause => rfl

/-! ## Requests -/

/-- A request in memory: eight bytes, of which the first `used` are parameters. -/
structure RequestCells where
  key : Key
  store : List UInt8
  used : UInt8
  deriving DecidableEq, Repr

namespace Request

def cells (r : Request) : RequestCells :=
  ⟨r.key, r.params ++ List.replicate (maxParams - r.params.length) 0, .ofNat r.params.length⟩

def make? (key : Key) (params : List UInt8) : Option (Except Error RequestCells) := do
  if params.length > maxParams then return .error .paramsTooLong
  let store ← copy? (List.replicate maxParams 0) params.length params
  return .ok ⟨key, store, .ofNat params.length⟩

def ofPayload? (payload : List UInt8) : Option (Except Error RequestCells) := do
  if payload.length < requestHeader then return .error .payloadTooShort
  let length := (← payload[2]?).toNat
  if length > maxParams then return .error .paramsTooLong
  if payload.length ≠ requestHeader + length then return .error .lengthMismatch
  let key : Key := ⟨.ofByte (← payload[0]?), ← payload[1]?⟩
  make? key (← slice? payload requestHeader payload.length)

def ofFrame? (bytes : List UInt8) : Option (Except Error RequestCells) := framed? ofPayload? bytes

theorem make?_eq (key : Key) (params : List UInt8) :
    make? key params = some ((make key params).map cells) := by
  rw [make?, make]
  by_cases h : params.length ≤ maxParams
  · rw [if_neg (Nat.not_lt_of_le h), dif_pos h, Bytes.copy?_of_le (by simpa using h)]
    simp [Bytes.overwrite, Except.map, cells]
  · rw [if_pos (Nat.lt_of_not_le h), dif_neg h]
    rfl

theorem ofPayload?_eq (payload : List UInt8) :
    ofPayload? payload = some ((ofPayload payload).map cells) := by
  match payload with
  | [] | [_] | [_, _] => rfl
  | cluster :: id :: length :: params =>
    have hsize : (cluster :: id :: length :: params).length = requestHeader + params.length :=
      Nat.add_comm params.length 3
    have hparams : slice? (cluster :: id :: length :: params) requestHeader
        (requestHeader + params.length) = some params := by
      rw [← hsize, Bytes.slice?_of_le (by simp [hsize]) (Nat.le_refl _), List.take_length]
      rfl
    rw [ofPayload?, ofPayload, hsize, if_neg (Nat.not_lt_of_le (Nat.le_add_right ..))]
    simp only [List.getElem?_cons_succ, List.getElem?_cons_zero, Option.bind_eq_bind,
      Option.bind_some, hparams, Nat.add_left_cancel_iff, ne_eq, make?_eq]
    split
    · rfl
    · split <;> rfl

theorem ofFrame?_eq (bytes : List UInt8) : ofFrame? bytes = some ((ofFrame bytes).map cells) := by
  rw [ofFrame?, framed?_eq ofPayload?_eq, ofFrame]
  cases Frame.decode bytes <;> rfl

end Request

/-! ## Responses -/

def Cells.setData? (c : Cells) (data : List UInt8) : Option (Except Error Cells) := do
  if data.length > maxData then return .error .dataTooLong
  let store ← copy? c.store data.length data
  return .ok { c with store, used := .ofNat data.length }

namespace Response

def ofPayload? (payload : List UInt8) : Option (Except Error Cells) := do
  if payload.length < responseHeader then return .error .payloadTooShort
  let length := (← payload[3]?).toNat
  if length > maxData then return .error .dataTooLong
  if payload.length ≠ responseHeader + length then return .error .lengthMismatch
  let unknown : Error := .unknownStatus (← payload[2]?)
  match Status.ofByte? (← payload[2]?) with
  | none => return .error unknown
  | some status =>
    let key : Key := ⟨.ofByte (← payload[0]?), ← payload[1]?⟩
    Cells.setData? { Cells.new key with status } (← slice? payload responseHeader payload.length)

def ofFrame? (bytes : List UInt8) : Option (Except Error Cells) := framed? ofPayload? bytes

theorem setData?_cells (r : Response) (data : List UInt8) :
    r.cells.setData? data = some ((r.setData data).map cells) := by
  rw [Cells.setData?, setData]
  by_cases h : data.length ≤ maxData
  · have hstore : data.length ≤ r.cells.store.length := length_store r ▸ h
    rw [if_neg (Nat.not_lt_of_le h), dif_pos h, Bytes.copy?_of_le hstore]
    exact congrArg (some ∘ Except.ok) (cells_put r data h).symm
  · rw [if_pos (Nat.lt_of_not_le h), dif_neg h]
    rfl

theorem ofPayload?_eq (payload : List UInt8) :
    ofPayload? payload = some ((ofPayload payload).map cells) := by
  match payload with
  | [] | [_] | [_, _] | [_, _, _] => rfl
  | cluster :: id :: status :: length :: data =>
    have hsize : (cluster :: id :: status :: length :: data).length =
        responseHeader + data.length := Nat.add_comm data.length 4
    have hdata : slice? (cluster :: id :: status :: length :: data) responseHeader
        (responseHeader + data.length) = some data := by
      rw [← hsize, Bytes.slice?_of_le (by simp [hsize]) (Nat.le_refl _), List.take_length]
      rfl
    rw [ofPayload?, ofPayload, hsize, if_neg (Nat.not_lt_of_le (Nat.le_add_right ..))]
    simp only [List.getElem?_cons_succ, List.getElem?_cons_zero, Option.bind_eq_bind,
      Option.bind_some, hdata, Nat.add_left_cancel_iff, ne_eq]
    split
    · rfl
    split
    · rfl
    · cases Status.ofByte? status with
      | none => rfl
      | some s => exact setData?_cells ((empty ⟨.ofByte cluster, id⟩).setStatus s) data

theorem ofFrame?_eq (bytes : List UInt8) : ofFrame? bytes = some ((ofFrame bytes).map cells) := by
  rw [ofFrame?, framed?_eq ofPayload?_eq, ofFrame]
  cases Frame.decode bytes <;> rfl

end Response

/-! ## Everything that is read -/

open NodeBus.Frame in
/-- Whatever bytes come, every access is in range, and every loop has ended after one round more
than there are bytes: reading with checked access always has an answer, that of reading frames,
requests and responses, and for a receiver of any capacity, after any bytes and resets, that of the
receiver. Whenever it looks through the bytes it holds and a new one, each loss, of noise or of the
first byte of a rejected candidate, leaves fewer than there were, and no more candidates are
rejected than there are bytes. Unless there was no room, what the last loss leaves is held then. -/
theorem never_out_of_range :
    (∀ s, Frame.decode? s = some (Frame.decode s)) ∧
    (∀ s, Request.ofPayload? s = some ((Request.ofPayload s).map Request.cells) ∧
      Request.ofFrame? s = some ((Request.ofFrame s).map Request.cells)) ∧
    (∀ s, Response.ofPayload? s = some ((Response.ofPayload s).map Response.cells) ∧
      Response.ofFrame? s = some ((Response.ofFrame s).map Response.cells)) ∧
    ∀ (capacity : Nat) (calls : List Call),
      let r := calls.foldl Receiver.after (Receiver.fresh : Receiver capacity)
      calls.foldlM (Memory.after? capacity) Memory.empty = some r.memory ∧
      ∀ b, ∃ losses,
        r.memory.feed? capacity b = some ((r.feed b).1, losses, (r.feed b).2.memory) ∧
        ((r.pending.length + 1) :: losses.map Loss.left).Pairwise (· > ·) ∧
        losses.countP (·.cause.isSome) ≤ r.pending.length + 1 ∧
        (r.feed b).2.held.size = if capacity ≤ r.pending.length then 0
          else (losses.map Loss.left).getLastD (r.pending.length + 1) := by
  refine ⟨decode?_eq, fun s => ⟨Request.ofPayload?_eq s, Request.ofFrame?_eq s⟩,
    fun s => ⟨Response.ofPayload?_eq s, Response.ofFrame?_eq s⟩, fun capacity calls => ?_⟩
  intro r
  refine ⟨Receiver.foldlM_after? Receiver.fresh calls, fun b => ?_⟩
  obtain ⟨losses, left, hfeed, hfalls, hheld⟩ := Receiver.feed?_memory r b
  have hlength := hfalls.length_le
  refine ⟨losses, hfeed, hfalls.pairwise, ?_, by rw [hfalls.getLastD, hheld]⟩
  exact Nat.le_trans List.countP_le_length (by omega)

end NodeBus.Command
