import NodeBus.Proofs.Command.Residue

/-!
# What a response shows after some writes

The data of a response are the front of a store that is written in place and never cleared: `Cells`
is a response as it lies in memory. Each write of a response is one of its cells (`cells_after`), so
whatever longer data have left in the store, the data shown are those of the last write that set any
(`data_written`). Data that are too long are refused before anything is written.
-/

namespace NodeBus.Command

/-- The data that a write sets, if it does; the response shows them from then on. -/
def Write.shown? : Write → Option (List UInt8)
  | .data content => if content.length ≤ maxData then some content else none
  | .word w => some (Bytes.ofWord32 w)
  | .clear => some []
  | .status _ => none

/-! ## Cells -/

/-- A response in memory: sixteen bytes, of which the first `used` are data. -/
structure Cells where
  key : Key
  status : Status
  store : List UInt8
  used : UInt8
  deriving DecidableEq, Repr

namespace Cells

def new (key : Key) : Cells := ⟨key, .success, List.replicate maxData 0, 0⟩

def data (c : Cells) : List UInt8 := c.store.take c.used.toNat

/-- Copy bytes to the front of the store. -/
def copy (c : Cells) (bytes : List UInt8) : Cells :=
  { c with store := Bytes.overwrite c.store 0 bytes, used := .ofNat bytes.length }

def setData (c : Cells) (data : List UInt8) : Except Error Unit × Cells :=
  if data.length > maxData then (.error .dataTooLong, c) else (.ok (), c.copy data)

def after (c : Cells) : Write → Cells
  | .status s => { c with status := s }
  | .data data => (c.setData data).2
  | .word w => c.copy (Bytes.ofWord32 w)
  | .clear => { c with used := 0 }

end Cells

namespace Response

/-- A response as it lies in memory. -/
def cells (r : Response) : Cells := ⟨r.key, r.status, r.store, .ofNat r.data.length⟩

theorem cells_put (r : Response) (data : List UInt8) (h : data.length ≤ maxData) :
    (r.put data h).cells = r.cells.copy data := by
  rw [cells, store_put, Cells.copy, Bytes.overwrite, Nat.zero_add]
  rfl

theorem cells_after (r : Response) (w : Write) : (r.after w).cells = r.cells.after w := by
  cases w with
  | status s => rfl
  | word w => exact r.cells_put (Bytes.ofWord32 w) (Nat.le_of_ble_eq_true rfl)
  | clear => rfl
  | data data =>
    simp only [after, setData, Cells.after, Cells.setData]
    by_cases h : data.length ≤ maxData
    · rw [dif_pos h, if_neg (Nat.not_lt_of_le h)]
      exact r.cells_put data h
    · rw [dif_neg h, if_pos (Nat.lt_of_not_le h)]
      rfl

theorem cells_foldl (r : Response) (writes : List Write) :
    (writes.foldl after r).cells = writes.foldl Cells.after r.cells := by
  induction writes generalizing r with
  | nil => rfl
  | cons w writes ih => rw [List.foldl_cons, List.foldl_cons, ih, cells_after]

theorem toNat_used_cells (r : Response) : r.cells.used.toNat = r.data.length := by
  have hlength := r.length_data_le
  rw [maxData] at hlength
  rw [cells, UInt8.toNat_ofNat']
  exact Nat.mod_eq_of_lt (by omega)

theorem data_cells (r : Response) : r.cells.data = r.data := by
  rw [Cells.data, toNat_used_cells]
  exact List.take_left

theorem setData_eq_error_iff (r : Response) (data : List UInt8) (e : Error) :
    r.setData data = .error e ↔ e = .dataTooLong ∧ maxData < data.length := by
  rw [setData]
  split
  · rename_i h
    simp [Nat.not_lt_of_le h]
  · rename_i h
    simp [Nat.lt_of_not_le h, eq_comm]

/-! ## The last write -/

theorem data_after (r : Response) (w : Write) : (r.after w).data = w.shown?.getD r.data := by
  cases w with
  | data data =>
    simp only [after, setData, Write.shown?]
    by_cases h : data.length ≤ maxData
    · rw [dif_pos h, if_pos h]
      rfl
    · rw [dif_neg h, if_neg h]
      rfl
  | status | word | clear => rfl

theorem data_foldl (r : Response) (writes : List Write) :
    (writes.foldl after r).data = (writes.reverse.findSome? Write.shown?).getD r.data := by
  induction writes generalizing r with
  | nil => rfl
  | cons w writes ih =>
    rw [List.foldl_cons, ih, data_after, List.reverse_cons, List.findSome?_append,
      Option.getD_or]
    cases h : w.shown? <;> simp [h]

theorem write_answer (r : Response) (flags stream : UInt8) {buffer : List UInt8}
    (h : maxFrame ≤ buffer.length) :
    (r.write flags stream buffer).1 = .ok (13 + r.data.length) := by
  have hsize : (r.frame flags stream).size = 13 + r.data.length := by
    simp only [Frame.size, frame, length_payload, responseHeader, Frame.overhead, Frame.headerSize,
      Frame.checksumSize]
    omega
  rw [write_of_room r flags stream h, hsize]

/-- Whatever is written to a response, in its store as in what it shows: the data are those of the
last write that set any, and those from before the writes if none did. Data of more than sixteen
bytes, and no others, are refused, which leaves all of the response, also what lies behind its
data, so that nothing later tells that they were offered. There are never more than sixteen bytes
of data, so the frame fits into every buffer of 29 bytes and takes thirteen more than the data. -/
theorem contents_of_last_write (r : Response) (writes : List Write) :
    let s := writes.foldl after r
    let c := writes.foldl Cells.after r.cells
    let shown? := writes.reverse.findSome? Write.shown?
    (c = s.cells ∧ c.data = s.data ∧ c.used.toNat = s.data.length) ∧
    s.data = shown?.getD r.data ∧
    (∀ key, (written key writes).data = shown?.getD []) ∧
    (∀ data e, s.setData data = .error e ↔ e = .dataTooLong ∧ 16 < data.length) ∧
    (∀ data later, 16 < data.length → c.setData data = (.error .dataTooLong, c) ∧
      (writes ++ .data data :: later).foldl Cells.after r.cells =
        (writes ++ later).foldl Cells.after r.cells) ∧
    s.data.length ≤ 16 ∧
    ∀ (flags stream : UInt8) (buffer : List UInt8), buffer.length = 29 →
      (s.write flags stream buffer).1 = .ok (13 + s.data.length) := by
  intro s c shown?
  have hcells : c = s.cells := (r.cells_foldl writes).symm
  refine ⟨⟨hcells, ?_, ?_⟩, r.data_foldl writes, fun key => (empty key).data_foldl writes,
    s.setData_eq_error_iff, fun data later hlong => ?_, s.length_data_le,
    fun flags stream buffer hbuffer => ?_⟩
  · rw [hcells, data_cells]
  · rw [hcells, toNat_used_cells]
  · have hrefused : c.setData data = (.error .dataTooLong, c) := if_pos hlong
    have hkept : c.after (.data data) = c := congrArg Prod.snd hrefused
    refine ⟨hrefused, ?_⟩
    rw [List.foldl_append, List.foldl_cons, List.foldl_append]
    exact congrArg (later.foldl Cells.after) hkept
  · exact s.write_answer flags stream (Nat.le_of_eq hbuffer.symm)

/-- Bytes of longer data are left in the store behind a word, which is dropped; then seventeen
bytes are refused. -/
theorem contents_of_last_write_dropped :
    let writes : List Write :=
      [.data (List.replicate 16 0xEE), .word 0x04030201, .status .busy, .clear]
    let long : List UInt8 := List.replicate 17 0xAA
    let s := written .ping writes
    s.store = [1, 2, 3, 4] ++ List.replicate 12 0xEE ∧ s.data = [] ∧
      16 < long.length ∧ s.setData long = .error .dataTooLong ∧
      s.cells.setData long = (.error .dataTooLong, s.cells) ∧
      (s.write 1 0 (List.replicate 29 0xEE)).1 = .ok 13 := by
  intro writes long s
  have hlong : 16 < long.length := by decide
  obtain ⟨⟨hcells, _⟩, hdata, _, hrefused, hkept, _, hwrite⟩ :=
    contents_of_last_write (empty .ping) writes
  have hkept := (hkept long [] hlong).1
  rw [hcells] at hkept
  exact ⟨by decide, hdata, hlong, (hrefused long _).mpr ⟨rfl, hlong⟩, hkept,
    hwrite 1 0 (List.replicate 29 0xEE) (by decide)⟩

end Response

end NodeBus.Command
