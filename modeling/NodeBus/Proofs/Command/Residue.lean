import NodeBus.Proofs.Command.RoundTrip

/-!
# What lies behind the data of a response

The store of a response is never cleared: a write puts its bytes at the start and leaves the others
as they are (`store_after`). So each place of the store holds the byte of the last write that
reached it (`getElem?_store_written`), and behind the data are the bytes of longer contents that
were there before.

Two responses are equal if their stores are, also where nothing is shown of them. What a response
says decides about equality only among responses that have the same bytes behind their data
(`equal_iff_same_residue`), and a response is equal to what is read from its frame only if those
bytes are zero.
-/

namespace NodeBus.Command

/-! ## Writes -/

/-- What can be written to a response. -/
inductive Write where
  | status (s : Status)
  | data (data : List UInt8)
  | word (w : UInt32)
  | clear
  deriving DecidableEq, Repr

/-- The bytes that a write puts into the store; data that are too long are refused. -/
def Write.bytes : Write → List UInt8
  | .data content => if content.length ≤ maxData then content else []
  | .word w => Bytes.ofWord32 w
  | .status _ | .clear => []

namespace Response

/-- A response after a write, which changes nothing if it is refused. -/
def after (r : Response) : Write → Response
  | .status s => r.setStatus s
  | .data data => (r.setData data).toOption.getD r
  | .word w => r.setWord w
  | .clear => r.clearData

/-- A new response after some writes. -/
def written (key : Key) (writes : List Write) : Response := writes.foldl after (empty key)

/-- The byte of the last write that reached a place of the store, which is cleared in the
beginning. -/
def lastByte (writes : List Write) (i : Nat) : UInt8 :=
  (writes.reverse.findSome? (·.bytes[i]?)).getD 0

/-! ## The store -/

theorem length_store (r : Response) : r.store.length = maxData := by
  rw [store, List.length_append, r.fills]

theorem store_put (r : Response) (data : List UInt8) (h : data.length ≤ maxData) :
    (r.put data h).store = data ++ r.store.drop data.length := rfl

theorem store_after (r : Response) (w : Write) :
    (r.after w).store = w.bytes ++ r.store.drop w.bytes.length := by
  cases w with
  | status s => rfl
  | word w => rfl
  | clear => rfl
  | data data =>
    by_cases h : data.length ≤ maxData
    · simp only [after, setData, Write.bytes, h, dite_true, if_true]
      exact store_put r data h
    · simp only [after, setData, Write.bytes, h, dite_false, if_false]
      rfl

theorem getElem?_store_after (r : Response) (w : Write) (i : Nat) :
    (r.after w).store[i]? = w.bytes[i]?.or r.store[i]? := by
  rw [store_after, List.getElem?_append]
  split
  · rename_i h
    rw [List.getElem?_eq_getElem h, Option.some_or]
  · rename_i h
    rw [List.getElem?_eq_none (Nat.le_of_not_lt h), Option.none_or, List.getElem?_drop,
      Nat.add_sub_cancel' (Nat.le_of_not_lt h)]

theorem getElem?_store_foldl (r : Response) (writes : List Write) (i : Nat) :
    (writes.foldl after r).store[i]? =
      (writes.reverse.findSome? (·.bytes[i]?)).or r.store[i]? := by
  induction writes generalizing r with
  | nil => rfl
  | cons w writes ih =>
    rw [List.foldl_cons, ih, getElem?_store_after, List.reverse_cons, List.findSome?_append,
      Option.or_assoc]
    congr 1
    cases h : w.bytes[i]? <;> simp [h]

theorem getElem?_store_written (key : Key) (writes : List Write) {i : Nat} (hi : i < maxData) :
    (written key writes).store[i]? = some (lastByte writes i) := by
  have hempty : (empty key).store[i]? = some 0 := by
    simp [store, empty, hi]
  rw [written, getElem?_store_foldl, hempty, lastByte]
  cases writes.reverse.findSome? (·.bytes[i]?) <;> rfl

@[simp] theorem key_after (r : Response) (w : Write) : (r.after w).key = r.key := by
  cases w with
  | data data =>
    by_cases h : data.length ≤ maxData <;> simp only [after, setData, h] <;> rfl
  | _ => rfl

@[simp] theorem key_written (key : Key) (writes : List Write) :
    (written key writes).key = key := by
  rw [written]
  have hkey (r : Response) : (writes.foldl after r).key = r.key := by
    induction writes generalizing r with
    | nil => rfl
    | cons w writes ih => rw [List.foldl_cons, ih, key_after]
  exact hkey (empty key)

/-! ## Equality -/

/-- What a response says. -/
def SameContents (r s : Response) : Prop := r.key = s.key ∧ r.status = s.status ∧ r.data = s.data

/-- Equality goes by the fields: the key, the status, the whole store, and how much of it are
data. -/
theorem eq_iff_store {r s : Response} :
    r = s ↔ r.key = s.key ∧ r.status = s.status ∧ r.store = s.store ∧
      r.data.length = s.data.length := by
  constructor
  · rintro rfl
    exact ⟨rfl, rfl, rfl, rfl⟩
  · rintro ⟨hkey, hstatus, hstore, hlength⟩
    obtain ⟨hdata, hresidue⟩ := List.append_inj hstore hlength
    cases r
    cases s
    simp_all

theorem eq_iff_contents {r s : Response} :
    r = s ↔ SameContents r s ∧
      ∀ i, r.data.length ≤ i → i < maxData → r.store[i]? = s.store[i]? := by
  rw [eq_iff_store]
  constructor
  · rintro ⟨hkey, hstatus, hstore, hlength⟩
    exact ⟨⟨hkey, hstatus, (List.append_inj hstore hlength).1⟩, fun i _ _ => by rw [hstore]⟩
  · rintro ⟨⟨hkey, hstatus, hdata⟩, hbehind⟩
    refine ⟨hkey, hstatus, List.ext_getElem? fun i => ?_, by rw [hdata]⟩
    -- A place is among the data, behind them, or beyond the store.
    by_cases hi : i < r.data.length
    · rw [store, store, List.getElem?_append_left hi, hdata, List.getElem?_append_left (hdata ▸ hi)]
    · by_cases hmax : i < maxData
      · exact hbehind i (Nat.le_of_not_lt hi) hmax
      · rw [List.getElem?_eq_none (r.length_store ▸ Nat.le_of_not_lt hmax),
          List.getElem?_eq_none (s.length_store ▸ Nat.le_of_not_lt hmax)]

/-! ## Reading back -/

/-- Nothing has been in the store behind the data. -/
theorem lastByte_of_read (status : Status) (data : List UInt8) {i : Nat} (hi : data.length ≤ i) :
    lastByte [.status status, .data data] i = 0 := by
  by_cases h : data.length ≤ maxData <;> simp [lastByte, Write.bytes, h, hi]

/-- What is read from a payload is a new response to which a status and data are written. -/
theorem written_of_ofPayload {payload : List UInt8} {r : Response}
    (h : ofPayload payload = .ok r) : r = written r.key [.status r.status, .data r.data] := by
  simp only [ofPayload] at h
  split at h
  · rename_i cluster id status length data
    split at h
    · cases h
    split at h
    · cases h
    split at h
    · cases h
    · rename_i s _
      rw [setData] at h
      split at h
      · rename_i hdata
        cases h
        change _ = written _ [.status s, .data data]
        simp only [written, List.foldl_cons, List.foldl_nil, after, setData, hdata, dite_true]
        rfl
      · cases h
  · cases h

theorem written_of_ofFrame {bytes : List UInt8} {r : Response} (h : ofFrame bytes = .ok r) :
    r = written r.key [.status r.status, .data r.data] := by
  rw [ofFrame] at h
  split at h
  · exact written_of_ofPayload h
  · cases h

/-- What is read from the frame of a response is equal to it if its cluster is told from its byte
and the store behind its data is clear. -/
theorem ofFrame_eq_ok_iff (r : Response) (flags stream : UInt8) :
    ofFrame (r.frame flags stream).bytes = .ok r ↔
      (r.key.cluster ≠ .unknown 0 ∧ r.key.cluster ≠ .unknown 1) ∧
        ∀ i, r.data.length ≤ i → i < maxData → r.store[i]? = some 0 := by
  obtain ⟨back, hread, hkey, hstatus, hdata⟩ := r.ofFrame_bytes flags stream
  have hclear {i : Nat} (hi : r.data.length ≤ i) (hmax : i < maxData) :
      back.store[i]? = some 0 := by
    rw [written_of_ofFrame hread, getElem?_store_written _ _ hmax,
      lastByte_of_read _ _ (hdata ▸ hi)]
  have hsame : SameContents r back ↔
      r.key.cluster ≠ .unknown 0 ∧ r.key.cluster ≠ .unknown 1 := by
    rw [SameContents, hkey, hstatus, hdata, eq_comm, r.key.reread_eq_self_iff]
    simp
  rw [hread, Except.ok.injEq, eq_comm, eq_iff_contents, hsame]
  constructor
  · rintro ⟨hknown, hbehind⟩
    exact ⟨hknown, fun i hi hmax => (hbehind i hi hmax).trans (hclear hi hmax)⟩
  · rintro ⟨hknown, hbehind⟩
    exact ⟨hknown, fun i hi hmax => (hbehind i hi hmax).trans (hclear hi hmax).symm⟩

/-- The bytes that are answered to be written are the frame of the response. -/
theorem take_of_write {r : Response} {flags stream : UInt8} {buffer : List UInt8} {n : Nat}
    (h : (r.write flags stream buffer).1 = .ok n) :
    (r.write flags stream buffer).2.take n = (r.frame flags stream).bytes := by
  have hwrite : ((r.frame flags stream).write buffer).1 = .ok n := by
    simp only [write] at h
    cases hframe : ((r.frame flags stream).write buffer).1 with
    | error cause =>
      rw [hframe] at h
      cases h
    | ok m =>
      rw [hframe] at h
      cases h
      rfl
  obtain ⟨rfl, hstated, hroom⟩ := Frame.fits_of_write hwrite
  exact Frame.take_write hstated hroom

/-- Whatever is written to two new responses, they are equal exactly if they say the same and the
last writes that reached each place behind the data put the same byte there. A response is equal to
what is read from its frame exactly if its cluster does not give a known byte as unknown and nothing
but zeros was last put behind its data. What is read from a payload is one of these responses, with
nothing behind its data. -/
theorem equal_iff_same_residue (key key' : Key) (writes writes' : List Write)
    (flags stream : UInt8) (buffer : List UInt8) :
    let r := written key writes
    let r' := written key' writes'
    (r = r' ↔ (r.key = r'.key ∧ r.status = r'.status ∧ r.data = r'.data) ∧
      ∀ i, r.data.length ≤ i → i < maxData → lastByte writes i = lastByte writes' i) ∧
    (∀ n, (r.write flags stream buffer).1 = .ok n →
      (ofFrame ((r.write flags stream buffer).2.take n) = .ok r ↔
        (key.cluster ≠ .unknown 0 ∧ key.cluster ≠ .unknown 1) ∧
          ∀ i, r.data.length ≤ i → i < maxData → lastByte writes i = 0)) ∧
    ∀ payload s, ofPayload payload = .ok s → ∃ made, s = written s.key made ∧
      ∀ i, s.data.length ≤ i → lastByte made i = 0 := by
  intro r r'
  have hbyte {i : Nat} (hi : i < maxData) : r.store[i]? = some (lastByte writes i) :=
    getElem?_store_written key writes hi
  have hbyte' {i : Nat} (hi : i < maxData) : r'.store[i]? = some (lastByte writes' i) :=
    getElem?_store_written key' writes' hi
  refine ⟨?_, fun n hwrite => ?_, fun payload s hread => ?_⟩
  · rw [eq_iff_contents, SameContents]
    refine and_congr_right fun _ => forall_congr' fun i => forall_congr' fun _ =>
      forall_congr' fun hmax => ?_
    rw [hbyte hmax, hbyte' hmax, Option.some.injEq]
  · rw [take_of_write hwrite, ofFrame_eq_ok_iff, key_written]
    refine and_congr_right fun _ => forall_congr' fun i => forall_congr' fun _ =>
      forall_congr' fun hmax => ?_
    rw [hbyte hmax, Option.some.injEq]
  · exact ⟨_, written_of_ofPayload hread, fun i hi => lastByte_of_read _ _ hi⟩

/-- Data that are as long as those before hide them, so that the response is read back as it is. -/
theorem equal_iff_same_residue_overwritten :
    let writes : List Write := [.word 0x04030201, .status .busy, .data [5, 6, 7, 8]]
    let r := written .ping writes
    let buffer : List UInt8 := List.replicate 29 0xEE
    r = written .ping [.status .busy, .word 0x08070605] ∧
      (r.write 1 0 buffer).1 = .ok 17 ∧ ofFrame ((r.write 1 0 buffer).2.take 17) = .ok r := by
  intro writes r buffer
  have hwrite : (r.write 1 0 buffer).1 = .ok 17 := rfl
  have hresidue : ∀ i, r.data.length ≤ i → i < maxData → lastByte writes i = 0 := by
    intro i hi _
    have hlength : r.data.length = 4 := rfl
    rw [hlength] at hi
    simp [lastByte, writes, Write.bytes, maxData, Bytes.ofWord32, hi]
  have hresidue' : ∀ i, r.data.length ≤ i → i < maxData → lastByte writes i =
      lastByte [.status .busy, .word 0x08070605] i := by
    intro i hi hmax
    have hlength : r.data.length = 4 := rfl
    rw [hresidue i hi hmax]
    rw [hlength] at hi
    simp [lastByte, Write.bytes, Bytes.ofWord32, hi]
  obtain ⟨hequal, hback, _⟩ := equal_iff_same_residue .ping .ping writes
    [.status .busy, .word 0x08070605] 1 0 buffer
  exact ⟨hequal.mpr ⟨⟨rfl, rfl, rfl⟩, hresidue'⟩, hwrite,
    (hback 17 hwrite).mpr ⟨⟨by decide, by decide⟩, hresidue⟩⟩

/-- A response whose data were dropped says the same as a new one, is not equal to it, and is read
back as the new one. -/
theorem cleared_not_equal_to_new :
    let r := written .ping [.word 1, .clear]
    let s := written .ping []
    let buffer : List UInt8 := List.replicate 29 0xEE
    (r.key = s.key ∧ r.status = s.status ∧ r.data = s.data) ∧ r ≠ s ∧
      (r.key.cluster ≠ .unknown 0 ∧ r.key.cluster ≠ .unknown 1) ∧
      (r.write 1 0 buffer).1 = .ok 13 ∧
      ofFrame ((r.write 1 0 buffer).2.take 13) ≠ .ok r := by
  intro r s buffer
  have hwrite : (r.write 1 0 buffer).1 = .ok 13 := rfl
  refine ⟨⟨rfl, rfl, rfl⟩, by decide, by decide, hwrite, ?_⟩
  rw [take_of_write hwrite, ne_eq, ofFrame_eq_ok_iff]
  rintro ⟨_, hbehind⟩
  exact absurd (hbehind 0 (Nat.zero_le _) (by decide)) (by decide)

end Response

end NodeBus.Command
