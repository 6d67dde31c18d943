import NodeBus.Proofs.Command.Wire
import NodeBus.Proofs.Frame.Codec

/-!
# Commands are read back as they were written

Requests and responses fit into their buffers whatever they hold, and their frames are
read back with the same contents. Only the cluster may come back under another name: a
byte is all that is sent of it, and the bytes 0 and 1 stand for the known clusters
(`Key.reread`). What lies behind the data of a response is not sent.
-/

namespace NodeBus.Command

/-! ## Keys -/

/-- A cluster is told from its byte unless it gives the byte of a known one as unknown. -/
theorem Cluster.ofByte_byte_iff (c : Cluster) :
    ofByte c.byte = c ↔ c ≠ .unknown 0 ∧ c ≠ .unknown 1 := by
  cases c with
  | system => simp [byte, ofByte]
  | sensor => simp [byte, ofByte]
  | unknown b =>
    by_cases h₀ : b = 0
    · simp [byte, ofByte, h₀]
    · by_cases h₁ : b = 1
      · simp [byte, ofByte, h₁]
      · simp [byte, ofByte, h₀, h₁]

/-- The key that is read where `k` was written. -/
def Key.reread (k : Key) : Key := ⟨.ofByte k.cluster.byte, k.id⟩

theorem Key.reread_eq_self_iff (k : Key) :
    k.reread = k ↔ k.cluster ≠ .unknown 0 ∧ k.cluster ≠ .unknown 1 := by
  rw [← Cluster.ofByte_byte_iff]
  cases k
  simp [reread]

/-! ## Requests -/

namespace Request

/-- The request that is read where `r` was written. -/
def reread (r : Request) : Request := { r with key := r.key.reread }

theorem reread_eq_self_iff (r : Request) :
    r.reread = r ↔ r.key.cluster ≠ .unknown 0 ∧ r.key.cluster ≠ .unknown 1 := by
  rw [← Key.reread_eq_self_iff]
  cases r
  simp [reread]

theorem ofPayload_payload (r : Request) : ofPayload r.payload = .ok r.reread := by
  have hfits := r.fits
  have hlength : (UInt8.ofNat r.params.length).toNat = r.params.length := by
    rw [UInt8.toNat_ofNat']
    simp only [maxParams] at hfits
    exact Nat.mod_eq_of_lt (by omega)
  rw [payload, ofPayload, hlength, if_neg (Nat.not_lt_of_le hfits), if_neg (by simp), make,
    dif_pos hfits]
  rfl

theorem size_frame_le (r : Request) (flags stream : UInt8) :
    (r.frame flags stream).size ≤ maxFrame := by
  have hfits := r.fits
  simp only [Frame.size, frame, length_payload, maxFrame]
  omega

theorem stated_frame (r : Request) (flags stream : UInt8) :
    (r.frame flags stream).payload.length ≤ Frame.maxPayload :=
  Frame.stated_of_size_le (r.size_frame_le flags stream) (by decide)

theorem ofFrame_bytes (r : Request) (flags stream : UInt8) :
    ofFrame (r.frame flags stream).bytes = .ok r.reread := by
  simp only [ofFrame, Frame.decode_bytes (r.stated_frame flags stream)]
  exact r.ofPayload_payload

theorem write_eq (r : Request) (flags stream : UInt8) (buffer : List UInt8) :
    r.write flags stream buffer = (((r.frame flags stream).write buffer).1.mapError .frame,
      ((r.frame flags stream).write buffer).2) := rfl

theorem write_of_room (r : Request) (flags stream : UInt8) {buffer : List UInt8}
    (h : maxFrame ≤ buffer.length) :
    r.write flags stream buffer = (.ok (r.frame flags stream).size,
      (r.frame flags stream).bytes ++ buffer.drop (r.frame flags stream).size) := by
  rw [write_eq, Frame.write_of_fits (r.stated_frame flags stream)
    (Nat.le_trans (r.size_frame_le flags stream) h)]
  rfl

end Request

/-! ## Responses -/

namespace Response

theorem length_data_le (r : Response) : r.data.length ≤ maxData := by
  have := r.fills
  omega

theorem size_frame_le (r : Response) (flags stream : UInt8) :
    (r.frame flags stream).size ≤ maxFrame := by
  have hfits := r.length_data_le
  simp only [Frame.size, frame, length_payload, maxFrame]
  omega

theorem stated_frame (r : Response) (flags stream : UInt8) :
    (r.frame flags stream).payload.length ≤ Frame.maxPayload :=
  Frame.stated_of_size_le (r.size_frame_le flags stream) (by decide)

theorem ofFrame_bytes (r : Response) (flags stream : UInt8) :
    ∃ back, ofFrame (r.frame flags stream).bytes = .ok back ∧
      back.key = r.key.reread ∧ back.status = r.status ∧ back.data = r.data := by
  obtain ⟨back, hread, hparts⟩ := ofPayload_of_parts r.key r.status r.length_data_le
  refine ⟨back, ?_, hparts⟩
  simp only [ofFrame, Frame.decode_bytes (r.stated_frame flags stream)]
  exact hread

theorem write_of_room (r : Response) (flags stream : UInt8) {buffer : List UInt8}
    (h : maxFrame ≤ buffer.length) :
    r.write flags stream buffer = (.ok (r.frame flags stream).size,
      (r.frame flags stream).bytes ++ buffer.drop (r.frame flags stream).size) := by
  rw [write, Frame.write_of_fits (r.stated_frame flags stream)
    (Nat.le_trans (r.size_frame_le flags stream) h)]
  rfl

end Response

/-! ## Both -/

/-- Every request and every response, however its contents came about, is written to every
buffer that has room for the largest one of its kind, whatever the buffer held. The frame
has the header fields that were asked for, and what is read from it has the same id and
the same contents, with the cluster that the byte of the cluster stands for. So a request
is read back as it was exactly if its cluster does not give a known byte as unknown. -/
theorem commands_read_back (flags stream : UInt8) (buffer : List UInt8) :
    (∀ r : Request, Request.maxFrame ≤ buffer.length → ∃ n,
      (r.write flags stream buffer).1 = .ok n ∧
      Frame.decode ((r.write flags stream buffer).2.take n) = .ok ⟨flags, stream, r.payload⟩ ∧
      ∃ back, Request.ofFrame ((r.write flags stream buffer).2.take n) = .ok back ∧
        back.key.cluster = .ofByte r.key.cluster.byte ∧ back.key.id = r.key.id ∧
        back.params = r.params ∧
        (back = r ↔ r.key.cluster ≠ .unknown 0 ∧ r.key.cluster ≠ .unknown 1)) ∧
    ∀ r : Response, Response.maxFrame ≤ buffer.length → ∃ n,
      (r.write flags stream buffer).1 = .ok n ∧
      Frame.decode ((r.write flags stream buffer).2.take n) = .ok ⟨flags, stream, r.payload⟩ ∧
      ∃ back, Response.ofFrame ((r.write flags stream buffer).2.take n) = .ok back ∧
        back.key.cluster = .ofByte r.key.cluster.byte ∧ back.key.id = r.key.id ∧
        back.status = r.status ∧ back.data = r.data := by
  constructor
  · intro r hroom
    rw [r.write_of_room flags stream hroom]
    refine ⟨_, rfl, ?_, r.reread, ?_, rfl, rfl, rfl, r.reread_eq_self_iff⟩
    · rw [Frame.take_size]
      exact Frame.decode_bytes (r.stated_frame flags stream)
    · rw [Frame.take_size]
      exact r.ofFrame_bytes flags stream
  · intro r hroom
    obtain ⟨back, hread, hkey, hstatus, hdata⟩ := r.ofFrame_bytes flags stream
    rw [r.write_of_room flags stream hroom]
    refine ⟨_, rfl, ?_, back, ?_, by rw [hkey]; rfl, by rw [hkey]; rfl, hstatus, hdata⟩
    · rw [Frame.take_size]
      exact Frame.decode_bytes (r.stated_frame flags stream)
    · rw [Frame.take_size]
      exact hread

/-- A request of the largest size whose cluster comes back under another name, and a
response with bytes of an earlier content behind its data. -/
theorem commands_read_back_renamed :
    let r : Request := ⟨⟨.unknown 1, 7⟩, [1, 2, 3, 4, 5, 6, 7, 8], by decide⟩
    let s : Response :=
      (((Response.empty ⟨.unknown 9, 3⟩).setWord 0x12345678).put [5] (by decide)).setStatus .busy
    let buffer : List UInt8 := List.replicate 29 0xEE
    Request.maxFrame ≤ buffer.length ∧ Response.maxFrame ≤ buffer.length ∧
      (∃ n back, (r.write 0 4 buffer).1 = .ok n ∧
        Request.ofFrame ((r.write 0 4 buffer).2.take n) = .ok back ∧
        back.key.cluster = .sensor ∧ back.params = r.params ∧ back ≠ r) ∧
      ∃ n back, (s.write 0 4 buffer).1 = .ok n ∧
        Response.ofFrame ((s.write 0 4 buffer).2.take n) = .ok back ∧
        back.key.cluster = .unknown 9 ∧ back.status = .busy ∧ back.data = [5] := by
  intro r s buffer
  obtain ⟨n, hwrite, _, back, hread, hcluster, _, hparams, hsame⟩ :=
    (commands_read_back 0 4 buffer).1 r (by decide)
  obtain ⟨m, hwrite', _, back', hread', hcluster', _, hstatus', hdata'⟩ :=
    (commands_read_back 0 4 buffer).2 s (by decide)
  exact ⟨by decide, by decide,
    ⟨n, back, hwrite, hread, hcluster, hparams, fun heq => (hsame.mp heq).2 rfl⟩,
    m, back', hwrite', hread', hcluster', hstatus', hdata'⟩

end NodeBus.Command
