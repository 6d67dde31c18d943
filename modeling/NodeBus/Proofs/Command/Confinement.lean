import NodeBus.Proofs.Command.Residue

/-!
# What writing does to a buffer

A frame is put into a buffer field by field, and its checksum is taken from the buffer. All the
same the buffer takes part in nothing but the decision whether there is room: a write that is
refused leaves it as it was, and any other leaves what was behind the frame and puts the same bytes
in front, whatever was there (`Confined`). Requests and responses are written as frames of their
payloads and inherit this (`Confined.mapError`), and a response is written without the bytes behind
its data.
-/

namespace NodeBus

/-- A payload of `length` bytes is written as a frame: it is refused for its own length first and
for that of the buffer second, and changes the buffer only in front, where it depends on nothing
that was there. -/
structure Confined {ε : Type} (large small : ε) (length : Nat)
    (write : List UInt8 → Except ε Nat × List UInt8) : Prop where
  tooLarge : ∀ buffer, (write buffer).1 = .error large ↔ 65535 < length
  tooSmall : ∀ buffer,
    (write buffer).1 = .error small ↔ length ≤ 65535 ∧ buffer.length < length + 9
  written : ∀ buffer n,
    (write buffer).1 = .ok n ↔ n = length + 9 ∧ length ≤ 65535 ∧ length + 9 ≤ buffer.length
  refused : ∀ buffer e, (write buffer).1 = .error e → (write buffer).2 = buffer
  behind : ∀ buffer n, (write buffer).1 = .ok n →
    (write buffer).2.length = buffer.length ∧ (write buffer).2.drop n = buffer.drop n
  front : ∀ buffer buffer' n n', (write buffer).1 = .ok n → (write buffer').1 = .ok n' →
    (write buffer).2.take n = (write buffer').2.take n'

theorem Confined.mapError {ε ε' : Type} {large small : ε} {length : Nat}
    {write : List UInt8 → Except ε Nat × List UInt8} (h : Confined large small length write)
    {name : ε → ε'} (hname : Function.Injective name) :
    Confined (name large) (name small) length
      fun buffer => ((write buffer).1.mapError name, (write buffer).2) := by
  have hok (buffer : List UInt8) (n : Nat) :
      (write buffer).1.mapError name = .ok n ↔ (write buffer).1 = .ok n := by
    cases (write buffer).1 with
    | ok m =>
      show (.ok m : Except ε' Nat) = .ok n ↔ _
      rw [Except.ok.injEq, Except.ok.injEq]
    | error cause =>
      show (.error (name cause) : Except ε' Nat) = .ok n ↔ _
      simp only [reduceCtorEq]
  have herror (buffer : List UInt8) (e : ε) :
      (write buffer).1.mapError name = .error (name e) ↔ (write buffer).1 = .error e := by
    cases (write buffer).1 with
    | ok m =>
      show (.ok m : Except ε' Nat) = .error (name e) ↔ _
      simp only [reduceCtorEq]
    | error cause =>
      show (.error (name cause) : Except ε' Nat) = .error (name e) ↔ _
      rw [Except.error.injEq, Except.error.injEq, hname.eq_iff]
  refine ⟨fun buffer => (herror ..).trans (h.tooLarge buffer),
    fun buffer => (herror ..).trans (h.tooSmall buffer),
    fun buffer n => (hok ..).trans (h.written buffer n), fun buffer e he => ?_,
    fun buffer n hn => h.behind buffer n ((hok ..).mp hn),
    fun buffer buffer' n n' hn hn' => h.front _ _ _ _ ((hok ..).mp hn) ((hok ..).mp hn')⟩
  cases hwrite : (write buffer).1 with
  | ok n =>
    rw [hwrite] at he
    cases he
  | error cause => exact h.refused buffer cause hwrite

namespace Frame

/-- A frame is too large, or has no room, or is put in front of what was behind its place. -/
theorem write_cases (f : Frame) (buffer : List UInt8) :
    (maxPayload < f.payload.length ∧ f.write buffer = (.error .payloadTooLarge, buffer)) ∨
    (f.payload.length ≤ maxPayload ∧ buffer.length < f.size ∧
      f.write buffer = (.error .bufferTooSmall, buffer)) ∨
    (f.payload.length ≤ maxPayload ∧ f.size ≤ buffer.length ∧
      f.write buffer = (.ok f.size, f.bytes ++ buffer.drop f.size)) := by
  rw [write_eq]
  by_cases hlarge : maxPayload < f.payload.length
  · exact .inl ⟨hlarge, if_pos hlarge⟩
  rw [if_neg hlarge]
  by_cases hsmall : buffer.length < f.size
  · exact .inr (.inl ⟨Nat.le_of_not_lt hlarge, hsmall, if_pos hsmall⟩)
  · exact .inr (.inr ⟨Nat.le_of_not_lt hlarge, Nat.le_of_not_lt hsmall, if_neg hsmall⟩)

theorem confined (f : Frame) :
    Confined .payloadTooLarge .bufferTooSmall f.payload.length f.write := by
  have hsize : f.size = f.payload.length + 9 := rfl
  have hmax : maxPayload = 65535 := rfl
  have hanswer (buffer : List UInt8) :
      ((f.write buffer).1 = .error .payloadTooLarge ↔ 65535 < f.payload.length) ∧
      ((f.write buffer).1 = .error .bufferTooSmall ↔
        f.payload.length ≤ 65535 ∧ buffer.length < f.payload.length + 9) ∧
      ∀ n, (f.write buffer).1 = .ok n ↔
        n = f.payload.length + 9 ∧ f.payload.length ≤ 65535 ∧
          f.payload.length + 9 ≤ buffer.length := by
    rcases f.write_cases buffer with ⟨_, hw⟩ | ⟨_, _, hw⟩ | ⟨_, _, hw⟩ <;> rw [hw] <;>
      refine ⟨?_, ?_, fun n => ?_⟩ <;> simp <;> omega
  -- What is in front is the wire form, which knows no buffer.
  have hfront (buffer : List UInt8) (n : Nat) (h : (f.write buffer).1 = .ok n) :
      n = f.size ∧ (f.write buffer).2 = f.bytes ++ buffer.drop f.size ∧
        f.size ≤ buffer.length := by
    rcases f.write_cases buffer with ⟨_, hw⟩ | ⟨_, _, hw⟩ | ⟨_, hroom, hw⟩ <;> rw [hw] at h ⊢
    · cases h
    · cases h
    · cases h
      exact ⟨rfl, rfl, hroom⟩
  refine ⟨fun buffer => (hanswer buffer).1, fun buffer => (hanswer buffer).2.1,
    fun buffer => (hanswer buffer).2.2, fun buffer e h => ?_, fun buffer n h => ?_,
    fun buffer buffer' n n' h h' => ?_⟩
  · rcases f.write_cases buffer with ⟨_, hw⟩ | ⟨_, _, hw⟩ | ⟨_, _, hw⟩ <;> rw [hw] at h ⊢
    cases h
  · obtain ⟨rfl, hbuffer, hroom⟩ := hfront buffer n h
    rw [hbuffer, List.length_append, List.length_drop, length_bytes, Nat.add_sub_cancel' hroom,
      ← length_bytes, List.drop_left]
    exact ⟨rfl, rfl⟩
  · obtain ⟨rfl, hbuffer, _⟩ := hfront buffer n h
    obtain ⟨rfl, hbuffer', _⟩ := hfront buffer' n' h'
    rw [hbuffer, hbuffer', take_size, take_size]

end Frame

namespace Command

theorem Request.confined (r : Request) (flags stream : UInt8) :
    Confined (.frame .payloadTooLarge) (.frame .bufferTooSmall) r.payload.length
      (r.write flags stream) :=
  (r.frame flags stream).confined.mapError fun _ _ => Error.frame.inj

theorem Response.confined (r : Response) (flags stream : UInt8) :
    Confined (.frame .payloadTooLarge) (.frame .bufferTooSmall) r.payload.length
      (r.write flags stream) :=
  (r.frame flags stream).confined.mapError fun _ _ => Error.frame.inj

/-- A response is written as what it says, without what lies behind its data. -/
theorem Response.write_congr {r s : Response} (hcluster : r.key.cluster.byte = s.key.cluster.byte)
    (hid : r.key.id = s.key.id) (hstatus : r.status = s.status) (hdata : r.data = s.data)
    (flags stream : UInt8) : r.write flags stream = s.write flags stream := by
  have hpayload : r.payload = s.payload := by
    rw [payload, payload, hcluster, hid, hstatus, hdata]
  funext buffer
  rw [write, write, frame, frame, hpayload]

end Command

open Command (Request Response)

/-- Frames, requests and responses are refused exactly for a payload that is too large or, second,
for a buffer that is too small, and then every byte of the buffer is left. Otherwise the bytes
behind the frame are left, and those of the frame do not depend on the buffer. Those of a response
depend on its key bytes, its status and its data alone, not on what was in its store before. -/
theorem writes_confined :
    (∀ f : Frame, Confined .payloadTooLarge .bufferTooSmall f.payload.length f.write) ∧
    (∀ (r : Request) (flags stream : UInt8),
      Confined (.frame .payloadTooLarge) (.frame .bufferTooSmall) r.payload.length
        (r.write flags stream)) ∧
    (∀ (r : Response) (flags stream : UInt8),
      Confined (.frame .payloadTooLarge) (.frame .bufferTooSmall) r.payload.length
        (r.write flags stream)) ∧
    ∀ (r s : Response) (flags stream : UInt8) (buffer buffer' : List UInt8) (n n' : Nat),
      r.key.cluster.byte = s.key.cluster.byte → r.key.id = s.key.id → r.status = s.status →
      r.data = s.data → (r.write flags stream buffer).1 = .ok n →
      (s.write flags stream buffer').1 = .ok n' →
      n = n' ∧
        (r.write flags stream buffer).2.take n = (s.write flags stream buffer').2.take n' := by
  refine ⟨Frame.confined, Request.confined, Response.confined, ?_⟩
  intro r s flags stream buffer buffer' n n' hcluster hid hstatus hdata hn hn'
  -- Both are written alike, so that what differs is the buffer alone.
  have hconfined := s.confined flags stream
  rw [Response.write_congr hcluster hid hstatus hdata] at hn ⊢
  obtain ⟨hlength, -⟩ := (hconfined.written buffer n).mp hn
  obtain ⟨hlength', -⟩ := (hconfined.written buffer' n').mp hn'
  exact ⟨hlength.trans hlength'.symm, hconfined.front buffer buffer' n n' hn hn'⟩

/-- A response whose store holds bytes of longer data, and a new one that says the same, in buffers
of another length and content; and the first one in a buffer that is one byte short. -/
theorem writes_confined_stale :
    let r := Response.written .ping [.data (List.replicate 16 0xEE), .data [5]]
    let s := Response.written ⟨.unknown 0, 1⟩ [.data [5]]
    let buffer : List UInt8 := List.replicate 14 0xEE
    let buffer' : List UInt8 := List.replicate 20 0
    r.store ≠ s.store ∧ (r.write 1 0 buffer).1 = .ok 14 ∧ (s.write 1 0 buffer').1 = .ok 14 ∧
      (r.write 1 0 buffer).2.take 14 = (s.write 1 0 buffer').2.take 14 ∧
      (s.write 1 0 buffer').2.drop 14 = List.replicate 6 0 ∧
      (r.write 1 0 (List.replicate 13 0xEE)).1 = .error (.frame .bufferTooSmall) ∧
      (r.write 1 0 (List.replicate 13 0xEE)).2 = List.replicate 13 0xEE := by
  intro r s buffer buffer'
  obtain ⟨_, _, hresponse, hsame⟩ := writes_confined
  have hn : (r.write 1 0 buffer).1 = .ok 14 :=
    ((hresponse r 1 0).written buffer 14).mpr ⟨rfl, by decide, by decide⟩
  have hn' : (s.write 1 0 buffer').1 = .ok 14 :=
    ((hresponse s 1 0).written buffer' 14).mpr ⟨rfl, by decide, by decide⟩
  have hshort := ((hresponse r 1 0).tooSmall (List.replicate 13 0xEE)).mpr ⟨by decide, by decide⟩
  exact ⟨by decide, hn, hn', (hsame r s 1 0 buffer buffer' 14 14 rfl rfl rfl rfl hn hn').2,
    ((hresponse s 1 0).behind buffer' 14 hn').2, hshort, (hresponse r 1 0).refused _ _ hshort⟩

end NodeBus
