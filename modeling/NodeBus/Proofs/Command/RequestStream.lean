import NodeBus.Proofs.Command.RoundTrip
import NodeBus.Proofs.Frame.CleanStream

/-!
# Requests on a clean stream

A receiver with room for the largest request returns each request of a clean stream with
its last byte, and what is read from the frames are the requests that were sent, in
order (`clean_stream_parsed`), with the clusters that their bytes stand for.
-/

namespace NodeBus.Command

open NodeBus.Frame (Parcel Noise Written Receiver)
open NodeBus.Frame.Receiver (fresh frames feedAll_parcels frames_answers)

/-- What a request is written as, with some header fields and in some buffer. -/
def Request.WrittenAs (r : Request) (g : List UInt8) : Prop :=
  ∃ (flags stream : UInt8) (buffer : List UInt8) (n : Nat),
    (r.write flags stream buffer).1 = .ok n ∧ (r.write flags stream buffer).2.take n = g

theorem Request.writtenAs_frame (r : Request) (flags stream : UInt8) :
    r.WrittenAs (r.frame flags stream).bytes := by
  have hroom : maxFrame ≤ (List.replicate maxFrame (0 : UInt8)).length := by
    rw [List.length_replicate]
  have hwrite := r.write_of_room flags stream hroom
  refine ⟨flags, stream, List.replicate maxFrame 0, (r.frame flags stream).size, ?_, ?_⟩
  · rw [hwrite]
  · rw [hwrite, Frame.take_size]

theorem Request.WrittenAs.exists_frame {r : Request} {g : List UInt8} (h : r.WrittenAs g) :
    ∃ flags stream, g = (r.frame flags stream).bytes ∧ Written g := by
  obtain ⟨flags, stream, buffer, n, hwrite, rfl⟩ := h
  refine ⟨flags, stream, ?_⟩
  rw [write_eq] at hwrite ⊢
  -- Only the error is renamed, so the frame itself was written.
  cases hframe : ((r.frame flags stream).write buffer).1 with
  | error cause =>
    rw [hframe] at hwrite
    cases hwrite
  | ok m =>
    rw [hframe] at hwrite
    cases hwrite
    obtain ⟨rfl, hpayload, hroom⟩ := Frame.fits_of_write hframe
    exact ⟨Frame.take_write hpayload hroom, r.frame flags stream, buffer, _, hframe, rfl⟩

/-- A request that was sent: its bytes, with the noise that comes before them. -/
structure Sent where
  request : Request
  parcel : Parcel

structure Sent.Clean (s : Sent) : Prop where
  noise : Noise s.parcel.noise
  written : s.request.WrittenAs s.parcel.wire

theorem Sent.Clean.parcel_clean {s : Sent} (h : s.Clean) : s.parcel.Clean Request.maxFrame := by
  obtain ⟨flags, stream, hwire, hwritten⟩ := h.written.exists_frame
  refine ⟨h.noise, hwritten, ?_⟩
  rw [hwire, Frame.length_bytes]
  exact s.request.size_frame_le flags stream

theorem Sent.Clean.ofFrame_wire {s : Sent} (h : s.Clean) :
    Request.ofFrame s.parcel.wire = .ok s.request.reread := by
  obtain ⟨flags, stream, hwire, _⟩ := h.written.exists_frame
  rw [hwire]
  exact s.request.ofFrame_bytes flags stream

/-- A fresh receiver of any capacity answers to a clean stream with each frame on its last
byte, in order, and with nothing on every other byte. With room for the largest request,
it does so for any requests, and what is read from the frames are the same requests in the
same order, each with the cluster that the byte of its cluster stands for: the very
requests that were sent, if no cluster gives the byte of a known one as unknown. -/
theorem clean_stream_parsed :
    (∀ (capacity : Nat) (parcels : List Parcel), (∀ p ∈ parcels, p.Clean capacity) →
      ((fresh : Receiver capacity).feedAll (parcels.flatMap Parcel.bytes)).1 =
        parcels.flatMap Parcel.answers) ∧
    ∀ sent : List Sent, (∀ s ∈ sent, s.Clean) →
      let parcels := sent.map Sent.parcel
      let answers := ((fresh : Receiver Request.maxFrame).feedAll (parcels.flatMap Parcel.bytes)).1
      answers = parcels.flatMap Parcel.answers ∧
      (frames answers).map Request.ofFrame =
        sent.map (fun s => .ok { s.request with
          key := ⟨.ofByte s.request.key.cluster.byte, s.request.key.id⟩ }) ∧
      ((∀ s ∈ sent, s.request.key.cluster ≠ .unknown 0 ∧ s.request.key.cluster ≠ .unknown 1) →
        (frames answers).map Request.ofFrame = sent.map (fun s => .ok s.request)) := by
  refine ⟨fun capacity parcels hclean => feedAll_parcels hclean rfl, ?_⟩
  intro sent hclean parcels answers
  have hparcels : ∀ p ∈ parcels, p.Clean Request.maxFrame := by
    intro p hp
    obtain ⟨s, hs, rfl⟩ := List.mem_map.mp hp
    exact (hclean s hs).parcel_clean
  have hanswers : answers = parcels.flatMap Parcel.answers := feedAll_parcels hparcels rfl
  have hread : (frames answers).map Request.ofFrame = sent.map fun s => .ok s.request.reread := by
    rw [hanswers, frames_answers, List.map_map, List.map_map]
    exact List.map_congr_left fun s hs => (hclean s hs).ofFrame_wire
  refine ⟨hanswers, hread, fun hknown => ?_⟩
  rw [hread]
  refine List.map_congr_left fun s hs => ?_
  rw [s.request.reread_eq_self_iff.mpr (hknown s hs)]

/-- A frame that carries a frame, behind noise that ends in the first magic byte, and a
frame behind noise that begins with the second one; then two requests. -/
theorem clean_stream_parsed_nested :
    let ping : Frame := .single [0, 1, 0]
    let parcels : List Parcel :=
      [⟨[0x00, 0xFF, 0xAC, 0x12, 0xAC], (Frame.single ping.bytes).bytes⟩, ⟨[0xDA], ping.bytes⟩]
    let set : Request := ⟨⟨.unknown 9, 2⟩, [0xAC, 0xDA, 1], by decide⟩
    let count : Request := ⟨.counter, [], by decide⟩
    let sent : List Sent := [⟨set, ⟨[0xAC], (set.frame 0 7).bytes⟩⟩,
      ⟨count, ⟨[], (count.frame 1 0).bytes⟩⟩]
    (∀ p ∈ parcels, p.Clean 21) ∧
      ((fresh : Receiver 21).feedAll (parcels.flatMap Parcel.bytes)).1 =
        parcels.flatMap Parcel.answers ∧
      (∀ s ∈ sent, s.Clean) ∧
      (∀ s ∈ sent, s.request.key.cluster ≠ .unknown 0 ∧ s.request.key.cluster ≠ .unknown 1) ∧
      (frames ((fresh : Receiver Request.maxFrame).feedAll
        ((sent.map Sent.parcel).flatMap Parcel.bytes)).1).map Request.ofFrame =
          [.ok set, .ok count] := by
  intro ping parcels set count sent
  have hparcels : ∀ p ∈ parcels, p.Clean 21 := by
    simp only [parcels, List.forall_mem_cons, List.not_mem_nil, false_implies, implies_true,
      and_true]
    exact ⟨⟨by decide, Frame.written_bytes (by decide), by decide⟩,
      ⟨by decide, Frame.written_bytes (by decide), by decide⟩⟩
  have hsent : ∀ s ∈ sent, s.Clean := by
    simp only [sent, List.forall_mem_cons, List.not_mem_nil, false_implies, implies_true,
      and_true]
    exact ⟨⟨by decide, set.writtenAs_frame 0 7⟩, ⟨by decide, count.writtenAs_frame 1 0⟩⟩
  have hknown : ∀ s ∈ sent, s.request.key.cluster ≠ .unknown 0 ∧
      s.request.key.cluster ≠ .unknown 1 := by
    simp [sent, set, count, Key.counter]
  exact ⟨hparcels, clean_stream_parsed.1 21 parcels hparcels, hsent, hknown,
    (clean_stream_parsed.2 sent hsent).2.2 hknown⟩

/-- A request whose cluster gives the byte 0 as unknown is sent and returned like any
other, but what is read is another request: one of the known cluster. -/
theorem unknown_zero_read_as_system :
    let r : Request := ⟨⟨.unknown 0, 7⟩, [0x0A, 0x0B], by decide⟩
    let wire := (r.write 1 0 (List.replicate 20 0xEE)).2.take 14
    (r.write 1 0 (List.replicate 20 0xEE)).1 = .ok 14 ∧
      ((fresh : Receiver Request.maxFrame).feedAll wire).1 =
        List.replicate 13 (.ok none) ++ [.ok (some wire)] ∧
      (frames ((fresh : Receiver Request.maxFrame).feedAll wire).1).map Request.ofFrame ≠
        [.ok r] := by
  intro r wire
  have hroom : Request.maxFrame ≤ (List.replicate 20 (0xEE : UInt8)).length := by decide
  have hwrite := r.write_of_room 1 0 hroom
  have hclean : Sent.Clean ⟨r, ⟨[], wire⟩⟩ :=
    ⟨Frame.noise_nil, 1, 0, List.replicate 20 0xEE, 14, by rw [hwrite]; rfl, rfl⟩
  have hlength : wire.length = 14 := by
    simp only [wire, hwrite]
    rfl
  have hanswers : ((fresh : Receiver Request.maxFrame).feedAll wire).1 =
      List.replicate 13 (.ok none) ++ [.ok (some wire)] := by
    have hparcel := (Receiver.feedAll_parcel (r := fresh) hclean.parcel_clean rfl).1
    rwa [Parcel.answers, hlength] at hparcel
  refine ⟨by rw [hwrite]; rfl, hanswers, fun hsame => ?_⟩
  rw [hanswers] at hsame
  have hread : Request.ofFrame wire = .ok r := List.head_eq_of_cons_eq hsame
  have hreread := hclean.ofFrame_wire.symm.trans hread
  exact (r.reread_eq_self_iff.mp (Except.ok.inj hreread)).1 rfl

end NodeBus.Command
