import NodeBus.Board.Step
import NodeBus.Proofs.Command.RoundTrip
import NodeBus.Proofs.Command.Wire
import NodeBus.Proofs.Frame.Codec

/-!
# What a board replies to a frame

`Reading.reply` is the whole answer of a board to a frame, as a function of the
frame and of what the clock and the tick count show. `answers_reply` says what a
reply is to whoever reads it, and `answer_reply` that the board sends it.
-/

namespace NodeBus.Board

open Command (Key Status Request Response)

/-! ## The reply -/

/-- What a board shows to the handlers of its commands. -/
structure Reading where
  now : UInt32
  count : UInt32
  deriving DecidableEq, Repr

def reading (b : Board) : Reading := ⟨b.node.now, b.node.counters.get counter⟩

namespace Reading

def outcome (r : Reading) (key : Key) : Status × List UInt8 :=
  if key = .ping then (.success, Bytes.ofWord32 r.now)
  else if key = .counter then (.success, Bytes.ofWord32 r.count)
  else (.notFound, [])

/-- The frame that answers a command which came on a stream. -/
def response (r : Reading) (stream : UInt8) (key : Key) : Frame :=
  let (status, data) := r.outcome key
  ⟨Frame.finalFlag, stream,
    key.cluster.byte :: key.id :: status.byte :: .ofNat data.length :: data⟩

/-- The bytes that answer a frame: a response, or nothing if the frame holds no request. -/
def reply (r : Reading) (frame : List UInt8) : List UInt8 :=
  match Frame.decode frame with
  | .error _ => []
  | .ok f =>
    match Request.ofPayload f.payload with
    | .error _ => []
    | .ok request => (r.response f.stream request.key).bytes

theorem length_outcome_le (r : Reading) (key : Key) : (r.outcome key).2.length ≤ 4 := by
  rw [outcome]
  split
  · exact Nat.le_refl _
  · split
    · exact Nat.le_refl _
    · exact Nat.zero_le _

theorem length_response (r : Reading) (stream : UInt8) (key : Key) :
    (r.response stream key).payload.length = (r.outcome key).2.length + 4 := rfl

/-- A response frame is read as what the handler of the key makes of the reading. -/
theorem ofFrame_response {r : Reading} {stream : UInt8} {key : Key}
    (hkey : Command.Cluster.ofByte key.cluster.byte = key.cluster) :
    ∃ response, Response.ofFrame (r.response stream key).bytes = .ok response ∧
      response.key = key ∧ (response.status, response.data) = r.outcome key := by
  have hlength := r.length_outcome_le key
  have hdecode : Frame.decode (r.response stream key).bytes = .ok (r.response stream key) := by
    apply Frame.decode_bytes
    rw [length_response]
    simp only [Frame.maxPayload]
    omega
  obtain ⟨response, hread, hreadKey, hstatus, hdata⟩ :=
    Response.ofPayload_of_parts key (r.outcome key).1
      (Nat.le_trans hlength (by decide))
  refine ⟨response, ?_, by rw [hreadKey, hkey], by rw [hstatus, hdata]⟩
  simp only [Response.ofFrame, hdecode]
  exact hread

end Reading

/-- What the reply to a frame with a request is to whoever reads it. -/
structure Answers (r : Reading) (f : Frame) (request : Request) (out : List UInt8) : Prop where
  size : out.length ≤ Response.maxFrame
  /-- A single frame on the stream of the request, with the same two bytes for the key. -/
  header : ∃ g, Frame.decode out = .ok g ∧ g.flags = Frame.finalFlag ∧ g.stream = f.stream ∧
    g.payload.take 2 = f.payload.take 2
  response : ∃ response, Response.ofFrame out = .ok response ∧ response.key = request.key ∧
    (response.status, response.data) = r.outcome request.key

theorem answers_reply (r : Reading) {frame : List UInt8} {f : Frame} {request : Request}
    (hf : Frame.decode frame = .ok f) (hrequest : Request.ofPayload f.payload = .ok request) :
    Answers r f request (r.reply frame) := by
  have hreply : r.reply frame = (r.response f.stream request.key).bytes := by
    simp only [Reading.reply, hf, hrequest]
  obtain ⟨hfront, hkey⟩ := Request.front_of_ofPayload hrequest
  have hlength := r.length_outcome_le request.key
  rw [hreply]
  refine ⟨?_, ⟨r.response f.stream request.key, ?_, rfl, rfl, ?_⟩, Reading.ofFrame_response hkey⟩
  · rw [Frame.length_bytes, Frame.size, Reading.length_response]
    simp only [Frame.overhead, Frame.headerSize, Frame.checksumSize, Response.maxFrame,
      Command.responseHeader, Command.maxData]
    omega
  · apply Frame.decode_bytes
    rw [Reading.length_response]
    simp only [Frame.maxPayload]
    omega
  · rw [hfront]
    rfl

/-- A frame without a request is not answered. -/
theorem reply_eq_nil (r : Reading) {frame : List UInt8}
    (h : ∀ f request, Frame.decode frame = .ok f → Request.ofPayload f.payload ≠ .ok request) :
    r.reply frame = [] := by
  rw [Reading.reply]
  split
  · rfl
  · rename_i f hf
    split
    · rfl
    · rename_i request hrequest
      exact absurd hrequest (h f request hf)

/-- Parameters and flags of a request do not show in the reply. -/
theorem reply_congr (r : Reading) {frame frame' : List UInt8} {f f' : Frame}
    {request request' : Request} (hf : Frame.decode frame = .ok f)
    (hf' : Frame.decode frame' = .ok f') (hrequest : Request.ofPayload f.payload = .ok request)
    (hrequest' : Request.ofPayload f'.payload = .ok request') (hstream : f.stream = f'.stream)
    (hkey : request.key = request'.key) : r.reply frame = r.reply frame' := by
  simp only [Reading.reply, hf, hf', hrequest, hrequest', hstream, hkey]

/-! ## What the board sends -/

def transmitted (seen : List Entry) : List UInt8 :=
  seen.flatMap fun
    | .sent bytes => bytes
    | _ => []

@[simp] theorem transmitted_append (seen later : List Entry) :
    transmitted (seen ++ later) = transmitted seen ++ transmitted later := List.flatMap_append

/-- Telling listeners changes tick counts and displays only. -/
theorem tell_eq (n : Node) (news : News) (audience : List Subscriber) :
    ∃ counters displays, n.tell news audience = { n with counters, displays } := by
  induction audience generalizing n with
  | nil => exact ⟨n.counters, n.displays, rfl⟩
  | cons s audience ih =>
    obtain ⟨counters, displays, htell⟩ := ih (n.hear news s)
    refine ⟨counters, displays, ?_⟩
    change (n.hear news s).tell news audience = _
    rw [htell]
    simp only [Node.hear]
    split <;> rfl

theorem transmitted_tell (b : Board) (news : News) (audience : List Subscriber) :
    transmitted (b.tell news audience).1 = [] := by
  change transmitted (audience.filterMap (Entry.ofNews? news)) = []
  rw [transmitted, List.flatMap_eq_nil_iff]
  intro e he
  obtain ⟨s, _, hs⟩ := List.mem_filterMap.mp he
  simp only [Entry.ofNews?] at hs
  split at hs <;> cases hs <;> rfl

/-- The payload of what the handlers of a board respond. -/
theorem payload_respond {c : Command.Catalogue} (h : c.handlers = handlers)
    (around : Command.Surroundings) (request : Request) (flags stream : UInt8) :
    (c.respond around request).frame flags stream =
      { Reading.response ⟨around.now, around.count counter⟩ stream request.key with flags } := by
  have hfind : c.find? request.key =
      if request.key = .ping then some .ping
      else if request.key = .counter then some (.counter counter) else none := by
    simp only [Command.Catalogue.find?, h, handlers, List.find?_cons, List.find?_nil]
    by_cases hping : request.key = .ping
    · simp [hping, Command.Handler.ping]
    · have hping' : ¬ Command.Handler.ping.key = request.key := fun heq => hping heq.symm
      by_cases hcounter : request.key = .counter
      · simp [hcounter, Command.Handler.ping, Command.Handler.counter, Key.ping, Key.counter]
      · have hcounter' : ¬ (Command.Handler.counter counter).key = request.key :=
          fun heq => hcounter heq.symm
        simp [hping, hping', hcounter, hcounter']
  simp only [Command.Catalogue.respond, Reading.response, Reading.outcome]
  rw [hfind]
  by_cases hping : request.key = .ping
  · simp only [hping, if_true]
    rfl
  · by_cases hcounter : request.key = .counter
    · simp only [hcounter, if_true]
      rfl
    · simp only [hping, hcounter, if_false]
      rfl

theorem send_spec (b : Board) (bytes : List UInt8) :
    transmitted (b.send bytes).1 = (if b.failing = 0 then bytes else []) ∧
      (b.send bytes).2.node = b.node ∧ (b.send bytes).2.inbox = b.inbox := by
  rw [send]
  split
  · rename_i hfailing
    rw [hfailing]
    exact ⟨by simp [transmitted], rfl, rfl⟩
  · rename_i n hfailing
    rw [hfailing]
    exact ⟨rfl, rfl, rfl⟩

/-- The buffer of a response is never too short, so that its whole frame is sent. -/
theorem respond_eq (b : Board) (response : Response) (stream : UInt8) :
    b.respond response stream = b.send (response.frame Frame.finalFlag stream).bytes := by
  have hroom : Response.maxFrame ≤ (List.replicate Response.maxFrame (0 : UInt8)).length :=
    Nat.le_of_eq List.length_replicate.symm
  rw [respond, response.write_of_room Frame.finalFlag stream hroom]
  dsimp only
  rw [Frame.take_size]

/-- A board with its handlers sends the response to a request, if the write goes through. -/
theorem serve_response {b : Board} (h : b.node.catalogue.handlers = handlers)
    (request : Request) (stream : UInt8) :
    transmitted (b.serve request stream).1 =
        (if b.failing = 0 then (b.reading.response stream request.key).bytes else []) ∧
      (b.serve request stream).2.node.catalogue = b.node.catalogue ∧
      (b.serve request stream).2.inbox = b.inbox := by
  obtain ⟨counters, displays, htell⟩ := tell_eq (b.node.execute request)
    (.notice (b.node.execute request).notice) (b.node.execute request).noticeTopic.roster.entries
  let told : Board := { b with node := { b.node.execute request with counters, displays } }
  obtain ⟨hsent, hnode, hinbox⟩ := send_spec told
    (told.node.notice.response.frame Frame.finalFlag stream).bytes
  have hresponse : told.node.notice.response.frame Frame.finalFlag stream =
      b.reading.response stream request.key :=
    payload_respond h b.node.surroundings request Frame.finalFlag stream
  rw [serve]
  simp only [transmitted_append, transmitted_tell, List.nil_append, respond_eq]
  simp only [tell, htell]
  refine ⟨?_, (congrArg Node.catalogue hnode).trans rfl, hinbox⟩
  rw [← hresponse]
  exact hsent

/-- A board with its handlers sends the reply to a frame, if the write goes through, and
goes on with the same handlers and the same arrivals. -/
theorem answer_reply {b : Board} (h : b.node.catalogue.handlers = handlers)
    (frame : List UInt8) :
    transmitted (b.answer frame).1 = (if b.failing = 0 then b.reading.reply frame else []) ∧
      (b.answer frame).2.node.catalogue = b.node.catalogue ∧
      (b.answer frame).2.inbox = b.inbox := by
  simp only [answer, Reading.reply]
  cases Frame.decode frame with
  | error cause => exact ⟨(ite_self _).symm, rfl, rfl⟩
  | ok f =>
    dsimp only
    cases Request.ofPayload f.payload with
    | error cause => exact ⟨(ite_self _).symm, rfl, rfl⟩
    | ok request => exact serve_response h request f.stream

end NodeBus.Board
