import NodeBus.Proofs.Command.RoundTrip

/-!
# The payloads that are read

Payloads of both kinds obey rules that are checked one after the other: the fixed part is
complete, the length that it states is within the limit and is the number of bytes that
follow, and the status of a response is a known one. A payload is read if it obeys all of
them, and otherwise the first rule that it breaks names the error.

What is read from a payload has this payload and no other (`Follows`), whatever bytes stand
for its cluster. So each byte string that is read is written again as it was
(`payloads_read_exactly`).
-/

namespace NodeBus.Command

/-! ## Rules -/

/-- A rule for payloads, and the error of those that break it. -/
structure Rule where
  holds : List UInt8 → Bool
  error : List UInt8 → Error

/-- The error of the first rule that a payload breaks. -/
def firstFault (rules : List Rule) (p : List UInt8) : Option Error :=
  (rules.find? fun rule => !rule.holds p).map (·.error p)

theorem firstFault_eq_none_iff {rules : List Rule} {p : List UInt8} :
    firstFault rules p = none ↔ ∀ rule ∈ rules, rule.holds p = true := by
  simp [firstFault]

@[simp] theorem firstFault_nil (p : List UInt8) : firstFault [] p = none := rfl

theorem firstFault_cons (rule : Rule) (rules : List Rule) (p : List UInt8) :
    firstFault (rule :: rules) p =
      if rule.holds p then firstFault rules p else some (rule.error p) := by
  by_cases h : rule.holds p = true <;> simp [firstFault, h]

/-- The rules for payloads whose fixed part has `header` bytes, the last of which states
how many bytes follow. Further rules come after these. -/
def lengthRules (header most : Nat) (tooLong : Error) (rules : List Rule) : List Rule :=
  ⟨fun p => header ≤ p.length, fun _ => .payloadTooShort⟩ ::
  ⟨fun p => (p.getD (header - 1) 0).toNat ≤ most, fun _ => tooLong⟩ ::
  ⟨fun p => p.length = header + (p.getD (header - 1) 0).toNat, fun _ => .lengthMismatch⟩ :: rules

def Request.rules : List Rule := lengthRules 3 8 .paramsTooLong []

def Response.rules : List Rule :=
  lengthRules 4 16 .dataTooLong
    [⟨fun p => (p.getD 2 0).toNat ≤ 4, fun p => .unknownStatus (p.getD 2 0)⟩]

/-! ## Reading by rules -/

section Reading

variable {α : Type} {rules : List Rule} {ofPayload ofFrame : List UInt8 → Except Error α}
  {payload : α → List UInt8}
  {write : α → UInt8 → UInt8 → List UInt8 → Except Error Nat × List UInt8}

/-- A payload is refused for the first rule that it breaks, or read as a value with this
payload. -/
inductive Follows (rules : List Rule) (payload : α → List UInt8) (p : List UInt8) :
    Except Error α → Prop where
  | refused {e : Error} (fault : firstFault rules p = some e) : Follows rules payload p (.error e)
  | read {a : α} (sound : firstFault rules p = none) (same : payload a = p) :
      Follows rules payload p (.ok a)

theorem Follows.of_short {header most : Nat} {tooLong : Error} {p : List UInt8}
    (h : p.length < header) :
    Follows (lengthRules header most tooLong rules) payload p (.error .payloadTooShort) :=
  .refused (by simp [lengthRules, firstFault_cons, Nat.not_le_of_lt h])

/-- Behind a complete fixed part, the stated length is checked before the further rules. -/
theorem Follows.of_front {most : Nat} {tooLong : Error} (front : List UInt8) {length : UInt8}
    {rest : List UInt8} {result : Except Error α}
    (h : length.toNat ≤ most → rest.length = length.toNat →
      Follows rules payload (front ++ length :: rest) result) :
    Follows (lengthRules (front.length + 1) most tooLong rules) payload (front ++ length :: rest)
      (if most < length.toNat then .error tooLong
        else if rest.length ≠ length.toNat then .error .lengthMismatch else result) := by
  have hstated : (front ++ length :: rest).getD front.length 0 = length := by simp
  have hsum : front.length + (rest.length + 1) = front.length + 1 + length.toNat ↔
      rest.length = length.toNat := by omega
  have hfault : firstFault (lengthRules (front.length + 1) most tooLong rules)
      (front ++ length :: rest) =
      if most < length.toNat then some tooLong
      else if rest.length ≠ length.toNat then some .lengthMismatch
      else firstFault rules (front ++ length :: rest) := by
    have hfront : front.length + 1 ≤ front.length + (rest.length + 1) := by omega
    simp only [lengthRules, firstFault_cons, List.length_append, List.length_cons,
      Nat.add_sub_cancel, hstated, hsum, hfront, decide_eq_true_eq, if_true]
    by_cases hlimit : length.toNat ≤ most
    · simp only [hlimit, Nat.not_lt_of_le hlimit, if_true, if_false, ite_not]
    · simp only [hlimit, Nat.lt_of_not_le hlimit, if_true, if_false]
  -- The code branches where the rules do, and on what they say of the bytes.
  by_cases hlimit : most < length.toNat
  · rw [if_pos hlimit] at hfault ⊢
    exact .refused hfault
  by_cases hlength : rest.length = length.toNat
  · rw [if_neg hlimit, if_neg (not_not_intro hlength)] at hfault ⊢
    cases h (Nat.le_of_not_lt hlimit) hlength with
    | refused fault => exact .refused (hfault.trans fault)
    | read sound same => exact .read (hfault.trans sound) same
  · rw [if_neg hlimit, if_pos hlength] at hfault ⊢
    exact .refused hfault

theorem Follows.error_iff {p : List UInt8} {result : Except Error α} {e : Error}
    (h : Follows rules payload p result) : result = .error e ↔ firstFault rules p = some e := by
  cases h with
  | refused fault => simp [fault]
  | read sound _ => simp [sound]

theorem Follows.ok_iff {p : List UInt8} {result : Except Error α}
    (h : Follows rules payload p result) :
    (∃ a, result = .ok a) ↔ ∀ rule ∈ rules, rule.holds p = true := by
  rw [← firstFault_eq_none_iff]
  cases h with
  | refused fault => simp [fault]
  | read sound _ => simp [sound]

theorem Follows.payload_eq {p : List UInt8} {a : α} (h : Follows rules payload p (.ok a)) :
    payload a = p := by
  cases h with
  | read _ same => exact same

/-- Values of a kind are read by rules, and written as what they were read from. -/
structure Exact (rules : List Rule) (ofPayload ofFrame : List UInt8 → Except Error α)
    (write : α → UInt8 → UInt8 → List UInt8 → Except Error Nat × List UInt8) : Prop where
  refused : ∀ p e, ofPayload p = .error e ↔ firstFault rules p = some e
  /-- Written with any header fields, a value gives a frame with the payload it was read from. -/
  rewritten : ∀ p a, ofPayload p = .ok a → ∀ flags stream (buffer : List UInt8),
    p.length + 9 ≤ buffer.length → (write a flags stream buffer).1 = .ok (p.length + 9) ∧
      Frame.decode ((write a flags stream buffer).2.take (p.length + 9)) = .ok ⟨flags, stream, p⟩
  /-- Written with the header fields of its frame, a value gives this frame. -/
  reproduced : ∀ input a, ofFrame input = .ok a → ∃ f, Frame.decode input = .ok f ∧
    ∀ buffer : List UInt8, input.length ≤ buffer.length →
      (write a f.flags f.stream buffer).1 = .ok input.length ∧
      (write a f.flags f.stream buffer).2.take input.length = input

/-- What is read as a value with the same payload is also written as it was. -/
theorem exact_of_follows (hfollows : ∀ p, Follows rules payload p (ofPayload p))
    (hframe : ∀ input, ofFrame input =
      ((Frame.decode input).mapError .frame).bind fun f => ofPayload f.payload)
    (hwrite : ∀ a flags stream buffer, write a flags stream buffer =
      ((Frame.write ⟨flags, stream, payload a⟩ buffer).1.mapError .frame,
        (Frame.write ⟨flags, stream, payload a⟩ buffer).2))
    (hstated : ∀ a, (payload a).length ≤ Frame.maxPayload) :
    Exact rules ofPayload ofFrame write := by
  have hsame {p : List UInt8} {a : α} (hread : ofPayload p = .ok a) : payload a = p :=
    (hread ▸ hfollows p).payload_eq
  refine ⟨fun p e => (hfollows p).error_iff, ?_, ?_⟩
  · intro p a hread flags stream buffer hroom
    obtain rfl := hsame hread
    have hfits : (Frame.mk flags stream (payload a)).size ≤ buffer.length := hroom
    rw [hwrite, Frame.write_of_fits (hstated a) hfits]
    have hdecode := Frame.decode_bytes (f := ⟨flags, stream, payload a⟩) (hstated a)
    exact ⟨rfl, (congrArg Frame.decode (Frame.take_size _ _)).trans hdecode⟩
  · intro input a hread
    rw [hframe] at hread
    cases hdecode : Frame.decode input with
    | error cause =>
      rw [hdecode] at hread
      cases hread
    | ok f =>
      rw [hdecode] at hread
      have hpayload : payload a = f.payload := hsame hread
      obtain ⟨hlength, rfl⟩ := Frame.bytes_of_decode hdecode
      refine ⟨f, rfl, fun buffer hroom => ?_⟩
      rw [Frame.length_bytes] at hroom ⊢
      rw [hwrite, hpayload, Frame.write_of_fits hlength hroom]
      exact ⟨rfl, Frame.take_size f _⟩

end Reading

/-! ## Requests and responses -/

theorem Request.follows (p : List UInt8) : Follows rules payload p (ofPayload p) := by
  match p with
  | [] | [_] | [_, _] => exact .of_short (by simp)
  | cluster :: id :: length :: params =>
    refine Follows.of_front [cluster, id] fun hlimit hlength => ?_
    rw [make, dif_pos (hlength ▸ hlimit)]
    exact .read rfl (by simp [payload, hlength])

theorem Request.ofFrame_eq (input : List UInt8) :
    ofFrame input = ((Frame.decode input).mapError .frame).bind fun f => ofPayload f.payload := by
  unfold ofFrame
  cases Frame.decode input <;> rfl

theorem Status.ofByte?_eq_none_iff (b : UInt8) : ofByte? b = none ↔ 4 < b.toNat := by
  simp [ofByte?, byte, ← UInt8.toNat_inj]
  omega

theorem Response.follows (p : List UInt8) : Follows rules payload p (ofPayload p) := by
  match p with
  | [] | [_] | [_, _] | [_, _, _] => exact .of_short (by simp)
  | cluster :: id :: status :: length :: data =>
    refine Follows.of_front [cluster, id, status] fun hlimit hlength => ?_
    cases hstatus : Status.ofByte? status with
    | none =>
      have hunknown := (Status.ofByte?_eq_none_iff status).mp hstatus
      exact .refused (by simp [firstFault_cons, hunknown])
    | some s =>
      -- A known status is written as the byte that it was read from.
      have hknown : ¬ 4 < status.toNat := by simp [← Status.ofByte?_eq_none_iff, hstatus]
      have hdata : data.length ≤ maxData := hlength ▸ hlimit
      have hread : ((empty ⟨.ofByte cluster, id⟩).setStatus s).setData data =
          .ok (((empty ⟨.ofByte cluster, id⟩).setStatus s).put data hdata) := dif_pos hdata
      dsimp only
      rw [hread]
      refine .read (by simp [firstFault_cons, Nat.le_of_not_lt hknown]) ?_
      simp [payload, setStatus, empty, put, Status.byte_of_ofByte? hstatus, hlength]

theorem Response.ofFrame_eq (input : List UInt8) :
    ofFrame input = ((Frame.decode input).mapError .frame).bind fun f => ofPayload f.payload := by
  unfold ofFrame
  cases Frame.decode input <;> rfl

/-- Every byte string is read as a request exactly if it has a fixed part of three bytes, the
last of which is the number of the bytes that follow and at most eight, and as a response
exactly if it has one of four, which ends likewise with at most sixteen and has the byte of a
known status before that. Any other is refused for the first rule that it breaks. What was
read is written as it was: a payload into every frame, and a frame as itself. -/
theorem payloads_read_exactly :
    ((∀ p, (∃ r, Request.ofPayload p = .ok r) ↔
        ∃ h : 3 ≤ p.length, p[2].toNat ≤ 8 ∧ p.length = 3 + p[2].toNat) ∧
      Exact Request.rules Request.ofPayload Request.ofFrame Request.write) ∧
    (∀ p, (∃ r, Response.ofPayload p = .ok r) ↔
        ∃ h : 4 ≤ p.length, p[3].toNat ≤ 16 ∧ p.length = 4 + p[3].toNat ∧ p[2].toNat ≤ 4) ∧
      Exact Response.rules Response.ofPayload Response.ofFrame Response.write := by
  refine ⟨⟨fun p => ?_, ?_⟩, fun p => ?_, ?_⟩
  · rw [(Request.follows p).ok_iff]
    by_cases h : 3 ≤ p.length
    · simp [Request.rules, lengthRules, h, List.getElem?_eq_getElem (show 2 < p.length from h)]
    · simp [Request.rules, lengthRules, h]
  · exact exact_of_follows Request.follows Request.ofFrame_eq Request.write_eq
      fun r => r.stated_frame 0 0
  · rw [(Response.follows p).ok_iff]
    by_cases h : 4 ≤ p.length
    · simp [Response.rules, lengthRules, h, List.getElem?_eq_getElem (show 3 < p.length from h),
        List.getElem?_eq_getElem (Nat.lt_of_succ_lt h)]
    · simp [Response.rules, lengthRules, h]
  · exact exact_of_follows Response.follows Response.ofFrame_eq (fun _ _ _ _ => rfl)
      fun r => r.stated_frame 0 0

/-- Two faults at once, of which the first counts, a response whose cluster byte is that of a
known cluster, and a ping. -/
theorem payloads_read_exactly_two_faults :
    let ping : Frame := ⟨1, 0, [0, 1, 0]⟩
    Request.ofPayload [0, 1, 9, 1, 2, 3, 4, 5, 6, 7, 8, 9] = .error .paramsTooLong ∧
      Response.ofPayload [1, 1, 7, 2, 5] = .error .lengthMismatch ∧
      (∃ r, Response.ofPayload [1, 1, 4, 2, 5, 6] = .ok r ∧
        Frame.decode ((r.write 3 4 (List.replicate 20 0xEE)).2.take 15) =
          .ok ⟨3, 4, [1, 1, 4, 2, 5, 6]⟩) ∧
      ∃ r, Request.ofFrame ping.bytes = .ok r ∧
        (r.write 1 0 (List.replicate 20 0xEE)).2.take 12 = ping.bytes := by
  intro ping
  obtain ⟨⟨_, hrequests⟩, hresponses, hexact⟩ := payloads_read_exactly
  obtain ⟨r, hread⟩ := (hresponses [1, 1, 4, 2, 5, 6]).mpr ⟨by decide, by decide⟩
  have hdecode : Frame.decode ping.bytes = .ok ping := Frame.decode_bytes (by decide)
  have hping : Request.ofFrame ping.bytes = .ok ⟨.ping, [], by decide⟩ := by
    rw [Request.ofFrame, hdecode]
    rfl
  obtain ⟨f, hf, hsame⟩ := hrequests.reproduced _ _ hping
  obtain rfl := Except.ok.inj (hdecode.symm.trans hf)
  exact ⟨(hrequests.refused _ _).mpr rfl, (hexact.refused _ _).mpr rfl,
    ⟨r, hread, (hexact.rewritten _ r hread 3 4 (List.replicate 20 0xEE) (by decide)).2⟩,
    _, hping, (hsame (List.replicate 20 0xEE) (by decide)).2⟩

end NodeBus.Command
