import NodeBus.Proofs.Board.Feeding

/-!
# The command link answers frame by frame

Along every course of a board, the bytes sent are the replies to the frames that the
receiver of the link returns, in order (`link_output`). The pieces in which the bytes
arrive do not show, and whatever has arrived can be fed: each step of the link lowers
its `backlog`, and a link that cannot take a step has nothing left.
-/

namespace NodeBus.Board

open Command (Request)
open NodeBus.Frame (Receiver)

/-! ## Commands do not change what the board shows -/

theorem tell_notice (n : Node) (notice : Notice) (audience : List Subscriber) :
    n.tell (.notice notice) audience = n := by
  induction audience with
  | nil => rfl
  | cons s audience ih => exact ih

theorem reading_send (b : Board) (bytes : List UInt8) :
    (b.send bytes).2.reading = b.reading := by
  rw [send]
  split <;> rfl

theorem reading_serve (b : Board) (request : Request) (stream : UInt8) :
    (b.serve request stream).2.reading = b.reading := by
  rw [serve]
  simp only [tell, tell_notice, respond_eq, reading_send]
  rfl

theorem reading_answer (b : Board) (frame : List UInt8) :
    (b.answer frame).2.reading = b.reading := by
  rw [answer]
  split
  · rfl
  · split
    · rfl
    · exact reading_serve b ..

theorem reading_feed (b : Board) (receiver : LinkReceiver) (byte : UInt8) :
    (b.feed receiver byte).2.1.reading = b.reading := by
  rw [feed]
  split
  · exact reading_answer b _
  · rfl
  · rfl

/-- Feeding a byte, and answering the frame that it completes, does not change what the
next replies depend on. -/
theorem reading_of_feeding {b : Board} {impulse : Impulse} {f : Feeding}
    (h : b.feeding? impulse = some f) : (b.follow impulse).2.reading = f.reading := by
  simp only [feeding?] at h
  split at h
  · rename_i i
    split at h
    · rename_i receiver byte unread hi
      cases h
      have hbind : b.tasks[i]?.bind b.step = b.link receiver (byte :: unread) := by
        rw [hi]
        rfl
      simp only [follow, hbind, link_cons]
      exact reading_feed b receiver byte
    · cases h
  · cases h

/-! ## The backlog of the link -/

/-- The steps that a task takes before the link reads again. -/
def Task.backlog : Task → Nat
  | .boot => 2
  | .linkStart => 1
  | .link _ unread => unread.length
  | _ => 0

/-- The steps that tasks take before the link reads again. -/
def backlogOf : List Task → Nat
  | [] => 0
  | t :: tasks => t.backlog + backlogOf tasks

/-- A bound on the steps that the link takes before all that has arrived is fed. -/
def backlog (b : Board) : Nat := backlogOf b.tasks + inboxSteps b.inbox

theorem backlogOf_append (tasks others : List Task) :
    backlogOf (tasks ++ others) = backlogOf tasks + backlogOf others := by
  induction tasks with
  | nil => exact (Nat.zero_add _).symm
  | cons t tasks ih =>
    simp only [List.cons_append, backlogOf, ih]
    omega

/-- A step of the link, or of the task that becomes it, lowers the backlog. -/
theorem backlog_step {receiver : LinkReceiver} {b : Board} {t : Task} {m : Moved}
    (hat : LinkAt b receiver t) (hstep : b.step t = some m) :
    backlogOf (m.task.toList ++ m.started) + inboxSteps m.board.inbox <
      t.backlog + inboxSteps b.inbox := by
  cases hat with
  | boot empty =>
    obtain ⟨_, _, hinbox⟩ := boot_spec empty
    obtain ⟨htask, hstarted⟩ := boot_tasks b
    obtain rfl : b.boot = m := Option.some.inj hstep
    rw [hinbox, htask, hstarted]
    exact Nat.add_lt_add_right (by decide) _
  | start registered =>
    obtain rfl := Option.some.inj hstep
    exact Nat.add_lt_add_right Nat.zero_lt_one _
  | @link receiver unread registered =>
    cases unread with
    | cons byte unread =>
      obtain ⟨_, _, hinbox, _⟩ := feed_spec registered receiver byte
      obtain rfl := Option.some.inj ((link_cons b receiver byte unread).symm.trans hstep)
      rw [hinbox]
      exact Nat.add_lt_add_right (Nat.lt_succ_self unread.length) _
    | nil =>
      simp only [step, link] at hstep
      split at hstep
      · cases hstep
      · rename_i fault inbox hinbox
        cases hstep
        simp only [hinbox, inboxSteps, Arrival.steps]
        exact Nat.add_lt_add_left (Nat.lt_add_of_pos_left Nat.two_pos) _
      · rename_i bytes inbox hinbox
        cases hstep
        simp only [hinbox, inboxSteps, Arrival.steps, Option.toList_some, List.append_nil,
          backlogOf, Task.backlog, List.length_nil, List.length_take]
        split
        · omega
        · rename_i hleft
          -- What is left is shorter by the bytes that were read.
          have hmore : readSize < bytes.length := by
            rw [List.isEmpty_iff, List.drop_eq_nil_iff] at hleft
            omega
          simp only [inboxSteps, Arrival.steps, List.length_drop]
          simp only [readSize] at hmore ⊢
          omega

/-- The link is stuck only when there is nothing left to feed. -/
theorem drained_of_stuck {receiver : LinkReceiver} {b : Board} {t : Task}
    (hat : LinkAt b receiver t) (h : b.step t = none) : t.unread = [] ∧ b.inbox = [] := by
  refine ⟨unread_of_stuck h, ?_⟩
  cases hat with
  | boot empty => cases h
  | start registered => cases h
  | @link receiver unread registered =>
    cases unread with
    | cons byte unread => cases h
    | nil =>
      simp only [step, link] at h
      split at h
      · assumption
      · cases h
      · cases h

theorem backlog_follow {receiver : LinkReceiver} {b : Board} {i : Nat} {t : Task} {m : Moved}
    (hat : LinkAt b receiver t) (hi : b.tasks[i]? = some t) (hstep : b.step t = some m) :
    (b.follow (.step i)).2.backlog < b.backlog := by
  have hbind : b.tasks[i]?.bind b.step = some m := by
    rw [hi]
    exact hstep
  have hless := backlog_step hat hstep
  have htasks : backlogOf b.tasks = backlogOf (b.tasks.take i) +
      (t.backlog + backlogOf (b.tasks.drop (i + 1))) := by
    conv => lhs; rw [eq_take_cons_drop hi]
    exact backlogOf_append _ _
  simp only [follow, hbind, backlog, htasks, backlogOf_append] at hless ⊢
  omega

/-- What has arrived can be fed without waiting for anything else. -/
theorem exists_steps_unfed_eq_nil {receiver : LinkReceiver} {b : Board} (h : Linked b receiver) :
    ∃ steps : List Nat, (b.course (steps.map .step)).2.unfed = [] := by
  induction hbacklog : b.backlog using Nat.strongRecOn generalizing receiver b with
  | ind n ih =>
    obtain ⟨i, t, hi, honly, hat⟩ := h.exists_place
    cases hstep : b.step t with
    | none =>
      obtain ⟨hunread, hinbox⟩ := drained_of_stuck hat hstep
      refine ⟨[], ?_⟩
      rw [List.map_nil, course, unfed_of_filter honly, hunread, hinbox]
      rfl
    | some m =>
      -- After the step the link may stand elsewhere, with less to do.
      have hnext := (kept_follow h (.step i)).linked
      have hless := backlog_follow hat hi hstep
      obtain ⟨steps, hsteps⟩ := ih _ (hbacklog ▸ hless) hnext rfl
      exact ⟨i :: steps, hsteps⟩

/-- When no task can go on, all that has arrived has been fed. -/
theorem unfed_eq_nil_of_settled {receiver : LinkReceiver} {b : Board} (h : Linked b receiver)
    (hsettled : ∀ i : Nat, b.tasks[i]?.bind b.step = none) : b.unfed = [] := by
  obtain ⟨i, t, hi, honly, hat⟩ := h.exists_place
  have hstep := hsettled i
  rw [hi] at hstep
  obtain ⟨hunread, hinbox⟩ := drained_of_stuck hat hstep
  rw [unfed_of_filter honly, hunread, hinbox]
  rfl

/-! ## What the link sends -/

/-- What a board shows to the link when a byte is fed. -/
def Feeding.shown (f : Feeding) : Reading × Bool := (f.reading, f.writable)

/-- Exchanges with the same frames in which the same is shown send the same. -/
theorem sentIn_congr {xs ys : List (List UInt8 × Feeding)}
    (hframes : xs.map Prod.fst = ys.map Prod.fst)
    (hshown : xs.map (·.2.shown) = ys.map (·.2.shown)) :
    xs.flatMap sentIn = ys.flatMap sentIn := by
  have hsent (zs : List (List UInt8 × Feeding)) : zs.flatMap sentIn =
      ((zs.map Prod.fst).zip (zs.map (·.2.shown))).flatMap fun x =>
        if x.2.2 then x.2.1.reply x.1 else [] := by
    rw [List.zip_map', List.flatMap_map]
    rfl
  rw [hsent xs, hsent ys, hframes, hshown]

/-- In which pieces the bytes arrive, and when, does not show otherwise. -/
theorem transmitted_congr {tuning tuning' : Tuning} {impulses impulses' : List Impulse}
    (hfed : ((booting tuning).course impulses).2.unfed = [])
    (hfed' : ((booting tuning').course impulses').2.unfed = [])
    (hcontent : impulses.flatMap Impulse.content = impulses'.flatMap Impulse.content)
    (hshown : (exchanges .fresh ((booting tuning).feedings impulses)).map (·.2.shown) =
      (exchanges .fresh ((booting tuning').feedings impulses')).map (·.2.shown)) :
    transmitted ((booting tuning).course impulses).1 =
      transmitted ((booting tuning').course impulses').1 := by
  have hkept := kept_course (linked_booting tuning) impulses
  have hkept' := kept_course (linked_booting tuning') impulses'
  have horder : ((booting tuning).feedings impulses).map Feeding.byte ++ _ =
    impulses.flatMap Impulse.content := hkept.order
  have horder' : ((booting tuning').feedings impulses').map Feeding.byte ++ _ =
    impulses'.flatMap Impulse.content := hkept'.order
  rw [hfed, List.append_nil] at horder
  rw [hfed', List.append_nil] at horder'
  -- The same bytes have been fed, so the receiver has returned the same frames.
  rw [hkept.sent, hkept'.sent]
  refine sentIn_congr ?_ hshown
  rw [frames_exchanges, frames_exchanges, horder, horder', hcontent]

/-- For every course of a board, however its tasks take turns and in whatever pieces the
bytes arrive:

- the link is fed the bytes in the order of their arrival, and the frames of the exchanges
  are those that a receiver returns for these bytes;
- the board sends the replies of the exchanges, one after the other;
- a frame with a request is answered by one response frame, other frames by nothing;
- flags and parameters of a request do not show in the reply, and no exchange changes what
  the next replies depend on;
- whatever has arrived can be fed, and has been once no task can go on;
- another course on which the same bytes arrive sends the same, if the same is shown. -/
theorem link_output (tuning : Tuning) (impulses : List Impulse) :
    let b := ((booting tuning).course impulses).2
    let fed := (booting tuning).feedings impulses
    (fed.map Feeding.byte ++ b.unfed = impulses.flatMap Impulse.content ∧
      (exchanges .fresh fed).map Prod.fst =
        Receiver.frames ((.fresh : LinkReceiver).feedAll (fed.map Feeding.byte)).1) ∧
    transmitted ((booting tuning).course impulses).1 = (exchanges .fresh fed).flatMap sentIn ∧
    ((∀ r frame f request, Frame.decode frame = .ok f →
        Request.ofPayload f.payload = .ok request → Answers r f request (r.reply frame)) ∧
      ∀ (r : Reading) frame, (∀ f request, Frame.decode frame = .ok f →
        Request.ofPayload f.payload ≠ .ok request) → r.reply frame = []) ∧
    ((∀ (r : Reading) frame frame' f f' request request', Frame.decode frame = .ok f →
        Frame.decode frame' = .ok f' → Request.ofPayload f.payload = .ok request →
        Request.ofPayload f'.payload = .ok request' → f.stream = f'.stream →
        request.key = request'.key → r.reply frame = r.reply frame') ∧
      ∀ impulse f, b.feeding? impulse = some f → (b.follow impulse).2.reading = f.reading) ∧
    ((∃ steps : List Nat, (b.course (steps.map .step)).2.unfed = []) ∧
      ((∀ i : Nat, b.tasks[i]?.bind b.step = none) → b.unfed = [])) ∧
    ∀ tuning' impulses', b.unfed = [] → ((booting tuning').course impulses').2.unfed = [] →
      impulses.flatMap Impulse.content = impulses'.flatMap Impulse.content →
      (exchanges .fresh fed).map (·.2.shown) =
        (exchanges .fresh ((booting tuning').feedings impulses')).map (·.2.shown) →
      transmitted ((booting tuning).course impulses).1 =
        transmitted ((booting tuning').course impulses').1 := by
  intro b fed
  have hkept := kept_course (linked_booting tuning) impulses
  exact ⟨⟨hkept.order, frames_exchanges .fresh fed⟩, hkept.sent,
    ⟨fun r _ _ _ => answers_reply r, fun r _ => reply_eq_nil r⟩,
    ⟨fun r _ _ _ _ _ _ => reply_congr r, fun _ _ => reading_of_feeding⟩,
    ⟨exists_steps_unfed_eq_nil hkept.linked, unfed_eq_nil_of_settled hkept.linked⟩,
    fun _ _ => transmitted_congr⟩

/-- A course on which the tasks start, bytes arrive in pieces and the link takes steps. -/
def listening (pieces : List (List UInt8)) (steps : Nat) : List Impulse :=
  [.step 0, .step 0, .step 0, .step 1, .step 2, .step 3] ++
    pieces.map (fun s => .arrive (.bytes s)) ++ List.replicate steps (.step 2)

/-- A ping that arrives in two pieces and in one, another spelling of it, and no frame. -/
theorem link_output_ping :
    let ping : Frame := ⟨1, 0, [0, 1, 0]⟩
    let padded : Frame := ⟨0, 0, [0, 1, 1, 85]⟩
    let b := ((booting .standard).course (listening [ping.bytes.take 5, ping.bytes.drop 5] 14)).2
    let b' := ((booting .standard).course (listening [ping.bytes] 12)).2
    Answers ⟨7, 0⟩ ping ⟨.ping, [], by decide⟩ (Reading.reply ⟨7, 0⟩ ping.bytes) ∧
      Reading.reply ⟨7, 0⟩ [] = [] ∧
      Reading.reply ⟨7, 0⟩ ping.bytes = Reading.reply ⟨7, 0⟩ padded.bytes ∧
      (b'.follow (.step 2)).2.reading = ⟨0, 0⟩ ∧ b.unfed = [] ∧
      transmitted ((booting .standard).course
          (listening [ping.bytes.take 5, ping.bytes.drop 5] 14)).1 =
        transmitted ((booting .standard).course (listening [ping.bytes] 13)).1 := by
  intro ping padded b b'
  have hping : Frame.decode ping.bytes = .ok ping := Frame.decode_bytes (by decide)
  have hpadded : Frame.decode padded.bytes = .ok padded := Frame.decode_bytes (by decide)
  obtain ⟨_, _, ⟨hanswers, hsilent⟩, ⟨hcongr, _⟩, ⟨_, hsettled⟩, hpieces⟩ :=
    link_output .standard (listening [ping.bytes.take 5, ping.bytes.drop 5] 14)
  obtain ⟨_, _, _, ⟨_, hreading⟩, _⟩ := link_output .standard (listening [ping.bytes] 12)
  have hlength : b.tasks.length = 4 := by decide +kernel
  have hidle (i : Nat) : b.tasks[i]?.bind b.step = none := by
    match i with
    | 0 | 1 | 2 | 3 => decide +kernel
    | i + 4 =>
      have hbeyond : b.tasks.length ≤ i + 4 := by
        rw [hlength]
        exact Nat.le_add_left 4 i
      rw [List.getElem?_eq_none hbeyond]
      rfl
  refine ⟨hanswers _ _ _ _ hping rfl, hsilent _ _ ?_,
    hcongr _ _ _ _ _ ⟨.ping, [], by decide⟩ ⟨.ping, [85], by decide⟩ hping hpadded rfl rfl rfl
      rfl, ?_, hsettled hidle, ?_⟩
  · intro f request hf
    cases hf
  · -- The byte that completes the frame has been read and is fed next.
    exact hreading (.step 2) ⟨0xF4, ⟨0, 0⟩, true⟩ (by decide +kernel)
  · exact hpieces .standard (listening [ping.bytes] 13) (hsettled hidle) (by decide +kernel)
      (by decide +kernel) (by decide +kernel)

end NodeBus.Board
