import NodeBus.Proofs.Board.Account
import NodeBus.Proofs.Board.CommandLink
import NodeBus.Proofs.Board.Settling

/-!
# Every tick is accounted for

The account of the node holds at power-on, and each step of a task keeps it with one more
delivery or one more skipped tick at most (`running_step`). So it holds along every course
(`running_course`). Commands use the queues not at all, and are answered with the tick count as
it is when they are executed (`counter_served`).
-/

namespace NodeBus.Board

open NodeBus.Frame (Receiver)

/-! ## Deliveries, ticks and requests of a course -/

/-- The delivery that a step of a task makes. -/
def delivers? (b : Board) : Task → Option (Level × Delivery)
  | .workerSweep => b.node.bus.next?.map fun (l, d, _) => (l, d)
  | .workerWait _ => (b.node.bus.takeFrom? .normal).map fun (d, _) => (.normal, d)
  | _ => none

/-- Whether the tick that a step of a task makes is published. -/
def ticks? (b : Board) : Task → Option Bool
  | .timer due => if due ≤ b.uptime then some b.tick.1 else none
  | _ => none

/-- The request that a step of a task executes, and the stream that it came on. -/
def Task.serves? : Task → Option (UInt8 × Command.Request)
  | .link receiver (byte :: _) => do
    let frame ← Receiver.frameOf? (receiver.feed byte).1
    let f ← (Frame.decode frame).toOption
    let request ← (Command.Request.ofPayload f.payload).toOption
    return (f.stream, request)
  | _ => none

/-- What `what` says of the step that an impulse lets a task take. -/
def stepwise {α : Type} (b : Board) (what : Board → Task → Option α) : Impulse → Option α
  | .step i => b.tasks[i]?.bind (what b)
  | _ => none

/-- What `what` says of the steps of a course, in order. -/
def along {α : Type} (b : Board) (what : Board → Task → Option α) : List Impulse → List α
  | [] => []
  | impulse :: impulses =>
    (b.stepwise what impulse).toList ++ (b.follow impulse).2.along what impulses

theorem Accounted.delivers_tick {b : Board} {period : UInt16} {delivered skipped : Nat}
    (h : Accounted period delivered skipped b.node) {impulse : Impulse} {x : Level × Delivery}
    (hx : b.stepwise delivers? impulse = some x) : x = (.normal, .tick timerTopic timerSlot) := by
  have htick : ∀ d bus, b.node.bus.takeFrom? .normal = some (d, bus) →
      d = .tick timerTopic timerSlot := by
    intro d bus htaken
    refine h.queued d ?_
    rw [Bus.queue_of_takeFrom? htaken .normal, if_pos rfl]
    exact List.mem_cons_self
  cases impulse with
  | step i =>
    obtain ⟨t, _, ht⟩ := Option.bind_eq_some_iff.mp hx
    cases t with
    | workerSweep =>
      rw [delivers?, next?_of_unused h.unused.1, Option.map_map, Option.map_eq_some_iff] at ht
      obtain ⟨⟨d, bus⟩, htaken, rfl⟩ := ht
      rw [htick d bus htaken]
      rfl
    | workerWait deadline =>
      obtain ⟨⟨d, bus⟩, htaken, rfl⟩ := Option.map_eq_some_iff.mp ht
      rw [htick d bus htaken]
    | _ => cases ht
  | _ => cases hx

/-! ## Commands -/

theorem serve_node (b : Board) (request : Command.Request) (stream : UInt8) :
    (b.serve request stream).2.node = b.node.execute request := by
  unfold serve
  simp only [tell, tell_notice, respond_eq, send_spec]

/-- Answering a frame changes no more than the notice. -/
theorem answer_spec (b : Board) (frame : List UInt8) :
    (∃ notice, (b.answer frame).2.node = { b.node with notice }) ∧
      (b.answer frame).2.tuning = b.tuning ∧ (b.answer frame).2.lost = b.lost := by
  unfold answer
  split
  · exact ⟨⟨b.node.notice, rfl⟩, rfl, rfl⟩
  · split
    · exact ⟨⟨b.node.notice, rfl⟩, rfl, rfl⟩
    · rename_i request _
      refine ⟨⟨_, serve_node b request _⟩, ?_⟩
      unfold serve
      simp only [respond_eq]
      unfold send
      split <;> exact ⟨rfl, rfl⟩

theorem feed_account (b : Board) (receiver : LinkReceiver) (byte : UInt8) :
    (∃ notice, (b.feed receiver byte).2.1.node = { b.node with notice }) ∧
      (b.feed receiver byte).2.1.tuning = b.tuning ∧
      (b.feed receiver byte).2.1.lost = b.lost := by
  unfold feed
  split
  · exact answer_spec b _
  · exact ⟨⟨b.node.notice, rfl⟩, rfl, rfl⟩
  · exact ⟨⟨b.node.notice, rfl⟩, rfl, rfl⟩

/-- What the handlers of a board respond to a request for the tick count. -/
theorem respond_counter {c : Command.Catalogue} (h : c.handlers = handlers)
    (around : Command.Surroundings) {request : Command.Request} (hkey : request.key = .counter) :
    (c.respond around request).status = .success ∧
      (c.respond around request).data = Bytes.ofWord32 (around.count counter) := by
  have hfind : c.find? request.key = some (.counter counter) := by
    rw [Command.Catalogue.find?, h, hkey]
    rfl
  simp only [Command.Catalogue.respond, hfind]
  exact ⟨rfl, rfl⟩

theorem transmitted_serve (b : Board) (request : Command.Request) (stream : UInt8) :
    transmitted (b.serve request stream).1 = if b.failing = 0 then
      ((b.serve request stream).2.node.notice.response.frame Frame.finalFlag stream).bytes
      else [] := by
  rw [serve_node]
  unfold serve
  simp only [transmitted_append, transmitted_tell, List.nil_append]
  simp only [tell, tell_notice, respond_eq, send_spec]
  rfl

/-! ## Setting up -/

theorem registerAll_node (b : Board) (hs : List Command.Handler) :
    ∃ catalogue, (b.registerAll hs).2 = { b with node := { b.node with catalogue } } := by
  induction hs generalizing b with
  | nil => exact ⟨b.node.catalogue, rfl⟩
  | cons h hs ih =>
    simp only [registerAll, register]
    split
    · exact ih _
    · exact ih _

theorem boot_board (b : Board) :
    ∃ catalogue, b.boot.board = { b with
      booted := true
      node := { b.node with
        bus := { b.node.bus with alarm := some alarm, started := true }
        topics := ((b.node.attachCounter counter timerTopic).2.attachDisplay display
          timerTopic).2.topics
        catalogue } } := by
  -- The node after both listeners were attached, before any handler is registered.
  let bus : Bus Delivery Alarm := { b.node.bus with alarm := some alarm, started := true }
  let n := (({ b.node with bus }.attachCounter counter timerTopic).2.attachDisplay display
    timerTopic).2
  obtain ⟨catalogue, hregister⟩ := registerAll_node { b with node := n } handlers
  refine ⟨catalogue, ?_⟩
  dsimp only [n, bus] at hregister
  unfold boot
  dsimp only [attach, Bus.start]
  rw [hregister]
  rfl

/-- A board on which so many ticks were delivered and so many skipped. Before the node is set
up there is no other task. -/
structure Running (tuning : Tuning) (delivered skipped : Nat) (b : Board) : Prop where
  built : b.tuning = tuning
  lost : b.lost = 0
  account : Accounted tuning.period delivered skipped b.node
  stage : (b.tasks = [.boot] ∧ b.node.topics = Node.quietTopics [timerName]) ∨
    (.boot ∉ b.tasks ∧ Wired b.node)

theorem running_booting (tuning : Tuning) : Running tuning 0 0 (booting tuning) where
  built := rfl
  lost := rfl
  account := accounted_fresh tuning.period tuning.wait [timerName]
  stage := .inl ⟨rfl, rfl⟩

section Running

variable {tuning : Tuning} {delivered skipped : Nat} {b : Board}

/-- Setting up wires the node and changes no count. -/
theorem running_boot (h : Running tuning delivered skipped b)
    (htopics : b.node.topics = Node.quietTopics [timerName]) :
    b.boot.board.tuning = tuning ∧ b.boot.board.lost = 0 ∧ Wired b.boot.board.node ∧
      Accounted tuning.period delivered skipped b.boot.board.node := by
  obtain ⟨catalogue, hboard⟩ := boot_board b
  rw [hboard]
  refine ⟨h.built, h.lost, ⟨rfl, ?_⟩, h.account.congr (fun l => ?_) rfl rfl rfl⟩
  · simp only [Node.attachCounter, Node.attachDisplay, Node.subscribe, htopics]
    rfl
  · cases l <;> rfl

/-! ## Steps -/

/-- A step of any other task makes at most one delivery or one tick. -/
theorem running_step {t : Task} {m : Moved} (htuning : b.tuning = tuning) (hlost : b.lost = 0)
    (h : Accounted tuning.period delivered skipped b.node) (hwired : Wired b.node)
    (ht : t ≠ .boot) (hstep : b.step t = some m) :
    m.board.tuning = tuning ∧ m.board.lost = 0 ∧ Wired m.board.node ∧
      Accounted tuning.period (delivered + (b.delivers? t).toList.length)
        (skipped + (b.ticks? t).toList.count false) m.board.node := by
  subst htuning
  cases t with
  | boot => exact absurd rfl ht
  | timerStart | linkStart | monitorStart =>
    cases hstep
    exact ⟨rfl, hlost, hwired, h⟩
  | monitor due =>
    simp only [step, monitor] at hstep
    split at hstep
    · cases hstep
      exact ⟨rfl, hlost, hwired, h⟩
    · cases hstep
  | workerStart =>
    simp only [step, workerStart, Option.some.injEq] at hstep
    split at hstep
    · cases hstep
      exact ⟨rfl, hlost, ⟨hwired.started, hwired.listeners⟩,
        h.congr (fun l => by cases l <;> rfl) rfl rfl rfl⟩
    · cases hstep
      exact ⟨rfl, hlost, hwired, h⟩
  | workerSweep =>
    -- Nothing waits at the high level, so that what is taken is a tick.
    simp only [step, workerSweep, delivers?, next?_of_unused h.unused.1,
      Option.some.injEq] at hstep ⊢
    cases htaken : b.node.bus.takeFrom? .normal with
    | none =>
      rw [htaken] at hstep
      cases hstep
      exact ⟨rfl, hlost, hwired, h⟩
    | some taken =>
      obtain ⟨d, bus⟩ := taken
      rw [htaken] at hstep
      cases hstep
      obtain ⟨rfl, hwired', haccount⟩ := accounted_deliver h hwired htaken
      exact ⟨rfl, hlost, hwired', haccount⟩
  | workerWait deadline =>
    simp only [step, workerWait, delivers?] at hstep ⊢
    cases htaken : b.node.bus.takeFrom? .normal with
    | none =>
      simp only [htaken] at hstep
      split at hstep
      · cases hstep
        exact ⟨rfl, hlost, hwired, h⟩
      · cases hstep
    | some taken =>
      obtain ⟨d, bus⟩ := taken
      rw [htaken] at hstep
      cases hstep
      obtain ⟨rfl, hwired', haccount⟩ := accounted_deliver h hwired htaken
      exact ⟨rfl, hlost, hwired', haccount⟩
  | timer due =>
    simp only [step, timer] at hstep
    split at hstep
    · rename_i hdue
      obtain ⟨htuning, hlost', hwired', haccount⟩ := accounted_tick h hwired
      cases hstep
      refine ⟨htuning, hlost'.trans hlost, hwired', ?_⟩
      simpa [ticks?, delivers?, hdue] using haccount
    · cases hstep
  | link receiver unread =>
    cases unread with
    | cons byte unread =>
      -- The notice may be another one then, at which the account does not look.
      obtain ⟨⟨notice, hnode⟩, htuning, hlost'⟩ := feed_account b receiver byte
      obtain rfl := Option.some.inj ((link_cons b receiver byte unread).symm.trans hstep)
      refine ⟨htuning, hlost'.trans hlost, ?_⟩
      rw [hnode]
      exact ⟨⟨hwired.started, hwired.listeners⟩, h.congr (fun _ => rfl) rfl rfl rfl⟩
    | nil =>
      simp only [step, link] at hstep
      split at hstep <;> cases hstep <;> exact ⟨rfl, hlost, hwired, h⟩

/-! ## Courses -/

theorem idle_of_stuck {t : Task} (h : b.step t = none) :
    b.delivers? t = none ∧ b.ticks? t = none := by
  cases t with
  | workerSweep => cases h
  | workerWait deadline =>
    simp only [step, workerWait] at h
    split at h
    · cases h
    · rename_i htaken
      simp [delivers?, ticks?, htaken]
  | timer due =>
    simp only [step, timer] at h
    split at h
    · cases h
    · rename_i hdue
      exact ⟨rfl, if_neg hdue⟩
  | _ => exact ⟨rfl, rfl⟩

theorem running_follow (h : Running tuning delivered skipped b) (impulse : Impulse) :
    Running tuning (delivered + (b.stepwise delivers? impulse).toList.length)
        (skipped + (b.stepwise ticks? impulse).toList.count false) (b.follow impulse).2 := by
  cases impulse with
  | elapse microseconds =>
    refine ⟨h.built, h.lost, h.account.congr (fun _ => rfl) rfl rfl rfl, ?_⟩
    rcases h.stage with hbefore | ⟨hboot, hwired⟩
    · exact .inl hbefore
    · exact .inr ⟨hboot, hwired.started, hwired.listeners⟩
  | arrive arrival => exact ⟨h.built, h.lost, h.account, h.stage⟩
  | failWrites count => exact ⟨h.built, h.lost, h.account, h.stage⟩
  | step i =>
    simp only [stepwise]
    cases hi : b.tasks[i]? with
    | none =>
      simp only [follow, hi, Option.bind_none]
      exact h
    | some t =>
      simp only [Option.bind_some]
      rcases h.stage with ⟨htasks, htopics⟩ | ⟨hboot, hwired⟩
      · -- The only task sets up the node and ends.
        obtain ⟨htask, hstarted⟩ := boot_tasks b
        obtain ⟨hbuilt, hlost, hwired, haccount⟩ := running_boot h htopics
        have ht : i = 0 ∧ t = .boot := by
          rw [htasks] at hi
          cases i with
          | zero => exact ⟨rfl, (Option.some.inj hi).symm⟩
          | succ i => cases hi
        obtain ⟨rfl, rfl⟩ := ht
        have hbind : b.tasks[0]?.bind b.step = some b.boot := by rw [hi]; rfl
        generalize b.boot = m at *
        simp only [follow, hbind]
        refine ⟨hbuilt, hlost, haccount, .inr ⟨?_, hwired⟩⟩
        simp [htasks, htask, hstarted]
      · cases hstep : b.step t with
        | none =>
          obtain ⟨hdelivers, hticks⟩ := idle_of_stuck hstep
          simp only [follow, hi, Option.bind_some, hstep, hdelivers, hticks]
          exact h
        | some m =>
          have ht : t ≠ .boot := fun heq => hboot (heq ▸ List.mem_of_getElem? hi)
          obtain ⟨hbuilt, hlost, hwired', haccount⟩ :=
            running_step h.built h.lost h.account hwired ht hstep
          obtain ⟨hstarted, htask⟩ := started_of_step ht hstep
          have hbind : b.tasks[i]?.bind b.step = some m := by rw [hi]; exact hstep
          simp only [follow, hbind]
          refine ⟨hbuilt, hlost, haccount, .inr ⟨?_, hwired'⟩⟩
          simp only [hstarted, List.append_nil, List.mem_append, Option.mem_toList]
          rintro ((hbefore | hplace) | hafter)
          · exact hboot (List.mem_of_mem_take hbefore)
          · exact htask hplace
          · exact hboot (List.mem_of_mem_drop hafter)

theorem running_course (h : Running tuning delivered skipped b) (impulses : List Impulse) :
    Running tuning (delivered + (b.along delivers? impulses).length)
        (skipped + (b.along ticks? impulses).count false) (b.course impulses).2 ∧
      ∀ x ∈ b.along delivers? impulses, x = (.normal, .tick timerTopic timerSlot) := by
  induction impulses generalizing b delivered skipped with
  | nil =>
    refine ⟨h, fun x hx => ?_⟩
    cases hx
  | cons impulse impulses ih =>
    obtain ⟨hlater, hticks⟩ := ih (running_follow h impulse)
    simp only [along, List.length_append, List.count_append, ← Nat.add_assoc]
    refine ⟨hlater, fun x hx => ?_⟩
    rcases List.mem_append.mp hx with hx | hx
    · exact h.account.delivers_tick (Option.mem_toList.mp hx)
    · exact hticks x hx

end Running

/-! ## Requests for the tick count -/

theorem feed_of_serves (b : Board) {receiver : LinkReceiver} {byte stream : UInt8}
    {unread : List UInt8} {request : Command.Request}
    (h : (Task.link receiver (byte :: unread)).serves? = some (stream, request)) :
    (b.feed receiver byte).1 = (b.serve request stream).1 ∧
      (b.feed receiver byte).2.1 = (b.serve request stream).2 := by
  simp only [Task.serves?, Option.bind_eq_bind, Option.bind_eq_some_iff, Option.pure_def,
    Option.some.injEq, Prod.mk.injEq] at h
  obtain ⟨frame, hframe, f, hf, request', hrequest, rfl, rfl⟩ := h
  have hanswer : b.answer frame = b.serve request' f.stream := by
    unfold answer
    split
    · rename_i hdecode
      simp [hdecode, Except.toOption] at hf
    · rename_i f' hdecode
      obtain rfl : f' = f := by simpa [hdecode, Except.toOption] using hf
      split
      · rename_i hread
        simp [hread, Except.toOption] at hrequest
      · rename_i request hread
        obtain rfl : request = request' := by simpa [hread, Except.toOption] using hrequest
        rfl
  unfold feed
  split
  · rename_i frame' receiver' hfed
    rw [hfed] at hframe
    cases hframe
    exact ⟨congrArg Prod.fst hanswer, congrArg Prod.snd hanswer⟩
  · rename_i hfed
    rw [hfed] at hframe
    cases hframe
  · rename_i hfed
    rw [hfed] at hframe
    cases hframe

/-- The link has its handlers, so a request for the tick count is answered with it. -/
theorem counter_served {b : Board} {receiver : LinkReceiver} (h : Linked b receiver) {i : Nat}
    {stream : UInt8} {request : Command.Request}
    (hserves : b.tasks[i]?.bind Task.serves? = some (stream, request))
    (hkey : request.key = .counter) :
    let r := (b.follow (.step i)).2.node.notice.response
    r.status = .success ∧ r.data = Bytes.ofWord32 (b.node.counters.get counter) ∧
      transmitted (b.follow (.step i)).1 =
        if b.failing = 0 then (r.frame Frame.finalFlag stream).bytes else [] := by
  obtain ⟨t, hi, ht⟩ := Option.bind_eq_some_iff.mp hserves
  obtain ⟨t', honly, hat⟩ := h
  cases t with
  | link receiver' unread =>
    cases unread with
    | nil => cases ht
    | cons byte unread =>
      -- There is one link only, so that this task is the one with the handlers.
      obtain ⟨rfl, _, _⟩ := filter_eq_singleton hi rfl honly
      have hregistered : b.node.catalogue.handlers = handlers := by cases hat; assumption
      have hbind : b.tasks[i]?.bind b.step = b.link receiver' (byte :: unread) := by rw [hi]; rfl
      obtain ⟨hseen, hboard⟩ := feed_of_serves b ht
      simp only [follow, hbind, link_cons, hseen, hboard, transmitted_serve, serve_node]
      obtain ⟨hstatus, hdata⟩ := respond_counter hregistered b.node.surroundings hkey
      exact ⟨hstatus, hdata, trivial⟩
  | _ => cases ht

/-- Whatever the tasks of a board do, and in whatever order, with `n` deliveries so far:

- all deliveries were ticks of the timer, and the ticks of the slot are those counted, those
  queued and those that were skipped;
- the tick count is `n` as a word, and the display shows `n` periods as far as its seconds go;
- whatever step comes next, a request for the tick count that it executes is answered with `n`;
- no delivery was lost or found its queue full, and none was published at the high level. -/
theorem every_tick_accounted (tuning : Tuning) (impulses : List Impulse) :
    let start := booting tuning
    let b := (start.course impulses).2
    let deliveries := start.along delivers? impulses
    let n := deliveries.length
    let skipped := (start.along ticks? impulses).count false
    ((∀ x ∈ deliveries, x = (.normal, .tick timerTopic timerSlot)) ∧
      b.ticks = b.node.counters.get counter + .ofNat (b.node.bus.queued .normal) +
        .ofNat skipped) ∧
    (b.node.counters.get counter = .ofNat n ∧ (b.node.bus.counters .normal).dispatched = .ofNat n ∧
      (b.node.displays.get display).millis.toNat < 1000 ∧
      (b.node.displays.get display).total = tuning.period.toNat * n % (1000 * UInt32.size)) ∧
    (∀ i stream request, b.tasks[i]?.bind Task.serves? = some (stream, request) →
      request.key = .counter →
        let r := (b.follow (.step i)).2.node.notice.response
        r.status = .success ∧ r.data = Bytes.ofWord32 (.ofNat n) ∧
          transmitted (b.follow (.step i)).1 =
            if b.failing = 0 then (r.frame Frame.finalFlag stream).bytes else []) ∧
    b.lost = 0 ∧ (∀ l, (b.node.bus.counters l).overflowed = 0) ∧
      (b.node.bus.counters .high).published = 0 := by
  intro start b deliveries n skipped
  obtain ⟨hrunning, hticks⟩ := running_course (running_booting tuning) impulses
  rw [Nat.zero_add, Nat.zero_add] at hrunning
  have haccount : Accounted tuning.period n skipped b.node := hrunning.account
  have hlinked := (kept_course (linked_booting tuning) impulses).linked
  refine ⟨⟨hticks, ?_⟩, ⟨haccount.counted, haccount.dispatched, haccount.millis, ?_⟩, ?_,
    hrunning.lost, haccount.unharmed, haccount.unused.2⟩
  · rw [haccount.counted, ← UInt32.ofNat_add, ← UInt32.ofNat_add]
    exact haccount.ticked
  · have hdisplayed := haccount.displayed
    have hseconds := (b.node.displays.get display).seconds.toNat_lt
    have hmillis := haccount.millis
    rw [← hdisplayed]
    refine (Nat.mod_eq_of_lt ?_).symm
    simp only [Elapsed.total, UInt32.size]
    omega
  · intro i stream request hserves hkey
    rw [← haccount.counted]
    exact counter_served hlinked hserves hkey

/-- The tasks start, a tick is made and delivered, and a request arrives but for its last step. -/
theorem every_tick_accounted_once :
    let request : Frame := ⟨0, 7, [1, 1, 0]⟩
    let impulses : List Impulse := [.step 0, .step 0, .step 0, .step 1, .step 2, .step 3,
      .elapse 100000, .step 1, .step 0, .arrive (.bytes request.bytes)] ++
        List.replicate request.size (.step 2)
    let b := ((booting .standard).course impulses).2
    b.tasks[2]?.bind Task.serves? = some (7, ⟨.counter, [], by decide⟩) ∧
      (b.follow (.step 2)).2.node.notice.response.data = [1, 0, 0, 0] := by
  intro request impulses b
  have hfacts : b.tasks[2]?.bind Task.serves? = some (7, ⟨.counter, [], by decide⟩) ∧
      ((booting .standard).along delivers? impulses).length = 1 := by decide +kernel
  clear_value impulses
  obtain ⟨_, _, hserved, _⟩ := every_tick_accounted .standard impulses
  obtain ⟨_, hdata, _⟩ := hserved 2 7 _ hfacts.1 rfl
  rw [hfacts.2] at hdata
  exact ⟨hfacts.1, hdata⟩

end NodeBus.Board
