import NodeBus.Proofs.Session.Backpressure
import NodeBus.Proofs.Session.Commands
import NodeBus.Proofs.Session.Snapshot

/-!
# What becomes of the notices of commands

A command that is dispatched over the bus writes its response to the one notice of the node and
queues a delivery of it. As many deliveries are made as were accepted, and in order
(`accepted_run`). But each tells what the notice is when it is made: the response of the last
command dispatched until then (`response_run`), which is the response that was accepted only if
nothing was dispatched in between.
-/

namespace NodeBus.Session

open Command (Request Response)

/-! ## Dispatches -/

/-- A command that was dispatched over the bus: its response, and whether the delivery of it was
accepted. -/
structure Dispatch where
  response : Response
  accepted : Bool
  deriving DecidableEq

/-- Whether a command that is dispatched is accepted. -/
def Parties.accepts (p : Parties) (request : Request) : Bool :=
  ((p.node.execute request).outcome .ofCommand).isDone

def Parties.dispatch? (p : Parties) (turn : Turn) : Option Dispatch :=
  match p.intent turn with
  | .command request _ => some ⟨p.response request, p.accepts request⟩
  | _ => none

def Parties.dispatches (p : Parties) : List Turn → List Dispatch
  | [] => []
  | turn :: turns => (p.dispatch? turn).toList ++ (p.play turn).2.dispatches turns

/-- Whether an intent writes or publishes the notice otherwise than by a dispatch over the bus. -/
def Intent.meddles : Intent → Bool
  | .publication pub => pub.delivery = .notice
  | .command _ atOnce => atOnce
  | .operation (.putNotice ..) => true
  | _ => false

/-- Notices come from dispatches over the bus alone, and somebody listens to them. -/
def Parties.Orderly (p : Parties) (turns : List Turn) : Prop :=
  p.Along (fun p turn => p.node.audience .notice ≠ [] ∧ (p.intent turn).meddles = false) turns

instance (p : Parties) (turns : List Turn) : Decidable (p.Orderly turns) :=
  inferInstanceAs (Decidable (Parties.Along _ p turns))

/-! ## Accepted deliveries -/

section Accepted

variable {p : Parties} {turn : Turn} {turns : List Turn}

theorem acceptedAt_announce (n : Node) (pub : Publication) (l : Level) :
    acceptedAt l (announce n pub) =
      if n.outcome pub = .queued ∧ pub.level = l then [pub.delivery] else [] := by
  rw [announce]
  cases n.outcome pub with
  | unheard => rfl
  | queued =>
    rw [acceptedAt_offered]
    simp [acceptedAt]
  | refused cause =>
    rw [acceptedAt_offered, acceptedAt_of_silent]
    · simp
    · intro a ha
      obtain ⟨alarm, _, rfl⟩ := List.mem_map.mp ha
      rfl

theorem isDone_iff_queued {n : Node} {pub : Publication} (hheard : n.audience pub.delivery ≠ []) :
    (n.outcome pub).isDone = true ↔ n.outcome pub = .queued := by
  have hne : n.outcome pub ≠ .unheard := by
    simp only [Node.outcome, Node.publish, List.isEmpty_iff, hheard, if_false]
    split <;> simp
  cases hcase : n.outcome pub with
  | unheard => exact absurd hcase hne
  | queued => simp [Node.Outcome.isDone]
  | refused cause => simp [Node.Outcome.isDone]

theorem acceptedAt_of_ending {now : List Happening} (h : Ending now) (l : Level) :
    acceptedAt l now = [] := by
  rcases h with rfl | ⟨who, action, reply, rfl⟩ <;> rfl

/-- The deliveries of the notice that a turn has accepted are its dispatch, if that is accepted. -/
theorem accepted_play (hheard : p.node.audience .notice ≠ [])
    (hmeddles : (p.intent turn).meddles = false) (l : Level) :
    (acceptedAt l (p.play turn).1).count .notice =
      if l = .normal then ((p.dispatch? turn).toList.filter (·.accepted)).length else 0 := by
  have hdeed := deed_play p turn
  rw [Parties.dispatch?]
  generalize p.intent turn = i at hdeed hmeddles
  generalize (p.play turn).1 = now at hdeed
  generalize (p.play turn).2.node = n' at hdeed
  cases hdeed with
  | operation ending => simp [acceptedAt_of_ending ending]
  | rest ending => simp [acceptedAt_of_ending ending]
  | publication pub =>
    have hother : pub.delivery ≠ .notice := by simpa [Intent.meddles] using hmeddles
    rw [acceptedAt_announce]
    split <;> simp [hother]
  | dispatch request =>
    have hqueued : ((p.node.execute request).outcome .ofCommand).isDone = true ↔
        (p.node.execute request).outcome .ofCommand = .queued := isDone_iff_queued hheard
    simp only [acceptedAt_announce, ← hqueued, Parties.accepts]
    cases ((p.node.execute request).outcome .ofCommand).isDone <;> cases l <;>
      simp [Publication.ofCommand]
  | tell => cases hmeddles
  | take | settle => simp
  | hear s news =>
    have hsilent : Silent [.heard s news] := silent_singleton rfl
    simp [acceptedAt_of_silent hsilent]
  | pause =>
    have hsilent : Silent [.paused p.node.bus.wait] := silent_singleton rfl
    simp [acceptedAt_of_silent hsilent]
  | advance | clock | claim => simp [acceptedAt_of_silent silent_nil]

theorem accepted_run (h : p.Orderly turns) (l : Level) :
    (acceptedAt l (p.run turns).1).count .notice =
      if l = .normal then ((p.dispatches turns).filter (·.accepted)).length else 0 := by
  induction turns generalizing p with
  | nil => cases l <;> rfl
  | cons turn turns ih =>
    obtain ⟨⟨hheard, hmeddles⟩, hlater⟩ := h
    simp only [Parties.run, Parties.dispatches, acceptedAt_append, List.count_append,
      List.filter_append, List.length_append, accepted_play hheard hmeddles, ih hlater]
    split <;> rfl

/-! ## What the notice is -/

theorem notice_of_no_dispatch (hmeddles : (p.intent turn).meddles = false)
    (h : p.dispatch? turn = none) : (p.play turn).2.node.notice = p.node.notice := by
  refine (deed_play p turn).notice ?_
  rw [Parties.dispatch?] at h
  cases hi : p.intent turn with
  | command => simp [hi] at h
  | operation o =>
    rw [hi] at hmeddles
    cases o with
    | putNotice => cases hmeddles
    | _ => rfl
  | _ => rfl

theorem response_of_dispatch {d : Dispatch} (h : p.dispatch? turn = some d) :
    (p.play turn).2.node.notice.response = d.response := by
  rw [Parties.dispatch?] at h
  split at h
  · rename_i hi
    cases h
    exact congrArg Notice.response ((leaves_of_command hi).notice [] trivial)
  · cases h

theorem response_run (h : p.Orderly turns) :
    ((p.dispatches turns).getLast? = none → (p.run turns).2.node.notice = p.node.notice) ∧
      ∀ d, (p.dispatches turns).getLast? = some d →
        (p.run turns).2.node.notice.response = d.response := by
  induction turns generalizing p with
  | nil => exact ⟨fun _ => rfl, by simp [Parties.dispatches]⟩
  | cons turn turns ih =>
    obtain ⟨⟨_, hmeddles⟩, hlater⟩ := h
    obtain ⟨hnone, hsome⟩ := ih hlater
    simp only [Parties.dispatches, List.getLast?_append, Parties.run]
    cases hlast : ((p.play turn).2.dispatches turns).getLast? with
    | some d =>
      -- A later dispatch wrote the notice again.
      simpa using hsome d hlast
    | none =>
      rw [hnone hlast]
      cases hd : p.dispatch? turn with
      | none => simpa using notice_of_no_dispatch hmeddles hd
      | some d => simpa using response_of_dispatch hd

end Accepted

/-! ## Deliveries -/

theorem mem_queue_of_taken {p : Parties} {turn : Turn} {l : Level} {d : Delivery}
    (h : .taken l d ∈ (p.play turn).1) : d ∈ p.node.bus.queue l := by
  have htraffic := traffic_play p turn
  generalize (p.play turn).1 = now at h htraffic
  generalize (p.play turn).2.node.bus = b' at htraffic
  cases htraffic with
  | quiet silent _ => cases silent _ h
  | reset silent => cases silent _ h
  | offer _ silent =>
    rcases List.mem_cons.mp h with heq | hlater
    · cases heq
    · cases silent _ hlater
  | take taken =>
    cases List.mem_singleton.mp h
    rw [Bus.queue_of_takeFrom? taken, if_pos rfl]
    exact List.mem_cons_self
  | settle => simp at h

/-- The element that a filter keeps after keeping so many. -/
theorem exists_split_of_lt_filter {α : Type} {f : α → Bool} {xs : List α} {k : Nat}
    (h : k < (xs.filter f).length) :
    ∃ before x after, xs = before ++ x :: after ∧ f x = true ∧ (before.filter f).length = k := by
  obtain ⟨front, back, hxs, hfront, hback⟩ :=
    List.filter_eq_append_iff.mp (List.take_append_drop k (xs.filter f)).symm
  rw [List.drop_eq_getElem_cons h] at hback
  obtain ⟨between, after, hsplit, hbetween, hx, _⟩ := List.filter_eq_cons_iff.mp hback
  refine ⟨front ++ between, _, after, hxs.trans ?_, hx, ?_⟩
  · rw [hsplit, List.append_assoc]
  · rw [List.filter_append, List.filter_eq_nil_iff.mpr hbetween, List.append_nil, hfront,
      List.length_take]
    omega

section Deliveries

variable (p : Parties) (turns : List Turn)

/-- The deliveries of the notice that are made and those that are queued are the ones that were
queued in the beginning and, at the normal level, one for each dispatch that was accepted. -/
def Accounts (l : Level) : Prop :=
  (takenAt l (p.run turns).1).count .notice + ((p.run turns).2.node.bus.queue l).count .notice =
    (p.node.bus.queue l).count .notice +
      if l = .normal then ((p.dispatches turns).filter (·.accepted)).length else 0

/-- The next turn delivers the notice, to each listener once and in order. It carries the response
of the last dispatch, and its turn has come: it was queued in the beginning, or it is due to the
dispatch that is next among those accepted. -/
structure Delivers (turn : Turn) (l : Level) : Prop where
  told : ∃ party below, turn = .step party ∧ ∀ later,
    Stage ((p.run turns).2.play turn).2 party l below
      (.notice (p.run turns).2.node.notice) ((p.run turns).2.node.audience .notice) later
  carried : (p.run turns).2.node.notice.response =
    ((p.dispatches turns).getLast?.map (·.response)).getD p.node.notice.response
  due : (takenAt l (p.run turns).1).count .notice < (p.node.bus.queue l).count .notice ∨
    l = .normal ∧ ∃ before d after, p.dispatches turns = before ++ d :: after ∧
      d.accepted = true ∧ (p.node.bus.queue l).count .notice +
        (before.filter (·.accepted)).length = (takenAt l (p.run turns).1).count .notice ∧
      (after = [] → (p.run turns).2.node.notice.response = d.response)

/-- A dispatch over the bus: it writes its response to the notice and answers whether the
delivery of it was accepted, after the hook of the alarm, if that does nothing but operations. -/
structure Dispatches (party : Nat) (order : Order) (stream : UInt8) (request : Request)
    (below : List Activity) : Prop where
  counted : p.dispatch? (.step party) = some ⟨p.response request, p.accepts request⟩
  written : (p.play (.step party)).2.node.notice.response = p.response request
  awaited : ∀ later, Awaited (p.play (.step party)).2 party (.dispatch order false stream)
    (fun n => .dispatched (p.accepts request) n.notice stream) below later
  answered : ∀ (later : List Turn) (ops : List Operation),
    (∀ alarm ∈ ((p.node.execute request).raised .ofCommand).toList,
      (p.reactions.get (.hook alarm.hook)).next = ops.map .op) →
    2 * ops.length + 2 ≤ later.countP (Turn.isOf party) →
    Answered (p.play (.step party)).2 party (.dispatch order false stream)
      (fun n => .dispatched (p.accepts request) n.notice stream) below later

end Deliveries

section Deliveries

variable {p : Parties} {turns : List Turn}

theorem accounts (horderly : p.Orderly turns) (l : Level) : Accounts p turns l := by
  rw [Accounts, ← accepted_run horderly, ← List.count_append, conserved_run p turns l,
    List.count_append]

theorem carried_run (horderly : p.Orderly turns) :
    (p.run turns).2.node.notice.response =
      ((p.dispatches turns).getLast?.map (·.response)).getD p.node.notice.response := by
  obtain ⟨hnone, hsome⟩ := response_run horderly
  cases hlast : (p.dispatches turns).getLast? with
  | none => rw [hnone hlast, Option.map_none, Option.getD_none]
  | some d => rw [hsome d hlast, Option.map_some, Option.getD_some]

theorem delivers_of_taken (horderly : p.Orderly turns) {turn : Turn} {l : Level}
    (h : .taken l .notice ∈ ((p.run turns).2.play turn).1) : Delivers p turns turn l := by
  obtain ⟨party, below, rfl, hongoing⟩ := ongoing_of_taken h
  refine ⟨⟨party, below, rfl, fun later => stage [] hongoing⟩, carried_run horderly, ?_⟩
  have haccounts := accounts horderly l
  rw [Accounts] at haccounts
  have hqueued := List.count_pos_iff.mpr (mem_queue_of_taken h)
  -- One is queued, so that not all that are due were made.
  rcases Nat.lt_or_ge ((takenAt l (p.run turns).1).count .notice)
    ((p.node.bus.queue l).count .notice) with hearly | hlate
  · exact .inl hearly
  · have hlevel : l = .normal := by
      cases l with
      | normal => rfl
      | high =>
        rw [if_neg (by simp)] at haccounts
        omega
    subst hlevel
    rw [if_pos rfl] at haccounts
    have hmore : (takenAt .normal (p.run turns).1).count .notice -
        (p.node.bus.queue .normal).count .notice <
          ((p.dispatches turns).filter (·.accepted)).length := by omega
    obtain ⟨before, d, after, hsplit, hd, hbefore⟩ := exists_split_of_lt_filter hmore
    refine .inr ⟨rfl, before, d, after, hsplit, hd, by omega, fun hafter => ?_⟩
    refine (response_run horderly).2 d ?_
    rw [hsplit, hafter, List.getLast?_concat]

theorem dispatches_of_act {party : Nat} {order : Order} {stream : UInt8} {request : Request}
    {below : List Activity}
    (h : p.ongoing[party]? = some (.act (.dispatch order false stream) :: below))
    (horder : order.request = .ok request) : Dispatches p party order stream request below := by
  have hintent : p.intent (.step party) = .command request false := by
    simp [Parties.intent, h, Machine.intent, Parties.machine, Activity.intent, Action.intent,
      horder]
  have hstep : (p.machine (.act (.dispatch order false stream) :: below)).step =
      some ((p.machine below).perform (.dispatch order false stream)) := rfl
  simp only [Machine.perform, horder, Bool.false_eq_true, if_false] at hstep
  rw [publish_eq] at hstep
  have hongoing := ongoing_of_step h hstep
  rw [Machine.ring_stack] at hongoing
  refine ⟨by rw [Parties.dispatch?, hintent], ?_, fun later => awaited _ hongoing,
    fun later ops hops hturns => ?_⟩
  · exact congrArg Notice.response ((leaves_of_command hintent).notice [] trivial)
  · exact due_rung _ p.reactions ops hops _ later hongoing
      (along_of_forall (fun _ _ => trivial) _ later) hturns

end Deliveries

/-- As long as notices come from dispatches over the bus alone and somebody listens to them: as
many are delivered or queued as were queued in the beginning and as dispatches were accepted since.
They are delivered in this order, to each listener once, and each with the response of the last
dispatch made until then, accepted or not. So a delivery has the response that it was accepted for
if nothing was dispatched in between. Each dispatch answers whether it was accepted. -/
theorem deliveries_of_dispatches (p : Parties) (turns : List Turn)
    (horderly : p.Orderly turns) :
    let q := (p.run turns).2
    (∀ l, Accounts p turns l) ∧
    (∀ turn l, .taken l .notice ∈ (q.play turn).1 → Delivers p turns turn l) ∧
    ∀ party order stream request below,
      q.ongoing[party]? = some (.act (.dispatch order false stream) :: below) →
      order.request = .ok request → Dispatches q party order stream request below :=
  ⟨accounts horderly, fun _ _ => delivers_of_taken horderly,
    fun _ _ _ _ _ => dispatches_of_act⟩

/-- A command is dispatched after the delivery of the one before, and delivered with its own
response. -/
theorem deliveries_of_dispatches_prompt :
    let node : Node := { Node.fresh 10 [] with
      bus := { (Bus.fresh 10 : Bus Delivery Alarm) with started := true }
      noticeTopic := ⟨"command", ⟨[(.outside 0, .blank)]⟩⟩
      catalogue := ⟨[.echo ⟨.system, 16⟩]⟩ }
    let call (b : UInt8) : Action := .dispatch (.parts ⟨.system, 16⟩ [b]) false 0
    let p := Parties.begin node (.filled .idle)
    let turns := Turn.enter .main [call 1, .poll, call 2, .poll] :: List.replicate 18 (.step 0)
    let q := (p.run turns).2
    p.Orderly turns ∧
      (p.dispatches turns).map (fun d => (d.response.data, d.accepted)) =
        [([1], true), ([2], true)] ∧
      Accounts p turns .normal ∧ (takenAt .normal (p.run turns).1).count .notice = 1 ∧
      Delivers p turns (.step 0) .normal ∧ q.node.notice.response.data = [2] := by
  intro node call p turns q
  have horderly : p.Orderly turns := by decide
  have hfacts : (p.dispatches turns).map (fun d => (d.response.data, d.accepted)) =
        [([1], true), ([2], true)] ∧
      (takenAt .normal (p.run turns).1).count .notice = 1 ∧
      takenAt .normal (q.play (.step 0)).1 = [.notice] ∧
      q.node.notice.response.data = [2] := by decide
  obtain ⟨hdispatches, hcount, htaken, hdata⟩ := hfacts
  obtain ⟨haccounts, hdelivers, _⟩ := deliveries_of_dispatches p turns horderly
  exact ⟨horderly, hdispatches, haccounts .normal, hcount, hdelivers _ _ (taken_of_mem_takenAt
    (by rw [htaken]; exact List.mem_singleton_self _)), hdata⟩

/-- The response that a listener heard. -/
def Happening.response? : Happening → Option Response
  | .heard _ (.notice n) => some n.response
  | _ => none

def heardResponses (past : List Happening) : List Response := past.filterMap Happening.response?

/-- Two commands are dispatched before the first delivery. Both are accepted, and the listener
hears twice the response of the second and not that of the first. -/
theorem responses_overwritten :
    let node : Node := { Node.fresh 10 [] with
      bus := { (Bus.fresh 10 : Bus Delivery Alarm) with started := true }
      noticeTopic := ⟨"command", ⟨[(.outside 0, .blank)]⟩⟩
      catalogue := ⟨[.echo ⟨.system, 16⟩]⟩ }
    let call (b : UInt8) : Action := .dispatch (.parts ⟨.system, 16⟩ [b]) false 0
    let p := Parties.begin node (.filled .idle)
    let turns := Turn.enter .main [call 1, call 2, .drain] :: List.replicate 24 (.step 0)
    let accepted := (p.dispatches turns).filter (·.accepted)
    p.Orderly turns ∧ (∀ l, (p.run turns).2.node.bus.queue l = []) ∧
      accepted.map (·.response.data) = [[1], [2]] ∧
      (heardResponses (p.run turns).1).map (·.data) = [[2], [2]] ∧
      heardResponses (p.run turns).1 ≠ accepted.map (·.response) := by
  intro node call p turns accepted
  have horderly : p.Orderly turns := by decide
  have hqueues : ∀ l, (p.run turns).2.node.bus.queue l = [] := by
    intro l
    cases l <;> decide
  have hdata : accepted.map (·.response.data) = [[1], [2]] ∧
      (heardResponses (p.run turns).1).map (·.data) = [[2], [2]] := by decide
  refine ⟨horderly, hqueues, hdata.1, hdata.2, fun heq => ?_⟩
  have hsame := congrArg (List.map Response.data) heq
  rw [hdata.2, List.map_map] at hsame
  exact absurd (hsame.trans hdata.1) (by decide)

end NodeBus.Session
