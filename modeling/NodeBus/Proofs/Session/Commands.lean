import NodeBus.Proofs.Command.Execution
import NodeBus.Proofs.Session.Answers
import NodeBus.Proofs.Session.Deeds

/-!
# Commands and their history

A turn that executes a command leaves the notice of its response, whatever notice was there: of
the old one only the kind of its envelope stays (`notice_of_command`). Until the next command it
is kept (`notice_run`). A command that is told at once answers whether it went well, when its
listeners have been told (`repliesAtOnce`).
-/

namespace NodeBus.Session

open Command (Request Response Registry nodeWorld)

/-! ## Who writes the notice -/

def Intent.writesNotice : Intent → Bool
  | .command .. | .operation (.putNotice ..) => true
  | _ => false

/-- Nobody writes the notice. -/
def Parties.Undisturbed (p : Parties) (turns : List Turn) : Prop :=
  p.Along (fun p turn => (p.intent turn).writesNotice = false) turns

instance (p : Parties) (turns : List Turn) : Decidable (p.Undisturbed turns) :=
  inferInstanceAs (Decidable (Parties.Along _ p turns))

section Notice

variable {n n' : Node} {now : List Happening}

/-- A publication changes nothing but the bus. -/
theorem published_eq (n : Node) (pub : Publication) :
    n.published pub = { n with bus := (n.published pub).bus } := by
  simp only [Node.published, Node.publish]
  split <;> rfl

theorem notice_published (n : Node) (pub : Publication) :
    (n.published pub).notice = n.notice := by
  rw [published_eq]

theorem notice_apply {o : Operation} (h : (Intent.operation o).writesNotice = false) :
    (o.apply n).2.notice = n.notice := by
  cases o with
  | putNotice => cases h
  | register handler =>
    simp only [Operation.apply]
    split <;> rfl
  | _ => rfl

theorem Deed.notice {i : Intent} (h : Deed n i now n') (hi : i.writesNotice = false) :
    n'.notice = n.notice := by
  cases h with
  | operation _ => exact notice_apply hi
  | publication pub => exact notice_published n pub
  | tell | dispatch => cases hi
  | hear s news =>
    simp only [Node.hear]
    split <;> rfl
  | advance | clock _ | take _ | settle _ | pause | claim | rest _ => rfl

theorem notice_run {p : Parties} {turns : List Turn} (h : p.Undisturbed turns) :
    (p.run turns).2.node.notice = p.node.notice := by
  induction turns generalizing p with
  | nil => rfl
  | cons turn turns ih => exact (ih h.2).trans ((deed_play p turn).notice h.1)

/-- A command executes its request once and publishes at most. -/
theorem node_of_command {p : Parties} {turn : Turn} {request : Request} {atOnce : Bool}
    (h : p.intent turn = .command request atOnce) :
    (p.play turn).2.node = { p.node.execute request with bus := (p.play turn).2.node.bus } := by
  have hdeed := deed_play p turn
  rw [h] at hdeed
  generalize (p.play turn).1 = now at hdeed
  generalize (p.play turn).2.node = n' at hdeed
  cases hdeed with
  | tell => rfl
  | dispatch => exact published_eq (p.node.execute request) .ofCommand

end Notice

/-! ## The keys of a catalogue -/

theorem distinct_apply {n : Node} (h : n.catalogue.Distinct) (o : Operation) :
    (o.apply n).2.catalogue.Distinct := by
  cases o with
  | register handler =>
    simp only [Operation.apply]
    split
    · exact Command.Catalogue.distinct_register h ‹_›
    · exact h
  | putNotice =>
    simp only [Operation.apply]
    split <;> exact h
  | _ => exact h

theorem Deed.distinct {n n' : Node} {i : Intent} {now : List Happening} (h : Deed n i now n')
    (hn : n.catalogue.Distinct) : n'.catalogue.Distinct := by
  cases h with
  | operation _ => exact distinct_apply hn _
  | publication pub =>
    rw [published_eq]
    exact hn
  | dispatch request =>
    rw [published_eq]
    exact hn
  | hear s news =>
    simp only [Node.hear]
    split <;> exact hn
  | advance | tell _ | clock _ | take _ | settle _ | pause | claim | rest _ => exact hn

theorem distinct_run {p : Parties} (h : p.node.catalogue.Distinct) (turns : List Turn) :
    (p.run turns).2.node.catalogue.Distinct :=
  kept_run (P := (·.catalogue.Distinct)) Deed.distinct h turns

/-! ## What a command leaves and answers -/

section Command

variable (p : Parties)

def Parties.response (request : Request) : Response :=
  p.node.catalogue.respond p.node.surroundings request

/-- What the handler of a request makes of an empty response, if there is one. -/
def Parties.effect (request : Request) : Option Response :=
  (p.node.catalogue.find? request.key).map fun handler =>
    handler.execute p.node.surroundings request (.empty request.key)

theorem response_eq (request : Request) :
    p.response request =
      (p.effect request).getD ((Response.empty request.key).setStatus .notFound) := by
  simp only [Parties.response, Parties.effect, Command.Catalogue.respond]
  cases p.node.catalogue.find? request.key <;> rfl

/-- A turn that executes a request. -/
structure Leaves (turn : Turn) (request : Request) : Prop where
  node : (p.play turn).2.node = { p.node.execute request with bus := (p.play turn).2.node.bus }
  notice : ∀ later, (p.play turn).2.Undisturbed later →
    ((p.play turn).2.run later).2.node.notice =
      ⟨⟨p.node.now, p.node.notice.envelope.kind⟩, p.response request⟩
  lastResponse : ∀ later, (p.play turn).2.Undisturbed later →
    (Operation.lastResponse.apply ((p.play turn).2.run later).2.node).1 =
      .response (p.response request)

/-- A command whose notice is told at once. -/
structure RepliesAtOnce (party : Nat) (action : Action) (request : Request) (stream : UInt8)
    (below : List Activity) : Prop where
  awaited : ∀ later, Awaited (p.play (.step party)).2 party action
    (fun n => .dispatched (decide ((p.response request).status = .success)) n.notice stream)
    below later
  answered : ∀ (size : Nat) (later : List Turn), (p.play (.step party)).2.Along (Calm size) later →
    (p.node.audience .notice).length * (2 * size + 2) + 2 ≤ later.countP (Turn.isOf party) →
    Answered (p.play (.step party)).2 party action
      (fun n => .dispatched (decide ((p.response request).status = .success)) n.notice stream)
      below later

end Command

section Command

variable {p : Parties} {request : Request}

theorem leaves_of_command {turn : Turn} {atOnce : Bool}
    (h : p.intent turn = .command request atOnce) : Leaves p turn request := by
  have hnode := node_of_command h
  have hnotice (later : List Turn) (hlater : (p.play turn).2.Undisturbed later) :
      ((p.play turn).2.run later).2.node.notice =
        ⟨⟨p.node.now, p.node.notice.envelope.kind⟩, p.response request⟩ := by
    rw [notice_run hlater, hnode]
    rfl
  refine ⟨hnode, hnotice, fun later hlater => ?_⟩
  simp only [Operation.apply, hnotice later hlater]

theorem repliesAtOnce {party : Nat} {order : Order} {stream : UInt8} {below : List Activity}
    (h : p.ongoing[party]? = some (.act (.dispatch order true stream) :: below))
    (horder : order.request = .ok request) :
    RepliesAtOnce p party (.dispatch order true stream) request stream below := by
  have hongoing : (p.play (.step party)).2.ongoing[party]? = some
      (.telling (.notice (p.node.execute request).notice) (p.node.audience .notice) ::
        .answer (fun n => .dispatched (decide ((p.response request).status = .success))
          n.notice stream) :: .acting (.dispatch order true stream) :: below) := by
    have hstep : (p.machine (.act (.dispatch order true stream) :: below)).step =
        some ((p.machine below).perform (.dispatch order true stream)) := rfl
    simp only [Machine.perform, horder] at hstep
    exact ongoing_of_step h hstep
  refine ⟨fun later => awaited [_] hongoing, fun size later hcalm hturns => ?_⟩
  refine due_telling _ due_ready _ later hongoing hcalm ?_
  omega

end Command

/-- Handlers may do anything with the world they run in: the one for the key of a request is
called once, on an empty response, and no other, and if there is none nobody is. An execution on
a node is of this kind, its catalogue having at most one handler for a key. So what a command
leaves in the notice, at once or over the bus, is what its handler makes of an empty response, or
that there is none, and the clock; only the kind of the envelope is kept. It is read back until
the notice is written again, and nothing in it depends on what was there before: two parties with
whatever past that agree on the clock and on what the handler does agree on all of it. A command
that is told at once answers whether its status is success. -/
theorem commands_independent_of_history :
    (∀ (ω : Type) (r : Registry ω) (W : Command.World ω) (request : Request) (w : ω),
      Command.Executes r W request w) ∧
    (∀ (node : Node) (reactions : Bank Caller Reaction) (turns : List Turn),
      node.catalogue = .empty →
      let n := ((Parties.begin node reactions).run turns).2.node
      ∃ h : n.catalogue.Distinct, ∀ request,
        n.execute request = (n.catalogue.registry h).execute nodeWorld request n) ∧
    (∀ (p : Parties) (turn : Turn) (request : Request) (atOnce : Bool),
      p.intent turn = .command request atOnce → Leaves p turn request) ∧
    (∀ (p q : Parties) (turn turn' : Turn) (request : Request) (atOnce atOnce' : Bool)
      (later later' : List Turn), p.intent turn = .command request atOnce →
      q.intent turn' = .command request atOnce' → p.node.now = q.node.now →
      p.effect request = q.effect request → (p.play turn).2.Undisturbed later →
      (q.play turn').2.Undisturbed later' →
      let left := ((p.play turn).2.run later).2.node.notice
      let left' := ((q.play turn').2.run later').2.node.notice
      left.response = left'.response ∧ left.envelope.timestamp = left'.envelope.timestamp) ∧
    ∀ (p : Parties) (party : Nat) (order : Order) (stream : UInt8) (request : Request)
      (below : List Activity),
      p.ongoing[party]? = some (.act (.dispatch order true stream) :: below) →
      order.request = .ok request →
      RepliesAtOnce p party (.dispatch order true stream) request stream below := by
  refine ⟨fun _ => Command.executes, fun node reactions turns hempty => ?_,
    fun p turn request atOnce => leaves_of_command, ?_,
    fun p party order stream request below => repliesAtOnce⟩
  · have hbegin : (Parties.begin node reactions).node.catalogue.Distinct :=
      hempty ▸ Command.Catalogue.distinct_empty
    exact ⟨distinct_run hbegin turns, Command.execute_eq (distinct_run hbegin turns)⟩
  · intro p q turn turn' request atOnce atOnce' later later' h h' hnow heffect hlater hlater'
      left left'
    have hleft : left = _ := (leaves_of_command h).notice later hlater
    have hleft' : left' = _ := (leaves_of_command h').notice later' hlater'
    rw [hleft, hleft', response_eq, response_eq, heffect, hnow]
    exact ⟨rfl, rfl⟩

/-- After a response that filled the store, a word has the same bytes behind it as on a node where
nothing was executed. -/
theorem commands_independent_of_history_stale :
    let full : Command.Handler := .preset ⟨.system, 1⟩ (List.replicate 16 0xEE) .busy
    let word : Command.Handler := .constant ⟨.system, 2⟩ 7
    let node := { Node.fresh 10 [] with catalogue := ⟨[full, word]⟩ }
    let start := Parties.begin node (.filled .idle)
    let request : Request := ⟨⟨.system, 2⟩, [], by decide⟩
    let second : Action := .dispatch (.parts ⟨.system, 2⟩ []) true 0
    let p := (start.run (.enter .main [.dispatch (.parts ⟨.system, 1⟩ []) true 0, second] ::
      List.replicate 5 (.step 0))).2
    let q := (start.run [.enter .main [.dispatch (.parts ⟨.system, 2⟩ []) false 0], .step 0]).2
    p.node.notice.response.store = List.replicate 16 0xEE ∧
      (p.play (.step 0)).2.node.notice.response = (q.play (.step 0)).2.node.notice.response ∧
      (q.play (.step 0)).2.node.notice.response.store = 7 :: List.replicate 15 0 ∧
      RepliesAtOnce p 0 second request 0 [.code .main []] := by
  intro full word node start request second p q
  obtain ⟨_, _, _, hsame, hreplies⟩ := commands_independent_of_history
  have hagree := hsame p q (.step 0) (.step 0) request true false [] [] rfl rfl rfl rfl trivial
    trivial
  exact ⟨by decide, hagree.1, by decide, hreplies p 0 _ 0 request _ rfl rfl⟩

end NodeBus.Session
