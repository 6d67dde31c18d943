import NodeBus.Proofs.Session.Backpressure
import NodeBus.Proofs.Session.Commands
import NodeBus.Proofs.Session.Rounds

/-!
# Dispatching at once and over the bus

A command that is dispatched over the bus is told when its delivery is made, and one that is
dispatched at once is told without the bus. What its listeners hear is the same
(`dispatched_alike`), as long as they touch neither the bus nor the notice: what they do then does
not depend on the bus either (`Unfolds`).
-/

namespace NodeBus.Session

open Machine (Reaches)

/-! ## What is heard -/

def Happening.hearing? : Happening → Option (Subscriber × News)
  | .heard s news => some (s, news)
  | _ => none

/-- Who hears what, in order. -/
def hearings (past : List Happening) : List (Subscriber × News) :=
  past.filterMap Happening.hearing?

@[simp] theorem hearings_append (past later : List Happening) :
    hearings (past ++ later) = hearings past ++ hearings later := List.filterMap_append

/-! ## Actions aside from the bus -/

/-- Whether an operation leaves the bus and the notice alone. -/
def Operation.sparing : Operation → Bool
  | .start | .claim | .setAlarm _ | .clearAlarm | .resetCounters | .putNotice .. => false
  | _ => true

/-- An action that leaves the bus and the notice alone. -/
inductive Action.Sparing : Action → Prop where
  | op {o : Operation} (sparing : o.sparing = true) : Sparing (.op o)
  | setClock (now : UInt32) {action : Action} (sparing : action.Sparing) :
      Sparing (.setClock now action)
  | arm (who : Caller) (times : Nat) {script : Script}
      (sparing : ∀ action ∈ script, action.Sparing) : Sparing (.arm who times script)

/-- A caller that leaves the bus and the notice alone at each of its calls. -/
def Discreet (r : Reactions) (who : Caller) : Prop :=
  ∀ call, ∀ action ∈ (r.get who).script call, action.Sparing

/-- What is kept where the bus and the notice are left alone. -/
structure Spares (n : Node) (r : Reactions) (n' : Node) (r' : Reactions) : Prop where
  notice : n'.notice = n.notice
  discreet : ∀ who, Discreet r who → Discreet r' who

section Spares

variable {n n' n'' : Node} {r r' r'' : Reactions}

theorem Spares.refl : Spares n r n r := ⟨rfl, fun _ => id⟩

theorem Spares.trans (h : Spares n r n' r') (h' : Spares n' r' n'' r'') : Spares n r n'' r'' :=
  ⟨h'.notice.trans h.notice, fun who hwho => h'.discreet who (h.discreet who hwho)⟩

theorem spares_arm (who : Caller) (times : Nat) {script : Script}
    (h : ∀ action ∈ script, action.Sparing) :
    Spares n r n (r.set who (.repeating times script)) := by
  refine ⟨rfl, fun who' hwho call => ?_⟩
  rw [Bank.get_set]
  split
  · simp only [Reaction.repeating]
    split
    · exact h
    · simp
  · exact hwho call

theorem spares_call (who : Caller) :
    Spares n r n (r.set who { r.get who with calls := (r.get who).calls + 1 }) := by
  refine ⟨rfl, fun who' hwho call => ?_⟩
  rw [Bank.get_set]
  split
  · rename_i heq
    exact heq ▸ hwho call
  · exact hwho call

end Spares

theorem apply_bus {o : Operation} (h : o.sparing = true) (n : Node) (bus : Bus Delivery Alarm) :
    (o.apply { n with bus }).2 = { (o.apply n).2 with bus } := by
  cases o with
  | start | claim | setAlarm | clearAlarm | resetCounters | putNotice => cases h
  | register handler =>
    simp only [Operation.apply]
    split <;> rfl
  | _ => rfl

theorem notice_apply_of_sparing {o : Operation} (h : o.sparing = true) (n : Node) :
    (o.apply n).2.notice = n.notice := by
  refine notice_apply ?_
  cases o with
  | putNotice => cases h
  | _ => rfl

/-! ## Courses that leave the bus alone -/

/-- The machine with another bus. -/
def Machine.withBus (m : Machine) (bus : Bus Delivery Alarm) : Machine :=
  { m with node := { m.node with bus } }

/-- Whatever the bus is, a machine gets from one state to another and leaves it alone, and this is
heard meanwhile. -/
def Unfolds (m : Machine) (heard : List (Subscriber × News)) (m' : Machine) : Prop :=
  ∀ bus, ∃ past, Reaches (m.withBus bus) past (m'.withBus bus) ∧ hearings past = heard

section Unfolds

variable {m m' m'' : Machine} {heard later : List (Subscriber × News)} {n : Node} {r : Reactions}

theorem Unfolds.trans (h : Unfolds m heard m') (h' : Unfolds m' later m'') :
    Unfolds m (heard ++ later) m'' := by
  intro bus
  obtain ⟨past, hreach, rfl⟩ := h bus
  obtain ⟨past', hreach', rfl⟩ := h' bus
  exact ⟨past ++ past', hreach.trans hreach', hearings_append ..⟩

theorem unfolds_of_step (h : ∀ bus, ∃ now, (m.withBus bus).step = some (now, m'.withBus bus) ∧
    hearings now = heard) : Unfolds m heard m' := by
  intro bus
  obtain ⟨now, hstep, hheard⟩ := h bus
  exact ⟨now, .single hstep, hheard⟩

/-- What an action does is the same on every stack, so that `n'` and `r'` come first. -/
theorem unfolds_act {action : Action} (h : action.Sparing) (n : Node) (r : Reactions) :
    ∃ n' r', Spares n r n' r' ∧ ∀ who todo base,
      Unfolds ⟨n, r, .act action :: .code who todo :: base⟩ []
        ⟨n', r', .code who todo :: base⟩ := by
  -- The clock is set first and the action then made, so that the node varies in the induction.
  induction h generalizing n with
  | @op o sparing =>
    refine ⟨(o.apply n).2, r, ⟨notice_apply_of_sparing sparing n, fun _ => id⟩, ?_⟩
    intro who todo base
    refine unfolds_of_step fun bus => ⟨[.did who (.op o) (o.apply { n with bus }).1], ?_, rfl⟩
    simp only [Machine.withBus, ← apply_bus sparing]
    rfl
  | @setClock now action _ ih =>
    obtain ⟨n', r', hspares, hunfolds⟩ := ih { n with now }
    refine ⟨n', r', ⟨hspares.notice, hspares.discreet⟩, fun who todo base => ?_⟩
    have hclock : Unfolds ⟨n, r, .act (.setClock now action) :: .code who todo :: base⟩ []
        ⟨{ n with now }, r, .act action :: .code who todo :: base⟩ :=
      unfolds_of_step fun bus => ⟨[], rfl, rfl⟩
    exact hclock.trans (hunfolds who todo base)
  | @arm caller times script sparing _ =>
    refine ⟨n, r.set caller (.repeating times script), spares_arm caller times sparing, ?_⟩
    intro who todo base
    have harmed : Unfolds ⟨n, r, .act (.arm caller times script) :: .code who todo :: base⟩ []
        ⟨n, r.set caller (.repeating times script), (.answer fun _ => .nothing) ::
          .acting (.arm caller times script) :: .code who todo :: base⟩ :=
      unfolds_of_step fun bus => ⟨[], rfl, rfl⟩
    have hdone : Unfolds ⟨n, r.set caller (.repeating times script), (.answer fun _ => .nothing) ::
          .acting (.arm caller times script) :: .code who todo :: base⟩ []
        ⟨n, r.set caller (.repeating times script), .code who todo :: base⟩ :=
      unfolds_of_step fun bus => ⟨[.did who (.arm caller times script) .nothing], rfl, rfl⟩
    exact harmed.trans hdone

theorem unfolds_code {script : Script} (h : ∀ action ∈ script, action.Sparing) (n : Node)
    (r : Reactions) :
    ∃ n' r', Spares n r n' r' ∧ ∀ who base,
      Unfolds ⟨n, r, .code who script :: base⟩ [] ⟨n', r', base⟩ := by
  induction script generalizing n r with
  | nil =>
    exact ⟨n, r, .refl, fun who base => unfolds_of_step fun bus => ⟨[], rfl, rfl⟩⟩
  | cons action script ih =>
    rw [List.forall_mem_cons] at h
    obtain ⟨n₁, r₁, hspares₁, hact⟩ := unfolds_act h.1 n r
    obtain ⟨n₂, r₂, hspares₂, hrest⟩ := ih h.2 n₁ r₁
    refine ⟨n₂, r₂, hspares₁.trans hspares₂, fun who base => ?_⟩
    have hbegin : Unfolds ⟨n, r, .code who (action :: script) :: base⟩ []
        ⟨n, r, .act action :: .code who script :: base⟩ :=
      unfolds_of_step fun bus => ⟨[], rfl, rfl⟩
    exact (hbegin.trans (hact who script base)).trans (hrest who base)

/-- A listener hears of a notice, and is called unless it is part of the node. -/
theorem unfolds_heard (notice : Notice) (s : Subscriber) (audience : List Subscriber) (n : Node)
    (h : ∀ i, s.1 = .outside i → Discreet r (.notice i)) :
    ∃ n' r', Spares n r n' r' ∧ ∀ base,
      Unfolds ⟨n, r, .telling (.notice notice) (s :: audience) :: base⟩ [(s, .notice notice)]
        ⟨n', r', .telling (.notice notice) audience :: base⟩ := by
  obtain ⟨l, c⟩ := s
  cases l with
  | counting | timekeeping =>
    exact ⟨n, r, .refl, fun base => unfolds_of_step fun bus => ⟨[.heard _ _], rfl, rfl⟩⟩
  | outside i =>
    let reaction := r.get (.notice i)
    let called := r.set (.notice i) { reaction with calls := reaction.calls + 1 }
    -- The call is counted before the script runs, which may arm its own caller anew.
    have hscript : ∀ action ∈ reaction.next, action.Sparing := h i rfl _
    obtain ⟨n', r', hspares, hcode⟩ := unfolds_code hscript n called
    refine ⟨n', r', (spares_call _).trans hspares, fun base => ?_⟩
    have htold : Unfolds ⟨n, r, .telling (.notice notice) ((.outside i, c) :: audience) :: base⟩
        [((.outside i, c), .notice notice)] ⟨n, called,
          .code (.notice i) reaction.next :: .telling (.notice notice) audience :: base⟩ :=
      unfolds_of_step fun bus => ⟨[.heard _ _], rfl, rfl⟩
    exact htold.trans (hcode (.notice i) _)

theorem unfolds_telling (notice : Notice) {audience : List Subscriber}
    (h : ∀ s ∈ audience, ∀ i, s.1 = .outside i → Discreet r (.notice i)) :
    ∃ n' r', Spares n r n' r' ∧ ∀ base,
      Unfolds ⟨n, r, .telling (.notice notice) audience :: base⟩
        (audience.map (·, .notice notice)) ⟨n', r', base⟩ := by
  induction audience generalizing n r with
  | nil => exact ⟨n, r, .refl, fun base => unfolds_of_step fun bus => ⟨[], rfl, rfl⟩⟩
  | cons s audience ih =>
    rw [List.forall_mem_cons] at h
    obtain ⟨n₁, r₁, hspares₁, hfirst⟩ := unfolds_heard notice s audience n h.1
    -- Those who are told later are as discreet after whatever the first one armed.
    have hdiscreet : ∀ s ∈ audience, ∀ i, s.1 = .outside i → Discreet r₁ (.notice i) :=
      fun s hs i hi => hspares₁.discreet _ (h.2 s hs i hi)
    obtain ⟨n₂, r₂, hspares₂, hrest⟩ := ih (n := n₁) hdiscreet
    exact ⟨n₂, r₂, hspares₁.trans hspares₂, fun base => (hfirst base).trans (hrest base)⟩

end Unfolds

/-! ## Scripts that are run to their end -/

/-- A caller runs a script to its end. -/
def Runs (who : Caller) (script : Script) (n : Node) (r : Reactions) (past : List Happening)
    (n' : Node) (r' : Reactions) : Prop :=
  Reaches ⟨n, r, [.code who script]⟩ past ⟨n', r', []⟩

theorem Runs.iff {who : Caller} {script : Script} {n n' : Node} {r r' : Reactions}
    {past : List Happening} (h : Runs who script n r past n' r') (past' : List Happening)
    (m : Node) (s : Reactions) :
    Runs who script n r past' m s ↔ past' = past ∧ m = n' ∧ s = r' := by
  constructor
  · exact ends_unique h
  · rintro ⟨rfl, rfl, rfl⟩
    exact h

/-! ## A delivery alone on the bus -/

section Bus

variable {b : Bus Delivery Alarm} {d : Delivery}

theorem next?_of_alone (high : b.queue .high = []) (normal : b.queue .normal = [d]) :
    ∃ b', b.next? = some (.normal, d, b') ∧ ∀ l, b'.queue l = [] := by
  have hsome : b.takeFrom? .normal ≠ none := by
    rw [Ne, Bus.takeFrom?_eq_none_iff, normal]
    exact List.cons_ne_nil d []
  obtain ⟨⟨d', b'⟩, htaken⟩ := Option.ne_none_iff_exists'.mp hsome
  have hqueue := Bus.queue_of_takeFrom? htaken
  have hnormal : [d] = d' :: b'.queue .normal := normal ▸ hqueue .normal
  obtain ⟨rfl, hleft⟩ := List.cons.inj hnormal
  refine ⟨b', ?_, fun l => ?_⟩
  · rw [Bus.next?, Bus.takeFrom?_eq_none_iff.mpr high, htaken]
    rfl
  · cases l with
    | normal => exact hleft.symm
    | high => exact (hqueue .high).symm.trans high

theorem offer_of_empty (hstarted : b.started = true) (h : ∀ l, b.queue l = []) (d : Delivery) :
    ∃ b', b.offer .normal d = (none, b') ∧ b'.queue .high = [] ∧ b'.queue .normal = [d] := by
  have hfree : 0 < b.freeSlots .normal := by
    rw [Bus.freeSlots, Bus.queued, h]
    decide
  have hqueue (l : Level) := queue_of_started hstarted .normal l d
  have hrefusal := offer_refusal hstarted .normal d
  rw [if_pos hfree] at hrefusal
  refine ⟨_, Prod.ext hrefusal rfl, ?_, ?_⟩
  · simp [hqueue, h]
  · simp [hqueue, h, hfree]

end Bus

/-! ## Dispatching -/

section Dispatch

variable (who : Caller) (stream : UInt8) {order : Order} {request : Command.Request} {n m : Node}
  {r s : Reactions} {heard : List (Subscriber × News)}

theorem reaches_begin (action : Action) (todo : Script) (n : Node) (r : Reactions) :
    Reaches ⟨n, r, [.code who (action :: todo)]⟩ [] ⟨n, r, [.act action, .code who todo]⟩ :=
  .single rfl

theorem reaches_answer (reply : Node → Reply) (action : Action) (todo : Script) (n : Node)
    (r : Reactions) :
    Reaches ⟨n, r, [.answer reply, .acting action, .code who todo]⟩ [.did who action (reply n)]
      ⟨n, r, [.code who todo]⟩ :=
  .single rfl

theorem reaches_end (n : Node) (r : Reactions) :
    Reaches ⟨n, r, [.code who []]⟩ [] ⟨n, r, []⟩ :=
  .single rfl

theorem runs_drain {k : Nat} {past : List Happening} (h : Drained n r k past m s) :
    Runs who [.drain] n r (past ++ [.did who .drain (.number k)]) m s := by
  have hdrained := performs_of_drained h who
  have hreach := (reaches_begin who .drain [] n r).trans (hdrained.trans (reaches_end who m s))
  rwa [List.nil_append, List.append_nil] at hreach

/-- A command that is dispatched at once tells its notice without the bus. -/
theorem runs_at_once (hrequest : order.request = .ok request)
    (htelling : ∀ base, Unfolds ⟨n.execute request, r, .telling (.notice (n.execute request).notice)
      n.noticeTopic.roster.entries :: base⟩ heard ⟨m, s, base⟩) :
    ∃ past, Runs who [.dispatch order true stream] n r past { m with bus := n.bus } s ∧
      hearings past = heard := by
  have hact : ∃ reply, (⟨n, r, [.act (.dispatch order true stream), .code who []]⟩ : Machine).step =
      some ([], ⟨n.execute request, r, [.telling (.notice (n.execute request).notice)
        n.noticeTopic.roster.entries, .answer reply, .acting (.dispatch order true stream),
        .code who []]⟩) := by
    simp only [Machine.step, Machine.perform, hrequest]
    exact ⟨_, rfl⟩
  obtain ⟨reply, hact⟩ := hact
  obtain ⟨past, htold, rfl⟩ := htelling [.answer reply, .acting (.dispatch order true stream),
    .code who []] n.bus
  have hended := (reaches_answer who reply (.dispatch order true stream) []
    { m with bus := n.bus } s).trans (reaches_end who _ s)
  refine ⟨_, (reaches_begin who _ [] n r).trans (.step hact (htold.trans hended)), ?_⟩
  simp [hearings, Happening.hearing?]

/-- A dispatch over the bus that is not refused goes on with the script. -/
theorem reaches_of_published (hrequest : order.request = .ok request) {outcome : Node.Outcome}
    (hdone : outcome.isDone = true)
    (hpublish : (n.execute request).publish .notice .normal = (outcome, m)) (todo : Script) :
    ∃ past, Reaches ⟨n, r, [.code who (.dispatch order false stream :: todo)]⟩ past
      ⟨m, r, [.code who todo]⟩ ∧ hearings past = [] := by
  have hstep : (⟨n, r, [.act (.dispatch order false stream), .code who todo]⟩ : Machine).step =
      some ((⟨n.execute request, r, [.acting (.dispatch order false stream), .code who todo]⟩ :
        Machine).publish .notice .normal .task fun ok n => .dispatched ok n.notice stream) := by
    simp only [Machine.step, Machine.perform, hrequest]
    rfl
  have hact : ∃ now reply, hearings now = [] ∧
      (⟨n, r, [.act (.dispatch order false stream), .code who todo]⟩ : Machine).step =
        some (now, ⟨m, r, [.answer reply, .acting (.dispatch order false stream),
          .code who todo]⟩) := by
    rw [hstep, Machine.publish, hpublish]
    cases outcome with
    | unheard => exact ⟨[], _, rfl, rfl⟩
    | queued => exact ⟨[.offered .normal .notice none], _, rfl, rfl⟩
    | refused => cases hdone
  obtain ⟨now, reply, hnow, hact⟩ := hact
  refine ⟨_, (reaches_begin who _ todo n r).trans
    (.step hact (reaches_answer who reply _ todo m r)), ?_⟩
  rw [List.nil_append, hearings_append, hnow]
  rfl

/-- A command that nobody hears of leaves nothing to drain. -/
theorem runs_unheard (hrequest : order.request = .ok request)
    (hqueues : ∀ l, n.bus.queue l = []) (hunheard : n.noticeTopic.roster.entries = []) :
    ∃ past, Runs who [.dispatch order false stream, .drain] n r past (n.execute request) r ∧
      hearings past = [] := by
  have hpublish : (n.execute request).publish .notice .normal =
      (.unheard, n.execute request) := by
    have haudience : ((n.execute request).audience .notice).isEmpty = true :=
      List.isEmpty_iff.mpr hunheard
    rw [Node.publish, haudience]
    rfl
  obtain ⟨past, hdispatched, hpast⟩ := reaches_of_published who stream (r := r) hrequest
    rfl hpublish [.drain]
  have hdrained : Drained (n.execute request) r 0 [] (n.execute request) r :=
    .done (next?_eq_none_iff.mpr hqueues)
  refine ⟨_, hdispatched.trans (runs_drain who hdrained), ?_⟩
  rw [hearings_append, hpast]
  rfl

/-- A command that is dispatched over an empty bus tells its notice when the bus is drained. -/
theorem runs_over_bus (hrequest : order.request = .ok request) (hstarted : n.bus.started = true)
    (hqueues : ∀ l, n.bus.queue l = []) (hheard : n.noticeTopic.roster.entries ≠ [])
    (htelling : ∀ base, Unfolds ⟨n.execute request, r, .telling (.notice (n.execute request).notice)
      n.noticeTopic.roster.entries :: base⟩ heard ⟨m, s, base⟩) :
    ∃ past bus, Runs who [.dispatch order false stream, .drain] n r past { m with bus } s ∧
      hearings past = heard := by
  obtain ⟨queued, hoffer, hhigh, hnormal⟩ := offer_of_empty hstarted hqueues .notice
  obtain ⟨left, hnext, hleft⟩ := next?_of_alone hhigh hnormal
  have hpublish : (n.execute request).publish .notice .normal =
      (.queued, { n.execute request with bus := queued }) := by
    have haudience : ((n.execute request).audience .notice).isEmpty = false :=
      List.isEmpty_eq_false_iff.mpr hheard
    have hexecute : (n.execute request).bus.offer .normal .notice = (none, queued) := hoffer
    rw [Node.publish, haudience, hexecute]
    rfl
  obtain ⟨past, hdispatched, hpast⟩ := reaches_of_published who stream (r := r) hrequest
    rfl hpublish [.drain]
  -- The delivery is made with nothing below it on its stack, and `Served` puts the drain there.
  obtain ⟨told, htold, rfl⟩ := htelling [] left
  have hserved := Served.intro (n := { n.execute request with bus := queued })
    (m := { m with bus := left }) hnext htold
  have hempty : (left.settle .normal).next? = none :=
    next?_eq_none_iff.mpr (by simpa using hleft)
  have hdrained := Drained.more hserved (.done hempty)
  refine ⟨_, left.settle .normal, hdispatched.trans (runs_drain who hdrained), ?_⟩
  rw [hearings_append, hpast]
  simp [hearings, List.filterMap_cons, Happening.hearing?]

/-- On a bus that is started and empty, it makes no difference whether a command is dispatched over
the bus, which is then drained, or at once. Either way its handler is called once, before anyone is
told, the listeners of that moment hear one notice, in order and with their contexts, and the
notice is kept. In the end the two ways differ in nothing but the bus. The listeners may do what
they like as long as they touch neither the bus nor the notice. -/
theorem dispatched_alike (hrequest : order.request = .ok request)
    (hstarted : n.bus.started = true) (hqueues : ∀ l, n.bus.queue l = [])
    (hdiscreet : ∀ s ∈ n.noticeTopic.roster.entries, ∀ i, s.1 = .outside i →
      Discreet r (.notice i)) :
    let notice : Notice :=
      ⟨⟨n.now, n.notice.envelope.kind⟩, n.catalogue.respond n.surroundings request⟩
    ∃ overBus nb rb atOnce na ra,
      (∀ past m s, Runs who [.dispatch order false stream, .drain] n r past m s ↔
        past = overBus ∧ m = nb ∧ s = rb) ∧
      (∀ past m s, Runs who [.dispatch order true stream] n r past m s ↔
        past = atOnce ∧ m = na ∧ s = ra) ∧
      hearings overBus = n.noticeTopic.roster.entries.map (·, .notice notice) ∧
      hearings atOnce = n.noticeTopic.roster.entries.map (·, .notice notice) ∧
      nb.notice = notice ∧ na.notice = notice ∧ rb = ra ∧ nb = { na with bus := nb.bus } := by
  intro notice
  have hnotice : (n.execute request).notice = notice := rfl
  by_cases hheard : n.noticeTopic.roster.entries = []
  -- With nobody to tell, the one way puts nothing on the bus and the other has nothing to do.
  · have hnobody (base : List Activity) : Unfolds ⟨n.execute request, r,
        .telling (.notice (n.execute request).notice) n.noticeTopic.roster.entries :: base⟩ []
        ⟨n.execute request, r, base⟩ := by
      rw [hheard]
      exact unfolds_of_step fun bus => ⟨[], rfl, rfl⟩
    obtain ⟨overBus, hbus, hoverBus⟩ :=
      runs_unheard who stream (r := r) hrequest hqueues hheard
    obtain ⟨atOnce, honce, hatOnce⟩ := runs_at_once who stream hrequest hnobody
    rw [hheard]
    exact ⟨overBus, _, _, atOnce, _, _, hbus.iff, honce.iff, hoverBus, hatOnce, hnotice, hnotice,
      rfl, rfl⟩
  · obtain ⟨m, s, hspares, htelling⟩ := unfolds_telling (n.execute request).notice
      (n := n.execute request) hdiscreet
    obtain ⟨overBus, bus, hbus, hoverBus⟩ :=
      runs_over_bus who stream hrequest hstarted hqueues hheard htelling
    obtain ⟨atOnce, honce, hatOnce⟩ := runs_at_once who stream hrequest htelling
    exact ⟨overBus, _, _, atOnce, _, _, hbus.iff, honce.iff, hoverBus, hatOnce,
      hspares.notice, hspares.notice, rfl, rfl⟩

end Dispatch

/-- A listener sets the clock, joins another to the topic, asks for a report of the bus and arms the
next listener, who resets a count. Between the two stands a listener that is never called. -/
theorem dispatched_alike_busy :
    let node : Node := { Node.fresh 10 [] with
      bus := { (Bus.fresh 10 : Bus Delivery Alarm) with started := true }
      noticeTopic :=
        ⟨"command", ⟨[(.outside 0, .mark 7), (.counting, .counter 3), (.outside 1, .blank)]⟩⟩
      catalogue := ⟨[.echo ⟨.system, 16⟩]⟩
      now := 5 }
    let script : Script := [.setClock 99 (.op (.subscribeNotices 2 .blank)), .op .report,
      .arm (.notice 1) 1 [.op (.resetCount 3)]]
    let reactions : Reactions := (Bank.filled .idle).set (.notice 0) (.repeating 1 script)
    let order : Order := .parts ⟨.system, 16⟩ [1, 2]
    (∀ l, node.bus.queue l = []) ∧
      ∃ overBus nb rb atOnce na ra,
        Runs .main [.dispatch order false 0, .drain] node reactions overBus nb rb ∧
        Runs .main [.dispatch order true 0] node reactions atOnce na ra ∧
        (hearings overBus).map Prod.fst =
          [(.outside 0, .mark 7), (.counting, .counter 3), (.outside 1, .blank)] ∧
        hearings overBus = hearings atOnce ∧ nb.notice = na.notice ∧
        nb.notice.response.data = [1, 2] ∧ nb.notice.envelope.timestamp = 5 := by
  intro node script reactions order
  have hqueues : ∀ l, node.bus.queue l = [] := by
    intro l
    cases l <;> rfl
  have hsparing : ∀ action ∈ script, action.Sparing := by
    simp only [script, List.forall_mem_cons]
    refine ⟨.setClock 99 (.op rfl), .op rfl, .arm _ _ ?_, by simp⟩
    simp only [List.forall_mem_cons]
    exact ⟨.op rfl, by simp⟩
  have hdiscreet (i : Nat) : Discreet reactions (.notice i) := by
    intro call
    by_cases hi : i = 0
    · rw [hi, Bank.get_set, if_pos rfl, Reaction.repeating]
      dsimp only
      split
      · exact hsparing
      · simp
    · rw [Bank.get_set, if_neg (by simpa using hi)]
      simp [Reaction.idle]
  have hrequest : order.request = .ok ⟨⟨.system, 16⟩, [1, 2], by decide⟩ := rfl
  obtain ⟨overBus, nb, rb, atOnce, na, ra, hbus, honce, hoverBus, hatOnce, hnb, hna, _⟩ :=
    dispatched_alike .main 0 hrequest rfl hqueues fun _ _ i _ => hdiscreet i
  refine ⟨hqueues, overBus, nb, rb, atOnce, na, ra, (hbus _ _ _).mpr ⟨rfl, rfl, rfl⟩,
    (honce _ _ _).mpr ⟨rfl, rfl, rfl⟩, ?_, hoverBus.trans hatOnce.symm, hnb.trans hna.symm, ?_, ?_⟩
  · rw [hoverBus]
    rfl
  · rw [hnb]
    decide
  · rw [hnb]

end NodeBus.Session
