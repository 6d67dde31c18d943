import NodeBus.Proofs.Session.Recasting

/-!
# Where a publication comes from

Along a schedule, parties whose publications are recast do the same as before, turn by turn
(`Follows`): they leave out the turns in which a hook returns that was called for a publication that
is recast, and nothing else. `alike_play` is the step of this simulation.
-/

namespace NodeBus.Session

open List (Forall₂)

/-! ## Turns -/

/-- Two turns do the same, or one publishes from a task what the other publishes from an interrupt,
which raises no alarm. -/
inductive TurnsAlike (p p' : Parties) (turn turn' : Turn) : Prop where
  | same (intent : p'.intent turn' = p.intent turn)
      (records : Forall₂ Happening.Recast (p.play turn).1 (p'.play turn').1)
  | eased (d : Delivery) (level : Level) (task : p.intent turn = .publication ⟨d, level, .task⟩)
      (interrupt : p'.intent turn' = .publication ⟨d, level, .interrupt⟩)
      (records : (p'.play turn').1 = (p.play turn).1.filter (!·.isAlarm))

/-- A run that does the same as another, turn by turn, but leaves out turns in which a hook
returns. -/
inductive Follows : Parties → List Turn → Parties → List Turn → Prop where
  | done {p p' : Parties} (recast : p.Recast p') : Follows p [] p' []
  | returned {p p' : Parties} {turns turns' : List Turn} (party hook : Nat)
      (below : List Activity) (recast : p.Recast p')
      (ongoing : p.ongoing[party]? = some (.code (.hook hook) [] :: below))
      (later : Follows (p.play (.step party)).2 turns p' turns') :
      Follows p (.step party :: turns) p' turns'
  | together {p p' : Parties} {turn turn' : Turn} {turns turns' : List Turn}
      (recast : p.Recast p') (cast : turn.Recast turn') (alike : TurnsAlike p p' turn turn')
      (later : Follows (p.play turn).2 turns (p'.play turn').2 turns') :
      Follows p (turn :: turns) p' (turn' :: turns')

/-- A waiting worker has so many looks left. -/
def allotted (pending : Option Nat) (looks : Nat) : List Activity → List Activity
  | .working ⟨loops, pauses, _, delivered, notes, .waiting _⟩ :: rest =>
    .working ⟨loops, pauses, looks, delivered, notes, .waiting pending⟩ :: rest
  | s => s

section Lists

variable {α : Type} {R : α → α → Prop} {l l' : List α}

theorem forall₂_at (h : Forall₂ R l l') (i : Nat) :
    (l[i]? = none ∧ l'[i]? = none) ∨ ∃ a a', l[i]? = some a ∧ l'[i]? = some a' ∧ R a a' := by
  induction h generalizing i with
  | nil => exact .inl ⟨rfl, rfl⟩
  | cons head _ ih =>
    cases i with
    | zero => exact .inr ⟨_, _, rfl, rfl, head⟩
    | succ i => exact ih i

theorem forall₂_set (h : Forall₂ R l l') (i : Nat) {a a' : α} (ha : R a a') :
    Forall₂ R (l.set i a) (l'.set i a') := by
  induction h generalizing i with
  | nil => exact .nil
  | cons head tail ih =>
    cases i with
    | zero => exact .cons ha tail
    | succ i => exact .cons head (ih i)

theorem forall₂_modify (h : Forall₂ R l l') (i : Nat) {f : α → α}
    (hf : ∀ a a', R a a' → R (f a) (f a')) : Forall₂ R (l.modify i f) (l'.modify i f) := by
  induction h generalizing i with
  | nil =>
    rw [List.modify_nil]
    exact .nil
  | cons head tail ih =>
    cases i with
    | zero => exact .cons (hf _ _ head) tail
    | succ i => exact .cons head (ih i)

theorem forall₂_set_left (h : Forall₂ R l l') {i : Nat} {a a' : α} (hl' : l'[i]? = some a')
    (ha : R a a') : Forall₂ R (l.set i a) l' := by
  obtain ⟨hlt, rfl⟩ := List.getElem?_eq_some_iff.mp hl'
  have hset := forall₂_set h i ha
  rwa [List.set_getElem_self] at hset

end Lists

section Turns

variable {p p' : Parties} {party : Nat}

theorem alike_of_still (h : p.Recast p') {turn : Turn} (hplay : p.play turn = ([], p))
    (hplay' : p'.play turn = ([], p')) (hintent : p.intent turn = .other)
    (hintent' : p'.intent turn = .other) :
    (p.play turn).2.Recast (p'.play turn).2 ∧ TurnsAlike p p' turn turn := by
  refine ⟨?_, .same ?_ ?_⟩
  · rw [hplay, hplay']
    exact h
  · rw [hintent, hintent']
  · rw [hplay, hplay']
    exact .nil

theorem still_of_none (h : p.ongoing[party]? = none) :
    p.play (.step party) = ([], p) ∧ p.intent (.step party) = .other := by
  simp only [Parties.play, Parties.intent, h]
  exact ⟨rfl, rfl⟩

theorem still_of_nil (h : p.ongoing[party]? = some []) :
    p.play (.step party) = ([], p) ∧ p.intent (.step party) = .other := by
  simp only [Parties.play, Parties.intent, h]
  exact ⟨rfl, rfl⟩

theorem intent_of_ongoing {s : List Activity} (h : p.ongoing[party]? = some s) :
    p.intent (.step party) = (p.machine s).intent := by
  simp only [Parties.intent, h]
  rfl

/-- A party that has the same going on in both, but for the recast, does the same. -/
theorem alike_step_level (h : p.Recast p') (hidle : HooksIdle p.reactions) {s s' : List Activity}
    (hs : p.ongoing[party]? = some s) (hs' : p'.ongoing[party]? = some s')
    (hstack : Forall₂ Activity.Recast s s') :
    (p.play (.step party)).2.Recast (p'.play (.step party)).2 ∧
      TurnsAlike p p' (.step party) (.step party) := by
  have hintent := intent_of_ongoing hs
  have hintent' := intent_of_ongoing hs'
  cases hstep : (p.machine s).step with
  | none =>
    obtain rfl : s = [] := stack_of_step_eq_none hstep
    obtain rfl := List.forall₂_nil_left_iff.mp hstack
    obtain ⟨hplay, hother⟩ := still_of_nil hs
    obtain ⟨hplay', hother'⟩ := still_of_nil hs'
    exact alike_of_still h hplay hplay' hother hother'
  | some res =>
    obtain ⟨hr, hongoing⟩ := h
    obtain ⟨res', hstep', halike⟩ := alike_step (.intro hr hstack) hidle hstep
    obtain ⟨now, m⟩ := res
    obtain ⟨now', m'⟩ := res'
    rw [play_of_step hs hstep, play_of_step hs' hstep']
    cases halike with
    | same intent results =>
      obtain ⟨hrecords, hreactions, hleft⟩ := results
      refine ⟨.intro hreactions (forall₂_set hongoing party (.level hleft)), .same ?_ ?_⟩
      · rw [hintent, hintent']
        exact intent
      · rw [play_of_step hs hstep, play_of_step hs' hstep']
        exact hrecords
    | eased d level task interrupt records node reactions stack =>
      dsimp only at node
      rw [node]
      refine ⟨.intro reactions (forall₂_set hongoing party stack), .eased d level ?_ ?_ ?_⟩
      · exact hintent.trans task
      · exact hintent'.trans interrupt
      · rw [play_of_step hs hstep, play_of_step hs' hstep']
        exact records

/-- A hook that was called for a publication that is recast returns. -/
theorem recast_of_returned (h : p.Recast p') {hook : Nat} {f f' : Node → Reply}
    {s s' : List Activity} (hs : p.ongoing[party]? = some (.code (.hook hook) [] :: .answer f :: s))
    (hs' : p'.ongoing[party]? = some (.answer f' :: s')) (hreply : ∀ n, (f n).Recast (f' n))
    (hstack : Forall₂ Activity.Recast s s') : (p.play (.step party)).2.Recast p' := by
  obtain ⟨hr, hongoing⟩ := h
  rw [play_of_step hs rfl]
  exact .intro hr (forall₂_set_left hongoing hs' (.level (.cons (.answer hreply) hstack)))

theorem play_allot (p : Parties) (party : Nat) (pending : Option Nat) (looks : Nat) :
    p.play (.allot party pending looks) =
      ([], { p with ongoing := p.ongoing.modify party (allotted pending looks) }) := by
  simp only [Parties.play, List.modify_eq_set_getElem?]
  split
  · rename_i hs
    simp [hs, allotted]
  · rename_i hother
    cases hs : p.ongoing[party]? with
    | none => simp
    | some s =>
      have hsame : allotted pending looks s = s := by
        rw [allotted]
        rintro loops pauses looks' delivered notes pending' rest rfl
        exact hother _ _ _ _ _ _ _ hs
      obtain ⟨hlt, rfl⟩ := List.getElem?_eq_some_iff.mp hs
      simp [hsame]

theorem stackRecast_allotted {s s' : List Activity} (h : StackRecast s s') (pending : Option Nat)
    (looks : Nat) : StackRecast (allotted pending looks s) (allotted pending looks s') := by
  cases h with
  | ringing hook hreply hstack => exact .ringing hook hreply hstack
  | level hstack =>
    cases hstack with
    | nil => exact .level .nil
    | cons htop hrest =>
      have hsame := htop
      cases htop with
      | working hworker =>
        obtain ⟨hpauses, hnotes, hphase⟩ := hworker
        cases hphase with
        | waiting =>
          exact .level (.cons (.working (.intro hpauses hnotes (.waiting pending))) hrest)
        | _ => exact .level (.cons hsame hrest)
      | _ => exact .level (.cons hsame hrest)

/-- The step of the simulation: a hook returns that was called in one of the two only, or both do
the same. -/
theorem alike_play (h : p.Recast p') {turn turn' : Turn} (hturn : turn.Recast turn')
    (hidle : HooksIdle p.reactions) :
    (∃ party hook below, turn = .step party ∧
        p.ongoing[party]? = some (.code (.hook hook) [] :: below) ∧ (p.play turn).2.Recast p') ∨
      (p.play turn).2.Recast (p'.play turn').2 ∧ TurnsAlike p p' turn turn' := by
  cases hturn with
  | enter who hscript =>
    obtain ⟨hr, hongoing⟩ := h
    exact .inr ⟨.intro hr (List.rel_append hongoing
      (.cons (.level (.cons (.code who hscript) .nil)) .nil)), .same rfl .nil⟩
  | allot party pending looks =>
    obtain ⟨hr, hongoing⟩ := h
    refine .inr ⟨?_, .same rfl ?_⟩
    · rw [play_allot, play_allot]
      exact .intro hr (forall₂_modify hongoing party fun s s' hs =>
        stackRecast_allotted hs pending looks)
    · rw [play_allot, play_allot]
      exact .nil
  | step party =>
    have hboth := h
    obtain ⟨hr, hongoing⟩ := h
    rename_i n r r' o o'
    rcases forall₂_at hongoing party with ⟨hnone, hnone'⟩ | ⟨s, s', hs, hs', hstack⟩
    · obtain ⟨hplay, hother⟩ := still_of_none (p := ⟨n, r, o⟩) hnone
      obtain ⟨hplay', hother'⟩ := still_of_none (p := ⟨n, r', o'⟩) hnone'
      exact .inr (alike_of_still hboth hplay hplay' hother hother')
    · cases hstack with
      | level hstack => exact .inr (alike_step_level hboth hidle hs hs' hstack)
      | ringing hook hreply hstack =>
        exact .inl ⟨party, hook, _, rfl, hs, recast_of_returned hboth hs hs' hreply hstack⟩

theorem follows_run (h : p.Recast p') {turns casts : List Turn}
    (hcasts : Forall₂ Turn.Recast turns casts)
    (hidle : p.Along (fun p _ => HooksIdle p.reactions) turns) :
    ∃ turns', turns'.Sublist casts ∧ Follows p turns p' turns' := by
  induction hcasts generalizing p p' with
  | nil => exact ⟨[], .slnil, .done h⟩
  | cons hcast _ ih =>
    obtain ⟨hnow, hlater⟩ := hidle
    rcases alike_play h hcast hnow with ⟨party, hook, below, rfl, hs, hafter⟩ | ⟨hafter, halike⟩
    · obtain ⟨turns', hsub, hfollows⟩ := ih hafter hlater
      exact ⟨turns', hsub.cons _, .returned party hook below h hs hfollows⟩
    · obtain ⟨turns', hsub, hfollows⟩ := ih hafter hlater
      exact ⟨_ :: turns', hsub.cons_cons _, .together h hcast halike hfollows⟩

end Turns

/-! ## Publications from an interrupt -/

/-- A call publishes without running a hook: no alarm is recorded, nobody is called, and its party
goes on with its answer. -/
structure Unrung (p : Parties) (party : Nat) (action : Action) (pub : Publication)
    (below : List Activity) : Prop where
  recorded : ∀ a ∈ (p.play (.step party)).1, a.isAlarm = false
  reactions : (p.play (.step party)).2.reactions = p.reactions
  ongoing : (p.play (.step party)).2.ongoing[party]? =
    some (.answer (fun _ => .flag (p.node.outcome pub).isDone) :: .acting action :: below)

theorem unrung_of_interrupt {p : Parties} {party : Nat} {action : Action} {d : Delivery}
    {level : Level} {below : List Activity}
    (hongoing : p.ongoing[party]? = some (.act action :: below))
    (hintent : action.intent = .publication ⟨d, level, .interrupt⟩) :
    Unrung p party action ⟨d, level, .interrupt⟩ below := by
  have hlt := (List.getElem?_eq_some_iff.mp hongoing).1
  have hplay := play_of_publication hongoing hintent
  rw [raised_interrupt, announce_interrupt] at hplay
  constructor
  · rw [hplay]
    simp
  · rw [hplay]
    rfl
  · rw [hplay]
    exact List.getElem?_set_self hlt

/-- Let hooks do nothing. Of any parties in any state, along any schedule, let publications made
from a task be made from an interrupt instead, wherever in a program, a caller's script or what is
already going on they are. Then the same happens turn by turn, with the same replies, and leaves the
same node and as many calls of every listener, except that these publications raise no alarm, and
that no hook then returns. No publication from an interrupt ever runs a hook. -/
theorem interrupt_publishes_as_task {p p' : Parties} {turns casts : List Turn}
    (h : p.Recast p') (hcasts : Forall₂ Turn.Recast turns casts)
    (hidle : p.Along (fun p _ => HooksIdle p.reactions) turns) :
    (∃ turns', turns'.Sublist casts ∧ Follows p turns p' turns') ∧
    ∀ (q : Parties) (party : Nat) (action : Action) (d : Delivery) (level : Level)
      (below : List Activity), q.ongoing[party]? = some (.act action :: below) →
        action.intent = .publication ⟨d, level, .interrupt⟩ →
          Unrung q party action ⟨d, level, .interrupt⟩ below :=
  ⟨follows_run h hcasts hidle, fun _ _ _ _ _ _ => unrung_of_interrupt⟩

/-- Before the bus is started a task is refused, and its hook runs; an interrupt is refused alike,
and no hook runs. -/
theorem interrupt_publishes_as_task_refused :
    let topics := (Node.quietTopics ["timer"]).set 0 ⟨"timer", ⟨[(.outside 0, .blank)]⟩⟩
    let bus : Bus Delivery Alarm := { (Bus.fresh 10 : Bus Delivery Alarm) with
      alarm := some ⟨3, .mark 7⟩ }
    let p := Parties.begin { Node.fresh 10 [] with bus, topics } (.filled .idle)
    let turns := Turn.enter .main [.publish 0 1 .high .task] :: List.replicate 4 (.step 0)
    let casts := Turn.enter .main [.publish 0 1 .high .interrupt] :: List.replicate 4 (.step 0)
    (p.Recast p ∧ Forall₂ Turn.Recast turns casts ∧
      p.Along (fun p _ => HooksIdle p.reactions) turns) ∧
    (∃ turns', turns'.Sublist casts ∧ Follows p turns p turns') ∧
    (p.run turns).1 = [.offered .high (.tick 0 1) (some .notStarted),
      .alarmed ⟨3, .mark 7⟩ .notStarted "timer",
      .did .main (.publish 0 1 .high .task) (.flag false)] ∧
    (p.run (casts.take 4)).1 = [.offered .high (.tick 0 1) (some .notStarted),
      .did .main (.publish 0 1 .high .interrupt) (.flag false)] := by
  intro topics bus p turns casts
  have hrecast : p.Recast p := .intro (.refl _) .nil
  have hcasts : Forall₂ Turn.Recast turns casts :=
    .cons (.enter .main (.cons (.publish 0 1 .high .eased) .nil))
      (List.forall₂_same.mpr fun turn hturn => by
        rw [List.eq_of_mem_replicate hturn]
        exact .step 0)
  have hidle : HooksIdle (.filled .idle) := fun _ _ => rfl
  have hcalled : HooksIdle ((Bank.filled .idle).set (.hook 3) ⟨fun _ => [], 1⟩) := by
    intro hook call
    rw [Bank.get_set]
    split <;> rfl
  have halong : p.Along (fun p _ => HooksIdle p.reactions) turns :=
    ⟨hidle, hidle, hidle, hcalled, hcalled, trivial⟩
  exact ⟨⟨hrecast, hcasts, halong⟩, (interrupt_publishes_as_task hrecast hcasts halong).1, rfl, rfl⟩

end NodeBus.Session
