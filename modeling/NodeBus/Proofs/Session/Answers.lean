import NodeBus.Proofs.Session.Nesting

/-!
# Answers

An action that has called someone waits below on the stack, with its answer ready. Whatever goes
on above it, it waits until that has ended (`awaited`), and in the next step of its party it is
answered (`answered_of_ready`). How many steps it takes until then is known of scripts that are
nothing but operations and of audiences that run such scripts (`Due`).
-/

namespace NodeBus.Session

/-! ## Who is answered -/

/-- Who gets the answer of an action that ends above a stack. -/
def asker? : List Activity → Option Caller
  | .code who _ :: _ => some who
  | .working _ :: _ => some .pause
  | _ => none

/-- What is recorded where an action ends above a stack. -/
def endOf (below : List Activity) (action : Action) (reply : Reply) : List Happening :=
  (asker? below).toList.map (.did · action reply)

theorem conclude_fst (m : Machine) (action : Action) (reply : Reply) :
    (m.conclude action reply).1 = endOf m.stack action reply := by
  rw [Machine.conclude]
  split
  · rename_i hstack
    rw [hstack]
    rfl
  · rename_i hstack
    rw [hstack]
    rfl
  · rename_i hcode hworking
    -- Whoever else is on top asks for nothing.
    cases hstack : m.stack with
    | nil => rfl
    | cons a below =>
      cases a with
      | code who todo => exact absurd hstack (hcode who todo below)
      | working w => exact absurd hstack (hworking w below)
      | _ => rfl

section Answer

variable (p : Parties) (party : Nat) (action : Action) (reply : Node → Reply)
  (below : List Activity)

/-- Along a schedule an action of a party has ended, with the reply that was read off the node
at that moment and without any effect on it. -/
def Answered (later : List Turn) : Prop :=
  ∃ before after, later = before ++ .step party :: after ∧
    ((p.run before).2.play (.step party)).1 = endOf below action (reply (p.run before).2.node) ∧
    ((p.run before).2.play (.step party)).2.node = (p.run before).2.node

/-- An action of a party waits for what goes on above it, or has ended. -/
inductive Awaited (later : List Turn) : Prop where
  | waiting (above : List Activity) (ongoing : (p.run later).2.ongoing[party]? =
      some (above ++ .answer reply :: .acting action :: below))
  | answered (answered : Answered p party action reply below later)

end Answer

section Answer

variable {p : Parties} {party : Nat} {action : Action} {reply : Node → Reply}
  {below : List Activity} {turn : Turn} {later : List Turn}

theorem Answered.cons (h : Answered (p.play turn).2 party action reply below later) :
    Answered p party action reply below (turn :: later) := by
  obtain ⟨before, after, hsplit, hanswer⟩ := h
  exact ⟨turn :: before, after, by rw [hsplit, List.cons_append], hanswer⟩

theorem Awaited.cons (h : Awaited (p.play turn).2 party action reply below later) :
    Awaited p party action reply below (turn :: later) := by
  cases h with
  | waiting above ongoing => exact .waiting above ongoing
  | answered answered => exact .answered answered.cons

/-- The turn in which an action is answered. -/
theorem play_of_ready
    (h : p.ongoing[party]? = some (.answer reply :: .acting action :: below)) :
    (p.play (.step party)).1 = endOf below action (reply p.node) ∧
      (p.play (.step party)).2.node = p.node := by
  have hend := conclude_fst (p.machine below) action (reply p.node)
  have hnode := conclude_node (p.machine below) action (reply p.node)
  have hstep : (p.machine (.answer reply :: .acting action :: below)).step =
      some ((p.machine below).conclude action (reply p.node)) := rfl
  generalize (p.machine below).conclude action (reply p.node) = result at hend hnode hstep
  obtain ⟨now, m⟩ := result
  rw [play_of_step h hstep]
  exact ⟨hend, hnode⟩

theorem answered_now
    (h : p.ongoing[party]? = some (.answer reply :: .acting action :: below)) :
    Answered p party action reply below (.step party :: later) :=
  ⟨[], later, rfl, play_of_ready h⟩

theorem awaited (above : List Activity)
    (h : p.ongoing[party]? = some (above ++ .answer reply :: .acting action :: below)) :
    Awaited p party action reply below later := by
  induction later generalizing p above with
  | nil => exact .waiting above h
  | cons turn later ih =>
    have hsealed : Sealed (.answer reply :: .acting action :: below) := sealed_cons rfl _
    cases hturn : turn.isOf party with
    | false =>
      obtain ⟨above', hongoing, _⟩ := ongoing_of_idle above h hsealed hturn
      exact (ih above' hongoing).cons
    | true =>
      obtain rfl := Turn.eq_step hturn
      cases above with
      | nil => exact .answered (answered_now h)
      | cons a above =>
        obtain ⟨above', hongoing⟩ := ongoing_of_above h hsealed (List.cons_ne_nil a above)
        exact (ih above' hongoing).cons

theorem answered_of_ready
    (h : p.ongoing[party]? = some (.answer reply :: .acting action :: below))
    (hturns : 1 ≤ later.countP (Turn.isOf party)) : Answered p party action reply below later := by
  induction later generalizing p with
  | nil => cases hturns
  | cons turn later ih =>
    cases hturn : turn.isOf party with
    | true =>
      obtain rfl := Turn.eq_step hturn
      exact answered_now h
    | false =>
      obtain ⟨above, hongoing, hnil⟩ := ongoing_of_idle [] h (sealed_cons rfl _) hturn
      rw [hnil rfl, List.nil_append] at hongoing
      exact (ih hongoing (by simpa [hturn] using hturns)).cons

/-- While a party does not take its turn, what it has going on stays as it is, unless that is a
worker that waits. -/
theorem ongoing_of_other {a : Activity} {rest : List Activity}
    (h : p.ongoing[party]? = some (a :: rest)) (ha : ∀ w, a ≠ .working w)
    (hturn : turn.isOf party = false) :
    (p.play turn).2.ongoing[party]? = some (a :: rest) := by
  have hlt := (List.getElem?_eq_some_iff.mp h).1
  cases turn with
  | enter who script => simp [Parties.play, List.getElem?_append_left hlt, h]
  | step party' =>
    have hne : party' ≠ party := by simpa [Turn.isOf] using hturn
    simp only [Parties.play]
    split
    · rw [List.getElem?_set_ne hne, h]
    · exact h
  | allot party' pending looks =>
    simp only [Parties.play]
    split
    · rename_i hworking
      have hne : party' ≠ party := by
        rintro rfl
        rw [h, Option.some.injEq, List.cons.injEq] at hworking
        exact ha _ hworking.1
      rw [List.getElem?_set_ne hne, h]
    · exact h

theorem ongoing_of_others {a : Activity} {rest : List Activity}
    (h : p.ongoing[party]? = some (a :: rest)) (ha : ∀ w, a ≠ .working w) (turns : List Turn)
    (hturns : ∀ turn ∈ turns, turn.isOf party = false) :
    (p.run turns).2.ongoing[party]? = some (a :: rest) := by
  induction turns generalizing p with
  | nil => exact h
  | cons turn turns ih =>
    obtain ⟨hturn, hlater⟩ := List.forall_mem_cons.mp hturns
    exact ih (ongoing_of_other h ha hturn) hlater

end Answer

/-! ## Answers within a number of steps -/

section Due

variable (P : Parties → Turn → Prop) (party : Nat) (action : Action) (reply : Node → Reply)
  (below : List Activity)

/-- Wherever a party has a stack going on, its action is answered within a number of its steps,
along schedules whose turns `P` allows. -/
def Due (steps : Nat) (stack : List Activity) : Prop :=
  ∀ (p : Parties) (later : List Turn), p.ongoing[party]? = some stack → p.Along P later →
    steps ≤ later.countP (Turn.isOf party) → Answered p party action reply below later

variable {P party action reply below} {steps : Nat} {rest : List Activity}

theorem along_of_forall (h : ∀ p turn, P p turn) (p : Parties) (turns : List Turn) :
    p.Along P turns := by
  induction turns generalizing p with
  | nil => trivial
  | cons turn turns ih => exact ⟨h p turn, ih _⟩

theorem due_ready : Due P party action reply below 1 (.answer reply :: .acting action :: below) :=
  fun _ _ h _ => answered_of_ready h

theorem Due.mono {steps' : Nat} {stack : List Activity}
    (h : Due P party action reply below steps stack) (hsteps : steps ≤ steps') :
    Due P party action reply below steps' stack :=
  fun p later hongoing hallowed hturns => h p later hongoing hallowed (Nat.le_trans hsteps hturns)

theorem due_of_step {a : Activity} (ha : ∀ w, a ≠ .working w)
    (hstep : ∀ p : Parties, p.ongoing[party]? = some (a :: rest) → P p (.step party) →
      ∃ stack, (p.play (.step party)).2.ongoing[party]? = some stack ∧
        Due P party action reply below steps stack) :
    Due P party action reply below (steps + 1) (a :: rest) := by
  intro p later h hallowed hsteps
  induction later generalizing p with
  | nil => simp at hsteps
  | cons turn later ih =>
    obtain ⟨hnow, hlater⟩ := hallowed
    rw [List.countP_cons] at hsteps
    cases hturn : turn.isOf party with
    | false =>
      have hongoing := ongoing_of_other h ha hturn
      exact (ih _ hongoing hlater (by simpa [hturn] using hsteps)).cons
    | true =>
      obtain rfl := Turn.eq_step hturn
      obtain ⟨stack, hongoing, hdue⟩ := hstep p h hnow
      refine (hdue _ later hongoing hlater ?_).cons
      simpa [hturn] using hsteps

/-- A script of operations ends by itself. -/
theorem due_operations {who : Caller} (ops : List Operation)
    (h : Due P party action reply below steps rest) :
    Due P party action reply below (steps + 1 + 2 * ops.length)
      (.code who (ops.map .op) :: rest) := by
  induction ops with
  | nil => exact due_of_step (by simp) fun p hongoing _ => ⟨rest, ongoing_of_step hongoing rfl, h⟩
  | cons o ops ih =>
    -- One step begins the operation, and one carries it out.
    have hbegun : Due P party action reply below (steps + 1 + 2 * ops.length + 1)
        (.act (.op o) :: .code who (ops.map .op) :: rest) := by
      refine due_of_step (by simp) fun p hongoing _ => ⟨_, ?_, ih⟩
      have hstep : (p.machine (.act (.op o) :: .code who (ops.map .op) :: rest)).step =
          some ([.did who (.op o) (o.apply p.node).1],
            ⟨(o.apply p.node).2, p.reactions, .code who (ops.map .op) :: rest⟩) := rfl
      exact ongoing_of_step hongoing hstep
    exact due_of_step (by simp) fun p hongoing _ => ⟨_, ongoing_of_step hongoing rfl, hbegun⟩

theorem due_rung (raised : Option Alarm) (reactions : Bank Caller Reaction) (ops : List Operation)
    (hops : ∀ alarm ∈ raised.toList,
      (reactions.get (.hook alarm.hook)).next = ops.map .op) :
    Due P party action reply below (2 * ops.length + 2)
      (raised.toList.map (fun alarm =>
          .code (.hook alarm.hook) (reactions.get (.hook alarm.hook)).next) ++
        .answer reply :: .acting action :: below) := by
  cases raised with
  | none => exact due_ready.mono (by omega)
  | some alarm =>
    simp only [Option.toList_some, List.map_singleton, hops alarm (by simp), List.singleton_append]
    exact (due_operations ops due_ready).mono (by omega)

/-- The scripts of all callers are operations, so many at most. -/
def Calm (size : Nat) (p : Parties) (_ : Turn) : Prop :=
  ∀ who, ∃ ops : List Operation, ops.length ≤ size ∧ (p.reactions.get who).next = ops.map .op

theorem due_telling {size : Nat} {news : News} (audience : List Subscriber)
    (h : Due (Calm size) party action reply below steps rest) :
    Due (Calm size) party action reply below (steps + 1 + audience.length * (2 * size + 2))
      (.telling news audience :: rest) := by
  induction audience with
  | nil =>
    have hdue : Due (Calm size) party action reply below (steps + 1)
        (.telling news [] :: rest) :=
      due_of_step (by simp) fun p hongoing _ => ⟨rest, ongoing_of_step hongoing rfl, h⟩
    exact hdue.mono (by omega)
  | cons s audience ih =>
    -- A listener that is called runs a script first.
    have hcalled (p : Parties) (hongoing : p.ongoing[party]? =
        some (.telling news (s :: audience) :: rest)) (hcalm : Calm size p (.step party)) :
        ∃ stack, (p.play (.step party)).2.ongoing[party]? = some stack ∧
          Due (Calm size) party action reply below
            (steps + 1 + audience.length * (2 * size + 2) + 1 + 2 * size) stack := by
      have hstep : (p.machine (.telling news (s :: audience) :: rest)).step =
          some (((p.machine rest).push [.telling news audience]).tell news s) := rfl
      have hongoing' := ongoing_of_step hongoing hstep
      split at hongoing'
      · rename_i who _
        obtain ⟨ops, hops, hnext⟩ := hcalm who
        refine ⟨_, hongoing', ?_⟩
        change Due _ _ _ _ _ _
          (.code who (p.reactions.get who).next :: .telling news audience :: rest)
        rw [hnext]
        exact (due_operations ops ih).mono (by omega)
      · exact ⟨_, hongoing', ih.mono (by omega)⟩
    have hdue := due_of_step (by simp) hcalled
    refine hdue.mono ?_
    rw [List.length_cons, Nat.add_mul]
    omega

end Due

end NodeBus.Session
