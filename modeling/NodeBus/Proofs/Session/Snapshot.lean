import NodeBus.Proofs.Session.Nesting
import NodeBus.Proofs.Session.Queues
import NodeBus.Proofs.Session.Rosters

/-!
# Deliveries as of the moment they are taken

When a delivery is taken, its value and its listeners are read off the node (`ongoing_of_taken`).
From then on they wait on the stack, below whatever the listeners do when they are called, and
nothing that goes on above them changes them (`step_onto`). So whatever the listeners do, the
delivery tells the listeners that it was taken with, one after the other, and is then counted
(`stage`). A delivery that finds nobody is counted at once (`settled_unheard`).
-/

namespace NodeBus.Session

/-! ## Taking -/

/-- Where a delivery is taken, its listeners of now are about to be told its value of now. -/
theorem telling_of_taken {m : Machine} {result : List Happening × Machine} {l : Level}
    {d : Delivery} (h : m.step = some result) (htaken : .taken l d ∈ result.1) :
    ∃ below, result.2.stack =
      .telling (m.node.newsOf d) (m.node.audience d) :: .settling l :: below := by
  have hdoes := does_step h
  generalize m.operation? = asked at hdoes
  cases hdoes with
  | operation silent _ => cases silent _ htaken
  | delivery m' l' d' bus node =>
    cases List.mem_singleton.mp htaken
    refine ⟨m'.stack, ?_⟩
    rw [← node]
    cases d <;> rfl
  | other untaken _ => exact absurd htaken (untaken l d)

theorem ongoing_of_taken {p : Parties} {turn : Turn} {l : Level} {d : Delivery}
    (h : .taken l d ∈ (p.play turn).1) :
    ∃ party below, turn = .step party ∧ (p.play turn).2.ongoing[party]? =
      some (.telling (p.node.newsOf d) (p.node.audience d) :: .settling l :: below) := by
  cases turn with
  | enter who script => cases h
  | step party =>
    cases hstack : p.ongoing[party]? with
    | none => simp [Parties.play, hstack] at h
    | some stack =>
      cases hstep : (p.machine stack).step with
      | none => simp [Parties.play, hstack, hstep] at h
      | some result =>
        rw [play_of_step hstack hstep] at h
        obtain ⟨below, hbelow⟩ := telling_of_taken hstep h
        exact ⟨party, below, rfl, by rw [ongoing_of_step hstack hstep, hbelow]; rfl⟩
  | allot party pending looks =>
    simp only [Parties.play] at h
    split at h <;> cases h

/-! ## Telling and counting -/

/-- What happens in a turn of a party with so many activities going on, if it is one. -/
def Parties.turnAt (p : Parties) (party depth : Nat) (turn : Turn) : List (List Happening) :=
  if turn.isOf party ∧ p.ongoing[party]?.map List.length = some depth then [(p.play turn).1]
  else []

/-- What happens in each turn that a party takes with so many activities going on. The turns of
the calls that it makes then have more going on. -/
def Parties.turnsAt (p : Parties) (party depth : Nat) : List Turn → List (List Happening)
  | [] => []
  | turn :: turns => p.turnAt party depth turn ++ (p.play turn).2.turnsAt party depth turns

/-- Turns in which an audience is told news, one listener in each. -/
def tellings (news : News) (audience : List Subscriber) : List (List Happening) :=
  audience.map fun s => [.heard s news]

/-- A party is about to count a delivery, and goes on with `below` afterwards. -/
structure Counts (p : Parties) (party : Nat) (l : Level) (below : List Activity) : Prop where
  settled : (p.play (.step party)).1 = [.settled l (p.node.bus.queued l)]
  counted : ((p.play (.step party)).2.node.bus.counters l).dispatched =
    (p.node.bus.counters l).dispatched + 1
  ongoing : (p.play (.step party)).2.ongoing[party]? = some below

section Delivery

variable (p : Parties) (party : Nat) (l : Level) (below : List Activity)

/-- Along a schedule a party has had turns of a delivery, and has then counted it. -/
def Settled (had : List (List Happening)) (later : List Turn) : Prop :=
  ∃ before after, later = before ++ .step party :: after ∧
    p.turnsAt party (below.length + 2) before = had ∧ Counts (p.run before).2 party l below

/-- Along a schedule a party has had turns of a delivery, and counts it next if it has not. -/
inductive Told (had : List (List Happening)) (later : List Turn) : Prop where
  | waiting (turns : p.turnsAt party (below.length + 2) later = had)
      (ongoing : (p.run later).2.ongoing[party]? = some (.settling l :: below))
  | settled (settled : Settled p party l below had later)

/-- How far a delivery has come along a schedule. Each of its turns tells the next listener,
with whatever the calls do in between, until the last one finds nobody left. -/
inductive Stage (news : News) (audience : List Subscriber) (later : List Turn) : Prop where
  | telling (heard left : List Subscriber) (above : List Activity)
      (split : audience = heard ++ left)
      (turns : p.turnsAt party (below.length + 2) later = tellings news heard)
      (ongoing : (p.run later).2.ongoing[party]? =
        some (above ++ .telling news left :: .settling l :: below))
  | told (told : Told p party l below (tellings news audience ++ [[]]) later)

end Delivery

section Delivery

variable {p : Parties} {party : Nat} {l : Level} {below : List Activity} {news : News}
  {audience : List Subscriber} {turn : Turn} {later : List Turn}

theorem counts_of_settling (h : p.ongoing[party]? = some (.settling l :: below)) :
    Counts p party l below := by
  have hstep : (p.machine (.settling l :: below)).step = some
      ([.settled l ((p.node.bus.settle l).queued l)],
        ⟨{ p.node with bus := p.node.bus.settle l }, p.reactions, below⟩) := rfl
  refine ⟨?_, ?_, ongoing_of_step h hstep⟩
  · rw [play_of_step h hstep, Bus.queued, Bus.queue_settle]
    rfl
  · rw [play_of_step h hstep]
    simp [Bus.settle, Bus.Counters.countDelivery]

theorem turnAt_of_idle (p : Parties) (depth : Nat) (h : turn.isOf party = false) :
    p.turnAt party depth turn = [] := by
  simp [Parties.turnAt, h]

theorem turnAt_of_telling
    (h : p.ongoing[party]? = some (.telling news audience :: .settling l :: below)) :
    p.turnAt party (below.length + 2) (.step party) = [(p.play (.step party)).1] := by
  simp [Parties.turnAt, Turn.isOf, h]

theorem turnAt_of_ne {depth : Nat} {stack : List Activity}
    (hstack : p.ongoing[party]? = some stack) (h : stack.length ≠ depth) :
    p.turnAt party depth turn = [] := by
  simp [Parties.turnAt, hstack, h]

theorem Settled.cons {had : List (List Happening)}
    (h : Settled (p.play turn).2 party l below had later) :
    Settled p party l below (p.turnAt party (below.length + 2) turn ++ had) (turn :: later) := by
  obtain ⟨before, after, hsplit, hturns, hcounts⟩ := h
  refine ⟨turn :: before, after, ?_, ?_, hcounts⟩
  · rw [hsplit, List.cons_append]
  · rw [Parties.turnsAt, hturns]

theorem Told.cons {had : List (List Happening)}
    (h : Told (p.play turn).2 party l below had later) :
    Told p party l below (p.turnAt party (below.length + 2) turn ++ had) (turn :: later) := by
  cases h with
  | waiting turns ongoing => exact .waiting (by rw [Parties.turnsAt, turns]) ongoing
  | settled settled => exact .settled settled.cons

theorem Stage.cons (heard : List Subscriber) {left : List Subscriber}
    (hnow : p.turnAt party (below.length + 2) turn = tellings news heard)
    (h : Stage (p.play turn).2 party l below news left later) :
    Stage p party l below news (heard ++ left) (turn :: later) := by
  cases h with
  | telling heard' left' above split turns ongoing =>
    refine .telling (heard ++ heard') left' above ?_ ?_ ongoing
    · rw [split, List.append_assoc]
    · rw [Parties.turnsAt, hnow, turns, tellings, tellings, tellings, List.map_append]
  | told told =>
    have htold := told.cons
    rw [hnow, ← List.append_assoc] at htold
    refine .told ?_
    rw [tellings, List.map_append]
    exact htold

/-- Once all are told, the next step of the party counts the delivery. -/
theorem told_of_settling (h : p.ongoing[party]? = some (.settling l :: below)) :
    Told p party l below [] later ∧
      (1 ≤ later.countP (Turn.isOf party) → Settled p party l below [] later) := by
  induction later generalizing p with
  | nil => exact ⟨.waiting rfl h, nofun⟩
  | cons turn later ih =>
    cases hturn : turn.isOf party with
    | true =>
      obtain rfl := Turn.eq_step hturn
      have hsettled : Settled p party l below [] (.step party :: later) :=
        ⟨[], later, rfl, rfl, counts_of_settling h⟩
      exact ⟨.settled hsettled, fun _ => hsettled⟩
    | false =>
      obtain ⟨above, hongoing, hnil⟩ := ongoing_of_idle [] h (sealed_cons rfl below) hturn
      rw [hnil rfl, List.nil_append] at hongoing
      obtain ⟨htold, hsettled⟩ := ih hongoing
      have hnow := turnAt_of_idle p (below.length + 2) hturn
      refine ⟨by simpa [hnow] using htold.cons, fun hcount => ?_⟩
      have hcount' : 1 ≤ later.countP (Turn.isOf party) := by
        simpa [List.countP_cons, hturn] using hcount
      simpa [hnow] using (hsettled hcount').cons

/-- The turn that finds nobody left to tell. -/
theorem turnAt_of_told
    (h : p.ongoing[party]? = some (.telling news [] :: .settling l :: below)) :
    p.turnAt party (below.length + 2) (.step party) = [[]] ∧
      (p.play (.step party)).2.ongoing[party]? = some (.settling l :: below) := by
  have hstep : (p.machine (.telling news [] :: .settling l :: below)).step =
      some ([], p.machine (.settling l :: below)) := rfl
  refine ⟨?_, ongoing_of_step h hstep⟩
  rw [turnAt_of_telling h, play_of_step h hstep]

/-- Whatever goes on above, what is told is what is left to tell, in order. -/
theorem stage (above : List Activity)
    (h : p.ongoing[party]? = some (above ++ .telling news audience :: .settling l :: below)) :
    Stage p party l below news audience later := by
  induction later generalizing p above audience with
  | nil => exact .telling [] audience above rfl rfl h
  | cons turn later ih =>
    have hsealed : Sealed (.telling news audience :: .settling l :: below) := sealed_cons rfl _
    cases hturn : turn.isOf party with
    | false =>
      obtain ⟨above', hongoing, _⟩ := ongoing_of_idle above h hsealed hturn
      exact (ih _ hongoing).cons [] (turnAt_of_idle p _ hturn)
    | true =>
      obtain rfl := Turn.eq_step hturn
      cases above with
      | cons a above =>
        -- A call is going on, so that this is no turn of the delivery.
        obtain ⟨above', hongoing⟩ := ongoing_of_above h hsealed nofun
        refine (ih _ hongoing).cons [] (turnAt_of_ne h ?_)
        simp only [List.length_append, List.length_cons]
        omega
      | nil =>
        cases audience with
        | nil =>
          -- Nobody is left, and what remains is to count the delivery.
          obtain ⟨hnow, hongoing⟩ := turnAt_of_told h
          have htold : Told _ party l below [] later := (told_of_settling hongoing).1
          have hlast := htold.cons
          rw [hnow] at hlast
          exact .told hlast
        | cons s audience =>
          obtain ⟨hheard, above, hongoing⟩ := ongoing_of_telling h
          refine (ih _ hongoing).cons [s] ?_
          rw [turnAt_of_telling h, hheard]
          rfl

/-- A delivery that nobody hears is counted in the second step of the party. -/
theorem settled_unheard (h : p.ongoing[party]? = some (.telling news [] :: .settling l :: below))
    (hturns : 2 ≤ later.countP (Turn.isOf party)) : Settled p party l below [[]] later := by
  induction later generalizing p with
  | nil => cases hturns
  | cons turn later ih =>
    rw [List.countP_cons] at hturns
    cases hturn : turn.isOf party with
    | true =>
      obtain rfl := Turn.eq_step hturn
      obtain ⟨hnow, hongoing⟩ := turnAt_of_told h
      have hturns' : 1 ≤ later.countP (Turn.isOf party) := by
        rw [hturn] at hturns
        exact Nat.le_of_succ_le_succ hturns
      have hsettled := ((told_of_settling hongoing).2 hturns').cons
      rwa [hnow] at hsettled
    | false =>
      obtain ⟨above, hongoing, hnil⟩ := ongoing_of_idle [] h (sealed_cons rfl _) hturn
      rw [hnil rfl, List.nil_append] at hongoing
      have hsettled := (ih hongoing (by simpa [hturn] using hturns)).cons
      rwa [turnAt_of_idle p _ hturn] at hsettled

end Delivery

/-- Whatever the parties and their callers do after the node was made, and in whatever order:
what is accepted is taken in order or still queued, and whatever is taken is not dropped. Its
value and its listeners are those of its own topic and slot at that moment; no listener is there
twice. From then on, along every schedule, these listeners are told this value, once each and in
order, before the delivery is counted; if there are none, it is counted all the same. -/
theorem delivered_as_taken (wait : UInt32) (node : Node) (names : List String)
    (reactions : Bank Caller Reaction) (turns : List Turn) :
    let start := Parties.begin { node with
      bus := .fresh wait
      topics := Node.quietTopics names
      noticeTopic := .quiet Node.noticeTopicName } reactions
    let past := (start.run turns).1
    let p := (start.run turns).2
    (∀ l, takenAt l past ++ p.node.bus.queue l = acceptedAt l past) ∧
    ∀ turn l d, .taken l d ∈ (p.play turn).1 →
      let news := p.node.newsOf d
      let audience := p.node.audience d
      d.docket.open? p.node = some (news, audience) ∧
      (audience.map Prod.fst).Nodup ∧
      ∃ party below, turn = .step party ∧
        (p.play turn).2.ongoing[party]? =
          some (.telling news audience :: .settling l :: below) ∧
        ∀ later, Stage (p.play turn).2 party l below news audience later ∧
          (audience = [] → 2 ≤ later.countP (Turn.isOf party) →
            Settled (p.play turn).2 party l below [[]] later) := by
  intro start past p
  refine ⟨fun l => ?_, fun turn l d htaken => ?_⟩
  · have hconserved := conserved_run start turns l
    rwa [show start.node.bus.queue l = [] from Bus.queue_fresh wait l,
      List.nil_append] at hconserved
  · intro news audience
    have hempty : (Subject.ofDelivery d).roster start.node = .empty := by
      cases d with
      | tick topic slot => exact Subject.roster_quietTopics names topic
      | notice => rfl
    have hrefines := refines_run (hempty ▸ Roster.refines_empty) turns
    obtain ⟨party, below, hturn, hongoing⟩ := ongoing_of_taken htaken
    refine ⟨open?_docket p.node d, ?_, party, below, hturn, hongoing, fun later => ?_⟩
    · simp only [audience, Subject.audience_eq]
      exact hrefines.nodup
    · refine ⟨stage [] hongoing, fun hnobody hturns => ?_⟩
      rw [show p.node.audience d = [] from hnobody] at hongoing
      exact settled_unheard hongoing hturns

theorem taken_of_mem_takenAt {l : Level} {d : Delivery} {past : List Happening}
    (h : d ∈ takenAt l past) : .taken l d ∈ past := by
  obtain ⟨a, ha, htaken⟩ := List.mem_filterMap.mp h
  cases a with
  | taken l' d' =>
    simp only [Happening.taken?, Option.ite_none_right_eq_some, Option.some.injEq] at htaken
    obtain ⟨rfl, rfl⟩ := htaken
    exact ha
  | _ => cases htaken

/-- The first listener removes the second, adds a third and changes the slot; the second is
told what the first was told, and the third is not told. A delivery whose only listener has left
since it was published tells nobody and is counted. -/
theorem delivered_as_taken_reentrant :
    let program : Script := [.op .start, .op (.subscribe 0 0 .blank),
      .op (.subscribe 0 1 (.mark 1)), .publish 0 3 .normal .task, .op (.advanceTick 3 7 100), .poll]
    let leaving : Script := [.op .start, .op (.subscribe 0 0 .blank), .publish 0 3 .normal .task,
      .op (.unsubscribe 0 0), .poll]
    let meddling : Reaction := .repeating 1
      [.op (.unsubscribe 0 1), .op (.subscribe 0 2 .blank), .op (.putTick 3 .initial)]
    let reactions := (Bank.filled .idle).set (.tick 0) meddling
    let turns := Turn.enter .main program :: List.replicate 14 (.step 0)
    let turns' := Turn.enter .main leaving :: List.replicate 12 (.step 0)
    let start := Parties.begin { Node.fresh 10 [] with
      bus := .fresh 10
      topics := Node.quietTopics []
      noticeTopic := .quiet Node.noticeTopicName } reactions
    let q := ((start.run turns).2.play (.step 0)).2
    let q' := ((start.run turns').2.play (.step 0)).2
    let later := List.replicate 12 (Turn.step 0)
    (q.run later).2.node.newsOf (.tick 0 3) = .tick .initial ∧
      (q.run later).2.node.audience (.tick 0 3) = [(.outside 0, .blank), (.outside 2, .blank)] ∧
      (∃ below, Stage q 0 .normal below (.tick ⟨⟨7, .timer⟩, 1, 100⟩)
        [(.outside 0, .blank), (.outside 1, .mark 1)] later) ∧
      ∃ below, Settled q' 0 .normal below [[]] later := by
  intro program leaving meddling reactions turns turns' start q q' later
  have hfacts : takenAt .normal ((start.run turns).2.play (.step 0)).1 = [.tick 0 3] ∧
      (start.run turns).2.node.newsOf (.tick 0 3) = .tick ⟨⟨7, .timer⟩, 1, 100⟩ ∧
      (start.run turns).2.node.audience (.tick 0 3) =
        [(.outside 0, .blank), (.outside 1, .mark 1)] ∧
      (q.run later).2.node.newsOf (.tick 0 3) = .tick .initial ∧
      (q.run later).2.node.audience (.tick 0 3) =
        [(.outside 0, .blank), (.outside 2, .blank)] := by decide
  have hfacts' : takenAt .normal ((start.run turns').2.play (.step 0)).1 = [.tick 0 3] ∧
      (start.run turns').2.node.audience (.tick 0 3) = [] ∧
      2 ≤ later.countP (Turn.isOf 0) := by decide
  obtain ⟨htaken, hnews, haudience, hnews', haudience'⟩ := hfacts
  obtain ⟨htaken', hnobody, hturns⟩ := hfacts'
  clear_value reactions turns turns' later
  obtain ⟨_, hdelivered⟩ := delivered_as_taken 10 (.fresh 10 []) [] reactions turns
  obtain ⟨_, _, party, below, hturn, _, hstage⟩ := hdelivered (.step 0) .normal (.tick 0 3)
    (taken_of_mem_takenAt (by rw [htaken]; exact List.mem_singleton_self _))
  obtain ⟨_, hdelivered'⟩ := delivered_as_taken 10 (.fresh 10 []) [] reactions turns'
  obtain ⟨_, _, party', below', hturn', _, hstage'⟩ := hdelivered' (.step 0) .normal (.tick 0 3)
    (taken_of_mem_takenAt (by rw [htaken']; exact List.mem_singleton_self _))
  cases hturn
  cases hturn'
  rw [hnews, haudience] at hstage
  exact ⟨hnews', haudience', ⟨below, (hstage later).1⟩,
    below', (hstage' later).2 hnobody hturns⟩

end NodeBus.Session
