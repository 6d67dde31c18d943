import NodeBus.Proofs.Session.Courses

/-!
# Rounds and drains

A drain makes one delivery after the other and looks at the high level before each. A round of the
worker makes all high deliveries, and then one normal delivery or a pause. What a drain does is a
sequence of deliveries (`Drained`), each of which is what the worker would make next, so that
rounds whose pauses are over at once do the same in the end, however the listeners publish or
consume meanwhile (`rounds_of_drained`).
-/

namespace NodeBus.Session

open Machine (Reaches)

/-! ## Deliveries -/

/-- The next delivery is made, from a level: it is taken, told and counted. -/
inductive Served (n : Node) (r : Reactions) : Level → List Happening → Node → Reactions → Prop where
  | intro {l : Level} {d : Delivery} {bus : Bus Delivery Alarm} {told : List Happening} {m : Node}
      {s : Reactions} (next : n.bus.next? = some (l, d, bus))
      (telling : Reaches ⟨{ n with bus }, r,
        [.telling (({ n with bus } : Node).newsOf d) (({ n with bus } : Node).audience d)]⟩ told
        ⟨m, s, []⟩) :
      Served n r l (.taken l d :: (told ++ [.settled l ((m.bus.settle l).queued l)]))
        { m with bus := m.bus.settle l } s

/-- Deliveries are made until there is no next one. -/
inductive Drained : Node → Reactions → Nat → List Happening → Node → Reactions → Prop where
  | done {n : Node} {r : Reactions} (none : n.bus.next? = none) : Drained n r 0 [] n r
  | more {n m n' : Node} {r s r' : Reactions} {l : Level} {k : Nat} {past later : List Happening}
      (first : Served n r l past m s) (rest : Drained m s k later n' r') :
      Drained n r (k + 1) (past ++ later) n' r'

theorem queue_of_next?_eq_none {b : Bus Delivery Alarm} (h : b.next? = none) (l : Level) :
    b.queue l = [] := by
  rw [Bus.next?] at h
  split at h
  · cases h
  · rename_i hhigh
    have hnormal := Option.map_eq_none_iff.mp h
    cases l with
    | normal => exact Bus.takeFrom?_eq_none_iff.mp hnormal
    | high => exact Bus.takeFrom?_eq_none_iff.mp hhigh

theorem next?_eq_none_iff {b : Bus Delivery Alarm} : b.next? = none ↔ ∀ l, b.queue l = [] := by
  constructor
  · exact queue_of_next?_eq_none
  · intro h
    rw [Bus.next?, Bus.takeFrom?_eq_none_iff.mpr (h .high),
      Bus.takeFrom?_eq_none_iff.mpr (h .normal)]
    rfl

/-- The next delivery is the oldest of its level, a normal one only if no high one is queued. -/
theorem next?_eq_some_iff {b b' : Bus Delivery Alarm} {l : Level} {d : Delivery} :
    b.next? = some (l, d, b') ↔
      b.takeFrom? l = some (d, b') ∧ (l = .normal → b.queue .high = []) := by
  rw [Bus.next?]
  constructor
  · intro h
    split at h
    · rename_i htaken
      cases h
      exact ⟨htaken, nofun⟩
    · rename_i hnone
      obtain ⟨⟨d', b''⟩, htaken, heq⟩ := Option.map_eq_some_iff.mp h
      cases heq
      exact ⟨htaken, fun _ => Bus.takeFrom?_eq_none_iff.mp hnone⟩
  · rintro ⟨htaken, hhigh⟩
    cases l with
    | high => rw [htaken]
    | normal =>
      rw [Bus.takeFrom?_eq_none_iff.mpr (hhigh rfl), htaken]
      rfl

section Served

variable {n m n' : Node} {r s r' : Reactions} {l : Level} {past : List Happening}

/-- Whoever comes to take the next delivery goes on below it when it is made. -/
theorem Served.reaches (h : Served n r l past m s) {stack below : List Activity}
    (htake : ∀ d bus, n.bus.next? = some (l, d, bus) → Reaches ⟨n, r, stack⟩ [.taken l d]
      ((⟨n, r, below⟩ : Machine).deliver l d bus).2) :
    Reaches ⟨n, r, stack⟩ past ⟨m, s, below⟩ := by
  obtain ⟨next, telling⟩ := h
  rename_i d bus told m
  have htaken := htake d bus next
  rw [Machine.deliver_eq] at htaken
  have htold := telling.onto (sealed_cons (a := .settling l) rfl below)
  have hsettled : Reaches ⟨m, s, .settling l :: below⟩ [.settled l ((m.bus.settle l).queued l)]
      ⟨{ m with bus := m.bus.settle l }, s, below⟩ := .single rfl
  exact htaken.trans (htold.trans hsettled)

theorem served_of_reaches {d : Delivery} {bus : Bus Delivery Alarm}
    (next : n.bus.next? = some (l, d, bus))
    (h : Reaches ⟨{ n with bus }, r, [.telling (({ n with bus } : Node).newsOf d)
      (({ n with bus } : Node).audience d), .settling l]⟩ past ⟨m, s, []⟩) :
    Served n r l (.taken l d :: past) m s := by
  obtain ⟨told, later, n₁, r₁, rfl, htold, hlater⟩ :=
    h.split (sealed_cons (a := .settling l) rfl []) [_] rfl Nat.zero_lt_one
  cases hlater with
  | step first rest =>
    cases first
    obtain ⟨rfl, hm⟩ := rest.of_nil
    cases hm
    exact .intro next htold

end Served

/-! ## Drains -/

/-- What a caller has going on that drains: so many deliveries are made, a level is looked at next,
and something goes on above. -/
def draining (who : Caller) (made : Nat) (above : List Activity) (l : Level) : List Activity :=
  above ++ [.seeking (.drain made) l, .acting .drain, .code who []]

/-- What one step comes to of a caller that drains: what is above goes on, the high level is found
empty, nothing is found, or the next delivery is taken. -/
inductive DrainStep (who : Caller) (made : Nat) (n : Node) (r : Reactions) :
    List Activity → Level → List Happening → Machine → Prop where
  | above {a : Activity} {above : List Activity} {now : List Happening} {m : Machine}
      (step : (⟨n, r, a :: above⟩ : Machine).step = some (now, m)) :
      DrainStep who made n r (a :: above) .high now
        ⟨m.node, m.reactions, draining who made m.stack .high⟩
  | passed (empty : n.bus.queue .high = []) :
      DrainStep who made n r [] .high [] ⟨n, r, draining who made [] .normal⟩
  | finished (none : n.bus.next? = none) :
      DrainStep who made n r [] .normal []
        ⟨n, r, [.answer fun _ => .number made, .acting .drain, .code who []]⟩
  | taken {l : Level} {d : Delivery} {bus : Bus Delivery Alarm}
      (next : n.bus.next? = some (l, d, bus)) :
      DrainStep who made n r [] l [.taken l d] ⟨{ n with bus }, r, draining who (made + 1)
        [.telling (({ n with bus } : Node).newsOf d) (({ n with bus } : Node).audience d),
          .settling l] .high⟩

/-- A drain looks at the normal level when it has found the high one empty, and at once. -/
theorem drainStep_of_step {who : Caller} {made : Nat} {n : Node} {r : Reactions}
    {above : List Activity} {l : Level} {now : List Happening} {m : Machine}
    (hlooked : l = .normal → above = [] ∧ n.bus.queue .high = [])
    (h : (⟨n, r, draining who made above l⟩ : Machine).step = some (now, m)) :
    DrainStep who made n r above l now m := by
  cases above with
  | cons a above =>
    obtain rfl : l = .high := by
      cases l with
      | high => rfl
      | normal => cases (hlooked rfl).1
    obtain ⟨m', hstep, rfl⟩ :=
      Reaches.first_above (sealed_cons rfl _) (List.cons_ne_nil a above) h
    exact .above hstep
  | nil =>
    simp only [draining, List.nil_append, Machine.step, Option.some.injEq, Machine.seek] at h
    cases htaken : n.bus.takeFrom? l with
    | some taken =>
      obtain ⟨d, bus⟩ := taken
      simp only [htaken, Machine.deliver_eq] at h
      cases h
      exact .taken (next?_eq_some_iff.mpr ⟨htaken, fun hl => (hlooked hl).2⟩)
    | none =>
      have hempty := Bus.takeFrom?_eq_none_iff.mp htaken
      simp only [htaken] at h
      cases h
      cases l with
      | high => exact .passed hempty
      | normal =>
        refine .finished (next?_eq_none_iff.mpr fun l => ?_)
        cases l with
        | high => exact (hlooked rfl).2
        | normal => exact hempty

/-- What goes on above a drain ends, and then the drain makes deliveries until none is next. The
drain may be between its two looks, with nothing above it. -/
theorem drained_of_reaches {who : Caller} {m m' : Machine} {past : List Happening}
    (h : m.Reaches past m') (made : Nat) (above : List Activity) (l : Level) {n' : Node}
    {r' : Reactions} (hstack : m.stack = draining who made above l)
    (hlooked : l = .normal → above = [] ∧ m.node.bus.queue .high = [])
    (hend : m' = ⟨n', r', [.code who []]⟩) :
    ∃ told n r more later, Reaches ⟨m.node, m.reactions, above⟩ told ⟨n, r, []⟩ ∧
      Drained n r more later n' r' ∧
      past = told ++ later ++ [.did who .drain (.number (made + more))] := by
  induction h generalizing made above l with
  | refl m =>
    rw [hend] at hstack
    have hlength := congrArg List.length hstack
    simp [draining] at hlength
  | @step m m₁ m' now past first rest ih =>
    obtain ⟨n, r, stack⟩ := m
    dsimp only at hstack hlooked
    subst hstack
    cases drainStep_of_step hlooked first with
    | above step =>
      obtain ⟨told, n₁, r₁, more, later, htold, hdrained, rfl⟩ := ih _ _ _ rfl (by simp) hend
      exact ⟨now ++ told, n₁, r₁, more, later, .step step htold, hdrained, by simp⟩
    | passed empty => exact ih made [] .normal rfl (fun _ => ⟨rfl, empty⟩) hend
    | finished none =>
      -- The answer is all that is left.
      subst hend
      have hanswer : Reaches ⟨n, r, [.answer fun _ => .number made, .acting .drain, .code who []]⟩
          [.did who .drain (.number made)] ⟨n, r, [.code who []]⟩ := .single rfl
      obtain ⟨rfl, rfl, rfl⟩ := reaches_unique hanswer rest
      exact ⟨[], _, _, 0, [], .refl _, .done none, rfl⟩
    | taken next =>
      obtain ⟨told, n₁, r₁, more, later, htold, hdrained, rfl⟩ := ih _ _ _ rfl (by simp) hend
      refine ⟨[], n, r, more + 1, _, .refl _, .more (served_of_reaches next htold) hdrained, ?_⟩
      simp [Nat.add_assoc, Nat.add_comm 1]

theorem drained_of_performs {who : Caller} {n n' : Node} {r r' : Reactions}
    {past : List Happening} {reply : Reply} (h : Performs who .drain n r past reply n' r') :
    ∃ made, Drained n r made past n' r' ∧ reply = .number made := by
  obtain ⟨later, hpast, hlater⟩ := h.after_first (by simp) rfl
  obtain ⟨told, n₁, r₁, made, deliveries, htold, hdrained, rfl⟩ :=
    drained_of_reaches hlater 0 [] .high rfl nofun rfl
  obtain ⟨rfl, hm⟩ := htold.of_nil
  cases hm
  simp only [List.nil_append] at hpast
  obtain ⟨rfl, hreply⟩ := List.append_inj' hpast rfl
  refine ⟨made, hdrained, ?_⟩
  simpa using hreply

/-- A drain finds the high level empty and looks at the normal one. -/
theorem reaches_of_passed {n : Node} {r : Reactions} {base : List Activity}
    (h : n.bus.queue .high = []) (k : Nat) :
    Reaches ⟨n, r, .seeking (.drain k) .high :: base⟩ []
      ⟨n, r, .seeking (.drain k) .normal :: base⟩ := by
  refine .single ?_
  simp only [Machine.step, Machine.seek, Bus.takeFrom?_eq_none_iff.mpr h]
  rfl

theorem reaches_of_next {n : Node} {r : Reactions} {l : Level} {d : Delivery}
    {bus : Bus Delivery Alarm} {base : List Activity} (h : n.bus.next? = some (l, d, bus))
    (k : Nat) :
    Reaches ⟨n, r, .seeking (.drain k) .high :: base⟩ [.taken l d]
      ((⟨n, r, .seeking (.drain (k + 1)) .high :: base⟩ : Machine).deliver l d bus).2 := by
  obtain ⟨htaken, hhigh⟩ := next?_eq_some_iff.mp h
  have hlook : Reaches ⟨n, r, .seeking (.drain k) l :: base⟩ [.taken l d]
      ((⟨n, r, .seeking (.drain (k + 1)) .high :: base⟩ : Machine).deliver l d bus).2 := by
    refine .single ?_
    simp only [Machine.step, Machine.seek, htaken]
    rfl
  cases l with
  | high => exact hlook
  | normal => exact (reaches_of_passed (hhigh rfl) k).trans hlook

/-- A drain with so many deliveries made makes those that are left. -/
theorem reaches_of_drained {n n' : Node} {r r' : Reactions} {past : List Happening} {made : Nat}
    (h : Drained n r made past n' r') (who : Caller) (k : Nat) :
    Reaches ⟨n, r, [.seeking (.drain k) .high, .acting .drain, .code who []]⟩
      (past ++ [.did who .drain (.number (k + made))]) ⟨n', r', [.code who []]⟩ := by
  induction h generalizing k with
  | @done n r none =>
    have hqueues := next?_eq_none_iff.mp none
    have hlast : (⟨n, r, [.seeking (.drain k) .normal, .acting .drain, .code who []]⟩ :
        Machine).step =
        some ([], ⟨n, r, [.answer fun _ => .number k, .acting .drain, .code who []]⟩) := by
      simp only [Machine.step, Machine.seek, Bus.takeFrom?_eq_none_iff.mpr (hqueues .normal)]
      rfl
    exact (reaches_of_passed (hqueues .high) k).trans (.step hlast (.single rfl))
  | @more n m n' r s r' l made past later first rest ih =>
    have hmade : Reaches ⟨n, r, [.seeking (.drain k) .high, .acting .drain, .code who []]⟩ past
        ⟨m, s, [.seeking (.drain (k + 1)) .high, .acting .drain, .code who []]⟩ :=
      first.reaches fun _ _ hnext => reaches_of_next hnext k
    have hreach := hmade.trans (ih (k + 1))
    rwa [← List.append_assoc, Nat.add_assoc, Nat.add_comm 1] at hreach

theorem performs_of_drained {n n' : Node} {r r' : Reactions} {past : List Happening} {made : Nat}
    (h : Drained n r made past n' r') (who : Caller) :
    Performs who .drain n r past (.number made) n' r' := by
  have hbegin : Reaches ⟨n, r, [.act .drain, .code who []]⟩ []
      ⟨n, r, [.seeking (.drain 0) .high, .acting .drain, .code who []]⟩ := .single rfl
  have hreach := hbegin.trans (reaches_of_drained h who 0)
  rwa [Nat.zero_add] at hreach

/-! ## Rounds -/

/-- One round of the worker, whose pause is over at once. -/
def oneRound : Action := .step (some 0) []

/-- A worker that has made so many deliveries in its round and looks at the high level next. -/
def sweeper (made : Nat) : Worker := { Worker.begin false [⟨some 0, []⟩] with delivered := made }

section Worker

variable {n m : Node} {r s : Reactions} {past : List Happening} {made : Nat}
  {below : List Activity}

theorem reaches_of_high (h : Served n r .high past m s) :
    Reaches ⟨n, r, .working (sweeper made) :: below⟩ past
      ⟨m, s, .working (sweeper (made + 1)) :: below⟩ := by
  refine h.reaches fun d bus hnext => .single ?_
  have htaken := (next?_eq_some_iff.mp hnext).1
  simp only [Machine.step, Machine.work, sweeper, Worker.begin, htaken]
  rfl

/-- The worker finds the high level empty and looks at the normal one. -/
theorem reaches_of_swept (h : n.bus.queue .high = []) :
    Reaches ⟨n, r, .working (sweeper made) :: below⟩ []
      ⟨n, r, .working { sweeper made with phase := .glancing } :: below⟩ := by
  refine .single ?_
  simp only [Machine.step, Machine.work, sweeper, Worker.begin, Bus.takeFrom?_eq_none_iff.mpr h]
  rfl

theorem reaches_of_normal (h : Served n r .normal past m s) :
    Reaches ⟨n, r, .working (sweeper made) :: below⟩ past
      ⟨m, s, .working { sweeper (made + 1) with phase := .rested } :: below⟩ := by
  refine h.reaches fun d bus hnext => ?_
  obtain ⟨htaken, hhigh⟩ := next?_eq_some_iff.mp hnext
  refine (reaches_of_swept (hhigh rfl)).trans (.single ?_)
  simp only [Machine.step, Machine.work, sweeper, Worker.begin, htaken]
  rfl

/-- With nothing to deliver, the worker pauses and does not look again. -/
theorem reaches_of_none (h : ∀ l, n.bus.queue l = []) :
    Reaches ⟨n, r, .working (sweeper made) :: below⟩ [.paused n.bus.wait]
      ⟨n, r, .working { (sweeper made).note (.asked n.bus.wait) with
        pauses := [], phase := .rested } :: below⟩ := by
  have hnormal := Bus.takeFrom?_eq_none_iff.mpr (h .normal)
  have hpause : (⟨n, r, .working { sweeper made with phase := .glancing } :: below⟩ :
      Machine).step =
      some ([.paused n.bus.wait], ⟨n, r, .working { (sweeper made).note (.asked n.bus.wait) with
        pauses := [], phase := .pausing [] (some 0) } :: below⟩) := by
    simp only [Machine.step, Machine.work, sweeper, Worker.begin, hnormal]
    rfl
  have hwait : (⟨n, r, .working { (sweeper made).note (.asked n.bus.wait) with
        pauses := [], phase := .pausing [] (some 0) } :: below⟩ : Machine).step =
      some ([], ⟨n, r, .working { (sweeper made).note (.asked n.bus.wait) with
        pauses := [], phase := .waiting (some 0) } :: below⟩) := rfl
  have hover : (⟨n, r, .working { (sweeper made).note (.asked n.bus.wait) with
        pauses := [], phase := .waiting (some 0) } :: below⟩ : Machine).step =
      some ([], ⟨n, r, .working { (sweeper made).note (.asked n.bus.wait) with
        pauses := [], phase := .rested } :: below⟩) := rfl
  exact (reaches_of_swept (h .high)).trans (.step hpause (.step hwait (.single hover)))

theorem reaches_of_rested {w : Worker} {who : Caller} {action : Action}
    (hphase : w.phase = .rested) (hloops : w.loops = false) :
    Reaches ⟨n, r, [.working w, .acting action, .code who []]⟩ [.did who action (w.reply false)]
      ⟨n, r, [.code who []]⟩ := by
  have hrested : (⟨n, r, [.working w, .acting action, .code who []]⟩ : Machine).step = some ([],
      ⟨n, r, [.answer fun _ => w.reply false, .acting action, .code who []]⟩) := by
    simp only [Machine.step, Machine.work, hphase, hloops]
    rfl
  exact .step hrested (.single rfl)

end Worker

/-- A caller that has begun a round completes it. The round looks at the normal level when the
high one is empty, and asks for its pause if nothing is there. -/
inductive Round (who : Caller) (start : List Activity) (n : Node) (r : Reactions) :
    Nat → List Happening → Node → Reactions → Prop where
  | intro {mid n' : Node} {s r' : Reactions} {made count : Nat} {swept rest : List Happening}
      {asked : List UInt32}
      (sweep : Reaches ⟨n, r, start ++ [.code who []]⟩ swept
        ⟨mid, s, [.working (sweeper made), .acting oneRound, .code who []]⟩)
      (high : mid.bus.queue .high = [])
      (asks : asked = if mid.bus.queue .normal = [] then [n.bus.wait] else [])
      (completes : Completes who start n r (swept ++ rest ++ asked.map .paused ++
        [.did who oneRound (.worked (some count) (asked.map .asked))]) n' r') :
      Round who start n r count (swept ++ rest) n' r'

/-- Rounds are completed until one makes no delivery. What they make is added up. -/
inductive Rounds (who : Caller) : List Activity → Node → Reactions → Nat →
    List Happening → Node → Reactions → Prop where
  | last {start : List Activity} {n n' : Node} {r r' : Reactions} {past : List Happening}
      (round : Round who start n r 0 past n' r') : Rounds who start n r 0 past n' r'
  | more {start : List Activity} {n m n' : Node} {r s r' : Reactions} {count total : Nat}
      {past later : List Happening} (round : Round who start n r (count + 1) past m s)
      (rest : Rounds who [.act oneRound] m s total later n' r') :
      Rounds who start n r (count + 1 + total) (past ++ later) n' r'

section Rounds

variable {who : Caller} {start start' : List Activity} {n m n' : Node} {r s r' : Reactions}
  {past later : List Happening} {count made total : Nat}

theorem Round.after (h : Round who start' m s count later n' r')
    (hreach : Reaches ⟨n, r, start ++ [.code who []]⟩ past ⟨m, s, start' ++ [.code who []]⟩) :
    Round who start n r count (past ++ later) n' r' := by
  obtain ⟨sweep, high, asks, completes⟩ := h
  rw [← List.append_assoc]
  refine .intro (hreach.trans sweep) high (hreach.wait ▸ asks) ?_
  have hcompletes := hreach.trans completes
  simp only [List.append_assoc] at hcompletes ⊢
  exact hcompletes

theorem Rounds.after (h : Rounds who start' m s total later n' r')
    (hreach : Reaches ⟨n, r, start ++ [.code who []]⟩ past ⟨m, s, start' ++ [.code who []]⟩) :
    Rounds who start n r total (past ++ later) n' r' := by
  cases h with
  | last round => exact .last (round.after hreach)
  | more round rest =>
    rw [← List.append_assoc]
    exact .more (round.after hreach) rest

/-- A round that begins is a worker that has made no delivery yet. -/
theorem Rounds.begin
    (h : Rounds who [.working (sweeper 0), .acting oneRound] n r total past n' r') :
    Rounds who [.act oneRound] n r total past n' r' := by
  have hbegin : Reaches ⟨n, r, [.act oneRound] ++ [.code who []]⟩ []
      ⟨n, r, [.working (sweeper 0), .acting oneRound] ++ [.code who []]⟩ := .single rfl
  exact h.after hbegin

theorem round_of_none (h : n.bus.next? = none) :
    Round who [.working (sweeper made), .acting oneRound] n r made [] n r := by
  have hqueue := queue_of_next?_eq_none h
  have hcompletes : Completes who [.working (sweeper made), .acting oneRound] n r
      ([] ++ [] ++ [n.bus.wait].map .paused ++
        [.did who oneRound (.worked (some made) ([n.bus.wait].map .asked))]) n r :=
    (reaches_of_none hqueue).trans (reaches_of_rested rfl rfl)
  have hasks : [n.bus.wait] = if n.bus.queue .normal = [] then [n.bus.wait] else [] := by
    rw [if_pos (hqueue .normal)]
  exact .intro (.refl _) (hqueue .high) hasks hcompletes

theorem round_of_normal (h : Served n r .normal past m s) :
    Round who [.working (sweeper made), .acting oneRound] n r (made + 1) past m s := by
  have hcompletes : Completes who [.working (sweeper made), .acting oneRound] n r
      ([] ++ past ++ [].map .paused ++
        [.did who oneRound (.worked (some (made + 1)) ([].map .asked))]) m s := by
    rw [List.map_nil, List.append_nil]
    exact (reaches_of_normal h).trans (reaches_of_rested rfl rfl)
  obtain ⟨hnext, _⟩ := h
  obtain ⟨htaken, hhigh⟩ := next?_eq_some_iff.mp hnext
  have hasks : [] = if n.bus.queue .normal = [] then [n.bus.wait] else [] := by
    rw [if_neg]
    intro hempty
    rw [Bus.takeFrom?_eq_none_iff.mpr hempty] at htaken
    cases htaken
  exact .intro (.refl _) (hhigh rfl) hasks hcompletes

/-- What is drained is delivered in rounds. -/
theorem rounds_of_drained (h : Drained n r count past n' r') (who : Caller) (made : Nat) :
    Rounds who [.working (sweeper made), .acting oneRound] n r (made + count) past n' r' := by
  -- A high delivery goes on with the round that is under way, a normal one ends it.
  induction h generalizing made with
  | @done n r none =>
    cases made with
    | zero => exact .last (round_of_none none)
    | succ made =>
      -- This round has made deliveries, so that another follows.
      have hlast : Rounds who [.act oneRound] n r 0 [] n r :=
        (Rounds.last (round_of_none none)).begin
      exact .more (round_of_none none) hlast
  | @more n m n' r s r' l k past later first rest ih =>
    cases l with
    | high =>
      have hrounds : Rounds who [.working (sweeper made), .acting oneRound] n r (made + 1 + k)
          (past ++ later) n' r' := (ih (made + 1)).after (reaches_of_high first)
      rwa [Nat.add_assoc, Nat.add_comm 1] at hrounds
    | normal =>
      have hrest := (ih 0).begin
      rw [Nat.zero_add] at hrest
      have hrounds : Rounds who [.working (sweeper made), .acting oneRound] n r (made + 1 + k)
          (past ++ later) n' r' := .more (round_of_normal first) hrest
      rwa [Nat.add_assoc, Nat.add_comm 1] at hrounds

theorem Round.unique {count' : Nat} (h : Round who start n r count past n' r')
    (h' : Round who start n r count' later m s) :
    count' = count ∧ later = past ∧ m = n' ∧ s = r' := by
  obtain ⟨_, _, _, completes⟩ := h
  obtain ⟨_, _, _, completes'⟩ := h'
  obtain ⟨hpast, rfl, rfl⟩ := completes.unique completes'
  obtain ⟨hhappened, hdid⟩ := List.append_inj' hpast rfl
  simp only [List.cons.injEq, Happening.did.injEq, Reply.worked.injEq, Option.some.injEq,
    true_and, and_true] at hdid
  obtain ⟨rfl, hnotes⟩ := hdid
  obtain rfl := (List.map_inj_right fun _ _ => Note.asked.inj).mp hnotes
  exact ⟨rfl, List.append_cancel_right hhappened, rfl, rfl⟩

theorem Rounds.unique {total' : Nat} (h : Rounds who start n r total past n' r')
    (h' : Rounds who start n r total' later m s) :
    total' = total ∧ later = past ∧ m = n' ∧ s = r' := by
  induction h generalizing total' later m s with
  | last round =>
    cases h' with
    | last round' => exact round.unique round'
    | more round' _ => cases (round.unique round').1
  | more round _ ih =>
    cases h' with
    | last round' => cases (round.unique round').1
    | more round' rest' =>
      obtain ⟨hcount, rfl, rfl, rfl⟩ := round.unique round'
      obtain ⟨rfl, rfl, rfl, rfl⟩ := ih rest'
      exact ⟨by rw [hcount], rfl, rfl, rfl⟩

end Rounds

/-- Whatever the listeners publish and consume: where a drain comes to an end, rounds whose pauses
are over at once come to an end without a delivery. The same happens, apart from the pauses, the
node and its callers are left the same, and the drain answers how many deliveries the rounds have
answered in all. No other end of the rounds is possible. -/
theorem rounds_agree_with_drain {who : Caller} {n n' : Node} {r r' : Reactions}
    {past : List Happening} {reply : Reply} (h : Performs who .drain n r past reply n' r') :
    ∃ total, Rounds who [.act oneRound] n r total past n' r' ∧ reply = .number total ∧
      ∀ total' past' m s, Rounds who [.act oneRound] n r total' past' m s →
        total' = total ∧ past' = past ∧ m = n' ∧ s = r' := by
  obtain ⟨made, hdrained, rfl⟩ := drained_of_performs h
  have hrounds := (rounds_of_drained hdrained who 0).begin
  rw [Nat.zero_add] at hrounds
  exact ⟨made, hrounds, rfl, fun _ _ _ _ => hrounds.unique⟩

/-- A listener publishes at both levels and makes a delivery itself. -/
theorem rounds_agree_with_drain_reentrant :
    let topics := ((Node.quietTopics ["fast", "slow"]).set 0
      ⟨"fast", ⟨[(.outside 0, .blank)]⟩⟩).set 1 ⟨"slow", ⟨[(.outside 1, .blank)]⟩⟩
    let bus : Bus Delivery Alarm := { (Bus.fresh 10 : Bus Delivery Alarm) with
      normal := ⟨[.tick 0 0, .tick 0 1], .zero⟩
      started := true }
    let node : Node := { Node.fresh 10 [] with bus, topics }
    let meddling : Script := [.publish 1 2 .high .task, .publish 0 3 .normal .task, .poll]
    let reactions : Reactions := (Bank.filled .idle).set (.tick 0) (.repeating 1 meddling)
    let left := (⟨node, reactions, [.act .drain, .code .main []]⟩ : Machine).runFrom [] 36
    let past := left.1.dropLast
    Performs .main .drain node reactions past (.number 3) left.2.node left.2.reactions ∧
      past.length = 17 ∧
      Rounds .main [.act oneRound] node reactions 3 past left.2.node left.2.reactions := by
  intro topics bus node meddling reactions left past
  obtain ⟨later, hlater, hreaches⟩ :=
    Machine.reaches_runFrom [] ⟨node, reactions, [.act .drain, .code .main []]⟩ 36
  have hdrain : Performs .main .drain node reactions past (.number 3) left.2.node
      left.2.reactions := by
    have hpast : later = past ++ [.did .main .drain (.number 3)] := hlater.symm
    rw [hpast] at hreaches
    exact hreaches
  obtain ⟨total, hrounds, hreply, _⟩ := rounds_agree_with_drain hdrain
  rw [← Reply.number.inj hreply] at hrounds
  exact ⟨hdrain, rfl, hrounds⟩

end NodeBus.Session
