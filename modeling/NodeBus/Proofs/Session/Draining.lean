import NodeBus.Proofs.Session.Ending
import NodeBus.Proofs.Session.Rounds

/-!
# What a drain delivers

A drain comes to an end exactly if what is announced meanwhile is bounded in number, which is what
is published if callers do no more than publish, poll and drain (`performs_drain_iff_published`).
Then nothing is queued. What was delivered meanwhile is what was queued in the beginning and what
was accepted, by level and in order. The drain answers how many of these deliveries it has made
itself. All others were made by callers, that is, while one of its own was under way (`nested`).
-/

namespace NodeBus.Session

open Machine (Reaches)

/-! ## The bus along a course -/

section Bus

variable {m m' : Machine} {past : List Happening}

theorem conserved_of_reaches (h : m.Reaches past m') :
    Conserved m.node.bus past m'.node.bus := by
  induction h with
  | refl => exact conserved_of_traffic (.same _)
  | step first _ ih =>
    intro l
    obtain ⟨_, _, _, _, _, _, hmove⟩ := moves_step first
    have hnow := conserved_of_traffic (traffic_of_move hmove) l
    rw [takenAt_append, acceptedAt_append, List.append_assoc, ih l, ← List.append_assoc, hnow,
      List.append_assoc]

theorem taken_add_of_reaches (h : m.Reaches past m') (l : Level) :
    (engagements m.stack).count (.delivering l) + (takenAt l past).length =
      (settledAt l past).length + (engagements m'.stack).count (.delivering l) := by
  induction h with
  | refl => exact Nat.add_comm _ _
  | step first _ ih =>
    obtain ⟨_, _, _, _, hbefore, hafter, hmove⟩ := moves_step first
    have hnow := taken_add_of_move hmove l
    rw [hafter] at ih
    rw [hbefore]
    simp only [takenAt_append, settledAt_append, List.length_append, List.count_append] at ih ⊢
    omega

end Bus

/-! ## Nested deliveries -/

/-- How many deliveries are made in a course while another one is under way. So many are under way
in the beginning. -/
def nested : Nat → List Happening → Nat
  | _, [] => 0
  | 0, .taken .. :: past => nested 1 past
  | depth + 1, .taken .. :: past => 1 + nested (depth + 2) past
  | depth, .settled .. :: past => nested (depth - 1) past
  | depth, _ :: past => nested depth past

/-- How many deliveries are made in a course. -/
def deliveries (past : List Happening) : Nat :=
  (takenAt .high past).length + (takenAt .normal past).length

def Engagement.isDelivery : Engagement → Bool
  | .delivering _ => true
  | .glancing | .waiting => false

/-- How many deliveries are under way. -/
def depth (stack : List Activity) : Nat := (engagements stack).countP Engagement.isDelivery

section Nested

variable {m m' : Machine} {now past later : List Happening}

@[simp] theorem deliveries_append (past later : List Happening) :
    deliveries (past ++ later) = deliveries past + deliveries later := by
  simp only [deliveries, takenAt_append, List.length_append]
  omega

theorem deliveries_of_silent (h : Silent now) : deliveries now = 0 := by
  simp [deliveries, takenAt_of_silent h]

theorem deliveries_taken (l : Level) (d : Delivery) : deliveries [.taken l d] = 1 := by
  cases l <;> rfl

theorem deliveries_offered (l : Level) (d : Delivery) (refusal : Option Refusal)
    (later : List Happening) : deliveries (.offered l d refusal :: later) = deliveries later := rfl

theorem deliveries_settled (l : Level) (backlog : Nat) :
    deliveries [.settled l backlog] = 0 := rfl

theorem nested_of_silent (h : Silent now) (d : Nat) (later : List Happening) :
    nested d (now ++ later) = nested d later := by
  induction now with
  | nil => rfl
  | cons a now ih =>
    have ha := h a List.mem_cons_self
    have hnow := ih fun b hb => h b (List.mem_cons_of_mem a hb)
    cases a with
    | offered | taken | settled => cases ha
    | _ => exact hnow

/-- Under a delivery every further one is nested: `u` are under way before, one of them throughout,
and `v` afterwards. -/
theorem nested_of_move {b b' : Bus Delivery Alarm} {r : Role} {old new : List Engagement}
    (h : Move b r old now b' new) {u v : Nat} (hunder : old.countP Engagement.isDelivery < u)
    (hsum : u + new.countP Engagement.isDelivery = v + old.countP Engagement.isDelivery)
    (later : List Happening) : nested u (now ++ later) = deliveries now + nested v later := by
  have hsilent (silent : Silent now) (hsame : u = v) :
      nested u (now ++ later) = deliveries now + nested v later := by
    rw [hsame, nested_of_silent silent, deliveries_of_silent silent, Nat.zero_add]
  cases h with
  | aside _ silent _ | reset silent => exact hsilent silent hsum
  | @offer l d _ _ _ _ silent =>
    obtain rfl : u = v := hsum
    rw [deliveries_offered, deliveries_of_silent silent, Nat.zero_add]
    refine Eq.trans ?_ (nested_of_silent silent u later)
    cases u <;> rfl
  | @take _ _ l d _ takes _ =>
    -- What it took to come here was no delivery.
    have hnone : old.countP Engagement.isDelivery = 0 := by cases takes <;> rfl
    rw [hnone] at hunder hsum
    obtain ⟨u, rfl⟩ := Nat.exists_eq_succ_of_ne_zero (Nat.ne_zero_of_lt hunder)
    obtain rfl : u + 1 + 1 = v := hsum
    rw [deliveries_taken]
    rfl
  | settle l =>
    obtain rfl : u = v + 1 := hsum
    rw [deliveries_settled, Nat.zero_add]
    rfl
  | shift silent shift => exact hsilent silent (by cases shift <;> exact hsum)

theorem nested_of_reaches (h : m.Reaches past m') {u v : Nat} (hunder : depth m.stack < u)
    (hsum : u + depth m'.stack = v + depth m.stack) (later : List Happening) :
    nested u (past ++ later) = deliveries past + nested v later := by
  induction h generalizing u with
  | refl =>
    obtain rfl : u = v := Nat.add_right_cancel hsum
    exact (Nat.zero_add _).symm
  | @step m m₁ m' now past first rest ih =>
    obtain ⟨front, old, new, back, hbefore, hafter, hmove⟩ := moves_step first
    have hdepth : depth m.stack + new.countP Engagement.isDelivery =
        depth m₁.stack + old.countP Engagement.isDelivery := by
      simp only [depth, hbefore, hafter, List.countP_append]
      omega
    have hold : old.countP Engagement.isDelivery ≤ depth m.stack := by
      simp only [depth, hbefore, List.countP_append]
      omega
    -- So many are under way between the step and the rest.
    obtain ⟨w, hw⟩ : ∃ w, w + depth m.stack = u + depth m₁.stack :=
      ⟨u + depth m₁.stack - depth m.stack, by omega⟩
    have hnow := nested_of_move hmove (u := u) (v := w) (by omega) (by omega) (past ++ later)
    have hlater := ih (u := w) (by omega) (by omega)
    rw [List.append_assoc, hnow, hlater, deliveries_append, Nat.add_assoc]

/-- The delivery that is made itself is not nested, those made by callers meanwhile are. -/
theorem Served.nested_append {n n' : Node} {r r' : Reactions} {l : Level}
    (h : Served n r l past n' r') (later : List Happening) :
    1 + nested 0 (past ++ later) = deliveries past + nested 0 later := by
  obtain ⟨_, htelling⟩ := h
  rename_i d _ told m _
  generalize (m.bus.settle l).queued l = backlog
  have htold := nested_of_reaches htelling (u := 1) (v := 1) Nat.one_pos rfl
    (.settled l backlog :: later)
  have hown : deliveries ([.taken l d] ++ (told ++ [.settled l backlog])) =
      1 + deliveries told := by
    rw [deliveries_append, deliveries_append, deliveries_taken, deliveries_settled, Nat.add_zero]
  rw [← List.singleton_append, hown, Nat.add_assoc, List.append_assoc, List.append_assoc]
  exact congrArg (1 + ·) htold

theorem Drained.made_add_nested {n n' : Node} {r r' : Reactions} {made : Nat}
    (h : Drained n r made past n' r') : made + nested 0 past = deliveries past := by
  induction h with
  | done => rfl
  | @more _ _ _ _ _ _ l k past later first rest ih =>
    have hfirst := first.nested_append later
    rw [deliveries_append]
    omega

end Nested

/-! ## Drains -/

section Drain

variable {who : Caller} {n n' : Node} {r r' : Reactions} {past : List Happening}

theorem Drained.next? {made : Nat} (h : Drained n r made past n' r') : n'.bus.next? = none := by
  induction h with
  | done none => exact none
  | more _ _ ih => exact ih

/-- A course that ends everything has ended the drain first. -/
theorem reaches_of_ended {m m' : Machine} (h : m.Reaches past m') (made : Nat)
    (above : List Activity) (l : Level) (hstack : m.stack = draining who made above l)
    (hlooked : l = .normal → above = [] ∧ m.node.bus.queue .high = []) (hend : m'.stack = []) :
    ∃ past n' r', m.Reaches past ⟨n', r', [.code who []]⟩ := by
  induction h generalizing made above l with
  | refl m =>
    rw [hend] at hstack
    have hlength := congrArg List.length hstack
    simp [draining] at hlength
  | @step m m₁ m' now past first rest ih =>
    obtain ⟨n, r, stack⟩ := m
    dsimp only at hstack hlooked
    subst hstack
    cases drainStep_of_step hlooked first with
    | above step =>
      obtain ⟨later, n', r', hlater⟩ := ih _ _ _ rfl (by simp) hend
      exact ⟨_, n', r', .step first hlater⟩
    | passed empty =>
      obtain ⟨later, n', r', hlater⟩ := ih made [] .normal rfl (fun _ => ⟨rfl, empty⟩) hend
      exact ⟨_, n', r', .step first hlater⟩
    | finished none => exact ⟨_, n, r, .step first (.single rfl)⟩
    | taken next =>
      obtain ⟨later, n', r', hlater⟩ := ih _ _ _ rfl (by simp) hend
      exact ⟨_, n', r', .step first hlater⟩

theorem performs_drain_iff :
    (∃ past reply n' r', Performs who .drain n r past reply n' r') ↔
      ∃ bound, ∀ k, (⟨n, r, [.act .drain, .code who []]⟩ : Machine).announcements k ≤ bound := by
  rw [← ends_iff]
  constructor
  · rintro ⟨past, reply, n', r', hperforms⟩
    exact ⟨_, n', r', hperforms.trans (.single rfl)⟩
  · rintro ⟨past, n', r', hends⟩
    obtain ⟨rest, -, hrest⟩ := hends.after_first (by simp) rfl
    obtain ⟨later, n', r', hlater⟩ := reaches_of_ended hrest 0 [] .high rfl nofun rfl
    obtain ⟨told, _, _, made, drained, _, _, rfl⟩ :=
      drained_of_reaches hlater 0 [] .high rfl nofun rfl
    have hreach := Reaches.step (m := ⟨n, r, [.act .drain, .code who []]⟩) rfl hlater
    exact ⟨told ++ drained, .number (0 + made), n', r', hreach⟩

end Drain

/-! ## Callers that publish, poll and drain -/

/-- Whether an action does no more than publish, poll or drain. -/
def Action.overBus : Action → Bool
  | .publish .. | .publishNotice .. | .poll | .drain => true
  | _ => false

/-- No caller does more than publish, poll and drain when it is called. -/
def OverBus (r : Reactions) : Prop :=
  ∀ who call, ∀ action ∈ (r.get who).script call, action.overBus = true

/-- Whether an activity comes to nothing more than that. -/
def Activity.overBus : Activity → Bool
  | .code _ todo => todo.all Action.overBus
  | .act action => action.overBus
  | .ticking .. | .working _ => false
  | _ => true

/-- How often a machine publishes over the bus in its next steps, whether that is accepted or
not. -/
def Machine.publications (m : Machine) : Nat → Nat
  | 0 => 0
  | k + 1 =>
    match m.step with
    | none => 0
    | some (_, m') => m.intent.publication?.isSome.toNat + m'.publications k

/-- A machine whose callers, and what it has going on, come to nothing more. -/
structure Machine.OverBus (m : Machine) : Prop where
  reactions : Session.OverBus m.reactions
  stack : ∀ a ∈ m.stack, a.overBus = true

section OverBus

variable {m m' : Machine} {now : List Happening}

theorem Machine.OverBus.withNode (h : m.OverBus) (n : Node) :
    Machine.OverBus { m with node := n } := ⟨h.reactions, h.stack⟩

theorem Machine.OverBus.push (h : m.OverBus) (activities : List Activity)
    (hactivities : ∀ a ∈ activities, a.overBus = true) : (m.push activities).OverBus :=
  ⟨h.reactions, List.forall_mem_append.mpr ⟨hactivities, h.stack⟩⟩

theorem Machine.OverBus.call (h : m.OverBus) (who : Caller) : (m.call who).OverBus := by
  refine ⟨fun who' call => ?_, ?_⟩
  · simp only [Machine.call, Bank.get_set]
    split
    · rename_i heq
      subst heq
      exact h.reactions _ call
    · exact h.reactions who' call
  · have hnext : (Activity.code who (m.reactions.get who).next).overBus = true :=
      List.all_eq_true.mpr (h.reactions who _)
    exact List.forall_mem_cons.mpr ⟨hnext, h.stack⟩

theorem Machine.OverBus.tell (h : m.OverBus) (news : News) (s : Subscriber) :
    (m.tell news s).2.OverBus := by
  have hheard := h.withNode (m.node.hear news s)
  simp only [Machine.tell]
  split
  · exact hheard.call _
  · exact hheard

theorem Machine.OverBus.publish (h : m.OverBus) (d : Delivery) (l : Level) (origin : Origin)
    (reply : Bool → Node → Reply) : (m.publish d l origin reply).2.OverBus := by
  rw [publish_eq]
  have hanswer := (h.withNode (m.node.published ⟨d, l, origin⟩)).push
    [.answer (reply (m.node.outcome ⟨d, l, origin⟩).isDone)] (by simp [Activity.overBus])
  cases m.node.raised ⟨d, l, origin⟩ with
  | none => exact hanswer
  | some alarm => exact hanswer.call _

theorem Machine.OverBus.deliver (h : m.OverBus) (l : Level) (d : Delivery)
    (bus : Bus Delivery Alarm) : (m.deliver l d bus).2.OverBus := by
  rw [Machine.deliver_eq]
  exact (h.withNode { m.node with bus }).push _ (by simp [Activity.overBus])

theorem Machine.OverBus.conclude (h : m.OverBus) (action : Action) (reply : Reply) :
    (m.conclude action reply).2.OverBus := by
  rw [Machine.conclude]
  split
  · rename_i hstack
    exact ⟨h.reactions, hstack ▸ h.stack⟩
  · rename_i hstack
    have hworking := h.stack _ (hstack ▸ List.mem_cons_self)
    cases hworking
  · exact h

theorem Machine.OverBus.perform (h : m.OverBus) {action : Action}
    (haction : action.overBus = true) : (m.perform action).2.OverBus := by
  have hacting := h.push [.acting action] (by simp [Activity.overBus])
  cases action with
  | publish topic slot level origin => exact hacting.publish ..
  | publishNotice level origin => exact hacting.publish ..
  | poll | drain => exact hacting.push _ (by simp [Activity.overBus])
  | _ => cases haction

theorem Machine.OverBus.seek (h : m.OverBus) (seeker : Seeker) (l : Level) :
    (m.seek seeker l).2.OverBus := by
  simp only [Machine.seek]
  split
  · refine (h.push _ ?_).deliver _ _ _
    cases seeker <;> simp [Machine.after, Activity.overBus]
  · refine h.push _ ?_
    cases l <;> simp [Machine.passing, Activity.overBus]

theorem Machine.OverBus.step (h : m.OverBus) (hstep : m.step = some (now, m')) : m'.OverBus := by
  obtain ⟨n, r, stack⟩ := m
  cases stack with
  | nil => cases hstep
  | cons top rest =>
    obtain ⟨htop, hrest⟩ := List.forall_mem_cons.mp h.stack
    have hbelow : Machine.OverBus ⟨n, r, rest⟩ := ⟨h.reactions, hrest⟩
    simp only [Machine.step, Option.some.injEq] at hstep
    rw [show m' = (now, m').2 from rfl, ← hstep]
    cases top with
    | code who todo =>
      cases todo with
      | nil => exact hbelow
      | cons action todo =>
        obtain ⟨haction, htodo⟩ := Bool.and_eq_true_iff.mp htop
        exact hbelow.push [.act action, .code who todo]
          (List.forall_mem_cons.mpr ⟨haction, List.forall_mem_singleton.mpr htodo⟩)
    | act action => exact hbelow.perform htop
    | acting | settling => exact ⟨h.reactions, hrest⟩
    | answer reply =>
      dsimp only
      split
      · rename_i action rest
        have hasker : Machine.OverBus ⟨n, r, rest⟩ :=
          ⟨h.reactions, (List.forall_mem_cons.mp hrest).2⟩
        exact hasker.conclude action (reply n)
      · exact hbelow
    | telling news audience =>
      cases audience with
      | nil => exact hbelow
      | cons s audience =>
        exact (hbelow.push [.telling news audience] (by simp [Activity.overBus])).tell news s
    | seeking seeker l => exact hbelow.seek seeker l
    | ticking | working => cases htop

/-- Such a machine announces what it publishes over the bus, and nothing else. -/
theorem announces_of_overBus (h : m.OverBus) :
    m.announces = m.intent.publication?.isSome := by
  obtain ⟨n, r, stack⟩ := m
  cases stack with
  | nil => rfl
  | cons top rest =>
    have htop := h.stack top List.mem_cons_self
    have honce : top.tellsAtOnce = false := by
      cases top with
      | act action =>
        cases action with
        | notify | dispatch => cases htop
        | _ => rfl
      | _ => rfl
    simp [Machine.announces, honce]

theorem announcements_eq_publications (h : m.OverBus) (k : Nat) :
    m.announcements k = m.publications k := by
  induction k generalizing m with
  | zero => rfl
  | succ k ih =>
    simp only [Machine.announcements, Machine.publications]
    cases hstep : m.step with
    | none => rfl
    | some result =>
      obtain ⟨now, m'⟩ := result
      simp only [announces_of_overBus h, ih (h.step hstep)]

end OverBus

/-- Where callers do no more than publish, poll and drain, a drain comes to an end exactly if a
bounded number of publications is made meanwhile, whether they are accepted or not. -/
theorem performs_drain_iff_published {who : Caller} {n : Node} {r : Reactions} (h : OverBus r) :
    (∃ past reply n' r', Performs who .drain n r past reply n' r') ↔
      ∃ bound, ∀ k, (⟨n, r, [.act .drain, .code who []]⟩ : Machine).publications k ≤ bound := by
  have hbegin : Machine.OverBus ⟨n, r, [.act .drain, .code who []]⟩ :=
    ⟨h, by simp [Activity.overBus, Action.overBus]⟩
  rw [performs_drain_iff]
  simp only [announcements_eq_publications hbegin]

/-! ## What a drain leaves -/

/-- Whatever is queued, and whatever callers do when they are called: a drain comes to an end
exactly if a bounded number of announcements is made meanwhile, that is, of publications, whether
they are accepted or not, of notifications, and of commands that are executed and told at once. Then
both levels are empty, what was taken from each is what was queued and what was accepted meanwhile,
in order, and all of it has been told and counted. The drain answers how many deliveries were made,
less those that callers made. -/
theorem drain_empties (who : Caller) (n : Node) (r : Reactions) :
    ((∃ past reply n' r', Performs who .drain n r past reply n' r') ↔
      ∃ bound, ∀ k, (⟨n, r, [.act .drain, .code who []]⟩ : Machine).announcements k ≤ bound) ∧
    ∀ past reply n' r', Performs who .drain n r past reply n' r' →
      (∀ l, n'.bus.queue l = [] ∧ takenAt l past = n.bus.queue l ++ acceptedAt l past ∧
        (settledAt l past).length = (takenAt l past).length) ∧
      ∃ made, reply = .number made ∧ made + nested 0 past = deliveries past := by
  refine ⟨performs_drain_iff, fun past reply n' r' h => ?_⟩
  obtain ⟨made, hdrained, hreply⟩ := drained_of_performs h
  refine ⟨fun l => ?_, made, hreply, hdrained.made_add_nested⟩
  have hempty := queue_of_next?_eq_none hdrained.next? l
  have hqueue := conserved_of_reaches h l
  have htaken := taken_add_of_reaches h l
  -- The end of the drain itself is no record of the bus.
  have hend : Silent [.did who .drain reply] := silent_singleton rfl
  rw [takenAt_append, acceptedAt_append, takenAt_of_silent hend, acceptedAt_of_silent hend,
    List.append_nil, List.append_nil, hempty, List.append_nil] at hqueue
  rw [takenAt_append, settledAt_append, takenAt_of_silent hend, settledAt_of_silent l hend,
    List.append_nil, List.append_nil] at htaken
  exact ⟨hempty, hqueue, htaken.symm.trans (Nat.zero_add _)⟩

/-- Two deliveries are queued. The listener of the first publishes at both levels and makes one
delivery itself, so that the drain is left with three of four. -/
theorem drain_empties_reentrant :
    let topics := ((Node.quietTopics ["fast", "slow"]).set 0
      ⟨"fast", ⟨[(.outside 0, .blank)]⟩⟩).set 1 ⟨"slow", ⟨[(.outside 1, .blank)]⟩⟩
    let bus : Bus Delivery Alarm := { (Bus.fresh 10 : Bus Delivery Alarm) with
      normal := ⟨[.tick 0 0, .tick 0 1], .zero⟩
      started := true }
    let node : Node := { Node.fresh 10 [] with bus, topics }
    let meddling : Script := [.publish 1 2 .high .task, .publish 0 3 .normal .task, .poll]
    let reactions : Reactions := (Bank.filled .idle).set (.tick 0) (.repeating 1 meddling)
    let left := (⟨node, reactions, [.act .drain, .code .main []]⟩ : Machine).runFrom [] 36
    let past := left.1.dropLast
    Performs .main .drain node reactions past (.number 3) left.2.node left.2.reactions ∧
      (∃ bound, ∀ k,
        (⟨node, reactions, [.act .drain, .code .main []]⟩ : Machine).announcements k ≤ bound) ∧
      takenAt .normal past = [.tick 0 0, .tick 0 1] ++ [.tick 0 3] ∧
      (settledAt .normal past).length = 3 ∧ left.2.node.bus.queue .high = [] ∧
      3 + nested 0 past = 4 := by
  intro topics bus node meddling reactions left past
  obtain ⟨later, hlater, hreaches⟩ :=
    Machine.reaches_runFrom [] ⟨node, reactions, [.act .drain, .code .main []]⟩ 36
  have hdrain : Performs .main .drain node reactions past (.number 3) left.2.node
      left.2.reactions := by
    have hpast : later = past ++ [.did .main .drain (.number 3)] := hlater.symm
    rw [hpast] at hreaches
    exact hreaches
  obtain ⟨hends, hdelivers⟩ := drain_empties .main node reactions
  obtain ⟨hlevels, made, hmade, hnested⟩ := hdelivers past _ _ _ hdrain
  obtain ⟨-, htaken, hsettled⟩ := hlevels .normal
  rw [← Reply.number.inj hmade] at hnested
  exact ⟨hdrain, hends.mp ⟨_, _, _, _, hdrain⟩, htaken, hsettled, (hlevels .high).1, hnested⟩

end NodeBus.Session
