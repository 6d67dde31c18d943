import NodeBus.Proofs.Session.Moves

/-!
# What goes on above a call

While a listener is called, its caller waits below on the stack. What the listener does is what
it would do alone (`step_onto`): a step looks at the activities below the innermost one only
where an action ends, and what calls listeners is no place where an action ends.
-/

namespace NodeBus.Session

/-- Whether an activity is looked at when an action above it ends. -/
def Activity.hosts : Activity → Bool
  | .code .. | .acting _ | .working _ => true
  | _ => false

/-- What waits below is not looked at from above. -/
def Sealed (base : List Activity) : Prop := ∀ a ∈ base.head?, a.hosts = false

theorem sealed_cons {a : Activity} (h : a.hosts = false) (base : List Activity) :
    Sealed (a :: base) := by
  intro a' ha'
  cases ha'
  exact h

namespace Machine

/-- A machine with more going on below. -/
def onto (m : Machine) (base : List Activity) : Machine := { m with stack := m.stack ++ base }

/-- What happens, with more going on below afterwards. -/
def lift (base : List Activity) (result : List Happening × Machine) : List Happening × Machine :=
  (result.1, result.2.onto base)

section Onto

variable {base : List Activity}

theorem conclude_onto (hbase : Sealed base) (m : Machine) (action : Action) (reply : Reply) :
    (m.onto base).conclude action reply = lift base (m.conclude action reply) := by
  obtain ⟨node, reactions, stack⟩ := m
  cases stack with
  | nil =>
    -- Here the top of `base` is looked at, and is nothing that waits for the end of an action.
    cases base with
    | nil => rfl
    | cons a base =>
      have ha : a.hosts = false := hbase a rfl
      cases a with
      | code | acting | working => cases ha
      | _ => rfl
  | cons a stack => cases a <;> rfl

theorem tell_onto (m : Machine) (news : News) (s : Subscriber) :
    (m.onto base).tell news s = lift base (m.tell news s) := by
  simp only [tell, lift]
  split <;> rfl

theorem publish_onto (m : Machine) (d : Delivery) (l : Level) (origin : Origin)
    (reply : Bool → Node → Reply) :
    (m.onto base).publish d l origin reply = lift base (m.publish d l origin reply) := by
  simp only [publish, onto]
  rcases publish_cases m.node d l with hunheard | ⟨bus, _, hqueued⟩ | ⟨cause, bus, _, hrefused⟩
  · rw [hunheard]
    rfl
  · rw [hqueued]
    rfl
  · rw [hrefused]
    dsimp only
    split <;> rename_i halarm <;> simp only [push] at halarm ⊢ <;> rw [halarm] <;> rfl

theorem perform_onto (hbase : Sealed base) (m : Machine) (action : Action) :
    (m.onto base).perform action = lift base (m.perform action) := by
  cases action with
  | op operation =>
    exact conclude_onto hbase { m with node := (operation.apply m.node).2 } _ _
  | publish topic slot level origin =>
    exact publish_onto (m.push [.acting (.publish topic slot level origin)]) (.tick topic slot)
      level origin fun isDone _ => .flag isDone
  | publishNotice level origin =>
    exact publish_onto (m.push [.acting (.publishNotice level origin)]) .notice level origin
      fun isDone _ => .flag isDone
  | run waits busy =>
    cases hfirst : m.node.bus.claim.1 <;> simp only [perform, onto, hfirst] <;> rfl
  | dispatch order atOnce stream =>
    cases hrequest : order.request with
    | error cause =>
      simp only [perform, hrequest]
      rfl
    | ok request =>
      cases atOnce with
      | true =>
        simp only [perform, hrequest]
        rfl
      | false =>
        simp only [perform, hrequest]
        exact publish_onto { m.push [.acting (.dispatch order false stream)] with
          node := m.node.execute request } .notice .normal .task
          fun ok n => .dispatched ok n.notice stream
  | _ => rfl

theorem deliver_onto (m : Machine) (l : Level) (d : Delivery) (bus : Bus Delivery Alarm) :
    (m.onto base).deliver l d bus = lift base (m.deliver l d bus) := by
  rw [deliver_eq, deliver_eq]
  rfl

theorem seek_onto (m : Machine) (seeker : Seeker) (level : Level) :
    (m.onto base).seek seeker level = lift base (m.seek seeker level) := by
  simp only [seek, onto]
  split
  · exact deliver_onto (m.push [after level seeker]) ..
  · rfl

theorem tick_onto (m : Machine) (topic slot : Nat) (period : UInt16) (stage : TickStage) :
    (m.onto base).tick topic slot period stage = lift base (m.tick topic slot period stage) := by
  cases stage with
  | advancing now => rfl
  | checking =>
    cases hspace : m.node.bus.hasSpace .normal <;> simp only [tick, onto, hspace] <;> rfl
  | publishing => exact publish_onto m ..

theorem work_onto (m : Machine) (w : Worker) :
    (m.onto base).work w = lift base (m.work w) := by
  simp only [work, onto]
  split
  · split
    · exact deliver_onto (m.push [.working _]) ..
    · rfl
  · split
    · exact deliver_onto (m.push [.working _]) ..
    · rfl
  · rfl
  · rfl
  · split
    · rfl
    · rfl
    · split
      · exact deliver_onto (m.push [.working _]) ..
      · rfl
  · split <;> rfl

/-- What happens next does not depend on what waits below, which stays as it is. -/
theorem step_onto (hbase : Sealed base) {m : Machine} (h : m.stack ≠ []) :
    (m.onto base).step = m.step.map (lift base) := by
  obtain ⟨node, reactions, stack⟩ := m
  cases stack with
  | nil => exact absurd rfl h
  | cons top rest =>
    cases top with
    | code who todo => cases todo <;> rfl
    | act action => exact congrArg some (perform_onto hbase ⟨node, reactions, rest⟩ action)
    | answer reply =>
      cases rest with
      | nil =>
        cases base with
        | nil => rfl
        | cons a base =>
          have ha : a.hosts = false := hbase a rfl
          cases a with
          | code | acting | working => cases ha
          | _ => rfl
      | cons a rest =>
        cases a with
        | acting action =>
          exact congrArg some (conclude_onto hbase ⟨node, reactions, rest⟩ action (reply node))
        | _ => rfl
    | telling news audience =>
      cases audience with
      | nil => rfl
      | cons s audience =>
        exact congrArg some (tell_onto ⟨node, reactions, .telling news audience :: rest⟩ news s)
    | seeking seeker level =>
      exact congrArg some (seek_onto ⟨node, reactions, rest⟩ seeker level)
    | ticking topic slot period stage =>
      exact congrArg some (tick_onto ⟨node, reactions, rest⟩ topic slot period stage)
    | working w => exact congrArg some (work_onto ⟨node, reactions, rest⟩ w)
    | _ => rfl

end Onto

end Machine

/-! ## Turns of a party -/

/-- Whether a party takes its next step. -/
def Turn.isOf (party : Nat) : Turn → Bool
  | .step party' => party' = party
  | _ => false

theorem Turn.eq_step {party : Nat} {turn : Turn} (h : turn.isOf party = true) :
    turn = .step party := by
  cases turn with
  | step party' => simpa [isOf] using h
  | _ => cases h

section Party

variable {p : Parties} {party : Nat}

theorem play_of_step {stack : List Activity} {now : List Happening} {m : Machine}
    (hstack : p.ongoing[party]? = some stack) (hstep : (p.machine stack).step = some (now, m)) :
    p.play (.step party) = (now, ⟨m.node, m.reactions, p.ongoing.set party m.stack⟩) := by
  simp [Parties.play, hstack, hstep]

theorem ongoing_of_step {stack : List Activity} {now : List Happening} {m : Machine}
    (hstack : p.ongoing[party]? = some stack) (hstep : (p.machine stack).step = some (now, m)) :
    (p.play (.step party)).2.ongoing[party]? = some m.stack := by
  have hlt := (List.getElem?_eq_some_iff.mp hstack).1
  rw [play_of_step hstack hstep]
  exact List.getElem?_set_self hlt

variable {base : List Activity}

/-- While a party does not take its turn, what it has going on stays as it is; what changes
about a worker that waits is above. -/
theorem ongoing_of_idle (above : List Activity) {turn : Turn}
    (hstack : p.ongoing[party]? = some (above ++ base)) (hbase : Sealed base)
    (hturn : turn.isOf party = false) :
    ∃ above', (p.play turn).2.ongoing[party]? = some (above' ++ base) ∧
      (above = [] → above' = []) := by
  have hlt := (List.getElem?_eq_some_iff.mp hstack).1
  cases turn with
  | enter who script =>
    refine ⟨above, ?_, id⟩
    simp [Parties.play, List.getElem?_append_left hlt, hstack]
  | step party' =>
    have hne : party' ≠ party := by simpa [Turn.isOf] using hturn
    refine ⟨above, ?_, id⟩
    simp only [Parties.play]
    split
    · rw [List.getElem?_set_ne hne, hstack]
    · exact hstack
  | allot party' pending looks =>
    simp only [Parties.play]
    split
    · rename_i loops pauses looks' delivered notes pending' rest hworking
      -- What waits is on top, so that it is above unless nothing is.
      by_cases hne : party' = party
      · subst hne
        rw [hstack, Option.some.injEq] at hworking
        cases above with
        | nil =>
          rw [List.nil_append] at hworking
          subst hworking
          cases hbase _ rfl
        | cons a above =>
          cases hworking
          exact ⟨_ :: above, List.getElem?_set_self hlt, by simp⟩
      · exact ⟨above, by rw [List.getElem?_set_ne hne, hstack], id⟩
    · exact ⟨above, hstack, id⟩

/-- What is above is all that a step of a party changes of what it has going on. -/
theorem ongoing_of_above {above : List Activity} (hstack : p.ongoing[party]? = some (above ++ base))
    (hbase : Sealed base) (habove : above ≠ []) :
    ∃ above', (p.play (.step party)).2.ongoing[party]? = some (above' ++ base) := by
  have honto := Machine.step_onto hbase (m := p.machine above) habove
  cases hstep : (p.machine above).step with
  | none => exact absurd (stack_of_step_eq_none hstep) habove
  | some result =>
    rw [hstep] at honto
    exact ⟨result.2.stack, ongoing_of_step hstack honto⟩

/-- The next listener is told, which may call it. -/
theorem ongoing_of_telling {news : News} {s : Subscriber} {audience : List Subscriber}
    (hstack : p.ongoing[party]? = some (.telling news (s :: audience) :: base)) :
    (p.play (.step party)).1 = [.heard s news] ∧
      ∃ above, (p.play (.step party)).2.ongoing[party]? =
        some (above ++ .telling news audience :: base) := by
  have hstep : (p.machine (.telling news (s :: audience) :: base)).step =
      some (((p.machine base).push [.telling news audience]).tell news s) := rfl
  refine ⟨by rw [play_of_step hstack hstep], ?_⟩
  rw [ongoing_of_step hstack hstep]
  split
  · exact ⟨[.code _ _], rfl⟩
  · exact ⟨[], rfl⟩

end Party

end NodeBus.Session
