import NodeBus.Proofs.Session.Moves

/-!
# What a step does to the topics

Of all that a machine does, only operations change who listens to a topic, and only where a
delivery is taken are its listeners read off. `does_step` is the inversion of `Machine.step` for
both: a step begins an operation, takes a delivery, or does neither.
-/

namespace NodeBus.Session

/-- The operation that an activity begins. -/
def Activity.operation? : Activity → Option Operation
  | .act (.op o) => some o
  | _ => none

/-- The operation that a machine begins next. -/
def Machine.operation? (m : Machine) : Option Operation := m.stack.head?.bind Activity.operation?

/-- Two nodes whose topics are the same. -/
structure SameTopics (n n' : Node) : Prop where
  topics : n'.topics = n.topics
  noticeTopic : n'.noticeTopic = n.noticeTopic

theorem SameTopics.refl {n : Node} : SameTopics n n := ⟨rfl, rfl⟩

/-- What comes of a step, by the operation that it begins. -/
inductive Does (n : Node) : Option Operation → List Happening × Machine → Prop where
  | operation {o : Operation} {result : List Happening × Machine} (silent : Silent result.1)
      (node : result.2.node = (o.apply n).2) : Does n (some o) result
  | delivery (m : Machine) (l : Level) (d : Delivery) (bus : Bus Delivery Alarm)
      (node : m.node = n) : Does n none (m.deliver l d bus)
  | other {result : List Happening × Machine} (untaken : ∀ l d, .taken l d ∉ result.1)
      (same : SameTopics n result.2.node) : Does n none result

theorem Does.same_topics {n : Node} {result : List Happening × Machine}
    (h : Does n none result) : SameTopics n result.2.node := by
  cases h with
  | delivery m l d bus node =>
    rw [← node, Machine.deliver_eq]
    exact ⟨rfl, rfl⟩
  | other _ same => exact same

theorem does_of_silent {n : Node} {result : List Happening × Machine} (silent : Silent result.1)
    (same : SameTopics n result.2.node) : Does n none result := by
  refine .other (fun l d hmem => ?_) same
  cases silent _ hmem

theorem does_nothing {n : Node} {m : Machine} (same : SameTopics n m.node) :
    Does n none ([], m) :=
  does_of_silent silent_nil same

theorem does_tell (m : Machine) (news : News) (s : Subscriber) :
    Does m.node none (m.tell news s) := by
  refine does_of_silent (silent_singleton rfl) ?_
  have hhear : SameTopics m.node (m.node.hear news s) := by
    simp only [Node.hear]
    split <;> exact ⟨rfl, rfl⟩
  simp only [Machine.tell]
  split <;> exact hhear

theorem does_publish {n : Node} {m : Machine} {d : Delivery} {l : Level} {origin : Origin}
    {reply : Bool → Node → Reply} (same : SameTopics n m.node) :
    Does n none (m.publish d l origin reply) := by
  obtain ⟨htopics, hnoticeTopic⟩ := same
  rw [Machine.publish]
  rcases publish_cases m.node d l with hunheard | ⟨bus, _, hqueued⟩ | ⟨cause, bus, _, hrefused⟩
  · rw [hunheard]
    exact does_nothing ⟨htopics, hnoticeTopic⟩
  · rw [hqueued]
    exact .other (by simp) ⟨htopics, hnoticeTopic⟩
  · rw [hrefused]
    dsimp only
    split <;> exact .other (by simp) ⟨htopics, hnoticeTopic⟩

theorem does_perform (m : Machine) (action : Action) :
    Does m.node (Activity.act action).operation? (m.perform action) := by
  cases action with
  | op o => exact .operation (conclude_silent _ _ _) (conclude_node _ _ _)
  | publish | publishNotice =>
    simp only [Machine.perform, Activity.operation?]
    exact does_publish ⟨rfl, rfl⟩
  | run waits busy =>
    simp only [Machine.perform, Activity.operation?]
    split
    · exact does_nothing ⟨rfl, rfl⟩
    · exact does_nothing .refl
  | dispatch order atOnce stream =>
    simp only [Machine.perform, Activity.operation?]
    split
    · exact does_nothing .refl
    · split
      · exact does_nothing ⟨rfl, rfl⟩
      · exact does_publish ⟨rfl, rfl⟩
  | setClock | notify | tick | poll | drain | step | arm => exact does_nothing ⟨rfl, rfl⟩

theorem does_seek (m : Machine) (seeker : Seeker) (level : Level) :
    Does m.node none (m.seek seeker level) := by
  rw [Machine.seek]
  split
  · exact .delivery _ _ _ _ rfl
  · exact does_nothing .refl

theorem does_tick (m : Machine) (topic slot : Nat) (period : UInt16) (stage : TickStage) :
    Does m.node none (m.tick topic slot period stage) := by
  cases stage with
  | advancing now => exact does_nothing ⟨rfl, rfl⟩
  | checking =>
    simp only [Machine.tick]
    split <;> exact does_nothing .refl
  | publishing => exact does_publish .refl

theorem does_work (m : Machine) (w : Worker) : Does m.node none (m.work w) := by
  rw [Machine.work]
  dsimp only
  split
  · split
    · exact .delivery _ _ _ _ rfl
    · exact does_nothing .refl
  · split
    · exact .delivery _ _ _ _ rfl
    · exact does_of_silent (silent_singleton rfl) .refl
  · exact does_nothing .refl
  · exact does_nothing .refl
  · split
    · exact does_nothing .refl
    · exact does_nothing .refl
    · split
      · exact .delivery _ _ _ _ rfl
      · exact does_nothing .refl
  · split <;> exact does_nothing .refl

theorem does_step {m : Machine} {result : List Happening × Machine}
    (h : m.step = some result) : Does m.node m.operation? result := by
  rw [Machine.step] at h
  split at h
  · cases h
  · rename_i top rest hstack
    cases h
    rw [Machine.operation?, hstack]
    -- One case for each kind of activity, of which `act` alone begins operations.
    split
    · exact does_nothing .refl
    · exact does_nothing .refl
    · rename_i action
      exact does_perform { m with stack := rest } action
    · exact does_nothing .refl
    · split
      · refine does_of_silent (conclude_silent _ _ _) ?_
        rw [conclude_node]
        exact .refl
      · exact does_nothing .refl
    · exact does_nothing .refl
    · rename_i news s audience
      exact does_tell ({ m with stack := rest }.push [.telling news audience]) news s
    · exact .other (by simp) ⟨rfl, rfl⟩
    · rename_i seeker level
      exact does_seek { m with stack := rest } seeker level
    · rename_i topic slot period stage
      exact does_tick { m with stack := rest } topic slot period stage
    · rename_i w
      exact does_work { m with stack := rest } w

end NodeBus.Session
