import NodeBus.Proofs.Session.Moves

/-!
# What a step does to the node

The innermost activity says what is about to be done (`Activity.intent`), and `Deed` lists for each
intent what is then recorded and what becomes of the node. `deed_step` is the inversion of
`Machine.step` that laws about the whole node are read off from, one case for each deed.

A publication is a deed of its own: `Node.announce` is what is recorded of it, and `publish_eq` what
it leaves on the stack.
-/

namespace NodeBus

/-- What is published, and where from. -/
structure Publication where
  delivery : Delivery
  level : Level
  origin : Origin
  deriving DecidableEq

namespace Publication

def ofTick (topic slot : Nat) : Publication := ⟨.tick topic slot, .normal, .task⟩

def ofCommand : Publication := ⟨.notice, .normal, .task⟩

end Publication

namespace Node

/-- What comes of a publication. -/
def outcome (n : Node) (p : Publication) : Outcome := (n.publish p.delivery p.level).1

/-- The node after a publication. -/
def published (n : Node) (p : Publication) : Node := (n.publish p.delivery p.level).2

/-- The alarm that a publication raises. -/
def raised (n : Node) (p : Publication) : Option Alarm :=
  match n.outcome p with
  | .refused _ => n.alarmFor p.origin
  | _ => none

end Node

namespace Session

/-- What is recorded of a publication. -/
def announce (n : Node) (p : Publication) : List Happening :=
  match n.outcome p with
  | .unheard => []
  | .queued => [.offered p.level p.delivery none]
  | .refused cause => .offered p.level p.delivery (some cause) ::
      (n.alarmFor p.origin).toList.map (.alarmed · cause (n.topicOf p.delivery).name)

/-! ## The controls of a bus -/

structure SameControls (b b' : Bus Delivery Alarm) : Prop where
  started : b'.started = b.started
  wait : b'.wait = b.wait
  alarm : b'.alarm = b.alarm

section Controls

variable {b b' : Bus Delivery Alarm}

theorem SameControls.refl : SameControls b b := ⟨rfl, rfl, rfl⟩

theorem SameControls.trans {b'' : Bus Delivery Alarm} (h : SameControls b b')
    (h' : SameControls b' b'') : SameControls b b'' :=
  ⟨h'.started.trans h.started, h'.wait.trans h.wait, h'.alarm.trans h.alarm⟩

theorem controls_setLane (b : Bus Delivery Alarm) (l : Level) (lane : Bus.Lane Delivery) :
    SameControls b (b.setLane l lane) := by
  cases l <;> exact ⟨rfl, rfl, rfl⟩

theorem controls_count (b : Bus Delivery Alarm) (l : Level)
    (f : Bus.Counters → Bus.Counters) : SameControls b (b.count l f) := controls_setLane ..

theorem controls_settle (b : Bus Delivery Alarm) (l : Level) : SameControls b (b.settle l) :=
  controls_count ..

theorem controls_offer (b : Bus Delivery Alarm) (l : Level) (d : Delivery) :
    SameControls b (b.offer l d).2 := by
  simp only [Bus.offer]
  split
  · exact controls_count ..
  · split
    · exact (controls_count ..).trans (controls_setLane ..)
    · exact (controls_count ..).trans (controls_count ..)

theorem controls_takeFrom? {l : Level} {d : Delivery} (h : b.takeFrom? l = some (d, b')) :
    SameControls b b' := by
  unfold Bus.takeFrom? at h
  split at h
  · cases h
  · cases h
    exact controls_setLane ..

theorem controls_publish (n : Node) (p : Publication) : SameControls n.bus (n.published p).bus := by
  simp only [Node.published, Node.publish]
  split
  · exact .refl
  · exact controls_offer ..

end Controls

/-! ## Publishing -/

/-- The hook of an alarm is called, if one is raised. -/
def Machine.ring (m : Machine) : Option Alarm → Machine
  | some alarm => m.call (.hook alarm.hook)
  | none => m

theorem alarmFor_published (n : Node) (p : Publication) (origin : Origin) :
    (n.published p).alarmFor origin = n.alarmFor origin := by
  cases origin with
  | task => exact (controls_publish n p).alarm
  | interrupt => rfl

theorem topicOf_published (n : Node) (p : Publication) (d : Delivery) :
    (n.published p).topicOf d = n.topicOf d := by
  simp only [Node.published, Node.publish]
  split <;> cases d <;> rfl

/-- A publication is announced, and the hook of the alarm that it raises is called before the
answer. -/
theorem publish_eq (m : Machine) (d : Delivery) (l : Level) (origin : Origin)
    (reply : Bool → Node → Reply) :
    let p : Publication := ⟨d, l, origin⟩
    m.publish d l origin reply = (announce m.node p,
      (({ m with node := m.node.published p }).push
        [.answer (reply (m.node.outcome p).isDone)]).ring (m.node.raised p)) := by
  intro p
  have halarm := alarmFor_published m.node p origin
  have hname := topicOf_published m.node p d
  simp only [Machine.publish, announce, Node.raised, Node.outcome, Node.published,
    Machine.push, p] at halarm hname ⊢
  cases (m.node.publish d l).1 with
  | unheard => rfl
  | queued => rfl
  | refused cause =>
    simp only [halarm, hname]
    cases m.node.alarmFor origin <;> rfl

@[simp] theorem Machine.ring_node (m : Machine) (raised : Option Alarm) :
    (m.ring raised).node = m.node := by
  cases raised <;> rfl

/-! ## Intents -/

/-- What an activity is about to do. -/
inductive Intent where
  | operation (o : Operation)
  | publication (p : Publication)
  /-- A tick advances its slot. -/
  | advance (slot : Nat) (now : UInt32) (period : UInt16)
  /-- A request is executed, and its notice told at once or published. -/
  | command (request : Command.Request) (atOnce : Bool)
  | other

/-- What an action is about to do. -/
def Action.intent : Action → Intent
  | .op o => .operation o
  | .publish topic slot level origin => .publication ⟨.tick topic slot, level, origin⟩
  | .publishNotice level origin => .publication ⟨.notice, level, origin⟩
  | .dispatch order atOnce _ =>
    match order.request with
    | .ok request => .command request atOnce
    | .error _ => .other
  | _ => .other

def Activity.intent : Activity → Intent
  | .act action => action.intent
  | .ticking _ slot period (.advancing now) => .advance slot now period
  | .ticking topic slot _ .publishing => .publication (.ofTick topic slot)
  | _ => .other

def Machine.intent (m : Machine) : Intent := (m.stack.head?.map Activity.intent).getD .other

/-- Nothing is recorded, or the end of an action. -/
def Ending (now : List Happening) : Prop :=
  now = [] ∨ ∃ who action reply, now = [.did who action reply]

/-- What comes of an intent: what is recorded, and the node afterwards. -/
inductive Deed (n : Node) : Intent → List Happening → Node → Prop where
  | operation {o : Operation} {now : List Happening} (ending : Ending now) :
      Deed n (.operation o) now (o.apply n).2
  | publication (p : Publication) : Deed n (.publication p) (announce n p) (n.published p)
  | advance (slot : Nat) (now : UInt32) (period : UInt16) :
      Deed n (.advance slot now period) [] (n.advance slot now period)
  | tell (request : Command.Request) : Deed n (.command request true) [] (n.execute request)
  | dispatch (request : Command.Request) :
      Deed n (.command request false) (announce (n.execute request) .ofCommand)
        ((n.execute request).published .ofCommand)
  | clock (now : UInt32) : Deed n .other [] { n with now }
  | take {l : Level} {d : Delivery} {bus : Bus Delivery Alarm}
      (taken : n.bus.takeFrom? l = some (d, bus)) : Deed n .other [.taken l d] { n with bus }
  | settle (l : Level) :
      Deed n .other [.settled l ((n.bus.settle l).queued l)] { n with bus := n.bus.settle l }
  | hear (s : Subscriber) (news : News) : Deed n .other [.heard s news] (n.hear news s)
  | pause : Deed n .other [.paused n.bus.wait] n
  | claim : Deed n .other [] { n with bus := n.bus.claim.2 }
  | rest {now : List Happening} (ending : Ending now) : Deed n .other now n

theorem Deed.nothing {n : Node} : Deed n .other [] n := .rest (.inl rfl)

/-! ## Steps and turns -/

theorem ending_conclude (m : Machine) (action : Action) (reply : Reply) :
    Ending (m.conclude action reply).1 := by
  rw [Machine.conclude]
  split
  · exact .inr ⟨_, _, _, rfl⟩
  · exact .inr ⟨_, _, _, rfl⟩
  · exact .inl rfl

theorem deed_tell (m : Machine) (news : News) (s : Subscriber) :
    Deed m.node .other (m.tell news s).1 (m.tell news s).2.node := by
  have hnode : (m.tell news s).2.node = m.node.hear news s := by
    simp only [Machine.tell]
    split <;> rfl
  rw [hnode]
  exact .hear s news

theorem deed_perform (m : Machine) (action : Action) :
    Deed m.node action.intent (m.perform action).1 (m.perform action).2.node := by
  cases action with
  | op o =>
    simp only [Machine.perform, conclude_node]
    exact .operation (ending_conclude _ _ _)
  | publish topic slot level origin =>
    simp only [Machine.perform]
    rw [publish_eq, Machine.ring_node]
    exact .publication _
  | publishNotice level origin =>
    simp only [Machine.perform]
    rw [publish_eq, Machine.ring_node]
    exact .publication _
  | run waits busy =>
    simp only [Machine.perform]
    split
    · exact .claim
    · exact .nothing
  | dispatch order atOnce stream =>
    simp only [Machine.perform, Action.intent]
    cases order.request with
    | error cause => exact .nothing
    | ok request =>
      cases atOnce with
      | true => exact .tell request
      | false =>
        simp only [Bool.false_eq_true, if_false]
        rw [publish_eq, Machine.ring_node]
        exact .dispatch request
  | setClock now action => exact .clock now
  | notify | tick | poll | drain | step | arm => exact .nothing

theorem deed_deliver {m : Machine} {n : Node} {l : Level} {d : Delivery}
    {bus : Bus Delivery Alarm} (taken : n.bus.takeFrom? l = some (d, bus)) (node : m.node = n) :
    Deed n .other (m.deliver l d bus).1 (m.deliver l d bus).2.node := by
  rw [Machine.deliver_eq, ← node]
  exact .take (node ▸ taken)

theorem deed_seek (m : Machine) (seeker : Seeker) (level : Level) :
    Deed m.node .other (m.seek seeker level).1 (m.seek seeker level).2.node := by
  rw [Machine.seek]
  split
  · exact deed_deliver ‹_› rfl
  · exact .nothing

theorem deed_tick (m : Machine) (topic slot : Nat) (period : UInt16) (stage : TickStage) :
    Deed m.node (Activity.ticking topic slot period stage).intent
      (m.tick topic slot period stage).1 (m.tick topic slot period stage).2.node := by
  cases stage with
  | advancing now => exact .advance slot now period
  | checking =>
    simp only [Machine.tick]
    split <;> exact .nothing
  | publishing =>
    simp only [Machine.tick]
    rw [publish_eq, Machine.ring_node]
    exact .publication (.ofTick topic slot)

theorem deed_work (m : Machine) (w : Worker) :
    Deed m.node .other (m.work w).1 (m.work w).2.node := by
  rw [Machine.work]
  dsimp only
  split
  · split
    · exact deed_deliver ‹_› rfl
    · exact .nothing
  · split
    · exact deed_deliver ‹_› rfl
    · exact .pause
  · exact .nothing
  · exact .nothing
  · split
    · exact .nothing
    · exact .nothing
    · split
      · exact deed_deliver ‹_› rfl
      · exact .nothing
  · split <;> exact .nothing

theorem deed_step {m : Machine} {result : List Happening × Machine}
    (h : m.step = some result) : Deed m.node m.intent result.1 result.2.node := by
  rw [Machine.step] at h
  split at h
  · cases h
  · rename_i top rest hstack
    cases h
    rw [Machine.intent, hstack]
    -- One case for each kind of activity, of which `act` and `ticking` alone have an intent.
    split
    · exact .nothing
    · exact .nothing
    · rename_i action
      exact deed_perform { m with stack := rest } action
    · exact .nothing
    · split
      · rw [conclude_node]
        exact .rest (ending_conclude _ _ _)
      · exact .nothing
    · exact .nothing
    · rename_i news s audience
      exact deed_tell ({ m with stack := rest }.push [.telling news audience]) news s
    · exact .settle _
    · rename_i seeker level
      exact deed_seek { m with stack := rest } seeker level
    · rename_i topic slot period stage
      exact deed_tick { m with stack := rest } topic slot period stage
    · rename_i w
      exact deed_work { m with stack := rest } w

def Parties.intent (p : Parties) : Turn → Intent
  | .step party => (p.ongoing[party]?.map fun stack => (p.machine stack).intent).getD .other
  | _ => .other

theorem deed_play (p : Parties) (turn : Turn) :
    Deed p.node (p.intent turn) (p.play turn).1 (p.play turn).2.node := by
  cases turn with
  | enter who script => exact .nothing
  | step party =>
    simp only [Parties.play, Parties.intent]
    cases hstack : p.ongoing[party]? with
    | none => exact .nothing
    | some stack =>
      simp only [Option.map_some, Option.bind_some, Option.getD_some]
      cases hstep : (p.machine stack).step with
      | none =>
        rw [Machine.intent, stack_of_step_eq_none hstep]
        exact .nothing
      | some result => exact deed_step hstep
  | allot party pending looks =>
    simp only [Parties.play, Parties.intent]
    split <;> exact .nothing

/-! ## The set-up of the bus -/

theorem started_apply (o : Operation) {n : Node} (h : n.bus.started = true) :
    (o.apply n).2.bus.started = true := by
  cases o with
  | start => rfl
  | register handler =>
    simp only [Operation.apply]
    split <;> exact h
  | putNotice key status data now =>
    simp only [Operation.apply]
    split <;> exact h
  | _ => exact h

theorem wait_apply (o : Operation) (n : Node) : (o.apply n).2.bus.wait = n.bus.wait := by
  cases o with
  | register handler =>
    simp only [Operation.apply]
    split <;> rfl
  | putNotice key status data now =>
    simp only [Operation.apply]
    split <;> rfl
  | _ => rfl

/-- Only operations change how a bus is set up. -/
theorem Deed.controls {n n' : Node} {i : Intent} {now : List Happening} (h : Deed n i now n')
    (hi : ∀ o, i ≠ .operation o) : SameControls n.bus n'.bus := by
  cases h with
  | operation _ => exact absurd rfl (hi _)
  | publication p => exact controls_publish n p
  | dispatch request => exact controls_publish (n.execute request) _
  | take taken => exact controls_takeFrom? taken
  | settle l => exact controls_settle n.bus l
  | hear s news =>
    rw [bus_hear]
    exact .refl
  | claim => exact ⟨rfl, rfl, rfl⟩
  | advance | tell _ | clock _ | pause | rest _ => exact ⟨rfl, rfl, rfl⟩

theorem Deed.started {n n' : Node} {i : Intent} {now : List Happening} (h : Deed n i now n')
    (hstarted : n.bus.started = true) : n'.bus.started = true := by
  cases i with
  | operation o =>
    cases h with
    | operation _ => exact started_apply o hstarted
  | publication | advance | command | other => rw [(h.controls nofun).started, hstarted]

theorem Deed.wait {n n' : Node} {i : Intent} {now : List Happening} (h : Deed n i now n') :
    n'.bus.wait = n.bus.wait := by
  cases i with
  | operation o =>
    cases h with
    | operation _ => exact wait_apply o n
  | publication | advance | command | other => exact (h.controls nofun).wait

/-- What no deed breaks is kept along a schedule. -/
theorem kept_run {P : Node → Prop} (hdeed : ∀ {n i now n'}, Deed n i now n' → P n → P n')
    {p : Parties} (h : P p.node) (turns : List Turn) : P (p.run turns).2.node := by
  induction turns generalizing p with
  | nil => exact h
  | cons turn turns ih => exact ih (hdeed (deed_play p turn) h)

theorem started_run {p : Parties} (h : p.node.bus.started = true) (turns : List Turn) :
    (p.run turns).2.node.bus.started = true :=
  kept_run (P := (·.bus.started = true)) Deed.started h turns

end Session

end NodeBus
