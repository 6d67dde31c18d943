import NodeBus.Board.Course
import NodeBus.Proofs.Board.Reply

/-!
# What the other tasks do to the command link

Nothing (`apart_step`): none of their steps changes the handlers or what has arrived,
and none sends a byte. The task that sets up the node registers the handlers
(`boot_spec`).
-/

namespace NodeBus.Board

/-! ## Steps apart from the link -/

/-- Whether a task is the command link or leads up to it. -/
def Task.isLink : Task → Bool
  | .boot | .linkStart | .link .. => true
  | _ => false

/-- A step that the link does not notice. -/
structure Apart (b : Board) (m : Moved) : Prop where
  catalogue : m.board.node.catalogue = b.node.catalogue
  inbox : m.board.inbox = b.inbox
  silent : transmitted m.seen = []
  task : m.task.toList.filter Task.isLink = []
  started : m.started = []

theorem apart_deliver (b : Board) (level : Level) (d : Delivery) (bus : Bus Delivery Alarm)
    {t : Task} (ht : t.isLink = false) :
    Apart b ⟨(b.deliver level d bus).1, (b.deliver level d bus).2, some t, []⟩ := by
  rw [deliver_eq]
  let n : Node := { b.node with bus }
  obtain ⟨counters, displays, htell⟩ := tell_eq n (n.newsOf d) (n.audience d)
  refine ⟨?_, rfl, transmitted_tell { b with node := n } _ _, by simp [ht], rfl⟩
  change (n.tell (n.newsOf d) (n.audience d)).catalogue = b.node.catalogue
  rw [htell]

theorem catalogue_publish (n : Node) (d : Delivery) (l : Level) :
    (n.publish d l).2.catalogue = n.catalogue := by
  rw [Node.publish]
  split <;> rfl

theorem apart_raise (b : Board) (cause : Refusal) (topic : String) :
    (b.raise cause topic).2.node = b.node ∧ (b.raise cause topic).2.inbox = b.inbox ∧
      transmitted (b.raise cause topic).1 = [] := by
  cases cause <;> exact ⟨rfl, rfl, rfl⟩

theorem apart_publish (b : Board) (slot : Nat) (level : Level) (origin : Origin) :
    (b.publish slot level origin).2.2.node.catalogue = b.node.catalogue ∧
      (b.publish slot level origin).2.2.inbox = b.inbox ∧
      transmitted (b.publish slot level origin).2.1 = [] := by
  have hcatalogue := catalogue_publish b.node (.tick timerTopic slot) level
  rw [publish]
  rcases hpublish : b.node.publish (.tick timerTopic slot) level with ⟨outcome, node⟩
  rw [hpublish] at hcatalogue
  dsimp only
  split
  · obtain ⟨hnode, hinbox, hsilent⟩ := apart_raise { b with node } _ _
    exact ⟨(congrArg Node.catalogue hnode).trans hcatalogue, hinbox, hsilent⟩
  · exact ⟨hcatalogue, rfl, rfl⟩

theorem apart_tick (b : Board) :
    b.tick.2.2.node.catalogue = b.node.catalogue ∧ b.tick.2.2.inbox = b.inbox ∧
      transmitted b.tick.2.1 = [] := by
  rw [tick]
  dsimp only
  split
  · exact apart_publish { b with node := b.node.advance timerSlot b.node.now b.tuning.period } ..
  · exact ⟨rfl, rfl, rfl⟩

theorem apart_step {b : Board} {t : Task} {m : Moved} (ht : t.isLink = false)
    (h : b.step t = some m) : Apart b m := by
  cases t with
  | boot => cases ht
  | linkStart => cases ht
  | link receiver unread => cases ht
  | workerStart =>
    simp only [step, workerStart, Option.some.injEq] at h
    split at h <;> subst h <;> exact ⟨rfl, rfl, rfl, rfl, rfl⟩
  | workerSweep =>
    simp only [step, workerSweep, Option.some.injEq] at h
    split at h
    · subst h
      exact apart_deliver b _ _ _ rfl
    · subst h
      exact ⟨rfl, rfl, rfl, rfl, rfl⟩
  | workerWait deadline =>
    simp only [step, workerWait] at h
    split at h
    · cases h
      exact apart_deliver b _ _ _ rfl
    · split at h
      · cases h
        exact ⟨rfl, rfl, rfl, rfl, rfl⟩
      · cases h
  | timerStart =>
    cases h
    exact ⟨rfl, rfl, rfl, rfl, rfl⟩
  | timer due =>
    simp only [step, timer] at h
    split at h
    · obtain ⟨hcatalogue, hinbox, hsilent⟩ := apart_tick b
      cases h
      refine ⟨hcatalogue, hinbox, ?_, rfl, rfl⟩
      rw [transmitted_append, hsilent]
      split <;> rfl
    · cases h
  | monitorStart =>
    cases h
    exact ⟨rfl, rfl, rfl, rfl, rfl⟩
  | monitor due =>
    simp only [step, monitor] at h
    split at h
    · cases h
      refine ⟨rfl, rfl, ?_, rfl, rfl⟩
      rw [statistics]
      dsimp only
      split <;> rfl
    · cases h

/-! ## Setting up -/

theorem attach_spec {b b' : Board} {attached : Bool × Node} {what : String} {seen : List Entry}
    (h : b.attach attached what = (seen, b')) :
    transmitted seen = [] ∧ b'.node = attached.2 ∧ b'.inbox = b.inbox := by
  cases h
  refine ⟨?_, rfl, rfl⟩
  split <;> rfl

/-- The handlers of a board find room in an empty catalogue. -/
theorem registerAll_spec {b b' : Board} {seen : List Entry} (h : b.node.catalogue = .empty)
    (hregister : b.registerAll handlers = (seen, b')) :
    transmitted seen = [] ∧ b'.node.catalogue.handlers = handlers ∧ b'.inbox = b.inbox := by
  simp only [handlers, registerAll, register, h] at hregister
  cases hregister
  exact ⟨rfl, rfl, rfl⟩

/-- Setting up ends and starts the other tasks. -/
theorem boot_tasks (b : Board) : b.boot.task = none ∧
    b.boot.started = [.workerStart, .timerStart, .linkStart, .monitorStart] := by
  rw [boot]
  exact ⟨rfl, rfl⟩

theorem boot_spec {b : Board} (h : b.node.catalogue = .empty) :
    transmitted b.boot.seen = [] ∧ b.boot.board.node.catalogue.handlers = handlers ∧
      b.boot.board.inbox = b.inbox := by
  rw [boot]
  rcases ({ b.node.bus with alarm := some alarm } : Bus Delivery Alarm).start with ⟨first, bus⟩
  dsimp only
  rcases hcounting : attach _ _ "counter" with ⟨counting, b₁⟩
  obtain ⟨hsilent₁, hnode₁, hinbox₁⟩ := attach_spec hcounting
  dsimp only
  rcases hkeeping : attach _ _ "clock display" with ⟨keeping, b₂⟩
  obtain ⟨hsilent₂, hnode₂, hinbox₂⟩ := attach_spec hkeeping
  dsimp only
  rcases hregister : b₂.registerAll handlers with ⟨registering, b₃⟩
  have hempty : b₂.node.catalogue = .empty := by
    rw [hnode₂]
    change b₁.node.catalogue = .empty
    rw [hnode₁]
    exact h
  obtain ⟨hsilent₃, hhandlers, hinbox₃⟩ := registerAll_spec hempty hregister
  refine ⟨?_, hhandlers, hinbox₃.trans (hinbox₂.trans hinbox₁)⟩
  have hagain : transmitted
      (if first = true then [] else [.warn "Dispatch engine already started"]) = [] := by
    cases first <;> rfl
  simp only [transmitted_append, hagain, hsilent₁, hsilent₂, hsilent₃]
  rfl

end NodeBus.Board
