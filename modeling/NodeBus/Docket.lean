import NodeBus.Node

/-!
# Queue entries without types

In the queues a delivery stands as a `Docket`: two references that do not say what they refer
to, with an opener for values of one type. The opener drops a docket whose references are not
of its type (`Docket.open?`); a publication makes no such docket (`open?_docket`).
-/

namespace NodeBus

/-- The types of the values that are published. -/
inductive ValueType where
  | tick
  | notice
  deriving DecidableEq

/-- What a reference without a type refers to. -/
inductive Reference where
  | ticks (topic : Nat)
  | notices
  | slot (i : Nat)
  | lastNotice
  deriving DecidableEq

namespace Reference

/-- The topic for values of a type. -/
def topic? (n : Node) : ValueType → Reference → Option Topic
  | .tick, ticks topic => some (n.topics.get topic)
  | .notice, notices => some n.noticeTopic
  | _, _ => none

/-- The value of a type, as of now. -/
def value? (n : Node) : ValueType → Reference → Option News
  | .tick, slot i => some (.tick (n.slots.get i))
  | .notice, lastNotice => some (.notice n.notice)
  | _, _ => none

end Reference

/-- What stands in a queue. -/
structure Docket where
  opener : ValueType
  topic : Reference
  value : Reference
  deriving DecidableEq

/-- What is told and whom, unless the docket is dropped. -/
def Docket.open? (n : Node) (c : Docket) : Option (News × List Subscriber) := do
  let topic ← c.topic.topic? n c.opener
  let news ← c.value.value? n c.opener
  return (news, topic.roster.entries)

/-- The docket that a publication makes. -/
def Delivery.docket : Delivery → Docket
  | tick topic slot => ⟨.tick, .ticks topic, .slot slot⟩
  | notice => ⟨.notice, .notices, .lastNotice⟩

theorem open?_docket (n : Node) (d : Delivery) :
    d.docket.open? n = some (n.newsOf d, n.audience d) := by
  cases d <;> rfl

/-- The dockets that are not dropped are those that publications make. -/
theorem isSome_open?_iff (n : Node) (c : Docket) :
    (c.open? n).isSome ↔ ∃ d : Delivery, d.docket = c := by
  constructor
  · intro h
    obtain ⟨opener, topic, value⟩ := c
    cases opener with
    | tick =>
      cases topic with
      | ticks i =>
        cases value with
        | slot j => exact ⟨.tick i j, rfl⟩
        | _ => cases h
      | _ => cases h
    | notice =>
      cases topic with
      | notices =>
        cases value with
        | lastNotice => exact ⟨.notice, rfl⟩
        | _ => cases h
      | _ => cases h
  · rintro ⟨d, rfl⟩
    simp [open?_docket]

end NodeBus
