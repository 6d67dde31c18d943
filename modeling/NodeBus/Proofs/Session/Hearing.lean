import NodeBus.Proofs.Session.Commands
import NodeBus.Proofs.Session.Rosters

/-! # Who hears of news

`Tells` is what a turn does to the counts and displays of a node: it begins an operation, or tells
one listener, or leaves them as they are and tells nobody. What they show is gathered from this turn
by turn (`gather_run`). -/

namespace NodeBus.Session

def Intent.operation? : Intent → Option Operation
  | .operation o => some o
  | _ => none

theorem Activity.operation?_intent (a : Activity) : a.intent.operation? = a.operation? := by
  cases a with
  | act action =>
    cases action with
    | dispatch order atOnce stream =>
      simp only [Activity.intent, Action.intent]
      split <;> rfl
    | _ => rfl
  | ticking topic slot period stage => cases stage <;> rfl
  | _ => rfl

theorem operation?_intent (p : Parties) (turn : Turn) :
    (p.intent turn).operation? = p.operation? turn := by
  cases turn with
  | step party =>
    simp only [Parties.intent, Parties.operation?]
    rcases p.ongoing[party]? with _ | _ | ⟨a, rest⟩
    · rfl
    · rfl
    · exact a.operation?_intent
  | _ => rfl

/-- Nobody is told. -/
def NobodyHears (now : List Happening) : Prop := ∀ s news, .heard s news ∉ now

theorem nobodyHears_of_ending {now : List Happening} (h : Ending now) : NobodyHears now := by
  intro s news
  rcases h with rfl | ⟨who, action, reply, rfl⟩ <;> simp

theorem nobodyHears_announce (n : Node) (p : Publication) : NobodyHears (announce n p) := by
  intro s news
  rw [announce]
  split <;> simp

inductive Tells (n : Node) : Option Operation → List Happening → Node → Prop where
  | operation (o : Operation) {now : List Happening} (unheard : NobodyHears now) :
      Tells n (some o) now (o.apply n).2
  | listener (s : Subscriber) (news : News) : Tells n none [.heard s news] (n.hear news s)
  | nobody {now : List Happening} {n' : Node} (unheard : NobodyHears now)
      (counters : n'.counters = n.counters) (displays : n'.displays = n.displays) :
      Tells n none now n'

theorem tells_announce {n n' : Node} (p : Publication) (counters : n'.counters = n.counters)
    (displays : n'.displays = n.displays) : Tells n none (announce n' p) (n'.published p) := by
  rw [published_eq]
  exact .nobody (nobodyHears_announce n' p) counters displays

theorem Deed.tells {n n' : Node} {i : Intent} {now : List Happening} (h : Deed n i now n') :
    Tells n i.operation? now n' := by
  cases h with
  | operation ending => exact .operation _ (nobodyHears_of_ending ending)
  | hear s news => exact .listener s news
  | publication | dispatch => exact tells_announce _ rfl rfl
  | rest ending => exact .nobody (nobodyHears_of_ending ending) rfl rfl
  | advance | tell | clock | take | settle | pause | claim =>
    exact .nobody (by simp [NobodyHears]) rfl rfl

theorem tells_play (p : Parties) (turn : Turn) :
    Tells p.node (p.operation? turn) (p.play turn).1 (p.play turn).2.node := by
  rw [← operation?_intent]
  exact (deed_play p turn).tells

/-! ## Gathering along a schedule -/

section Gather

variable {α : Type} (f : α → List Happening → Option Operation → α)

/-- What is gathered turn by turn, from the operation that a turn begins and what it records. -/
def Parties.gather (p : Parties) (past : α) : List Turn → α
  | [] => past
  | turn :: turns => (p.play turn).2.gather (f past (p.play turn).1 (p.operation? turn)) turns

theorem gather_run {f : α → List Happening → Option Operation → α} {P : Node → α → Prop}
    (htells : ∀ {n o now n' past}, Tells n o now n' → P n past → P n' (f past now o))
    {p : Parties} {past : α} (h : P p.node past) (turns : List Turn) :
    P (p.run turns).2.node (p.gather f past turns) := by
  induction turns generalizing p past with
  | nil => exact h
  | cons turn turns ih => exact ih (htells (tells_play p turn) h)

end Gather

end NodeBus.Session
