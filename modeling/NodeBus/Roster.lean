/-!
# Rosters

A roster lists the listeners of a topic, each with the context it asked for, in
the order in which they joined. It has room for four.
-/

namespace NodeBus

/-- Listeners `κ` with their contexts `γ`, in order of joining. -/
structure Roster (κ γ : Type) where
  entries : List (κ × γ)
  deriving Repr

namespace Roster

variable {κ γ : Type}

/-- The most listeners of a topic. -/
def capacity : Nat := 4

def empty : Roster κ γ := ⟨[]⟩

def size (r : Roster κ γ) : Nat := r.entries.length

/-- The listeners in order of joining. -/
def listeners (r : Roster κ γ) : List κ := r.entries.map Prod.fst

@[simp] theorem length_listeners (r : Roster κ γ) : r.listeners.length = r.size := by
  simp [listeners, size]

variable [DecidableEq κ]

/-- Join with a context. A listener that is in the roster keeps its place and
gets the new context; a new one is refused when the roster is full. -/
def subscribe (r : Roster κ γ) (listener : κ) (context : γ) : Bool × Roster κ γ :=
  if listener ∈ r.listeners then
    (true, ⟨r.entries.map fun e => if e.1 = listener then (listener, context) else e⟩)
  else if r.size < capacity then (true, ⟨r.entries ++ [(listener, context)]⟩)
  else (false, r)

/-- Leave; the others keep their order. -/
def unsubscribe (r : Roster κ γ) (listener : κ) : Bool × Roster κ γ :=
  if listener ∈ r.listeners then (true, ⟨r.entries.eraseP (·.1 = listener)⟩) else (false, r)

/-! ## The listeners after each operation -/

/-- Joining again changes no listener. -/
theorem listeners_subscribe_of_mem {r : Roster κ γ} {l : κ} (c : γ) (h : l ∈ r.listeners) :
    (r.subscribe l c).2.listeners = r.listeners := by
  simp only [subscribe, h, if_true]
  simp only [listeners, List.map_map]
  apply List.map_congr_left
  intro e _
  by_cases he : e.1 = l <;> simp [he]

/-- A new listener joins behind the others if there is room. -/
theorem listeners_subscribe_of_notMem {r : Roster κ γ} {l : κ} (c : γ) (h : l ∉ r.listeners) :
    (r.subscribe l c).2.listeners =
      if r.size < capacity then r.listeners ++ [l] else r.listeners := by
  simp only [subscribe, h, if_false]
  split <;> simp [listeners]

/-- Leaving removes the listener alone. -/
theorem listeners_unsubscribe (r : Roster κ γ) (l : κ) :
    (r.unsubscribe l).2.listeners = r.listeners.erase l := by
  unfold unsubscribe
  split
  · simp only [listeners]
    induction r.entries with
    | nil => rfl
    | cons e rest ih => by_cases he : e.1 = l <;> simp [he, ih]
  · rename_i h
    exact (List.erase_of_not_mem h).symm

end Roster

end NodeBus
