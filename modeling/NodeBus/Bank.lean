/-!
# Banks

A bank holds a value under every key. All but finitely many keys hold the same
value, so that every key may be read and written. `get_set` is all there is to
know about writing.
-/

namespace NodeBus

/-- Values by key: `cells` for those that were written, `rest` for all others. -/
structure Bank (κ α : Type) where
  cells : List (κ × α)
  rest : α
  deriving Repr

namespace Bank

variable {κ α : Type} [DecidableEq κ]

/-- The same value under every key. -/
def filled (a : α) : Bank κ α := ⟨[], a⟩

/-- The value under a key. -/
def get (b : Bank κ α) (k : κ) : α := ((b.cells.find? (·.1 = k)).map Prod.snd).getD b.rest

/-- Put a value under a key. -/
def set (b : Bank κ α) (k : κ) (a : α) : Bank κ α :=
  { b with cells := (k, a) :: b.cells.filter (·.1 ≠ k) }

/-- Change the value under a key. -/
def modify (b : Bank κ α) (k : κ) (f : α → α) : Bank κ α := b.set k (f (b.get k))

@[simp] theorem get_filled (a : α) (k : κ) : (filled a : Bank κ α).get k = a := rfl

@[simp] theorem get_set (b : Bank κ α) (k l : κ) (a : α) :
    (b.set k a).get l = if l = k then a else b.get l := by
  by_cases h : l = k
  · simp [get, set, h]
  · have hk : k ≠ l := fun e => h e.symm
    have : (b.cells.filter (·.1 ≠ k)).find? (·.1 = l) = b.cells.find? (·.1 = l) := by
      rw [List.find?_filter]
      congr 1
      funext c
      by_cases hc : c.1 = l <;> simp_all
    simp only [get, set, List.find?_cons, hk, decide_false, this, h, if_false]

@[simp] theorem get_modify (b : Bank κ α) (k l : κ) (f : α → α) :
    (b.modify k f).get l = if l = k then f (b.get l) else b.get l := by
  simp only [modify, get_set]
  split <;> simp_all

end Bank

end NodeBus
