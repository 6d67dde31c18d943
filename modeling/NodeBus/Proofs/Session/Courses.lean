import NodeBus.Proofs.Session.Deeds
import NodeBus.Proofs.Session.Nesting
import NodeBus.Session.Run

/-!
# Courses of a machine

A course is what happens from one state of a machine to another (`Machine.Reaches`). A course
above something that waits is the same course alone (`Reaches.onto`), and one that ends below is
made up of what goes on above and of the rest (`Reaches.split`). What a caller completes is
determined by how it begins (`Completes.unique`).
-/

namespace NodeBus.Session

/-- What callers do at their calls. -/
abbrev Reactions := Bank Caller Reaction

/-- A machine gets from one state to another, and this happens meanwhile. -/
inductive Machine.Reaches : Machine → List Happening → Machine → Prop where
  | refl (m : Machine) : Reaches m [] m
  | step {m m' m'' : Machine} {now past : List Happening} (first : m.step = some (now, m'))
      (later : Reaches m' past m'') : Reaches m (now ++ past) m''

namespace Machine

theorem stack_ne_nil_of_step {m : Machine} {result : List Happening × Machine}
    (h : m.step = some result) : m.stack ≠ [] := by
  intro hnil
  simp [step, hnil] at h

namespace Reaches

variable {m m' m'' : Machine} {past later : List Happening}

theorem single (h : m.step = some (past, m')) : Reaches m past m' := by
  have hreach := Reaches.step h (.refl m')
  rwa [List.append_nil] at hreach

theorem trans (h : Reaches m past m') (h' : Reaches m' later m'') :
    Reaches m (past ++ later) m'' := by
  induction h with
  | refl => exact h'
  | step first _ ih =>
    rw [List.append_assoc]
    exact .step first (ih h')

theorem wait (h : Reaches m past m') : m'.node.bus.wait = m.node.bus.wait := by
  induction h with
  | refl => rfl
  | step first _ ih => exact ih.trans (deed_step first).wait

theorem after_first {now : List Happening} (h : Reaches m past m'') (hne : m ≠ m'')
    (first : m.step = some (now, m')) : ∃ later, past = now ++ later ∧ Reaches m' later m'' := by
  cases h with
  | refl => exact absurd rfl hne
  | step first' later =>
    rw [first] at first'
    cases first'
    exact ⟨_, rfl, later⟩

theorem of_nil {n : Node} {r : Reactions} (h : Reaches ⟨n, r, []⟩ past m) :
    past = [] ∧ m = ⟨n, r, []⟩ := by
  cases h with
  | refl => exact ⟨rfl, rfl⟩
  | step first _ => cases first

section Base

variable {base : List Activity}

/-- What goes on below makes no difference. -/
theorem onto (hbase : Sealed base) (h : Reaches m past m') :
    Reaches (m.onto base) past (m'.onto base) := by
  induction h with
  | refl => exact .refl _
  | step first _ ih =>
    have honto := step_onto hbase (stack_ne_nil_of_step first)
    rw [first] at honto
    exact .step honto ih

/-- The first step above something that waits is a step alone. -/
theorem first_above (hbase : Sealed base) {n : Node} {r : Reactions} {above : List Activity}
    {now : List Happening} (habove : above ≠ [])
    (h : (⟨n, r, above ++ base⟩ : Machine).step = some (now, m)) :
    ∃ m', (⟨n, r, above⟩ : Machine).step = some (now, m') ∧ m = m'.onto base := by
  have honto := step_onto hbase (m := ⟨n, r, above⟩) habove
  change Machine.step ⟨n, r, above ++ base⟩ = _ at honto
  rw [h] at honto
  obtain ⟨⟨now', m'⟩, hstep, heq⟩ := Option.map_eq_some_iff.mp honto.symm
  cases heq
  exact ⟨m', hstep, rfl⟩

/-- A course that ends below has first ended what goes on above. -/
theorem split (hbase : Sealed base) (h : Reaches m past m') (above : List Activity)
    (hstack : m.stack = above ++ base) (hend : m'.stack.length < base.length) :
    ∃ told later n r, past = told ++ later ∧
      Reaches ⟨m.node, m.reactions, above⟩ told ⟨n, r, []⟩ ∧ Reaches ⟨n, r, base⟩ later m' := by
  induction h generalizing above with
  | refl m =>
    rw [hstack, List.length_append] at hend
    omega
  | @step m m₁ m' now past first later ih =>
    obtain ⟨n, r, stack⟩ := m
    dsimp only at hstack
    subst hstack
    cases above with
    | nil => exact ⟨[], now ++ past, n, r, rfl, .refl _, .step first later⟩
    | cons a above =>
      obtain ⟨m₂, hstep, rfl⟩ := first_above hbase (List.cons_ne_nil a above) first
      obtain ⟨told, later', n', r', rfl, htold, hlater⟩ := ih _ rfl hend
      exact ⟨now ++ told, later', n', r', (List.append_assoc ..).symm, .step hstep htold, hlater⟩

end Base

end Reaches

theorem reaches_runFrom (past : List Happening) (m : Machine) (fuel : Nat) :
    ∃ later, (m.runFrom past fuel).1 = past.reverse ++ later ∧
      Reaches m later (m.runFrom past fuel).2 := by
  induction fuel generalizing past m with
  | zero => exact ⟨[], (List.append_nil _).symm, .refl m⟩
  | succ fuel ih =>
    cases hstep : m.step with
    | none =>
      simp only [runFrom, hstep]
      exact ⟨[], (List.append_nil _).symm, .refl m⟩
    | some result =>
      obtain ⟨now, m'⟩ := result
      obtain ⟨later, hseen, hlater⟩ := ih (now.reverse ++ past) m'
      simp only [runFrom, hstep]
      refine ⟨now ++ later, ?_, .step hstep hlater⟩
      rw [hseen, List.reverse_append, List.reverse_reverse, List.append_assoc]

end Machine

/-! ## What a caller completes -/

/-- A caller completes what it has going on. -/
def Completes (who : Caller) (start : List Activity) (n : Node) (r : Reactions)
    (past : List Happening) (n' : Node) (r' : Reactions) : Prop :=
  Machine.Reaches ⟨n, r, start ++ [.code who []]⟩ past ⟨n', r', [.code who []]⟩

/-- A caller performs an action, which answers. -/
def Performs (who : Caller) (action : Action) (n : Node) (r : Reactions) (past : List Happening)
    (reply : Reply) (n' : Node) (r' : Reactions) : Prop :=
  Completes who [.act action] n r (past ++ [.did who action reply]) n' r'

section Unique

variable {who : Caller} {n n' n'' : Node} {r r' r'' : Reactions} {past past' : List Happening}

/-- A course that comes to its end is the only one from its beginning that does. -/
theorem ends_unique {m : Machine} (h : m.Reaches past ⟨n', r', []⟩)
    (h' : m.Reaches past' ⟨n'', r'', []⟩) : past' = past ∧ n'' = n' ∧ r'' = r' := by
  generalize hm : (⟨n', r', []⟩ : Machine) = last at h
  induction h generalizing past' with
  | refl =>
    subst hm
    obtain ⟨rfl, heq⟩ := h'.of_nil
    cases heq
    exact ⟨rfl, rfl, rfl⟩
  | step first later ih =>
    obtain ⟨later', rfl, hlater'⟩ := h'.after_first (by rintro rfl; cases first) first
    obtain ⟨rfl, hn, hr⟩ := ih hlater' hm
    exact ⟨rfl, hn, hr⟩

theorem reaches_unique {m : Machine} (h : m.Reaches past ⟨n', r', [.code who []]⟩)
    (h' : m.Reaches past' ⟨n'', r'', [.code who []]⟩) : past' = past ∧ n'' = n' ∧ r'' = r' := by
  -- A caller with nothing left to do ends in one step, of which nothing is recorded.
  have hend (n : Node) (r : Reactions) :
      Machine.Reaches ⟨n, r, [.code who []]⟩ [] ⟨n, r, []⟩ := .single rfl
  have hunique := ends_unique (h.trans (hend n' r')) (h'.trans (hend n'' r''))
  rwa [List.append_nil, List.append_nil] at hunique

theorem Completes.unique {start : List Activity} (h : Completes who start n r past n' r')
    (h' : Completes who start n r past' n'' r'') : past' = past ∧ n'' = n' ∧ r'' = r' :=
  reaches_unique h h'

end Unique

end NodeBus.Session
