import Mathlib.Data.Set.Card
import NodeBus.Roster

/-!
# A roster is a map in order of joining

What was asked of a roster and answered says who is in it, since when and with which
context: `standing` is this map, read off the calls alone. A roster refines it (`Refines`) if
its entries are those of the map in the order of their times; `refines_apply` is that every
call keeps this.

`Joins` and `Leaves` are what one call makes of a roster that refines some map.
-/

namespace NodeBus.Roster

/-- What is asked of a roster. -/
inductive Call (κ γ : Type) where
  | join (listener : κ) (context : γ)
  | leave (listener : κ)
  deriving DecidableEq, Repr

variable {κ γ : Type} [DecidableEq κ]

/-- What a roster answers to a call, and the roster afterwards. -/
def Call.apply (r : Roster κ γ) : Call κ γ → Bool × Roster κ γ
  | join listener context => r.subscribe listener context
  | leave listener => r.unsubscribe listener

/-! ## The map -/

/-- Since when a listener is in a roster, and with which context, after calls of which the
latest comes first. A time is the number of calls before. -/
def standing (l : κ) : List (Call κ γ × Bool) → Option (Nat × γ)
  | [] => none
  | (.join l' c, true) :: past =>
    if l' = l then some (((standing l past).map Prod.fst).getD past.length, c) else standing l past
  | (.leave l', true) :: past => if l' = l then none else standing l past
  | (_, false) :: past => standing l past

/-- The time since when a listener is in a roster, if it is. -/
def joinedAt (l : κ) (past : List (Call κ γ × Bool)) : Nat :=
  ((standing l past).map Prod.fst).getD 0

/-- The listeners in a roster. -/
def members (past : List (Call κ γ × Bool)) : Set κ := {l | (standing l past).isSome}

section Standing

variable {past : List (Call κ γ × Bool)} {l : κ}

theorem joinedAt_of_standing {t : Nat} {c : γ} (h : standing l past = some (t, c)) :
    joinedAt l past = t := by
  simp [joinedAt, h]

@[simp] theorem standing_refused (call : Call κ γ) :
    standing l ((call, false) :: past) = standing l past := by
  cases call <;> rfl

@[simp] theorem standing_leave (l' : κ) :
    standing l ((.leave l', true) :: past) = if l' = l then none else standing l past := rfl

theorem standing_join_of_ne {l' : κ} (h : l' ≠ l) (c : γ) :
    standing l ((.join l' c, true) :: past) = standing l past := if_neg h

theorem standing_join_of_none (h : standing l past = none) (c : γ) :
    standing l ((.join l c, true) :: past) = some (past.length, c) := by
  simp [standing, h]

theorem standing_join_of_some {t : Nat} {c' : γ} (h : standing l past = some (t, c')) (c : γ) :
    standing l ((.join l c, true) :: past) = some (t, c) := by
  simp [standing, h]

theorem time_lt {t : Nat} {c : γ} (h : standing l past = some (t, c)) : t < past.length := by
  induction past generalizing c with
  | nil => cases h
  | cons call past ih =>
    rw [List.length_cons]
    obtain ⟨call, answer⟩ := call
    cases answer with
    | false =>
      rw [standing_refused] at h
      exact Nat.lt_succ_of_lt (ih h)
    | true =>
      cases call with
      | leave l' =>
        rw [standing_leave] at h
        split at h
        · cases h
        · exact Nat.lt_succ_of_lt (ih h)
      | join l' c' =>
        by_cases hl : l' = l
        · subst hl
          cases hbefore : standing l' past with
          | none =>
            rw [standing_join_of_none hbefore] at h
            cases h
            exact Nat.lt_succ_self _
          | some before =>
            rw [standing_join_of_some hbefore] at h
            cases h
            exact Nat.lt_succ_of_lt (ih hbefore)
        · rw [standing_join_of_ne hl] at h
          exact Nat.lt_succ_of_lt (ih h)

end Standing

/-! ## Refinement -/

/-- The entries of a roster are those of the map, in the order of their times. -/
structure Refines (r : Roster κ γ) (past : List (Call κ γ × Bool)) : Prop where
  entries : ∀ l c, (l, c) ∈ r.entries ↔ ∃ t, standing l past = some (t, c)
  ordered : r.entries.Pairwise fun a b => joinedAt a.1 past < joinedAt b.1 past
  bounded : r.size ≤ 4

theorem refines_empty : (empty : Roster κ γ).Refines [] :=
  ⟨fun l c => by simp [empty, standing], .nil, Nat.zero_le _⟩

section Refines

variable {r : Roster κ γ} {past : List (Call κ γ × Bool)}

theorem Refines.mem_listeners_iff (h : r.Refines past) (l : κ) :
    l ∈ r.listeners ↔ ∃ t c, standing l past = some (t, c) := by
  simp only [listeners, List.mem_map, Prod.exists, h.entries]
  constructor
  · rintro ⟨l', c, ⟨t, ht⟩, rfl⟩
    exact ⟨t, c, ht⟩
  · rintro ⟨t, c, ht⟩
    exact ⟨l, c, ⟨t, ht⟩, rfl⟩

theorem Refines.nodup (h : r.Refines past) : r.listeners.Nodup := by
  rw [listeners, List.nodup_iff_pairwise_ne, List.pairwise_map]
  exact h.ordered.imp fun hlt heq => by
    rw [heq] at hlt
    exact Nat.lt_irrefl _ hlt

theorem Refines.ncard_members (h : r.Refines past) : (members past).ncard = r.size := by
  have hset : members past = (r.listeners.toFinset : Set κ) := by
    ext l
    simp [members, h.mem_listeners_iff, Option.isSome_iff_exists]
  rw [hset, Set.ncard_coe_finset, List.toFinset_card_of_nodup h.nodup, length_listeners]

theorem Refines.refused (h : r.Refines past) (call : Call κ γ) :
    r.Refines ((call, false) :: past) := by
  refine ⟨fun l c => by rw [standing_refused, h.entries], ?_, h.bounded⟩
  simpa only [joinedAt, standing_refused] using h.ordered

theorem Refines.join_again {l : κ} (h : r.Refines past) (hl : l ∈ r.listeners) (c : γ) :
    Refines ⟨r.entries.map fun e => if e.1 = l then (l, c) else e⟩ ((.join l c, true) :: past) := by
  obtain ⟨t, c₀, ht⟩ := (h.mem_listeners_iff l).mp hl
  have hnow := standing_join_of_some ht c
  -- The listeners and their times are what they were.
  have hfst (e : κ × γ) : (if e.1 = l then (l, c) else e).1 = e.1 := by
    split
    · rename_i he
      exact he.symm
    · rfl
  have htime (l' : κ) : joinedAt l' ((.join l c, true) :: past) = joinedAt l' past := by
    by_cases hl' : l = l'
    · subst hl'
      rw [joinedAt_of_standing hnow, joinedAt_of_standing ht]
    · rw [joinedAt, standing_join_of_ne hl', joinedAt]
  refine ⟨fun l' c' => ?_, ?_, ?_⟩
  · by_cases hl' : l = l'
    · subst hl'
      have hmem := (h.entries l c₀).mpr ⟨t, ht⟩
      simp only [hnow, List.mem_map]
      grind
    · simp only [standing_join_of_ne hl', ← h.entries, List.mem_map]
      grind
  · rw [List.pairwise_map]
    simpa only [hfst, htime] using h.ordered
  · simpa [size] using h.bounded

theorem Refines.join_new {l : κ} (h : r.Refines past) (hl : l ∉ r.listeners)
    (hroom : r.size < 4) (c : γ) :
    Refines ⟨r.entries ++ [(l, c)]⟩ ((.join l c, true) :: past) := by
  have hnone : standing l past = none := by
    simpa [h.mem_listeners_iff, Option.eq_none_iff_forall_ne_some] using hl
  have hnow := standing_join_of_none hnone c
  have hne {l' : κ} {c' : γ} (hmem : (l', c') ∈ r.entries) : l ≠ l' := by
    rintro rfl
    exact hl (List.mem_map_of_mem (f := Prod.fst) hmem)
  have htime {e : κ × γ} (hmem : e ∈ r.entries) :
      joinedAt e.1 ((.join l c, true) :: past) = joinedAt e.1 past := by
    rw [joinedAt, standing_join_of_ne (hne hmem), joinedAt]
  refine ⟨fun l' c' => ?_, ?_, ?_⟩
  · by_cases hl' : l = l'
    · subst hl'
      have hnotMem (hmem : (l, c') ∈ r.entries) : False := hne hmem rfl
      simp only [hnow, List.mem_append, List.mem_singleton]
      grind
    · rw [standing_join_of_ne hl', ← h.entries, List.mem_append, List.mem_singleton]
      grind
  · rw [List.pairwise_append]
    refine ⟨?_, List.pairwise_singleton _ _, fun a ha b hb => ?_⟩
    · exact h.ordered.imp_of_mem fun ha hb hlt => by rwa [htime ha, htime hb]
    · -- It joins after all the others.
      obtain rfl := List.mem_singleton.mp hb
      obtain ⟨t, ht⟩ := (h.entries a.1 a.2).mp ha
      rw [htime ha, joinedAt_of_standing ht, joinedAt_of_standing hnow]
      exact time_lt ht
  · rw [size, List.length_append]
    exact hroom

theorem eraseP_eq_filter {entries : List (κ × γ)} (h : (entries.map Prod.fst).Nodup) (l : κ) :
    entries.eraseP (·.1 = l) = entries.filter (·.1 ≠ l) := by
  induction entries with
  | nil => rfl
  | cons e rest ih =>
    rw [List.map_cons, List.nodup_cons] at h
    by_cases he : e.1 = l
    · have hrest : rest.filter (·.1 ≠ l) = rest := by
        rw [List.filter_eq_self]
        intro e' he'
        have hne : e'.1 ≠ l := fun heq => h.1 (he ▸ heq ▸ List.mem_map_of_mem he')
        simp [hne]
      -- It is there once, so that the first one is the only one.
      rw [List.eraseP_cons_of_pos (by simpa using he), List.filter_cons_of_neg (by simp [he]),
        hrest]
    · simp [he, ih h.2]

theorem Refines.leave {l : κ} (h : r.Refines past) :
    Refines ⟨r.entries.eraseP (·.1 = l)⟩ ((.leave l, true) :: past) := by
  rw [eraseP_eq_filter h.nodup]
  have htime {e : κ × γ} (hmem : e ∈ r.entries.filter (·.1 ≠ l)) :
      joinedAt e.1 ((.leave l, true) :: past) = joinedAt e.1 past := by
    have hne : l ≠ e.1 := fun heq => by simp [← heq] at hmem
    simp only [joinedAt, standing_leave, if_neg hne]
  refine ⟨fun l' c' => ?_, ?_, ?_⟩
  · simp only [List.mem_filter, standing_leave, h.entries]
    grind
  · exact (h.ordered.filter _).imp_of_mem fun ha hb hlt => by rwa [htime ha, htime hb]
  · exact Nat.le_trans (List.length_filter_le _ _) h.bounded

/-- Every call keeps a roster that refines a map such a roster. -/
theorem refines_apply (h : r.Refines past) (call : Call κ γ) :
    (call.apply r).2.Refines ((call, (call.apply r).1) :: past) := by
  cases call with
  | join l c =>
    simp only [Call.apply, subscribe]
    split
    · rename_i hl
      exact h.join_again hl c
    · rename_i hl
      split
      · rename_i hroom
        exact h.join_new hl hroom c
      · exact h.refused _
  | leave l =>
    simp only [Call.apply, unsubscribe]
    split
    · exact h.leave
    · exact h.refused _

/-! ## What a call makes of a roster -/

/-- What becomes of a roster where a listener joins: it is refused if there are four others,
and then nothing changes; it keeps its place if it has one, and is the last otherwise. -/
structure Joins (r : Roster κ γ) (l : κ) (c : γ) (answer : Bool) (r' : Roster κ γ) : Prop where
  refused_iff : answer = false ↔ (r.listeners.filter (· ≠ l)).length = 4
  refused : answer = false → r' = r
  again : l ∈ r.listeners → r'.entries = r.entries.map fun e => if e.1 = l then (l, c) else e
  anew : answer = true → l ∉ r.listeners → r'.entries = r.entries ++ [(l, c)]

/-- What becomes of a roster where a listener leaves: it alone is removed, if it is there. -/
structure Leaves (r : Roster κ γ) (l : κ) (answer : Bool) (r' : Roster κ γ) : Prop where
  refused_iff : answer = false ↔ l ∉ r.listeners
  refused : answer = false → r' = r
  others : r'.entries = r.entries.filter (·.1 ≠ l)

/-- The others are all, or all but one. -/
theorem Refines.length_others (h : r.Refines past) (l : κ) :
    (r.listeners.filter (· ≠ l)).length = if l ∈ r.listeners then r.size - 1 else r.size := by
  rw [← length_listeners]
  split
  · rename_i hl
    rw [← List.length_erase_of_mem hl, h.nodup.erase_eq_filter]
    refine congrArg List.length (List.filter_congr fun l' _ => ?_)
    by_cases hl' : l' = l <;> simp [hl']
  · rename_i hl
    rw [List.filter_eq_self.mpr]
    intro l' hl'
    have hne : l' ≠ l := fun heq => hl (heq ▸ hl')
    simpa using hne

theorem Refines.joins (h : r.Refines past) (l : κ) (c : γ) :
    Joins r l c (r.subscribe l c).1 (r.subscribe l c).2 := by
  have hothers := h.length_others l
  have hbounded := h.bounded
  simp only [subscribe]
  split
  · rename_i hl
    rw [if_pos hl] at hothers
    have hpos : 0 < r.size := by
      rw [← length_listeners]
      exact List.length_pos_of_mem hl
    refine ⟨?_, by simp, fun _ => rfl, fun _ hnot => absurd hl hnot⟩
    rw [hothers]
    exact ⟨by simp, by omega⟩
  · rename_i hl
    rw [if_neg hl] at hothers
    split
    · rename_i hroom
      have hless : r.size < 4 := hroom
      refine ⟨?_, by simp, fun hin => absurd hin hl, fun _ _ => rfl⟩
      rw [hothers]
      exact ⟨by simp, by omega⟩
    · rename_i hfull
      have hmost : ¬ r.size < 4 := hfull
      refine ⟨?_, fun _ => rfl, fun hin => absurd hin hl, by simp⟩
      rw [hothers]
      exact ⟨fun _ => by omega, fun _ => rfl⟩

theorem Refines.leaves (h : r.Refines past) (l : κ) :
    Leaves r l (r.unsubscribe l).1 (r.unsubscribe l).2 := by
  simp only [unsubscribe]
  split
  · rename_i hl
    exact ⟨by simpa using hl, by simp, eraseP_eq_filter h.nodup l⟩
  · rename_i hl
    refine ⟨by simpa using hl, fun _ => rfl, (List.filter_eq_self.mpr fun e he => ?_).symm⟩
    have hne : e.1 ≠ l := fun heq => hl (heq ▸ List.mem_map_of_mem he)
    simpa using hne

end Refines

end NodeBus.Roster
