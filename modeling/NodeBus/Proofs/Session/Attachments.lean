import NodeBus.Proofs.Session.Hearing
import NodeBus.Proofs.Session.Pending

/-! # Counters that share a topic

All counters listen as one listener. So a topic has one place for them, which belongs to the
counter that was attached last (`current`), until any of them is detached. A delivery is counted
once, by the counter that has the place when it begins (`told_run`). -/

namespace NodeBus.Roster

variable {κ γ : Type} [DecidableEq κ]

/-- The context of the last call to be granted by which a listener joined, unless it left since. -/
def current (l : κ) : List (Call κ γ × Bool) → Option γ
  | [] => none
  | (.join l' c, true) :: past => if l' = l then some c else current l past
  | (.leave l', true) :: past => if l' = l then none else current l past
  | (_, false) :: past => current l past

theorem current_eq (l : κ) (past : List (Call κ γ × Bool)) :
    current l past = (standing l past).map Prod.snd := by
  induction past with
  | nil => rfl
  | cons asked past ih =>
    obtain ⟨call, answer⟩ := asked
    cases answer with
    | false => cases call <;> exact ih
    | true =>
      cases call with
      | join l' c =>
        simp only [current, standing, ih]
        split <;> rfl
      | leave l' =>
        simp only [current, standing, ih]
        split <;> rfl

theorem Refines.count_entries [DecidableEq γ] {r : Roster κ γ} {past : List (Call κ γ × Bool)}
    (h : r.Refines past) (l : κ) (c : γ) :
    r.entries.count (l, c) = if current l past = some c then 1 else 0 := by
  have hmem : (l, c) ∈ r.entries ↔ current l past = some c := by
    simp [h.entries, current_eq]
  have hnodup : r.entries.Nodup := .of_map Prod.fst h.nodup
  simp only [hnodup.count, hmem]

end NodeBus.Roster

namespace NodeBus.Session

open Roster (Call current)

/-! ## Counts -/

/-- As whom a counter listens. -/
def asCounter (i : Nat) : Subscriber := (.counting, .counter i)

/-- How often a counter was told of a tick since it was last reset, after a turn that began an
operation or recorded what was heard. -/
def counted (i : Nat) (past : Nat) (now : List Happening) : Option Operation → Nat
  | some (.resetCount i') => if i' = i then 0 else past
  | some _ => past
  | none => past + (told now).count (asCounter i)

def Parties.counts (p : Parties) (i : Nat) : List Turn → Nat := p.gather (counted i) 0

/-- A counter shows how often it was told. -/
def Tallies (n : Node) (i past : Nat) : Prop := n.counters.get i = .ofNat past

section Tallies

variable {n : Node} {i past : Nat}

theorem tallies_apply (h : Tallies n i past) (o : Operation) (now : List Happening) :
    Tallies (o.apply n).2 i (counted i past now (some o)) := by
  cases o with
  | resetCount i' =>
    simp only [Tallies, Operation.apply, counted, Bank.get_set]
    by_cases hi : i' = i
    · rw [if_pos hi, if_pos hi.symm]
      rfl
    · rw [if_neg hi, if_neg (Ne.symm hi)]
      exact h
  | register handler =>
    simp only [Operation.apply]
    split <;> exact h
  | putNotice key status data now =>
    simp only [Operation.apply]
    split <;> exact h
  | _ => exact h

theorem told_of_nobodyHears {now : List Happening} (h : NobodyHears now) : told now = [] := by
  refine List.filterMap_eq_nil_iff.mpr fun a ha => ?_
  cases a with
  | heard s news => exact absurd ha (h s news)
  | _ => rfl

theorem tallies_hear (h : Tallies n i past) (s : Subscriber) (news : News) :
    Tallies (n.hear news s) i (past + (told [.heard s news]).count (asCounter i)) := by
  simp only [Node.hear]
  split
  · rename_i t i'
    have htold : told [.heard (.counting, .counter i') (.tick t)] = [asCounter i'] := rfl
    rw [htold, Tallies, Bank.get_modify, UInt32.ofNat_add, h]
    by_cases hi : i = i'
    · simp [hi]
    · have hne : asCounter i' ≠ asCounter i := by simpa [asCounter] using Ne.symm hi
      simp [hi, hne]
  · -- A display is told, which no counter is.
    exact h
  · rename_i hcounting htimekeeping
    have htold : (told [.heard s news]).count (asCounter i) = 0 := by
      cases news with
      | notice notice => rfl
      | tick t =>
        have hne : s ≠ asCounter i := hcounting t i rfl
        simp [told, Happening.told?, hne]
    rw [htold]
    exact h

theorem Tells.tallies {o : Option Operation} {now : List Happening} {n' : Node}
    (htells : Tells n o now n') (h : Tallies n i past) : Tallies n' i (counted i past now o) := by
  cases htells with
  | @operation o now => exact tallies_apply h o now
  | listener s news => exact tallies_hear h s news
  | nobody unheard counters displays =>
    rw [Tallies, counters, counted, told_of_nobodyHears unheard, List.count_nil, Nat.add_zero]
    exact h

end Tallies

/-! ## Deliveries -/

/-- What was asked of the rosters of tick topics. -/
abbrev Calls : Type := Nat → List (Call Listener Context × Bool)

/-- The number of deliveries that begin while a counter has the place of its topic, after calls
`past`. -/
def Parties.owed (p : Parties) (i : Nat) (past : Calls) : List Turn → Nat
  | [] => 0
  | turn :: turns =>
    (if (p.delivers? turn).bind (fun topic => current .counting (past topic)) =
      some (.counter i) then 1 else 0) +
      (p.play turn).2.owed i
        (fun topic => (p.answered? (.ticks topic) turn).toList ++ past topic) turns

theorem count_addressed {n : Node} {past : Calls}
    (h : ∀ topic, ((Subject.ticks topic).roster n).Refines (past topic)) (delivery : Option Nat)
    (i : Nat) :
    (addressed n delivery).count (asCounter i) =
      if delivery.bind (fun topic => current .counting (past topic)) = some (.counter i) then 1
      else 0 := by
  cases delivery with
  | none => rfl
  | some topic => exact (h topic).count_entries _ _

theorem told_run {p : Parties} {past : Calls}
    (h : ∀ topic, ((Subject.ticks topic).roster p.node).Refines (past topic)) (i : Nat)
    (turns : List Turn) :
    (told (p.run turns).1).count (asCounter i) + (p.run turns).2.toTell.count (asCounter i) =
      p.toTell.count (asCounter i) + p.owed i past turns := by
  induction turns generalizing p past with
  | nil => simp [Parties.run, Parties.owed, told]
  | cons turn turns ih =>
    have hnow := count_toTell_play p turn (asCounter i)
    have hlater := ih fun topic => refines_play (h topic) turn
    rw [count_addressed h] at hnow
    simp only [Parties.run, Parties.owed, told_append, List.count_append]
    omega

/-- Whatever the parties do with a node whose topics were quiet and whose counts were zero, a
counter has counted, up to wrapping, how often it was told of a tick since it was last reset. And
whatever they do next, it is told once for each delivery that begins while it is the counter that
was granted the place of the topic last, none having been detached since, and for no other. -/
theorem deliveries_counted_by_last_attached (node : Node) (names : List String)
    (reactions : Bank Caller Reaction) (turns later : List Turn) (i : Nat) :
    let start := Parties.begin { node with
      topics := Node.quietTopics names
      counters := .filled 0 } reactions
    let past : Calls := fun topic => start.calls (.ticks topic) [] turns
    let p := (start.run turns).2
    p.node.counters.get i = .ofNat (start.counts i turns) ∧
      (told (p.run later).1).count (asCounter i) + (p.run later).2.toTell.count (asCounter i) =
        p.toTell.count (asCounter i) + p.owed i past later := by
  intro start past p
  have hquiet (topic : Nat) : ((Subject.ticks topic).roster start.node).Refines [] := by
    have hempty : (Subject.ticks topic).roster start.node = .empty :=
      Subject.roster_quietTopics names topic
    rw [hempty]
    exact Roster.refines_empty
  have hzero : Tallies start.node i 0 := rfl
  have htallies : Tallies p.node i (start.counts i turns) :=
    gather_run (P := fun n past => Tallies n i past) Tells.tallies hzero turns
  exact ⟨htallies, told_run (fun topic => refines_run (hquiet topic) turns) i later⟩

/-- Two counters are attached to a topic, and the first one misses the next delivery. It is
detached, and the second one misses the delivery after that. -/
theorem place_taken_by_other_counter :
    let program : Script := [.op (.attachCounter 0 0), .op (.attachCounter 1 0), .notify 0 .initial,
      .op (.detachCounter 0 0), .notify 0 .initial]
    let start := Parties.begin { Node.fresh 10 [] with
      topics := Node.quietTopics ["timer"]
      counters := .filled 0 } (.filled .idle)
    let turns (steps : Nat) := Turn.enter .main program :: List.replicate steps (.step 0)
    let p (steps : Nat) := (start.run (turns steps)).2
    start.calls (.ticks 0) [] (turns 5) =
        [(.join .counting (.counter 1), true), (.join .counting (.counter 0), true)] ∧
      (p 5).delivers? (.step 0) = some 0 ∧ (p 9).node.counters.get 0 = 0 ∧
      (p 9).node.counters.get 1 = 1 ∧
      start.calls (.ticks 0) [] (turns 12) = (.leave .counting, true) ::
        start.calls (.ticks 0) [] (turns 5) ∧
      (p 12).delivers? (.step 0) = some 0 ∧ (p 15).node.counters.get 1 = 1 := by
  decide

end NodeBus.Session
