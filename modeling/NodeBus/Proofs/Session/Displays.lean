import NodeBus.Proofs.Elapsed.Reckoning
import NodeBus.Proofs.Session.Hearing

/-! # What displays show

`Parties.advances` lists the periods that a display was given since it was last reset, by operations
and by ticks that it heard. It shows their sum, whatever else goes on (`Reckons`). -/

namespace NodeBus.Session

open Elapsed (ofMillis sum)

/-- As whom a display listens. -/
def asDisplay (d : Nat) : Subscriber := (.timekeeping, .display d)

/-- The period that a display is given by a tick. -/
def Happening.shown? (d : Nat) : Happening → Option UInt32
  | .heard s (.tick t) => if s = asDisplay d then some t.period.toUInt32 else none
  | _ => none

def Operation.advances (d : Nat) (past : List UInt32) : Operation → List UInt32
  | addTime i ms times => if i = d then past ++ List.replicate times ms else past
  | resetTime i => if i = d then [] else past
  | _ => past

/-- The periods that a display was given since it was last reset, after a turn that began an
operation or recorded what was heard. -/
def advanced (d : Nat) (past : List UInt32) (now : List Happening) :
    Option Operation → List UInt32
  | some o => o.advances d past
  | none => past ++ now.filterMap (Happening.shown? d)

def Parties.advances (p : Parties) (d : Nat) : List Turn → List UInt32 :=
  p.gather (advanced d) []

/-- A display shows the sum of the periods that it was given. -/
def Reckons (n : Node) (d : Nat) (past : List UInt32) : Prop :=
  n.displays.get d = ofMillis (sum past)

section Reckons

variable {n : Node} {d : Nat} {past : List UInt32}

theorem Reckons.add (h : Reckons n d past) (more : List UInt32) :
    more.foldl Elapsed.add (n.displays.get d) = ofMillis (sum (past ++ more)) := by
  rw [h, Elapsed.foldl_add_ofMillis, Elapsed.sum_append]

theorem reckons_apply (h : Reckons n d past) (o : Operation) :
    Reckons (o.apply n).2 d (o.advances d past) := by
  cases o with
  | addTime i ms times =>
    simp only [Reckons, Operation.apply, Operation.advances, Bank.get_set]
    by_cases hi : i = d
    · subst hi
      rw [if_pos rfl, if_pos rfl, Elapsed.repeat_add]
      exact h.add _
    · rw [if_neg (Ne.symm hi), if_neg hi]
      exact h
  | resetTime i =>
    simp only [Reckons, Operation.apply, Operation.advances, Bank.get_set]
    by_cases hi : i = d
    · rw [if_pos hi.symm, if_pos hi]
      rfl
    · rw [if_neg (Ne.symm hi), if_neg hi]
      exact h
  | register handler =>
    simp only [Operation.apply]
    split <;> exact h
  | putNotice key status data now =>
    simp only [Operation.apply]
    split <;> exact h
  | _ => exact h

theorem Reckons.unshown (h : Reckons n d past) {s : Subscriber} {news : News}
    (hnone : (Happening.heard s news).shown? d = none) :
    Reckons n d (past ++ [Happening.heard s news].filterMap (Happening.shown? d)) := by
  rw [List.filterMap_cons_none hnone, List.filterMap_nil, List.append_nil]
  exact h

theorem reckons_hear (h : Reckons n d past) (s : Subscriber) (news : News) :
    Reckons (n.hear news s) d
      (past ++ [Happening.heard s news].filterMap (Happening.shown? d)) := by
  simp only [Node.hear]
  split
  · -- A counter is told, which no display is.
    exact h.unshown rfl
  · rename_i t i
    by_cases hi : d = i
    · subst hi
      have hsome : (Happening.heard (asDisplay d) (.tick t)).shown? d =
          some t.period.toUInt32 := if_pos rfl
      rw [Reckons, Bank.get_modify, if_pos rfl, ← asDisplay, List.filterMap_cons_some hsome]
      exact h.add [t.period.toUInt32]
    · have hne : asDisplay i ≠ asDisplay d := by simpa [asDisplay] using Ne.symm hi
      have hsame : Reckons { n with displays := n.displays.modify i (·.add t.period.toUInt32) }
          d past := by
        rw [Reckons, Bank.get_modify, if_neg hi]
        exact h
      exact hsame.unshown (if_neg hne)
  · rename_i hcounting htimekeeping
    apply h.unshown
    cases news with
    | notice notice => rfl
    | tick t => exact if_neg (htimekeeping t d rfl)

theorem shown?_of_nobodyHears {now : List Happening} (h : NobodyHears now) :
    now.filterMap (Happening.shown? d) = [] := by
  refine List.filterMap_eq_nil_iff.mpr fun a ha => ?_
  cases a with
  | heard s news => exact absurd ha (h s news)
  | _ => rfl

theorem Tells.reckons {o : Option Operation} {now : List Happening} {n' : Node}
    (htells : Tells n o now n') (h : Reckons n d past) : Reckons n' d (advanced d past now o) := by
  cases htells with
  | operation o => exact reckons_apply h o
  | listener s news => exact reckons_hear h s news
  | nobody unheard counters displays =>
    rw [Reckons, displays, advanced, shown?_of_nobodyHears unheard, List.append_nil]
    exact h

end Reckons

/-- Whatever the parties do, in whatever order, a display shows exactly the milliseconds that it was
given since it was made or last reset, by operations and by ticks, and any other periods of the same
sum would show the same: its milliseconds stay below a thousand, its seconds wrap around, and no
period overflows anything else on the way. Its parts are the digits of its seconds to the base 60,
and its text fits and is the twelve characters that show them. -/
theorem displays_reckon_exactly (node : Node) (reactions : Bank Caller Reaction)
    (turns : List Turn) (d : Nat) :
    let start := Parties.begin { node with displays := .filled .zero } reactions
    let elapsed := sum (start.advances d turns)
    let t := (start.run turns).2.node.displays.get d
    (t.millis.toNat < 1000 ∧ t.total = elapsed % (1000 * UInt32.size)) ∧
    (∀ past, sum past = elapsed → past.foldl Elapsed.add .zero = t) ∧
    (∀ ms, t.checkedAdd ms = some (t.add ms)) ∧
    (∃ hours : Nat,
      t.seconds.toNat = (hours * 60 + t.minutePart.toNat) * 60 + t.secondPart.toNat ∧
        t.minutePart.toNat < 60 ∧ t.secondPart.toNat < 60 ∧ t.hourPart.toNat = hours % 24) ∧
    Elapsed.write "" t.pieces = (true, t.text) ∧ t.text.toList = t.face ∧
      t.text.toList.length = 12 := by
  intro start elapsed t
  have hstart : Reckons start.node d [] := rfl
  have hshown : t = ofMillis elapsed :=
    gather_run (P := fun n past => Reckons n d past) Tells.reckons hstart turns
  have hmillis : t.millis.toNat < 1000 := by
    rw [hshown, Elapsed.millis_ofMillis]
    exact Nat.mod_lt _ (by decide)
  have hwritten := Elapsed.write_pieces hmillis
  have htext : t.text = .ofList t.face := by rw [Elapsed.text, hwritten]
  refine ⟨⟨hmillis, ?_⟩, fun past hpast => ?_, t.checkedAdd_eq, t.seconds_eq_parts, ?_, ?_, ?_⟩
  · rw [hshown, Elapsed.total_ofMillis]
  · rw [hshown, ← hpast]
    exact hstart.add past
  · rw [hwritten, htext]
  · rw [htext, String.toList_ofList]
  · rw [htext, String.toList_ofList, Elapsed.length_face]

/-- Nearly a second and then the longest period, and the same the other way round. -/
theorem displays_reckon_exactly_partial_second :
    let start := Parties.begin { Node.fresh 10 [] with displays := .filled .zero } (.filled .idle)
    let program : Script := [.op (.addTime 0 999 1), .op (.addTime 0 4294967295 1)]
    let turns := Turn.enter .main program :: List.replicate 4 (.step 0)
    let t := (start.run turns).2.node.displays.get 0
    t.total = 4294968294 ∧ [4294967295, 999].foldl Elapsed.add .zero = t ∧
      t.text.toList = ['1', '7', ':', '0', '2', ':', '4', '8', '.', '2', '9', '4'] := by
  intro start program turns t
  obtain ⟨⟨_, htotal⟩, hsame, _, _, _, htext, _⟩ :=
    displays_reckon_exactly (.fresh 10 []) (.filled .idle) turns 0
  refine ⟨htotal, hsame _ (by decide), ?_⟩
  rw [htext]
  decide

end NodeBus.Session
