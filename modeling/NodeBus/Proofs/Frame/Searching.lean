import NodeBus.Proofs.Frame.Access
import NodeBus.Proofs.Frame.Reassembly

/-!
# A receiver in memory

`Memory.feed?` is a receiver as it works on a buffer in memory, with checked access. It has no
answer where an access is out of range, nor where one of its loops, `Search.skip?` and
`Search.hunt?`, has not ended after one round more than there are bytes.

There always is an answer, that of `Receiver.feed` (`feed?_memory`): a round that is followed by
another one leaves fewer bytes than it has found (`Falls`).
-/

namespace NodeBus.Frame

open Bytes (slice? copy? sum? difference?)

/-! ## Looking for a frame -/

/-- Drop the first `count` bytes of a buffer. -/
def discard? (count : Nat) (buffer : List UInt8) : Option (List UInt8) := do
  if buffer.length ≤ count then return []
  let behind ← slice? buffer count buffer.length
  let moved ← copy? buffer behind.length behind
  return moved.take (← difference? buffer.length count)

theorem discard?_eq (count : Nat) (buffer : List UInt8) :
    discard? count buffer = some (buffer.drop count) := by
  rw [discard?]
  by_cases h : buffer.length ≤ count
  · rw [if_pos h, List.drop_eq_nil_of_le h]
    rfl
  · have hbehind : slice? buffer count buffer.length = some (buffer.drop count) := by
      rw [Bytes.slice?_of_le (by omega) (Nat.le_refl _), List.take_length]
    have hlength : buffer.length - count = (buffer.drop count).length := List.length_drop.symm
    rw [if_neg h, hbehind, Option.bind_eq_bind, Option.bind_some,
      Bytes.copy?_of_le (by rw [List.length_drop]; omega), difference?, if_pos (by omega), hlength]
    exact congrArg some List.take_left

def judge? (capacity : Nat) (buffer : List UInt8) : Option Receiver.Verdict := do
  match buffer[2]? with
  | none => return .incomplete
  | some v =>
    if v ≠ version then return .rejected .unsupportedVersion
    if buffer.length < headerSize then return .incomplete
    let length := (Bytes.word16 (← buffer[5]?) (← buffer[6]?)).toNat
    let total ← sum? length overhead
    if capacity < total then return .rejected .payloadTooLarge
    if buffer.length < total then return .incomplete
    match ← decode? (← slice? buffer 0 total) with
    | .ok _ => return .frame total
    | .error cause => return .rejected cause

theorem judge?_eq (capacity : Nat) (w : Window) :
    judge? capacity w.toList = some (Receiver.judge capacity w) := by
  rw [judge?, Receiver.judge]
  simp only [Window.get?_eq_getElem?, Window.size_eq_length, Window.take_eq]
  cases hv : w.toList[2]? with
  | none => rfl
  | some v =>
    simp only
    by_cases hversion : v ≠ version
    · rw [if_pos hversion, if_pos hversion]
      rfl
    rw [if_neg hversion, if_neg hversion]
    by_cases hheader : w.toList.length < headerSize
    · rw [if_pos hheader, List.getElem?_eq_none (Nat.le_of_lt_succ hheader)]
      cases w.toList[5]? <;> rfl
    rw [if_neg hheader]
    simp only [headerSize] at hheader
    have hlow := List.getElem?_eq_getElem (l := w.toList) (i := 5) (by omega)
    have hhigh := List.getElem?_eq_getElem (l := w.toList) (i := 6) (by omega)
    simp only [hlow, hhigh, Option.bind_eq_bind, Option.bind_some, sum?_overhead]
    by_cases hcapacity : capacity < (Bytes.word16 w.toList[5] w.toList[6]).toNat + overhead
    · rw [if_pos hcapacity, if_pos hcapacity]
      rfl
    rw [if_neg hcapacity, if_neg hcapacity]
    by_cases hlength : w.toList.length < (Bytes.word16 w.toList[5] w.toList[6]).toNat + overhead
    · rw [if_pos hlength, if_pos hlength]
      rfl
    rw [if_neg hlength, if_neg hlength,
      Bytes.slice?_of_le (Nat.zero_le _) (Nat.le_of_not_lt hlength), Option.bind_some,
      List.drop_zero, decode?_eq, Option.bind_some]
    cases decode (w.toList.take _) <;> rfl

/-- Bytes at the front of a buffer that are given up as noise or, for a cause, as the start of a
candidate: `left` bytes stay. -/
structure Loss where
  cause : Option Error
  left : Nat
  deriving DecidableEq, Repr

/-- A buffer that is looked through for a frame, with its losses so far. -/
structure Search where
  buffer : List UInt8
  losses : List Loss

namespace Search

def lose? (s : Search) (cause : Option Error) (count : Nat) : Option Search := do
  let buffer ← discard? count s.buffer
  return ⟨buffer, if count = 0 then s.losses else s.losses ++ [⟨cause, buffer.length⟩]⟩

/-- Skip noise up to the next magic bytes, in at most so many rounds: whether there are both. -/
def skip? : Nat → Search → Option (Bool × Search)
  | 0, _ => none
  | rounds + 1, s => do
    match s.buffer.findIdx? (· == magic₀) with
    | none => return (false, ← s.lose? none s.buffer.length)
    | some start =>
      let s ← s.lose? none start
      match s.buffer[1]? with
      | none => return (false, s)
      | some second =>
        if second ≠ magic₁ then skip? rounds (← s.lose? none 1) else return (true, s)

/-- Judge the candidate at the front, if one has been found. -/
def inspect? (capacity : Nat) (s : Search) : Option (Receiver.Verdict × Search) := do
  let (found, s) ← s.skip? (s.buffer.length + 1)
  if found then return (← judge? capacity s.buffer, s) else return (.incomplete, s)

/-- Reject candidates until the front is a frame or needs more bytes, in at most so many rounds. -/
def hunt? (capacity : Nat) :
    Nat → Option Error → Search → Option (Option Error × Option Nat × Search)
  | 0, _, _ => none
  | rounds + 1, rejection, s => do
    let (verdict, s) ← s.inspect? capacity
    match verdict with
    | .incomplete => return (rejection, none, s)
    | .frame length => return (rejection, some length, s)
    | .rejected cause =>
      hunt? capacity rounds (rejection.or (some cause)) (← s.lose? (some cause) 1)

end Search

/-! ### Losses -/

/-- The losses by which a buffer gets from one length to another. -/
inductive Falls : Nat → List Loss → Nat → Prop where
  | stay (n : Nat) : Falls n [] n
  | lose {n m : Nat} {l : Loss} {losses : List Loss} (shorter : l.left < n)
      (later : Falls l.left losses m) : Falls n (l :: losses) m

theorem Falls.trans {n m k : Nat} {losses later : List Loss} (h : Falls n losses m)
    (hlater : Falls m later k) : Falls n (losses ++ later) k := by
  induction h with
  | stay => exact hlater
  | lose shorter _ ih => exact .lose shorter (ih hlater)

theorem Falls.length_le {n m : Nat} {losses : List Loss} (h : Falls n losses m) :
    losses.length + m ≤ n := by
  induction h with
  | stay n => simp
  | lose shorter _ ih =>
    rw [List.length_cons]
    omega

theorem Falls.getLastD {n m : Nat} {losses : List Loss} (h : Falls n losses m) :
    (losses.map Loss.left).getLastD n = m := by
  induction h with
  | stay => rfl
  | lose _ _ ih => rw [List.map_cons, List.getLastD_cons, ih]

theorem Falls.pairwise {n m : Nat} {losses : List Loss} (h : Falls n losses m) :
    (n :: losses.map Loss.left).Pairwise (· > ·) := by
  induction h with
  | stay => exact List.pairwise_singleton ..
  | lose shorter _ ih =>
    rw [List.map_cons]
    refine List.pairwise_cons.mpr ⟨fun left hleft => ?_, ih⟩
    rcases List.mem_cons.mp hleft with rfl | hleft
    · exact shorter
    · exact Nat.lt_trans (List.rel_of_pairwise_cons ih hleft) shorter

theorem Search.lose?_eq (s : Search) (cause : Option Error) {count : Nat}
    (h : count ≤ s.buffer.length) :
    ∃ losses, s.lose? cause count = some ⟨s.buffer.drop count, s.losses ++ losses⟩ ∧
      Falls s.buffer.length losses (s.buffer.drop count).length := by
  rw [lose?, discard?_eq]
  by_cases hcount : count = 0
  · subst hcount
    refine ⟨[], ?_, .stay _⟩
    rw [List.append_nil]
    rfl
  · refine ⟨[⟨cause, (s.buffer.drop count).length⟩], ?_, .lose ?_ (.stay _)⟩
    · simp only [Option.bind_eq_bind, Option.bind_some, if_neg hcount]
      rfl
    · simp only [List.length_drop]
      omega

/-! ### Noise -/

/-- The bytes from the first place on where a frame may start. -/
def settled : List UInt8 → List UInt8
  | [] => []
  | [b] => if b = magic₀ then [b] else []
  | b :: b' :: s => if b = magic₀ ∧ b' = magic₁ then b :: b' :: s else settled (b' :: s)

theorem settled_of_ne {b : UInt8} (h : b ≠ magic₀) (s : List UInt8) :
    settled (b :: s) = settled s := by
  cases s with
  | nil => exact if_neg h
  | cons b' s => exact if_neg fun hfront => h hfront.1

theorem settled_drop {s : List UInt8} {n : Nat} (h : ∀ i < n, s[i]? ≠ some magic₀) :
    settled (s.drop n) = settled s := by
  induction n generalizing s with
  | zero => rfl
  | succ n ih => cases s with
    | nil => rfl
    | cons b s =>
      have hb : b ≠ magic₀ := fun hb => h 0 (Nat.zero_lt_succ n) (congrArg some hb)
      rw [List.drop_succ_cons, ih fun i hi => h (i + 1) (Nat.succ_lt_succ hi), settled_of_ne hb]

theorem settled_of_findIdx?_eq_none {s : List UInt8}
    (h : s.findIdx? (· == magic₀) = none) : settled s = [] := by
  have hnoise (i : Nat) (_ : i < s.length) : s[i]? ≠ some magic₀ := fun hi => by
    simpa using List.findIdx?_eq_none_iff.mp h _ (List.mem_of_getElem? hi)
  rw [← settled_drop hnoise, List.drop_length]
  rfl

theorem front_of_findIdx? {s : List UInt8} {start : Nat}
    (h : s.findIdx? (· == magic₀) = some start) :
    start < s.length ∧ s.drop start = magic₀ :: s.drop (start + 1) ∧
      settled (s.drop start) = settled s := by
  obtain ⟨hstart, hmagic, hbefore⟩ := List.findIdx?_eq_some_iff_getElem.mp h
  refine ⟨hstart, by rw [List.drop_eq_getElem_cons hstart, eq_of_beq hmagic], ?_⟩
  refine settled_drop fun i hi heq => hbefore i hi ?_
  obtain ⟨_, heq⟩ := List.getElem?_eq_some_iff.mp heq
  rw [heq]
  rfl

theorem exists_cons_of_get? {w : Window} {b : UInt8} (h : w.get? 0 = some b) :
    ∃ rest, w.toList = b :: rest ∧ w.get? 1 = rest.head? := by
  rw [Window.get?_eq_getElem?, ← List.head?_eq_getElem?, List.head?_eq_some_iff] at h
  obtain ⟨rest, hs⟩ := h
  refine ⟨rest, hs, ?_⟩
  rw [Window.get?_eq_getElem?, hs, List.getElem?_cons_succ, ← List.head?_eq_getElem?]

theorem toList_settle (w : Window) : (Receiver.settle w).toList = settled w.toList := by
  fun_induction Receiver.settle w with
  | case1 w hnone =>
    rw [Window.get?_eq_getElem?, List.getElem?_eq_none_iff, Nat.le_zero,
      List.length_eq_zero_iff] at hnone
    rw [hnone]
    rfl
  | case2 w first hfirst _ hne ih =>
    obtain ⟨rest, hs, _⟩ := exists_cons_of_get? hfirst
    rw [ih, Window.toList_drop, hs, settled_of_ne hne]
    rfl
  | case3 w first hfirst _ hmagic hnone =>
    obtain ⟨rest, hs, hhead⟩ := exists_cons_of_get? hfirst
    obtain rfl := List.head?_eq_none_iff.mp (hhead ▸ hnone)
    rw [hs]
    exact (if_pos (Decidable.not_not.mp hmagic)).symm
  | case4 w first hfirst _ _ second hsecond hne ih =>
    obtain ⟨rest, hs, hhead⟩ := exists_cons_of_get? hfirst
    obtain ⟨rest, rfl⟩ := List.head?_eq_some_iff.mp (hhead ▸ hsecond)
    rw [ih, Window.toList_drop, hs, settled, if_neg fun hfront => hne hfront.2]
    rfl
  | case5 w first hfirst _ hmagic second hsecond hmagic' =>
    obtain ⟨rest, hs, hhead⟩ := exists_cons_of_get? hfirst
    obtain ⟨rest, rfl⟩ := List.head?_eq_some_iff.mp (hhead ▸ hsecond)
    rw [hs, settled, if_pos ⟨Decidable.not_not.mp hmagic, Decidable.not_not.mp hmagic'⟩]

/-- A round of skipping is the last one, or another one starts with fewer bytes. -/
theorem Search.skip?_cases (rounds : Nat) (s : Search) :
    ∃ losses,
      s.skip? (rounds + 1) = some (decide (1 < (settled s.buffer).length),
          ⟨settled s.buffer, s.losses ++ losses⟩) ∧
        Falls s.buffer.length losses (settled s.buffer).length ∨
      ∃ rest, s.skip? (rounds + 1) = skip? rounds ⟨rest, s.losses ++ losses⟩ ∧
        rest.length < s.buffer.length ∧ Falls s.buffer.length losses rest.length ∧
        settled rest = settled s.buffer := by
  rw [skip?]
  cases hfind : s.buffer.findIdx? (· == magic₀) with
  | none =>
    have hnoise := settled_of_findIdx?_eq_none hfind
    obtain ⟨losses, hlose, hfalls⟩ := s.lose?_eq none (Nat.le_refl s.buffer.length)
    rw [List.drop_length] at hlose hfalls
    refine ⟨losses, .inl ⟨?_, by rw [hnoise]; exact hfalls⟩⟩
    simp only [hlose, hnoise]
    rfl
  | some start =>
    obtain ⟨hstart, hfront, hsettled⟩ := front_of_findIdx? hfind
    obtain ⟨losses, hlose, hfalls⟩ := s.lose?_eq none (Nat.le_of_lt hstart)
    rw [← hsettled]
    simp only [hlose, Option.bind_eq_bind, Option.bind_some]
    rw [hfront] at hfalls ⊢
    rcases hrest : s.buffer.drop (start + 1) with _ | ⟨second, rest⟩
    · -- The first magic byte is the last byte.
      have hstays : settled [magic₀] = [magic₀] := if_pos rfl
      rw [hrest] at hfalls
      rw [hstays]
      exact ⟨losses, .inl ⟨by simp, hfalls⟩⟩
    rw [hrest] at hfalls hfront
    by_cases hsecond : second = magic₁
    · have hstays : settled (magic₀ :: second :: rest) = magic₀ :: second :: rest := by
        rw [settled, if_pos ⟨rfl, hsecond⟩]
      rw [hstays]
      exact ⟨losses, .inl ⟨by simp [hsecond], hfalls⟩⟩
    · -- The first magic byte is noise, too.
      have hgoes : settled (magic₀ :: second :: rest) = settled (second :: rest) := by
        rw [settled, if_neg fun hfront => hsecond hfront.2]
      obtain ⟨later, hlater, hfalls'⟩ :=
        lose?_eq ⟨magic₀ :: second :: rest, s.losses ++ losses⟩ none (Nat.le_add_left 1 _)
      have hshort := congrArg List.length hfront
      simp only [List.length_drop, List.length_cons] at hshort
      refine ⟨losses ++ later, .inr ⟨second :: rest, ?_, ?_, hfalls.trans hfalls', hgoes.symm⟩⟩
      · simp only [List.append_assoc] at hlater
        simp [hsecond, hlater]
      · rw [List.length_cons]
        omega

theorem Search.skip?_eq (s : Search) {rounds : Nat} (h : s.buffer.length < rounds) :
    ∃ losses, s.skip? rounds = some (decide (1 < (settled s.buffer).length),
        ⟨settled s.buffer, s.losses ++ losses⟩) ∧
      Falls s.buffer.length losses (settled s.buffer).length := by
  induction rounds generalizing s with
  | zero => exact absurd h (Nat.not_lt_zero _)
  | succ rounds ih =>
    obtain ⟨losses, ⟨hlast, hfalls⟩ | ⟨rest, hnext, hshort, hfalls, hsettled⟩⟩ :=
      s.skip?_cases rounds
    · exact ⟨losses, hlast, hfalls⟩
    · obtain ⟨later, hlater, hfalls'⟩ :=
        ih ⟨rest, s.losses ++ losses⟩ (Nat.lt_of_lt_of_le hshort (Nat.le_of_lt_succ h))
      simp only [hsettled, List.append_assoc] at hlater hfalls'
      exact ⟨losses ++ later, hnext.trans hlater, hfalls.trans hfalls'⟩

/-! ### Candidates -/

theorem Search.inspect?_eq (capacity : Nat) (w : Window) (before : List Loss) :
    ∃ losses, inspect? capacity ⟨w.toList, before⟩ =
        some (Receiver.judge capacity (Receiver.settle w),
          ⟨(Receiver.settle w).toList, before ++ losses⟩) ∧
      Falls w.toList.length losses (Receiver.settle w).toList.length := by
  obtain ⟨losses, hskip, hfalls⟩ := skip?_eq ⟨w.toList, before⟩ (Nat.lt_succ_self _)
  simp only [← toList_settle] at hskip hfalls
  refine ⟨losses, ?_, hfalls⟩
  rw [inspect?, hskip]
  by_cases hfound : 1 < (Receiver.settle w).toList.length
  · simp [hfound, judge?_eq]
  · have hnone : (Receiver.settle w).get? 2 = none := by
      rw [Window.get?_eq_getElem?]
      exact List.getElem?_eq_none (by omega)
    simp [hfound, Receiver.judge, hnone]

theorem Search.hunt?_eq (capacity : Nat) (rejection : Option Error) {rounds : Nat} {w : Window}
    (h : w.toList.length ≤ rounds) (before : List Loss) :
    ∃ losses, hunt? capacity (rounds + 1) rejection ⟨w.toList, before⟩ =
        some ((Receiver.hunt capacity rejection w).1, (Receiver.hunt capacity rejection w).2.1,
          ⟨(Receiver.hunt capacity rejection w).2.2.toList, before ++ losses⟩) ∧
      Falls w.toList.length losses (Receiver.hunt capacity rejection w).2.2.toList.length := by
  fun_induction Receiver.hunt capacity rejection w generalizing rounds before with
  | case1 rejection w hjudge =>
    obtain ⟨losses, hinspect, hfalls⟩ := inspect?_eq capacity w before
    refine ⟨losses, ?_, hfalls⟩
    rw [hunt?, hinspect, hjudge]
    rfl
  | case2 rejection w length hjudge =>
    obtain ⟨losses, hinspect, hfalls⟩ := inspect?_eq capacity w before
    refine ⟨losses, ?_, hfalls⟩
    rw [hunt?, hinspect, hjudge]
    rfl
  | case3 rejection w cause hjudge _ ih =>
    obtain ⟨losses, hinspect, hfalls⟩ := inspect?_eq capacity w before
    have hrejected : Receiver.judge capacity (Receiver.settle w) ≠ .incomplete := by simp [hjudge]
    have hpos := Receiver.size_pos_of_judge hrejected
    rw [Window.size_eq_length] at hpos
    obtain ⟨first, hfirst, hfalls'⟩ :=
      lose?_eq ⟨(Receiver.settle w).toList, before ++ losses⟩ (some cause) hpos
    rw [← Window.toList_drop] at hfirst hfalls'
    -- A candidate that is rejected has a byte, which the round takes away.
    have hsettle := Receiver.size_settle_le w
    simp only [Window.size_eq_length] at hsettle
    obtain ⟨rounds, rfl⟩ := Nat.exists_eq_succ_of_ne_zero (by omega : rounds ≠ 0)
    have hrest : ((Receiver.settle w).drop 1).toList.length ≤ rounds := by
      rw [Window.toList_drop, List.length_drop]
      omega
    obtain ⟨later, hlater, hfalls''⟩ := ih hrest (before ++ losses ++ first)
    refine ⟨losses ++ first ++ later, ?_, (hfalls.trans hfalls').trans hfalls''⟩
    simp only [List.append_assoc] at hfirst hlater ⊢
    rw [hunt?, hinspect, hjudge]
    simp only [Option.bind_eq_bind, Option.bind_some, hfirst, hlater]

/-! ## A receiver in memory -/

/-- A receiver in memory: a buffer, and how many bytes of it were returned last. -/
structure Memory where
  buffer : List UInt8
  returned : Nat
  deriving DecidableEq, Repr

/-- What is done with a receiver. -/
inductive Call where
  | feed (b : UInt8)
  | reset
  deriving DecidableEq, Repr

namespace Memory

def empty : Memory := ⟨[], 0⟩

def pending? (m : Memory) : Option (List UInt8) :=
  if 0 < m.returned then discard? m.returned m.buffer else some m.buffer

/-- Add one byte: what it gives, what is lost, and the receiver afterwards. -/
def feed? (capacity : Nat) (m : Memory) (b : UInt8) :
    Option (Except Error (Option (List UInt8)) × List Loss × Memory) := do
  let buffer ← m.pending?
  if capacity ≤ buffer.length then return (.error .bufferTooSmall, [], empty)
  let buffer := buffer ++ [b]
  let (rejection, found, s) ← Search.hunt? capacity (buffer.length + 1) none ⟨buffer, []⟩
  match found, rejection with
  | some length, _ =>
    return (.ok (some (← slice? s.buffer 0 length)), s.losses, ⟨s.buffer, length⟩)
  | none, some cause => return (.error cause, s.losses, ⟨s.buffer, 0⟩)
  | none, none => return (.ok none, s.losses, ⟨s.buffer, 0⟩)

def after? (capacity : Nat) (m : Memory) : Call → Option Memory
  | .feed b => do
    let (_, _, m) ← m.feed? capacity b
    return m
  | .reset => some empty

end Memory

namespace Receiver

variable {capacity : Nat}

def after (r : Receiver capacity) : Call → Receiver capacity
  | .feed b => (r.feed b).2
  | .reset => r.reset

def memory (r : Receiver capacity) : Memory := ⟨r.held.toList, r.returned⟩

theorem pending?_memory (r : Receiver capacity) : r.memory.pending? = some r.pending := by
  rw [Memory.pending?, pending]
  split
  · exact discard?_eq ..
  · rename_i h
    have hnone : r.returned = 0 := Nat.eq_zero_of_not_pos h
    rw [hnone]
    rfl

theorem le_of_judge {w : Window} {n : Nat} (h : judge capacity w = .frame n) :
    n ≤ w.toList.length := by
  have hlength := (frameAt?_of_judge h).2
  rw [Window.take_eq, List.length_take] at hlength
  omega

theorem feed?_memory (r : Receiver capacity) (b : UInt8) :
    ∃ losses left, r.memory.feed? capacity b =
        some ((r.feed b).1, losses, (r.feed b).2.memory) ∧
      Falls (r.pending.length + 1) losses left ∧
      (r.feed b).2.held.size = if capacity ≤ r.pending.length then 0 else left := by
  rw [Memory.feed?, pending?_memory]
  simp only [Option.bind_eq_bind, Option.bind_some]
  rcases feed_cases r b with ⟨hfull, hfeed⟩ | ⟨hroom, rejection, found, w, hhunt, hleft, hgiven⟩
  · rw [if_pos hfull, hfeed]
    exact ⟨[], _, rfl, .stay _, (if_pos hfull).symm⟩
  · obtain ⟨losses, hsearch, hfalls⟩ :=
      Search.hunt?_eq capacity none
        (Nat.le_refl ((r.held.drop r.returned).push b).toList.length) []
    simp only [Window.toList_push, Window.toList_drop, hhunt, List.nil_append] at hsearch hfalls
    rw [List.length_append] at hfalls
    refine ⟨losses, _, ?_, hfalls, by
      rw [hleft, if_neg (Nat.not_le_of_lt hroom), Window.size_eq_length]⟩
    rw [if_neg (Nat.not_le_of_lt hroom), pending, hsearch, hleft, hgiven]
    cases found with
    | some n =>
      have hjudge := judge_hunt capacity none ((r.held.drop r.returned).push b)
      rw [hhunt] at hjudge
      simp only [Option.bind_some, Bytes.slice?_of_le (Nat.zero_le n) (le_of_judge hjudge),
        Window.take_eq]
      rfl
    | none => cases rejection <;> rfl

/-- A candidate is rejected for its version, and what stays of it is noise. -/
example : Memory.feed? 16 ⟨[0xAC, 0xDA], 0⟩ 2 =
    some (.error .unsupportedVersion, [⟨some .unsupportedVersion, 2⟩, ⟨none, 0⟩], .empty) :=
  rfl

theorem foldlM_after? (r : Receiver capacity) (calls : List Call) :
    calls.foldlM (Memory.after? capacity) r.memory = some (calls.foldl after r).memory := by
  induction calls generalizing r with
  | nil => rfl
  | cons call calls ih =>
    have hafter : r.memory.after? capacity call = some (r.after call).memory := by
      cases call with
      | feed b =>
        obtain ⟨losses, left, hfeed, _, _⟩ := feed?_memory r b
        rw [Memory.after?, hfeed]
        rfl
      | reset => rfl
    rw [List.foldlM_cons, hafter]
    exact ih _

end Receiver

end NodeBus.Frame
