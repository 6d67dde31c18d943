import Mathlib
import NodeBus.Proofs.Json.RoundTrip

/-!
# Records read back

A record is read back from the value it is shown as (`Lawful`), and so it is read back from its text
(`read?_write`). The fields of an object may come in any order (`fieldsOf?_perm`), with others among
them (`fieldsOf?_cons_of_not_mem`).
-/

namespace NodeBus

namespace Json

/-! ## Fields -/

theorem field?_eq_some_iff {fields : List (Option String × Json)} {name : String} {v : Json} :
    field? fields name = some v ↔ ∃ n, fields.filter (·.1 = some name) = [(n, v)] := by
  unfold field?
  split
  case h_1 field heq =>
    obtain ⟨n, w⟩ := field
    simp [heq]
  case h_2 hne => simpa using fun n => hne (n, v)

theorem field?_perm {fields fields' : List (Option String × Json)} (h : fields.Perm fields')
    (name : String) : field? fields name = field? fields' name := by
  ext v
  have hfound : (fields.filter (·.1 = some name)).Perm (fields'.filter (·.1 = some name)) :=
    h.filter _
  rw [field?_eq_some_iff, field?_eq_some_iff]
  constructor
  · rintro ⟨n, hn⟩
    exact ⟨n, (List.singleton_perm.mp (hn ▸ hfound)).symm⟩
  · rintro ⟨n, hn⟩
    exact ⟨n, List.perm_singleton.mp (hn ▸ hfound)⟩

/-- An object is read alike in whatever order its fields come. -/
theorem fieldsOf?_perm {fields fields' : List (Option String × Json)} (h : fields.Perm fields')
    (names : List String) :
    fieldsOf? names (.object fields) = fieldsOf? names (.object fields') := by
  simp only [fieldsOf?, h.all_eq, funext (field?_perm h)]

theorem mapM_congr {α β : Type} {f g : α → Option β} {l : List α} (h : ∀ a ∈ l, f a = g a) :
    l.mapM f = l.mapM g := by
  induction l with
  | nil => rfl
  | cons a l ih =>
    rw [List.mapM_cons, List.mapM_cons, h a List.mem_cons_self,
      ih fun b hb => h b (List.mem_cons_of_mem a hb)]

/-- A field that nobody asks for is ignored. -/
theorem fieldsOf?_cons_of_not_mem {name : String} {names : List String} (h : name ∉ names)
    (v : Json) (fields : List (Option String × Json)) :
    fieldsOf? names (.object ((some name, v) :: fields)) = fieldsOf? names (.object fields) := by
  have hask : ∀ asked ∈ names, field? ((some name, v) :: fields) asked = field? fields asked := by
    intro asked hasked
    have hne : name ≠ asked := by
      rintro rfl
      exact h hasked
    simp [field?, hne]
  simp only [fieldsOf?, List.all_cons, Option.isSome_some, Bool.true_and, mapM_congr hask]

theorem filter_eq_singleton {fields : List (String × Json)} (h : (fields.map Prod.fst).Nodup)
    {f : String × Json} (hf : f ∈ fields) : fields.filter (·.1 = f.1) = [f] := by
  induction fields with
  | nil => cases hf
  | cons g fields ih =>
    rw [List.map_cons, List.nodup_cons] at h
    rcases List.mem_cons.mp hf with rfl | hf
    · have hnone : fields.filter (·.1 = f.1) = [] := by
        rw [List.filter_eq_nil_iff]
        intro g hg heq
        exact h.1 (of_decide_eq_true heq ▸ List.mem_map_of_mem hg)
      simp [hnone]
    · have hne : g.1 ≠ f.1 := by
        intro heq
        exact h.1 (heq ▸ List.mem_map_of_mem hf)
      rw [List.filter_cons_of_neg (by simpa using hne), ih h.2 hf]

theorem field?_of_mem {fields : List (String × Json)} (h : (fields.map Prod.fst).Nodup)
    {f : String × Json} (hf : f ∈ fields) :
    field? (fields.map fun f => (some f.1, f.2)) f.1 = some f.2 := by
  rw [field?_eq_some_iff, List.filter_map]
  have hsingle : fields.filter ((fun p : Option String × Json => decide (p.1 = some f.1)) ∘
      fun g => (some g.1, g.2)) = [f] := by
    simpa [Function.comp_def] using filter_eq_singleton h hf
  exact ⟨some f.1, by rw [hsingle, List.map_singleton]⟩

/-- A record with distinct names is read as its values in order. -/
theorem fieldsOf?_record {names : List String} {fields : List (String × Json)}
    (hnames : fields.map Prod.fst = names) (h : names.Nodup) :
    fieldsOf? names (record fields) = some (fields.map Prod.snd) := by
  subst hnames
  have hnamed : (fields.map fun f => (some f.1, f.2)).all (·.1.isSome) := by
    simp
  have hvalues : (fields.map Prod.fst).mapM
      (field? (fields.map fun f => (some f.1, f.2))) = some (fields.map Prod.snd) := by
    rw [List.mapM_map]
    exact (mapM_congr fun f hf => field?_of_mem h hf).trans List.mapM_pure
  rw [record, fieldsOf?, if_pos hnamed, hvalues]

/-! ## Numbers -/

theorem natBelow?_nat {n bound : Nat} (h : n < bound) : natBelow? bound (nat n) = some n := by
  simp [natBelow?, nat, h]

@[simp] theorem byte?_nat (b : UInt8) : byte? (nat b.toNat) = some b := by
  simp [byte?, natBelow?_nat b.toNat_lt]

@[simp] theorem word16?_nat (w : UInt16) : word16? (nat w.toNat) = some w := by
  simp [word16?, natBelow?_nat w.toNat_lt]

@[simp] theorem word32?_nat (w : UInt32) : word32? (nat w.toNat) = some w := by
  simp [word32?, natBelow?_nat w.toNat_lt]

@[simp] theorem plain_nat (n : Nat) : (nat n).Plain := .integer n

theorem plain_record {fields : List (String × Json)} (h : ∀ f ∈ fields, f.2.Plain) :
    (record fields).Plain := by
  refine .object (fun f hf => ?_) (fun f hf => ?_)
  all_goals obtain ⟨g, hg, rfl⟩ := List.mem_map.mp hf
  · rfl
  · exact h g hg

end Json

namespace Record

/-- A record is shown as a plain value, from which it is read back. -/
class Lawful (α : Type) [Record α] : Prop where
  plain_toJson (a : α) : (toJson a).Plain
  ofJson?_toJson (a : α) : ofJson? (toJson a) = some a

attribute [simp] Lawful.plain_toJson Lawful.ofJson?_toJson

instance : Lawful Kind where
  plain_toJson k := .text k.name
  ofJson?_toJson k := by cases k <;> decide

instance : Lawful Envelope where
  plain_toJson e := by
    refine Json.plain_record ?_
    simp
  ofJson?_toJson e := by
    have hfields : (toJson e).fieldsOf? ["timestamp", "kind"] =
        some [.nat e.timestamp.toNat, toJson e.kind] := Json.fieldsOf?_record rfl (by simp)
    change ((toJson e).fieldsOf? _).bind _ = _
    simp [hfields]

instance : Lawful Tick where
  plain_toJson t := by
    refine Json.plain_record ?_
    simp
  ofJson?_toJson t := by
    have hfields : (toJson t).fieldsOf? ["envelope", "tick_count", "period_ms"] =
        some [toJson t.envelope, .nat t.count.toNat, .nat t.period.toNat] :=
      Json.fieldsOf?_record rfl (by simp)
    change ((toJson t).fieldsOf? _).bind _ = _
    simp [hfields]

instance : Lawful Bus.LevelReport where
  plain_toJson r := by
    refine Json.plain_record ?_
    simp
  ofJson?_toJson r := by
    have hfields : (toJson r).fieldsOf?
        ["published", "overflowed", "dispatched", "high_water", "free_slots"] =
        some [.nat r.counters.published.toNat, .nat r.counters.overflowed.toNat,
          .nat r.counters.dispatched.toNat, .nat r.counters.highWater.toNat,
          .nat r.freeSlots.toNat] := Json.fieldsOf?_record rfl (by simp)
    change ((toJson r).fieldsOf? _).bind _ = _
    simp [hfields]

instance : Lawful Bus.Report where
  plain_toJson r := by
    refine Json.plain_record ?_
    simp
  ofJson?_toJson r := by
    have hfields : (toJson r).fieldsOf? ["normal", "high"] =
        some [toJson r.normal, toJson r.high] := Json.fieldsOf?_record rfl (by simp)
    change ((toJson r).fieldsOf? _).bind _ = _
    simp [hfields]

instance : Lawful Wait where
  plain_toJson w := by
    refine Json.plain_record ?_
    simp
  ofJson?_toJson w := by
    have hfields : (toJson w).fieldsOf? ["normal_wait_ms"] =
        some [.nat w.milliseconds.toNat] := Json.fieldsOf?_record rfl (by simp)
    change ((toJson w).fieldsOf? _).bind _ = _
    simp [hfields]

variable {α : Type} [Record α] [Lawful α]

/-- A record is read back from its text. -/
theorem read?_write (a : α) : read? (write a) = some a := by
  rw [read?, write, Json.ofText?_write (Lawful.plain_toJson a), Option.bind_some,
    Lawful.ofJson?_toJson]

theorem write_injective : Function.Injective (write : α → String) := by
  intro a b h
  rw [← Option.some_inj, ← read?_write a, h, read?_write b]

end Record

end NodeBus
