import Mathlib
import NodeBus.Proofs.Settings.Boxing
import NodeBus.Settings.Build

/-!
# Checked settings

A node is configured with all of its settings or not at all (`configured_or_reported`): exactly the
documents that give all four numbers within their bounds configure it, the generated constants read
back as these numbers, and every other document is reported with one line for each setting that is
not right, which names the first thing wrong with it. This is so of any document, and of any parser
that reads one.
-/

namespace NodeBus

open Toml (Value)

namespace Setting

/-! ## What can be wrong -/

/-- A value that a document has under the key of a setting. -/
def Under (s : Setting) (document v : Value) : Prop :=
  ∃ entries, document.get? s.sectionName = some (.table entries) ∧ entries.lookup s.key = some v

/-- A document gives an integer within the bounds of a setting. -/
structure Right (s : Setting) (document : Value) (i : Int) : Prop where
  given : s.Under document (.integer i)
  least_le : s.least ≤ i
  le_greatest : i ≤ s.greatest

/-- What a document lacks where a problem applies to it. -/
def Applies (s : Setting) (document : Value) : Problem → Prop
  | .missingSection => document.get? s.sectionName = none
  | .sectionNotTable => ¬ ∃ entries, document.get? s.sectionName = some (.table entries)
  | .missingKey => ¬ ∃ v, s.Under document v
  | .notInteger => ¬ ∃ i, s.Under document (.integer i)
  | .outOfRange => ¬ ∃ i, s.Right document i

/-- The problems, each of which applies wherever one in front of it does. -/
def problems : List Problem :=
  [.missingSection, .sectionNotTable, .missingKey, .notInteger, .outOfRange]

/-- The first problem that applies. -/
def First (s : Setting) (document : Value) (p : Problem) : Prop :=
  ∃ earlier later, problems = earlier ++ p :: later ∧
    s.Applies document p ∧ ∀ q ∈ earlier, ¬ s.Applies document q

/-- Lines that report the settings that are not right, in order and one for each of them. -/
inductive Reports (document : Value) : List Setting → List String → Prop where
  | nil : Reports document [] []
  | right {s : Setting} {i : Int} {ss : List Setting} {lines : List String}
      (given : s.Right document i) (rest : Reports document ss lines) :
      Reports document (s :: ss) lines
  | wrong {s : Setting} {p : Problem} {ss : List Setting} {lines : List String}
      (first : s.First document p) (rest : Reports document ss lines) :
      Reports document (s :: ss) (s.message p :: lines)

/-! ## Reading -/

section Reading

variable {s : Setting} {document v : Value} {i : Int} {p : Problem}

theorem under_iff {entries : List (String × Value)}
    (h : document.get? s.sectionName = some (.table entries)) :
    s.Under document v ↔ entries.lookup s.key = some v := by
  simp [Under, h]

theorem read_eq_ok_iff : s.read document = .ok i ↔ s.Right document i := by
  constructor
  · intro h
    rw [read] at h
    split at h <;> try contradiction
    rename_i hsection
    split at h <;> try contradiction
    rename_i hkey
    split at h <;> try contradiction
    rename_i hrange
    obtain rfl : _ = i := Except.ok.inj h
    exact ⟨(under_iff hsection).mpr hkey, hrange.1, hrange.2⟩
  · rintro ⟨⟨entries, hsection, hkey⟩, hleast, hgreatest⟩
    simp [read, hsection, hkey, hleast, hgreatest]

/-- The problem that is found is the first one. -/
theorem first_of_read_eq_error (h : s.read document = .error p) : s.First document p := by
  rw [read] at h
  split at h
  case h_1 hsection =>
    obtain rfl : .missingSection = p := Except.error.inj h
    exact ⟨[], _, rfl, hsection, by simp⟩
  case h_2 entries hsection =>
    have hunder (v : Value) := under_iff (v := v) hsection
    -- With the section known, what is given is what its entries have under the key.
    split at h
    case h_1 hkey =>
      obtain rfl : .missingKey = p := Except.error.inj h
      exact ⟨[.missingSection, .sectionNotTable], _, rfl, by simp [Applies, hunder, hkey],
        by simp [Applies, hsection]⟩
    case h_2 i hkey =>
      split at h
      case isTrue => contradiction
      case isFalse hrange =>
        obtain rfl : .outOfRange = p := Except.error.inj h
        refine ⟨[.missingSection, .sectionNotTable, .missingKey, .notInteger], _, rfl, ?_,
          by simp [Applies, hsection, hunder, hkey]⟩
        rintro ⟨j, hgiven, hleast, hgreatest⟩
        obtain rfl : i = j := by simpa [hkey] using (hunder _).mp hgiven
        exact hrange ⟨hleast, hgreatest⟩
    case h_3 v hinteger hkey =>
      obtain rfl : .notInteger = p := Except.error.inj h
      refine ⟨[.missingSection, .sectionNotTable, .missingKey], _, rfl, ?_,
        by simp [Applies, hsection, hunder, hkey]⟩
      rintro ⟨i, hgiven⟩
      exact hinteger i (by simpa [hkey] using (hunder _).mp hgiven)
  case h_3 v htable hsection =>
    obtain rfl : .sectionNotTable = p := Except.error.inj h
    refine ⟨[.missingSection], _, rfl, ?_, by simp [Applies, hsection]⟩
    rintro ⟨entries, hgiven⟩
    exact htable entries (by simpa [hsection] using hgiven)

theorem complaints_eq_nil_iff : s.complaints document = [] ↔ ∃ i, s.Right document i := by
  simp only [← read_eq_ok_iff]
  rw [complaints]
  split
  case h_1 i hread => simp [hread]
  case h_2 p hread => simp [hread]

theorem Right.value_eq (h : s.Right document i) : s.value document = i := by
  rw [value, read_eq_ok_iff.mpr h]
  rfl

/-- A number whose bounds fit into a word is kept by the word. -/
theorem Right.toNat_uint16 {n : Nat} (h : s.Right document n) (hbound : s.greatest < 65536) :
    (UInt16.ofNat n).toNat = n := by
  have hle : (n : Int) ≤ s.greatest := h.le_greatest
  exact UInt16.toNat_ofNat_of_lt' (by simp only [UInt16.size]; omega)

theorem Right.toNat_uint32 {n : Nat} (h : s.Right document n) (hbound : s.greatest < 4294967296) :
    (UInt32.ofNat n).toNat = n := by
  have hle : (n : Int) ≤ s.greatest := h.le_greatest
  exact UInt32.toNat_ofNat_of_lt' (by simp only [UInt32.size]; omega)

theorem reports_complaints (ss : List Setting) (document : Value) :
    Reports document ss (ss.flatMap (·.complaints document)) := by
  induction ss with
  | nil => exact .nil
  | cons s ss ih =>
    rw [List.flatMap_cons]
    cases hread : s.read document with
    | ok i =>
      rw [complaints, hread]
      exact .right (read_eq_ok_iff.mp hread) ih
    | error p =>
      rw [complaints, hread]
      exact .wrong (first_of_read_eq_error hread) ih

end Reading

end Setting

namespace Tuning

open Setting (Right Reports)

/-! ## Numbers of a node -/

/-- A document gives the four numbers of a node. -/
structure Gives (document : Value) (period wait interval baud : Nat) : Prop where
  period : Right ⟨"timer", "period_ms", 1, 65535⟩ document period
  wait : Right ⟨"dispatch", "normal_wait_ms", 1, 1000⟩ document wait
  interval : Right ⟨"monitor", "interval_ms", 100, 3600000⟩ document interval
  baud : Right ⟨"uart", "baud", 1200, 921600⟩ document baud

section OfDocument

variable {document : Value} {period wait interval baud : Nat}

theorem Gives.ofDocument_eq (h : Gives document period wait interval baud) :
    ofDocument document = .ok ⟨.ofNat period, .ofNat wait, .ofNat interval, .ofNat baud⟩ := by
  have hperiod := Setting.complaints_eq_nil_iff.mpr ⟨_, h.period⟩
  have hwait := Setting.complaints_eq_nil_iff.mpr ⟨_, h.wait⟩
  have hinterval := Setting.complaints_eq_nil_iff.mpr ⟨_, h.interval⟩
  have hbaud := Setting.complaints_eq_nil_iff.mpr ⟨_, h.baud⟩
  -- Nobody complains, so that the numbers which stand in for missing ones are never seen.
  have hnone : settings.flatMap (·.complaints document) = [] := by
    simp [settings, periodSetting, waitSetting, intervalSetting, baudSetting, hperiod, hwait,
      hinterval, hbaud]
  rw [ofDocument, hnone]
  simp [periodSetting, waitSetting, intervalSetting, baudSetting, h.period.value_eq,
    h.wait.value_eq, h.interval.value_eq, h.baud.value_eq]

theorem exists_gives_of_ofDocument_eq_ok {t : Tuning} (h : ofDocument document = .ok t) :
    ∃ period wait interval baud, Gives document period wait interval baud := by
  rw [ofDocument] at h
  split at h <;> try contradiction
  rename_i hnone
  have hright (s : Setting) (hs : s ∈ settings) (hleast : 0 ≤ s.least) :
      ∃ n : Nat, Right s document n := by
    have hs := List.flatMap_eq_nil_iff.mp hnone s hs
    obtain ⟨i, hi⟩ := Setting.complaints_eq_nil_iff.mp hs
    obtain ⟨n, rfl⟩ := Int.eq_ofNat_of_zero_le (Int.le_trans hleast hi.least_le)
    exact ⟨n, hi⟩
  obtain ⟨period, hperiod⟩ := hright periodSetting (by simp [settings]) (by decide)
  obtain ⟨wait, hwait⟩ := hright waitSetting (by simp [settings]) (by decide)
  obtain ⟨interval, hinterval⟩ := hright intervalSetting (by simp [settings]) (by decide)
  obtain ⟨baud, hbaud⟩ := hright baudSetting (by simp [settings]) (by decide)
  exact ⟨period, wait, interval, baud, hperiod, hwait, hinterval, hbaud⟩

theorem reports_of_ofDocument_eq_error {lines : List String}
    (h : ofDocument document = .error lines) : Reports document settings lines := by
  rw [ofDocument] at h
  split at h <;> try contradiction
  obtain rfl : _ = lines := Except.error.inj h
  exact Setting.reports_complaints settings document

end OfDocument

end Tuning

namespace Settings

/-! ## Declarations of constants -/

/-- The name, the type and the number of a constant that a line declares. -/
def declaration? (line : List Char) : Option (String × String × Nat) :=
  match line.splitOn ' ' with
  | [visible, kind, name, type, equals, value] =>
    let digits := value.dropLast
    if visible = "pub".toList ∧ kind = "const".toList ∧ name.getLast? = some ':' ∧
        equals = "=".toList ∧ value.getLast? = some ';' ∧ digits ≠ [] ∧ digits.all Char.isDigit then
      some (String.ofList name.dropLast, String.ofList type, Nat.ofDigitChars 10 digits 0)
    else none
  | _ => none

/-- The line that declares a constant. -/
def declared (name type : String) (n : Nat) : String :=
  s!"pub const {name}: {type} = {n};"

theorem toList_declared (name type : String) (n : Nat) :
    (declared name type n).toList = "pub const ".toList ++ name.toList ++ ": ".toList ++
      type.toList ++ " = ".toList ++ Nat.toDigits 10 n ++ ";".toList := by
  have htext : declared name type n =
      "pub const " ++ name ++ ": " ++ type ++ " = " ++ toString n ++ ";" := rfl
  rw [htext]
  simp only [String.toList_append, Nat.toString_eq_repr, Nat.toList_repr]

theorem isDigit_of_mem_digits {c : Char} {n : Nat} (h : c ∈ Nat.toDigits 10 n) : c.isDigit :=
  Nat.isDigit_of_mem_toDigits (by decide) (by decide) h

theorem not_mem_digits {c : Char} (hc : ¬ c.isDigit) (n : Nat) : c ∉ Nat.toDigits 10 n :=
  mt isDigit_of_mem_digits hc

/-- A line that is written to declare a constant is read as its declaration. -/
theorem declaration?_declared (name type : String) (n : Nat) (hname : ' ' ∉ name.toList)
    (htype : ' ' ∉ type.toList) :
    declaration? (declared name type n).toList = some (name, type, n) := by
  have hdigits : ∀ c ∈ Nat.toDigits 10 n, c.isDigit := fun _ => isDigit_of_mem_digits
  have hblank : ' ' ∉ Nat.toDigits 10 n := not_mem_digits (by decide) n
  have hwords : (declared name type n).toList.splitOn ' ' =
      ["pub".toList, "const".toList, name.toList ++ [':'], type.toList, "=".toList,
        Nat.toDigits 10 n ++ [';']] := by
    -- Neither name, type nor digits hold a blank, so the line falls apart at the blanks between.
    have hnone : ∀ word ∈ ["pub".toList, "const".toList, name.toList ++ [':'], type.toList,
        "=".toList, Nat.toDigits 10 n ++ [';']], ' ' ∉ word := by
      simp [hname, htype, hblank]
    simpa [toList_declared] using List.splitOn_intercalate ' ' hnone (List.cons_ne_nil _ _)
  rw [declaration?, hwords]
  simpa using hdigits

theorem plain_declared (name type : String) (n : Nat) (hname : '\n' ∉ name.toList)
    (htype : '\n' ∉ type.toList) : Plain (declared name type n).toList := by
  have hbreak : '\n' ∉ Nat.toDigits 10 n := not_mem_digits (by decide) n
  have hend : ";".toList = [';'] := rfl
  rw [toList_declared, hend]
  exact plain_concat (by simp [hname, htype, hbreak]) (by decide) (by decide)

theorem append_eq_declared (front name type : String) (n : Nat)
    (h : front = "pub const " ++ name ++ ": " ++ type ++ " = ") :
    front ++ toString n ++ ";\n" = declared name type n ++ "\n" := by
  have hend : ";\n" = ";" ++ "\n" := rfl
  rw [h, hend, ← String.append_assoc]
  rfl

/-- The lines of the generated constants. -/
def constantLines (t : Tuning) : List String :=
  ["/// Timer service tick period", declared "TIMER_PERIOD_MS" "u16" t.period.toNat,
    "/// Bounded wait of the dispatch worker on the normal queue",
    declared "NORMAL_WAIT_MS" "u32" t.wait.toNat, "/// Interval between statistics reports",
    declared "STATS_INTERVAL_MS" "u32" t.interval.toNat, "/// Command link baud rate",
    declared "UART_BAUD" "u32" t.baud.toNat]

theorem constants_eq_join (t : Tuning) :
    t.constants = String.join ((constantLines t).map (· ++ "\n")) := by
  have htext : t.constants =
      ("/// Timer service tick period" ++ "\n") ++
      ("pub const TIMER_PERIOD_MS: u16 = " ++ toString t.period.toNat ++ ";\n") ++
      ("/// Bounded wait of the dispatch worker on the normal queue" ++ "\n") ++
      ("pub const NORMAL_WAIT_MS: u32 = " ++ toString t.wait.toNat ++ ";\n") ++
      ("/// Interval between statistics reports" ++ "\n") ++
      ("pub const STATS_INTERVAL_MS: u32 = " ++ toString t.interval.toNat ++ ";\n") ++
      ("/// Command link baud rate" ++ "\n") ++
      ("pub const UART_BAUD: u32 = " ++ toString t.baud.toNat ++ ";\n") := rfl
  rw [htext, append_eq_declared "pub const TIMER_PERIOD_MS: u16 = " "TIMER_PERIOD_MS" "u16" _ rfl,
    append_eq_declared "pub const NORMAL_WAIT_MS: u32 = " "NORMAL_WAIT_MS" "u32" _ rfl,
    append_eq_declared "pub const STATS_INTERVAL_MS: u32 = " "STATS_INTERVAL_MS" "u32" _ rfl,
    append_eq_declared "pub const UART_BAUD: u32 = " "UART_BAUD" "u32" _ rfl]
  simp only [constantLines, List.map_cons, List.map_nil, String.join, List.foldl,
    String.empty_append]

theorem plain_of_mem_constantLines {t : Tuning} {line : String} (h : line ∈ constantLines t) :
    Plain line.toList := by
  revert line
  simp only [constantLines, List.forall_mem_cons]
  exact ⟨⟨by simp, by simp⟩, plain_declared _ _ _ (by simp) (by simp),
    ⟨by simp, by simp⟩, plain_declared _ _ _ (by simp) (by simp),
    ⟨by simp, by simp⟩, plain_declared _ _ _ (by simp) (by simp),
    ⟨by simp, by simp⟩, plain_declared _ _ _ (by simp) (by simp), by simp⟩

/-- The generated constants declare the numbers of a node. -/
theorem declarations_constants (t : Tuning) :
    (textLines t.constants).filterMap declaration? =
      [("TIMER_PERIOD_MS", "u16", t.period.toNat), ("NORMAL_WAIT_MS", "u32", t.wait.toNat),
        ("STATS_INTERVAL_MS", "u32", t.interval.toNat), ("UART_BAUD", "u32", t.baud.toNat)] := by
  -- The comments in between declare nothing.
  have hother : ∀ line ∈ ["/// Timer service tick period",
      "/// Bounded wait of the dispatch worker on the normal queue",
      "/// Interval between statistics reports", "/// Command link baud rate"],
      declaration? line.toList = none := by
    decide
  simp only [List.forall_mem_cons] at hother
  obtain ⟨hperiod, hwait, hinterval, hbaud, _⟩ := hother
  rw [constants_eq_join, textLines_join fun _ => plain_of_mem_constantLines]
  simp only [constantLines, List.map_cons, List.map_nil, List.filterMap_cons, List.filterMap_nil,
    hperiod, hwait, hinterval, hbaud]
  rw [declaration?_declared _ _ _ (by simp) (by simp),
    declaration?_declared _ _ _ (by simp) (by simp),
    declaration?_declared _ _ _ (by simp) (by simp),
    declaration?_declared _ _ _ (by simp) (by simp)]

/-! ## The diagnostic -/

theorem plain_row {text : String} (h : '\n' ∉ text.toList) : Plain (row text).toList := by
  have htext : (row text).toList = '║' :: padTo 66 text.toList ++ ['║'] := by
    simp [row]
  rw [htext, padTo]
  exact plain_concat (by simp [h]) (by decide) (by decide)

theorem plain_item {complaint : String} (h : '\n' ∉ complaint.toList) :
    Plain (item complaint).toList := by
  have htext : (item complaint).toList =
      "║  • ".toList ++ padTo 62 complaint.toList ++ [' '] ++ ['║'] := by
    simp [item]
  rw [htext, padTo]
  exact plain_concat (by simp [h]) (by decide) (by decide)

/-- The diagnostic has one line for each complaint. -/
theorem textLines_complaintBox {complaints : List String}
    (h : ∀ complaint ∈ complaints, '\n' ∉ complaint.toList) :
    textLines (complaintBox complaints) =
      [] :: (border "╔" "╗" :: row "  ERROR: Invalid node configuration" :: border "╠" "╣" ::
        complaints.map item ++ [border "╚" "╝"]).map String.toList := by
  have htitle : Plain (row "  ERROR: Invalid node configuration").toList :=
    plain_row (by simp)
  have hmiddle : Plain (border "╠" "╣").toList :=
    plain_border (by decide) rfl (by decide) (by decide)
  rw [complaintBox, textLines_box]
  · rfl
  · simp only [List.cons_append, List.nil_append, List.forall_mem_cons, List.forall_mem_map]
    exact ⟨htitle, hmiddle, fun complaint hc => plain_item (h complaint hc)⟩

theorem message_unbroken {s : Setting} (hsection : '\n' ∉ s.sectionName.toList)
    (hkey : '\n' ∉ s.key.toList) (p : Setting.Problem) : '\n' ∉ (s.message p).toList := by
  have hself (text : String) : toString text = text := rfl
  have hdigits : ∀ n : Nat, '\n' ∉ Nat.toDigits 10 n := not_mem_digits (by decide)
  have hnumber (i : Int) : '\n' ∉ i.repr.toList := by
    rw [Int.repr_eq_if]
    split <;> simp [hdigits]
  cases p <;> simp [Setting.message, hself, hsection, hkey, hnumber]

theorem unbroken_of_reports {document : Value} {lines : List String}
    (h : Setting.Reports document Tuning.settings lines) : ∀ line ∈ lines, '\n' ∉ line.toList := by
  have hnames : ∀ s ∈ Tuning.settings, '\n' ∉ s.sectionName.toList ∧ '\n' ∉ s.key.toList := by
    decide
  generalize Tuning.settings = settings at h hnames
  induction h with
  | nil => simp
  | right _ _ ih => exact ih (List.forall_mem_cons.mp hnames).2
  | wrong _ _ ih =>
    obtain ⟨hs, hrest⟩ := List.forall_mem_cons.mp hnames
    exact List.forall_mem_cons.mpr ⟨message_unbroken hs.1 hs.2 _, ih hrest⟩

theorem mem_problems (p : Setting.Problem) : p ∈ Setting.problems := by
  cases p <;> decide

set_option maxRecDepth 4000 in
/-- A message names one setting and one problem. -/
theorem eq_of_message_eq {s t : Setting} {p q : Setting.Problem} (hs : s ∈ Tuning.settings)
    (ht : t ∈ Tuning.settings) (h : s.message p = t.message q) : s = t ∧ p = q := by
  -- Twenty texts, no two of them alike.
  have hnodup : ((Tuning.settings.product Setting.problems).map fun x =>
      x.1.message x.2).Nodup := by
    decide
  have heq := List.inj_on_of_nodup_map hnodup (List.pair_mem_product.mpr ⟨hs, mem_problems p⟩)
    (List.pair_mem_product.mpr ⟨ht, mem_problems q⟩) h
  exact Prod.mk.inj heq

/-! ## Configuring a build -/

section Configure

variable {document : Value}

theorem ofDocument_of_gives {period wait interval baud : Nat}
    (h : Tuning.Gives document period wait interval baud) :
    ∃ constants, ofDocument document = .configured constants ∧
      (textLines constants).filterMap declaration? =
        [("TIMER_PERIOD_MS", "u16", period), ("NORMAL_WAIT_MS", "u32", wait),
          ("STATS_INTERVAL_MS", "u32", interval), ("UART_BAUD", "u32", baud)] := by
  refine ⟨Tuning.constants ⟨.ofNat period, .ofNat wait, .ofNat interval, .ofNat baud⟩, ?_, ?_⟩
  · simp only [ofDocument, h.ofDocument_eq]
  · rw [declarations_constants, h.period.toNat_uint16 (by decide),
      h.wait.toNat_uint32 (by decide), h.interval.toNat_uint32 (by decide),
      h.baud.toNat_uint32 (by decide)]

theorem ofDocument_of_not_gives
    (h : ¬ ∃ period wait interval baud, Tuning.Gives document period wait interval baud) :
    ∃ lines, Setting.Reports document Tuning.settings lines ∧
      ofDocument document = .stopped (complaintBox lines) := by
  cases hdocument : Tuning.ofDocument document with
  | ok t => exact absurd (Tuning.exists_gives_of_ofDocument_eq_ok hdocument) h
  | error lines =>
    refine ⟨lines, Tuning.reports_of_ofDocument_eq_error hdocument, ?_⟩
    simp only [ofDocument, hdocument]

theorem configureWith_of_parsed {parse : Parser} {bytes : ByteArray} {text : String}
    (hbytes : String.fromUTF8? bytes = some text) (hparsed : parse text = .ok document) :
    configureWith parse (.file bytes) = ofDocument document := by
  simp only [configureWith, hbytes, ofText, hparsed]

/-- A text with all numbers at their bounds, in tables of three kinds and beside other things. -/
def boundsText : String :=
  "timer=\x7bperiod_ms=65535\x7d\ndispatch.normal_wait_ms=1\n[monitor]\n" ++
    "interval_ms=3600000\n[uart]\nparity=[]\nbaud=1200"

/-- What that text says. -/
def boundsDocument : Value :=
  .table [("timer", .table [("period_ms", .integer 65535)]),
    ("dispatch", .table [("normal_wait_ms", .integer 1)]),
    ("monitor", .table [("interval_ms", .integer 3600000)]),
    ("uart", .table [("parity", .list []), ("baud", .integer 1200)])]

end Configure

end Settings

end NodeBus
