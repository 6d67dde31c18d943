import NodeBus.Toml.Value
import NodeBus.Tuning

/-!
# Settings

The numbers of a node are read from a TOML document and checked before a node is
built with them. Each setting is a key in a section with the least and the
greatest value it may have; `Setting.read` gives its value or names the first
thing that is wrong with it. `Tuning.ofDocument` reads all settings of a node and
gives all that is wrong, in the order of the settings.
-/

namespace NodeBus

open Toml (Value)

/-- A number that a document must give. -/
structure Setting where
  sectionName : String
  key : String
  least : Int
  greatest : Int
  deriving DecidableEq, Repr

namespace Setting

/-- What can be wrong with a setting, in the order in which it is looked for. -/
inductive Problem where
  | missingSection
  | sectionNotTable
  | missingKey
  | notInteger
  | outOfRange
  deriving DecidableEq, Repr

/-- The line that reports a problem. -/
def message (s : Setting) : Problem → String
  | .missingSection => s!"Missing [{s.sectionName}] section"
  | .sectionNotTable => s!"[{s.sectionName}] must be a table"
  | .missingKey => s!"[{s.sectionName}] missing '{s.key}'"
  | .notInteger => s!"[{s.sectionName}] {s.key} must be an integer"
  | .outOfRange => s!"[{s.sectionName}] {s.key} must be {s.least}-{s.greatest}"

/-- The value of a setting in a document, or what is wrong with it. A document that is
a time has no sections. -/
def read (s : Setting) (document : Value) : Except Problem Int :=
  match document.get? s.sectionName with
  | none => .error .missingSection
  | some (.table entries) =>
    match entries.lookup s.key with
    | none => .error .missingKey
    | some (.integer i) =>
      if s.least ≤ i ∧ i ≤ s.greatest then .ok i else .error .outOfRange
    | some _ => .error .notInteger
  | some _ => .error .sectionNotTable

/-- The value of a setting, which is the least one if anything is wrong. -/
def value (s : Setting) (document : Value) : Int := (s.read document).toOption.getD s.least

/-- The lines about a setting: none, or the one that says what is wrong with it. -/
def complaints (s : Setting) (document : Value) : List String :=
  match s.read document with
  | .ok _ => []
  | .error problem => [s.message problem]

end Setting

namespace Tuning

/-- The tick period. -/
def periodSetting : Setting := ⟨"timer", "period_ms", 1, 65535⟩

/-- The wait of the worker. -/
def waitSetting : Setting := ⟨"dispatch", "normal_wait_ms", 1, 1000⟩

/-- The time between statistics. -/
def intervalSetting : Setting := ⟨"monitor", "interval_ms", 100, 3600000⟩

/-- The speed of the command link. -/
def baudSetting : Setting := ⟨"uart", "baud", 1200, 921600⟩

/-- The settings of a node in the order in which they are checked. -/
def settings : List Setting := [periodSetting, waitSetting, intervalSetting, baudSetting]

/-- The numbers that a document gives, or all that is wrong with its settings. -/
def ofDocument (document : Value) : Except (List String) Tuning :=
  match settings.flatMap (·.complaints document) with
  | [] => .ok {
      period := .ofNat (periodSetting.value document).toNat
      wait := .ofNat (waitSetting.value document).toNat
      interval := .ofNat (intervalSetting.value document).toNat
      baud := .ofNat (baudSetting.value document).toNat }
  | complaints => .error complaints

/-- The constants that a node is compiled with. -/
def constants (t : Tuning) : String :=
  "/// Timer service tick period\n" ++
  s!"pub const TIMER_PERIOD_MS: u16 = {t.period.toNat};\n" ++
  "/// Bounded wait of the dispatch worker on the normal queue\n" ++
  s!"pub const NORMAL_WAIT_MS: u32 = {t.wait.toNat};\n" ++
  "/// Interval between statistics reports\n" ++
  s!"pub const STATS_INTERVAL_MS: u32 = {t.interval.toNat};\n" ++
  "/// Command link baud rate\n" ++
  s!"pub const UART_BAUD: u32 = {t.baud.toNat};\n"

end Tuning

end NodeBus
