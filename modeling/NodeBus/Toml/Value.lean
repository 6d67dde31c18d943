/-!
# TOML values

The value of a TOML document, whoever reads it.
-/

namespace NodeBus.Toml

/-- A value. Floats and times are told apart from other values and not kept. -/
inductive Value where
  | text (s : String)
  | integer (i : Int)
  | float
  | boolean (b : Bool)
  | time
  | list (items : List Value)
  | table (entries : List (String × Value))

/-- The value under a key, which only a table can have. -/
def Value.get? : Value → String → Option Value
  | .table entries, key => entries.lookup key
  | _, _ => none

end NodeBus.Toml
