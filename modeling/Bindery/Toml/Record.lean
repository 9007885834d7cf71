import Bindery.OrderedMap
import Bindery.Toml.Basic

/-! Records in TOML. A record is a table with known and other keys, or the array of its first field
values in order; elements behind the last field are ignored. -/

set_option autoImplicit false

namespace Bindery.Toml

/-- The key under which a date holds its text when it is read as a table. -/
def dateKey : String := "$__toml_private_datetime"

/-- The entries of a table. A date counts as a table of one entry. -/
def entries? : Toml → Option (List (String × Toml))
  | .table entries => some entries
  | .date text => some [(dateKey, .string text)]
  | _ => none

/-- The values of a record by field name. -/
abbrev Fields := List (String × Toml)

def fields? (names : List String) : Toml → Option Fields
  | .array items => some (names.zip items)
  | value => entries? value

namespace Fields

variable {α : Type}

def required (fields : Fields) (name : String) (decode : Toml → Option α) : Option α :=
  (fields.lookup name).bind decode

def optional (fields : Fields) (name : String) (default : α) (decode : Toml → Option α) :
    Option α :=
  match fields.lookup name with
  | none => some default
  | some value => decode value

end Fields

def text? : Toml → Option String
  | .string content => some content
  | _ => none

def boolean? : Toml → Option Bool
  | .boolean value => some value
  | _ => none

def list? {α : Type} (decode : Toml → Option α) : Toml → Option (List α)
  | .array items => items.mapM decode
  | _ => none

def map? {α : Type} (decode : Toml → Option α) (value : Toml) : Option (OrderedMap String α) := do
  let entries ← entries? value
  let pairs ← entries.mapM fun entry => (decode entry.2).map fun value => (entry.1, value)
  return .ofList pairs

end Bindery.Toml
