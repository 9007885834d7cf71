import Bindery.Json.Basic

/-! Records in JSON. A record is an object with known and other members, or the array of its field
values in order; a named choice is its name, or an object with the name as its only key. -/

set_option autoImplicit false

namespace Bindery.Json

/-- The values given for the known fields of a record. -/
abbrev Fields := List (String × Json)

/-- Other members are skipped; a known one must not repeat, and every key must be text. -/
def knownMembers (names : List String) : List (Text × Json) → Option Fields
  | [] => some []
  | (key, value) :: rest => do
    let key ← key
    let fields ← knownMembers names rest
    if key ∈ names then
      if (fields.lookup key).isSome then none else some ((key, value) :: fields)
    else some fields

def fields? (names : List String) : Json → Option Fields
  | .object members => knownMembers names members
  | .array items => if items.length ≤ names.length then some (names.zip items) else none
  | _ => none

namespace Fields

variable {α : Type}

def required (fields : Fields) (name : String) (decode : Json → Option α) : Option α :=
  (fields.lookup name).bind decode

def optional (fields : Fields) (name : String) (default : α) (decode : Json → Option α) :
    Option α :=
  match fields.lookup name with
  | none => some default
  | some value => decode value

end Fields

def choice? : Json → Option String
  | .string content => content
  | .object [(key, .null)] => key
  | _ => none

def nullable? {α : Type} (decode : Json → Option α) : Json → Option (Option α)
  | .null => some none
  | value => (decode value).map some

def list? {α : Type} (decode : Json → Option α) (value : Json) : Option (List α) :=
  value.items?.bind fun items => items.mapM decode

/-- A natural number of at most 32 bits. -/
def word? (value : Json) : Option UInt32 :=
  value.natural?.bind fun n => if n < UInt32.size then some (UInt32.ofNat n) else none

end Bindery.Json
