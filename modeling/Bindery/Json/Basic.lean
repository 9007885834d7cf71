/-! JSON documents as their text gives them: members keep their order and their repetitions, and a
number that is not written as plain digits keeps its spelling. -/

set_option autoImplicit false

namespace Bindery

/-- The content of a JSON string. An escape that leaves half of a surrogate pair alone is allowed
by the grammar but denotes no text. -/
abbrev Json.Text := Option String

inductive Json where
  | null
  | boolean (value : Bool)
  /-- A number written with digits only. -/
  | natural (value : Nat)
  /-- Any other number, as it is spelled. -/
  | decimal (spelling : String)
  | string (content : Json.Text)
  | array (items : List Json)
  | object (members : List (Json.Text × Json))

namespace Json

instance : Inhabited Json := ⟨.null⟩

def text (content : String) : Json := .string (some content)

def record (fields : List (String × Json)) : Json :=
  .object (fields.map fun field => (some field.1, field.2))

def ofOption {α : Type} (encode : α → Json) : Option α → Json
  | none => .null
  | some value => encode value

def ofList {α : Type} (encode : α → Json) (items : List α) : Json := .array (items.map encode)

def text? : Json → Option String
  | .string content => content
  | _ => none

def natural? : Json → Option Nat
  | .natural value => some value
  | _ => none

def boolean? : Json → Option Bool
  | .boolean value => some value
  | _ => none

def items? : Json → Option (List Json)
  | .array items => some items
  | _ => none

end Json

end Bindery
