/-! TOML values. Tables keep the order of their keys. -/

set_option autoImplicit false

namespace Bindery

inductive Toml where
  | string (content : String)
  | boolean (value : Bool)
  | integer (value : Int)
  /-- A floating-point number, as it is spelled. -/
  | float (spelling : String)
  /-- A date, a time of day or both, in the form of RFC 3339. -/
  | date (text : String)
  | array (items : List Toml)
  | table (entries : List (String × Toml))

instance : Inhabited Toml := ⟨.table []⟩

end Bindery
