/-! What is told to the user about an error or a remarkable condition. -/

set_option autoImplicit false

namespace Bindery

/-- The weight of a report; an error that ends a command has none. -/
inductive Report.Severity where
  | warning
  | advice
  deriving DecidableEq, Repr

def Report.Severity.label : Report.Severity → String
  | .warning => "Warning"
  | .advice => "Advice"

structure Report where
  message : String
  /-- The stable name under which the condition is documented. -/
  code : String
  severity : Option Report.Severity := none
  help : Option String := none
  deriving DecidableEq, Repr

end Bindery
