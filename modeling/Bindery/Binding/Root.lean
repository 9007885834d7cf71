import Bindery.Model.Lookup

/-! The roots of a binding, found by qualified name. Overloads come together. -/

set_option autoImplicit false

namespace Bindery.Binding

inductive BindError where
  /-- The full names along a ring of dependencies, the first one again at the end. -/
  | dependencyCycle (names : List String)
  | unknownRoot (name reason : String)
  deriving DecidableEq, Repr

def BindError.report : BindError → Report
  | .dependencyCycle names =>
    { message := "Dependency cycle between bindings: " ++ " -> ".intercalate names
      code := "hydra_bind::dependency_cycle"
      help := some "Exclude one of the entities in the cycle or mark it as a caster" }
  | .unknownRoot name reason =>
    { message := s!"Binding root `{name}` not found: {reason}"
      code := "hydra_bind::unknown_root"
      help := some "Check that the header declaring it is listed in [[bindings]]" }

variable (m : Model)

def resolveRoot (name : String) : Except BindError (List NodeId) :=
  match m.lookup Model.root name with
  | .error error => .error (.unknownRoot name error.report.message)
  | .ok set =>
    match set.toList.filter fun id => (m.kind id).isBindable with
    | [] =>
      let kind := ((set.toList.head?).map m.kind).getD .builtin
      .error (.unknownRoot name s!"{kind.label} is not bindable")
    | roots => .ok roots

/-- All roots that are found, each once, and an error for every name without one. -/
def resolveRoots (names : List String) : OrderedSet NodeId × List BindError :=
  names.foldl (fun (roots, errors) name =>
    match resolveRoot m name with
    | .ok found => (roots.insertAll found, errors)
    | .error error => (roots, errors ++ [error])) (∅, [])

end Bindery.Binding
