import Bindery.OrderedMap
import Bindery.Umbrella

/-! The configuration of a binding project. -/

set_option autoImplicit false

namespace Bindery.Project

/-- How the front end is called. Only the plugins matter here, as headers of the umbrella. -/
structure FrontendConfig where
  cflags : List String := []
  includePath : List String := []
  plugins : List String := []
  deriving DecidableEq, Repr

/-- A root to bind: its qualified name and the header that declares it. -/
structure RootConfig where
  name : String
  header : String
  deriving DecidableEq, Repr

/-- What to leave out and what to treat specially. Callables are named by their full name, or a
single overload by its full name and signature. -/
structure PolicyConfig where
  exclude : List String := []
  /-- Types that the target runtime converts by itself. -/
  casters : List String := []
  /-- The template whose specializations mark their argument as a caster. -/
  casterTemplate : Option String := none
  dropUnresolvedBases : Bool := false
  exportedEnums : List String := []
  returnPolicies : OrderedMap String String := ∅
  replacements : OrderedMap String String := ∅
  /-- Names and code of the methods added to a record. -/
  addonMethods : OrderedMap String (OrderedMap String String) := ∅
  deriving DecidableEq

structure EmitConfig where
  /-- The name of the generated module. -/
  moduleName : String := "bindings"
  constructors : Bool := true
  fields : Bool := true
  methods : Bool := true
  /-- Fragments that stand before the module. -/
  prolog : List String := []
  deriving DecidableEq, Repr

structure Config where
  frontend : FrontendConfig := {}
  bindings : List RootConfig := []
  policy : PolicyConfig := {}
  emit : EmitConfig := {}
  deriving DecidableEq

namespace Config

/-- The headers of the bindings, then those of the plugins. -/
def umbrellaHeaders (config : Config) : List String :=
  config.bindings.map (·.header) ++ config.frontend.plugins

def umbrella (config : Config) : String := Umbrella.text config.umbrellaHeaders

def rootNames (config : Config) : List String := config.bindings.map (·.name)

end Config

end Bindery.Project
