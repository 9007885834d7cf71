import Bindery.Model.Lookup
import Bindery.Model.Resolution
import Bindery.Project.Config

/-! What to bind and how: exclusions, types that need no binding, and what is said of single
callables, records and enums. -/

set_option autoImplicit false

namespace Bindery.Binding

open Ast (TranslationUnit)
open Project (PolicyConfig)

structure Policy where
  config : PolicyConfig := {}
  /-- Full names, or full names with the signature of one overload. -/
  excluded : List String := config.exclude
  /-- Full names of the types that the runtime converts. -/
  casters : List String := config.casters
  /-- Each type found to have a caster, with the specialization that declares it. -/
  detected : OrderedMap NodeId NodeId := ∅
  deriving DecidableEq

namespace Policy

variable (p : Policy) (m : Model)

def exclude (key : String) : Policy := { p with excluded := p.excluded ++ [key] }

def caster (name : String) : Policy := { p with casters := p.casters ++ [name] }

def excludesKey (key : String) : Bool := key ∈ p.excluded

/-- Exclusion by full name, and for callables by signature as well. -/
def excludes (id : NodeId) : Bool :=
  p.excludesKey (m.fullName id) || ((m.kind id).isCallable && p.excludesKey (m.signatureKey id))

/-- The code bound in place of a callable; that of the overload goes before that of the name. -/
def replacement? (id : NodeId) : Option String :=
  p.config.replacements.get? (m.signatureKey id) <|> p.config.replacements.get? (m.fullName id)

/-- The return value policy of a callable; that of the name goes before that of the overload. -/
def returnPolicy? (id : NodeId) : Option String :=
  p.config.returnPolicies.get? (m.fullName id) <|> p.config.returnPolicies.get? (m.signatureKey id)

def isCaster (id : NodeId) : Bool := p.detected.contains id || m.fullName id ∈ p.casters

def addonMethods (id : NodeId) : List (String × String) :=
  ((p.config.addonMethods.get? (m.fullName id)).getD ∅).entries

def exportsValues (id : NodeId) : Bool := m.fullName id ∈ p.config.exportedEnums

def dropsUnresolvedBases : Bool := p.config.dropUnresolvedBases

/-- Visible from outside and not excluded. -/
def shows (id : NodeId) : Bool := (m.node id).isPublic && !p.excludes m id

def specializations? (template : String) : Option (List NodeId) :=
  match m.lookup Model.root template with
  | .error _ => none
  | .ok set => some (set.toList.filter fun id => (m.kind id).isRecord)

/-- Marks what the first type reference of a specialization denotes. -/
def detectIn (u : TranslationUnit) (p : Policy) (specialization : NodeId) : Query Policy := do
  let m ← Query.model
  match (m.membersWhere specialization (· = .typeRef)).head? with
  | none => return p
  | some reference =>
    match ← Query.resolveType u reference with
    | none => return p
    | some target => return { p with detected := p.detected.put target specialization }

/-- Marks the argument of every specialization of the caster template, and counts the types marked
so far. Without a template, or where it is not in the model, nothing is marked and counted. -/
def detectCasters (u : TranslationUnit) : Query (Policy × Nat) := do
  let m ← Query.model
  match p.config.casterTemplate.bind (specializations? m) with
  | none => return (p, 0)
  | some specializations =>
    let p ← specializations.foldlM (detectIn u) p
    return (p, p.detected.entries.length)

end Policy

end Bindery.Binding
