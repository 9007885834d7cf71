import Bindery.Binding.Order

/-! The plan of a binding: all that is to be emitted, in order. Members that do not show are left
out, and members that need something unbound stay but are marked with what they miss. -/

set_option autoImplicit false

namespace Bindery.Binding

open Ast (TranslationUnit)
open Project (EmitConfig)

/-- A field, method, constructor or free function. -/
structure Member where
  node : NodeId
  name : String
  /-- The parameter list as written. -/
  signature : String
  parameters : List String
  /-- What the member needs and is neither bound nor converted by the runtime. -/
  missing : List NodeId
  replacement : Option String
  returnPolicy : Option String
  overloaded : Bool
  isStatic : Bool
  doc : Option String
  deriving DecidableEq, Repr

/-- A member that misses something is emitted disabled. -/
def Member.isSkipped (member : Member) : Bool := !member.missing.isEmpty

structure RecordItem where
  /-- The bases that are bound. -/
  bases : List NodeId
  isAbstract : Bool
  constructors : List Member
  fields : List Member
  methods : List Member
  /-- Names and code of the methods that the policy adds. -/
  addonMethods : List (String × String)
  deriving DecidableEq, Repr

structure EnumItem where
  constants : List String
  /-- The values are put into the enclosing scope as well, as those of an anonymous enum always
  are. -/
  exportValues : Bool
  deriving DecidableEq, Repr

inductive Item where
  | record (item : RecordItem)
  | enumeration (item : EnumItem)
  | function (member : Member)
  deriving DecidableEq, Repr

structure Entry where
  node : NodeId
  name : String
  fullName : String
  /-- What the entity depends on, bound or not. -/
  dependencies : List NodeId
  item : Item
  deriving DecidableEq, Repr

structure Plan where
  moduleName : String := ""
  prolog : List String := []
  entries : List Entry := []
  deriving DecidableEq, Repr

namespace Plan

def entry? (plan : Plan) (id : NodeId) : Option Entry := plan.entries.find? (·.node = id)

def nodes (plan : Plan) : List NodeId := plan.entries.map (·.node)

end Plan

namespace Plan

variable (u : TranslationUnit) (p : Policy) (emit : EmitConfig) (bound : List NodeId)

def planMember (id : NodeId) : Query Member := do
  let needed ← Query.dependencies u id
  let m ← Query.model
  let node := m.node id
  return {
    node := id
    name := node.name
    signature := m.signature id
    parameters := (m.parameters id).map m.name
    missing := needed.toList.filter fun other =>
      !(bound.contains other || p.isCaster m other || m.kind other = .builtin)
    replacement := p.replacement? m id
    returnPolicy := p.returnPolicy? m id
    overloaded := node.kind.isCallable && m.isOverloaded id
    isStatic := node.flags.isStatic
    doc := node.comment }

def planRecord (id : NodeId) : Query RecordItem := do
  let bases ← Query.bases u id
  let m ← Query.model
  let shown (wanted : Bool) (members : List NodeId) : List NodeId :=
    if wanted then members.filter (p.shows m) else []
  return {
    bases := bases.filter bound.contains
    isAbstract := (m.node id).flags.isAbstract
    constructors :=
      ← (shown emit.constructors (m.constructors id)).mapM (planMember u p bound)
    fields := ← (shown emit.fields (m.fields id)).mapM (planMember u p bound)
    methods := ← (shown emit.methods (m.methods id)).mapM (planMember u p bound)
    addonMethods := p.addonMethods m id }

def planEnum (m : Model) (id : NodeId) : EnumItem := {
  constants := (m.enumConstants id).map m.name
  exportValues := (m.node id).isAnonymous || p.exportsValues m id }

/-- The item for an entity; only records, enums and free functions have one. -/
def planItem (id : NodeId) : Query (Option Item) := do
  let m ← Query.model
  match m.kind id with
  | .record _ => return some (.record (← planRecord u p emit bound id))
  | .enumeration => return some (.enumeration (planEnum p m id))
  | .callable .function => return some (.function (← planMember u p bound id))
  | _ => return none

def planEntry (id : NodeId) : Query (Option Entry) := do
  match ← planItem u p emit bound id with
  | none => return none
  | some item =>
    let needed ← Query.dependencies u id
    let m ← Query.model
    return some {
      node := id
      name := m.name id
      fullName := m.fullName id
      dependencies := needed.toList
      item }

/-- Plans the entities of an order; those that do not show from outside are left out. -/
def ofOrder (order : List NodeId) : Query Plan := do
  let m ← Query.model
  let bound := order.filter fun id => (m.node id).isPublic
  let entries ← bound.mapM (planEntry u p emit bound)
  return { moduleName := emit.moduleName, prolog := emit.prolog, entries := entries.filterMap id }

def ofRoots (roots : List NodeId) : Query (Except BindError Plan) := do
  match ← order u (← closure u p roots) with
  | .error error => return .error error
  | .ok order => return .ok (← ofOrder u p emit order)

end Plan

end Bindery.Binding
