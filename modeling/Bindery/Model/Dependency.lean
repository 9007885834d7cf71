import Bindery.Model.Resolution

/-! What a node needs: the declarations behind its type, the bases of a record, and for every kind
the nodes that have to be known before it. -/

set_option autoImplicit false

namespace Bindery.Query

open Ast (TranslationUnit)

variable (u : TranslationUnit)

/-- Follows aliases and references to the declaration at their end; a marker is none. -/
def chainEnd : Nat → NodeId → Query (Option NodeId)
  | 0, _ => return none
  | bound + 1, id => do
    let kind := (← model).kind id
    if kind = .builtin then return none
    else if kind.isReference || kind.isAlias then
      match ← resolveType u id with
      | none => return none
      | some next => chainEnd bound next
    else return some id

/-- The declaration at the end of the aliases that start with a node. A chain longer than the arena
goes around in a ring and has no end. -/
def declarationBehind (id : NodeId) : Query (Option NodeId) := do
  chainEnd u ((← model).size + 1) id

/-- The declaration that the type of a node brings in. -/
def typeDependency (id : NodeId) : Query (Option NodeId) := do
  match ← resolveType u id with
  | none => return none
  | some target => declarationBehind u target

def typeDependencies (id : NodeId) : Query (OrderedSet NodeId) := do
  return .ofList (← typeDependency u id).toList

def onlyRecord (found : Option NodeId) : Query (Option NodeId) := do
  let m ← model
  return found.filter fun base => (m.kind base).isRecord

/-- The record that a node is or, through aliases, stands for. -/
def recordBehind (target : NodeId) : Query (Option NodeId) := do
  if ((← model).kind target).isAlias then onlyRecord (← declarationBehind u target)
  else onlyRecord (some target)

/-- The record behind a base specifier. There is none if the type of its first reference is marked
invalid; aliases are looked through. -/
def resolveBase (specifier : NodeId) : Query (Option NodeId) := do
  match firstReference? (← model) specifier with
  | none => return none
  | some first =>
    if ((u.cursor? first).bind (·.type)).any fun type => !u.isValidType type then return none
    else
      match ← resolveType u specifier with
      | none => return none
      | some target => recordBehind u target

/-- Adds what one base specifier of a record yields to the bases found before it. -/
def addBase (record : NodeId) (found : BaseList) (specifier : NodeId) : Query BaseList := do
  let base ← resolveBase u specifier
  let m ← model
  let node := m.node specifier
  match base with
  | some base =>
    if base = record then
      report (.selfBase (m.fullName record) node.location)
      return found
    else return { found with resolved := found.resolved.insert base }
  | none =>
    report (.unresolvedBase (m.fullName record) node.displayName node.location)
    return { found with unresolved := found.unresolved + 1 }

/-- The bases of a record, computed once. -/
def baseList (record : NodeId) : Query BaseList := do
  let m ← model
  match (m.node record).bases with
  | some found => return found
  | none =>
    let found ← (m.baseSpecifiers record).foldlM (addBase u record) {}
    update record fun node => { node with bases := some found }
    return found

/-- The resolved bases of a record in the order of their specifiers. -/
def bases (record : NodeId) : Query (List NodeId) := do
  return (← baseList u record).resolved.toList

def hasUnresolvedBases (record : NodeId) : Query Bool := do
  return 0 < (← baseList u record).unresolved

def recordOwner? (m : Model) (id : NodeId) : Option NodeId :=
  (m.node id).owner.filter fun owner => (m.kind owner).isRecord

/-- What a node needs that is no field. -/
def plainDependencies (id : NodeId) : Query (OrderedSet NodeId) := do
  let m ← model
  match m.kind id with
  | .record _ =>
    let bases ← bases u id
    return (OrderedSet.ofList (recordOwner? m id).toList).insertAll (bases.filter (· ≠ id))
  | .enumeration => return .ofList (recordOwner? m id).toList
  | .callable _ =>
    let returned ← typeDependencies u id
    (m.parameters id).foldlM (fun needed param => do
      return needed.insertAll (← typeDependencies u param).toList) returned
  | .baseSpecifier => return .ofList (← resolveBase u id).toList
  | .param | .field | .variable | .typeDef | .typeAlias | .typeRef | .templateRef =>
    typeDependencies u id
  | .translationUnit | .namespaceScope | .enumConstant | .aliasTemplate | .templateTypeParam
  | .templateNonTypeParam | .builtin => return ∅

/-- What a field needs: the declaration of its type, and what that needs in turn. Only a type that
is declared by another field leads on to a field. -/
def fieldDependencies : Nat → NodeId → Query (OrderedSet NodeId)
  | 0, id => throw (.fields id)
  | bound + 1, id => do
    match ← typeDependency u id with
    | none => return ∅
    | some target =>
      let needed := OrderedSet.ofList [target]
      if target = id then return needed
      else
        let kind := (← model).kind target
        let further ←
          if kind = .field then fieldDependencies bound target else plainDependencies u target
        return needed.insertAll further.toList

/-- The nodes that a node depends on directly. Fields that pass through more fields than the arena
holds have met one again and would go on for ever. -/
def dependencies (id : NodeId) : Query (OrderedSet NodeId) := do
  let m ← model
  if m.kind id = .field then fieldDependencies u (m.size + 1) id else plainDependencies u id

end Bindery.Query
