import Bindery.Model.Build

/-! Resolving the type of a node to the node it denotes. An answer is kept with the node, and a type
that cannot be resolved is reported when it is first asked for. Types without a declaration denote
markers, which are made when they are first needed. -/

set_option autoImplicit false

namespace Bindery

open Ast (Cursor CursorId TranslationUnit TypeId)

/-- A search that would go around for ever. -/
inductive Endless where
  /-- A pointer type leads back to itself through its pointees. -/
  | pointers (type : TypeId)
  /-- The type of a field leads back to the field through the types of other fields. -/
  | fields (field : NodeId)
  deriving DecidableEq, Repr

/-- A question to a model that may remember answers, make markers and report conditions. -/
abbrev Query := StateT Draft (Except Endless)

namespace Query

variable (u : TranslationUnit)

def model : Query Model := fun d => .ok (d.model, d)

def report (diagnostic : Diagnostic) : Query Unit := fun d => .ok ((), d.report diagnostic)

def update (id : NodeId) (change : Node → Node) : Query Unit := fun d =>
  .ok ((), { d with model := d.model.update id change })

def noteResolution (id : NodeId) (resolution : Resolution) : Query Unit :=
  update id fun node => { node with resolution }

def marker (spelling : String) : Query NodeId := fun d =>
  match d.model.marker? spelling with
  | some id => .ok (id, d)
  | none =>
    let (m, id) := d.model.add (.builtin spelling)
    .ok (id, { d with model := { m with markers := m.markers.put spelling id } })

/-- The node of the declaration or definition at a cursor. -/
def nodeAt (id : Option CursorId) : Query (Option NodeId) := do
  let m ← model
  return ((id.bind u.cursor?).bind Cursor.usr?).bind m.byUsr?

/-- The node a type denotes, after one level of indirection: that of its definition, or else of its
declaration, or else the marker of its spelling. -/
def resolveDescriptor (type : TypeId) : Query (Option NodeId) := do
  let target := (u.pointee? type).getD type
  match u.declaration? target with
  | none => return some (← marker (((u.type? target).map (·.spelling)).getD ""))
  | some declaration =>
    if ((u.cursor? declaration).map (·.kind)).getD .noDeclFound = .noDeclFound then
      return some (← marker (((u.type? target).map (·.spelling)).getD ""))
    else
      match ← nodeAt u (u.definition? declaration) with
      | some node => return some node
      | none => nodeAt u (some declaration)

/-- A reference denotes the definition it points at, or else what its own type denotes. -/
def resolveReference (id : CursorId) : Query (Option NodeId) := do
  match ← nodeAt u (u.definition? id) with
  | some node => return some node
  | none =>
    match ((u.cursor? id).bind (·.type)).filter u.isValidType with
    | none => return none
    | some type => resolveDescriptor u type

/-- The kept answer for a node, or the computed one, which is then kept. -/
def remember (id : NodeId) (compute : Query (Option NodeId)) : Query (Option NodeId) := do
  let m ← model
  match (m.node id).resolution with
  | .done target => return target
  | .inProgress => return none
  | .pending =>
    if (m.kind id).holdsType then
      noteResolution id .inProgress
      let target ← compute
      noteResolution id (.done target)
      return target
    else
      noteResolution id (.done none)
      return none

def referenceTarget (id : NodeId) : Query (Option NodeId) := remember id do
  let m ← model
  match (m.node id).occurrence with
  | none => return none
  | some occurrence => resolveReference u occurrence

/-- The cursor of the first reference among the members of a node. -/
def firstReference? (m : Model) (id : NodeId) : Option CursorId :=
  (m.references id).head?.bind fun reference => (m.node reference).occurrence

def stripPointers (type : TypeId) : Query TypeId :=
  match u.stripPointers? type with
  | some target => return target
  | none => throw (.pointers type)

/-- The type that resolution of a node starts from; an invalid one counts as absent. -/
def startingType (id : NodeId) (occurrence : CursorId) : Query (Option TypeId) := do
  let m ← model
  let typeAt (cursor : CursorId) : Option TypeId := (u.cursor? cursor).bind (·.type)
  let type ← match m.kind id with
    | .callable _ => pure ((u.cursor? occurrence).bind (·.resultType))
    | .param => (typeAt occurrence).mapM (stripPointers u)
    | .field => pure (typeAt ((u.definition? occurrence).getD occurrence))
    | .typeDef | .typeAlias => pure ((typeAt occurrence).map u.canonical)
    | .baseSpecifier => pure ((firstReference? m id).bind typeAt)
    | _ => pure (typeAt occurrence)
  return type.filter u.isValidType

/-- A parameter whose type leads nowhere falls back on the bare declaration of its type. -/
def fallback (id : NodeId) (type : Option TypeId) : Query (Option NodeId) := do
  if (← model).kind id = .param then nodeAt u (type.bind u.declaration?) else return none

/-- Reports a type that cannot be resolved. Base specifiers are left to be reported with their
record. -/
def reportUnresolved (id : NodeId) (type : Option TypeId) : Query Unit := do
  let m ← model
  if m.kind id ≠ .baseSpecifier then
    let spelling := ((type.bind u.type?).map (·.spelling)).getD ""
    report (.unresolvedType (m.fullName id) spelling (m.node id).location)

/-- What was found for a node, or else its fallback; where there is neither, that is reported. -/
def conclude (id : NodeId) (type : Option TypeId) (found : Option NodeId) :
    Query (Option NodeId) := do
  match found with
  | some target => return some target
  | none =>
    match ← fallback u id type with
    | some target => return some target
    | none =>
      reportUnresolved u id type
      return none

/-- Resolves a node that is no reference. The last reference among its members wins over its
type. -/
def computeTarget (id : NodeId) (occurrence : CursorId) : Query (Option NodeId) := do
  let m ← model
  let type ← startingType u id occurrence
  match (m.references id).getLast?, type with
  | some reference, _ => conclude u id type (← referenceTarget u reference)
  | none, some known => conclude u id type (← resolveDescriptor u known)
  | none, none => return none

def resolveType (id : NodeId) : Query (Option NodeId) := do
  let m ← model
  if (m.kind id).isReference then referenceTarget u id
  else remember id do
    let m ← model
    match (m.node id).occurrence with
    | none => return none
    | some occurrence => computeTarget u id occurrence

def returnType (id : NodeId) : Query (Option NodeId) := do
  let m ← model
  if (m.kind id).isCallable then resolveType u id else return none

end Query

end Bindery
