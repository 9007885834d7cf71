import Bindery.Ast.Tree
import Bindery.Model.Acceptance
import Bindery.Model.Diagnostic
import Bindery.Model.Factory
import Bindery.Model.Query

/-! Building a model from the cursors of a unit. Every cursor that stands for a declaration finds or
makes its node, which then goes to its semantic owner; where it is written decides only what the
semantic parent leaves open. -/

set_option autoImplicit false

namespace Bindery

open Ast (Cursor CursorId CursorTree TranslationUnit)

/-- A model together with the conditions met so far. -/
structure Draft where
  model : Model
  diagnostics : List Diagnostic := []
  deriving DecidableEq

/-- What becomes of an item that is offered to the model. -/
inductive Verdict where
  | accepted (owner : NodeId)
  /-- The item belongs to the node it is written in as well. -/
  | elaborated (owner : NodeId)
  | rejected (owner : NodeId)
  | ownerless
  deriving DecidableEq, Repr

namespace Model

variable (m : Model) (u : TranslationUnit)

/-- The node that a cursor belongs to. Template parameters and references stay where they are
written; everything else follows its semantic parent, which may be missing from the model. -/
def semanticOwner? (container : NodeId) (c : Cursor) : Option NodeId :=
  if c.kind.isTemplateParameter || c.kind.isReference then some container
  else
    match c.semanticParent.bind u.cursor? with
    | none => some container
    | some parent =>
      if parent.kind = .translationUnit then some root
      else if parent.usr? = (m.node container).usr then some container
      else parent.usr?.bind m.byUsr?

/-- Whether a node takes a child. A template non-type parameter takes a single reference. -/
def ownerAllows (owner : NodeId) (child : Ast.CursorKind) : Bool :=
  let node := m.node owner
  !(node.kind = .templateNonTypeParam && node.refType.isSome) && allows node.kind child

def judge (container item : NodeId) (c : Cursor) : Verdict :=
  match m.semanticOwner? u container c with
  | none => .ownerless
  | some owner =>
    if isElaboration (m.kind container) (m.kind item) (m.kind owner) then
      if m.ownerAllows owner c.kind then .elaborated owner else .rejected owner
    else if m.ownerAllows owner c.kind &&
        (owner = container || mayRelocate (m.kind container) (m.kind item) (m.kind owner)) then
      .accepted owner
    else .rejected owner

def setOwner (owner item : NodeId) : Model :=
  m.update item fun node => { node with owner := some owner }

def setRefType (owner item : NodeId) : Model :=
  m.update owner fun node => { node with refType := some item }

/-- The name under which an owner is blamed. -/
def ownerLabel (owner : NodeId) : String :=
  let name := m.fullName owner
  if name.isEmpty then s!"<anonymous {(m.kind owner).label}>" else name

end Model

namespace Draft

variable (u : TranslationUnit)

def report (d : Draft) (diagnostic : Diagnostic) : Draft :=
  { d with diagnostics := d.diagnostics ++ [diagnostic] }

def carryOut (d : Draft) (container item : NodeId) (c : Cursor) : Verdict → Draft
  | .accepted owner =>
    let m := (d.model.attach owner item).setOwner owner item
    { d with model := if m.kind owner = .templateNonTypeParam then m.setRefType owner item else m }
  | .elaborated owner =>
    { d with model := ((d.model.attach container item).attach owner item).setOwner owner item }
  | .rejected owner =>
    d.report (.rejectedChild (d.model.name item) (d.model.kind item).label
      (d.model.ownerLabel owner) c.location)
  | .ownerless =>
    let owner := ((c.semanticParent.bind u.cursor?).map (·.shownName)).getD ""
    d.report (.unresolvedOwner (d.model.fullName item) owner c.location)

/-- Hands an item to its owner. A refused item stays in the arena and belongs to nothing. -/
def accept (d : Draft) (container item : NodeId) (c : Cursor) : Draft :=
  d.carryOut u container item c (d.model.judge u container item c)

/-- Folds another occurrence of a declaration into its node. A callable is rebuilt from the new
occurrence; any other node takes it over only while it has no members, which turns a forward
declaration into the definition. -/
def merge (d : Draft) (item : NodeId) (id : CursorId) (c : Cursor) : Draft :=
  { d with model := d.model.update item fun node =>
      if node.kind.isCallable then { node.reset.adopt id c with isInline := true }
      else if node.members.isEmpty then node.adopt id c
      else node }

/-- The node for a cursor: the one its symbol reference names, or a new one. There is none if the
kind is not modeled or its constructor declines. -/
def enter? (f : Factory) (d : Draft) (id : CursorId) (c : Cursor) : Option (NodeId × Draft) :=
  match f.constructor? c.kind with
  | none => none
  | some constructor =>
    match c.usr?.bind d.model.byUsr? with
    | some item => some (item, d.merge item id c)
    | none =>
      match constructor u id with
      | none => none
      | some kind =>
        let (m, item) := d.model.add (.ofCursor kind id c)
        let m := match c.usr? with
          | some usr => { m with symbols := m.symbols.put usr item }
          | none => m
        some (item, { d with model := m })

variable (f : Factory)

mutual

/-- Offers a cursor, and then what is below it, to the model. `way` holds the nodes entered on the
way down, the container first; a node is not entered below itself. -/
def visit (container : NodeId) (way : List NodeId) : CursorTree → Draft → Draft
  | .node id children, d =>
    match u.cursor? id with
    | none => d
    | some c =>
      match d.enter? u f id c with
      | none => d
      | some (item, entered) =>
        let accepted := entered.accept u container item c
        if item ∈ way then accepted else visitAll item (item :: way) children accepted

def visitAll (container : NodeId) (way : List NodeId) : List CursorTree → Draft → Draft
  | [], d => d
  | tree :: rest, d => visitAll container way rest (visit container way tree d)

end

end Draft

/-- A unit, the factory that reads it and the model made from it so far. -/
structure Session where
  unit : TranslationUnit
  factory : Factory
  draft : Draft
  built : Bool

namespace Session

def start (unit : TranslationUnit) (factory : Factory := .standard) : Session :=
  let root := (unit.cursor? unit.root).getD { kind := .translationUnit }
  { unit
    factory
    draft := { model := .start (.ofCursor .translationUnit unit.root root) }
    built := false }

def messages (unit : TranslationUnit) : List Diagnostic :=
  unit.messages.map fun message => .parseMessage message.severity message.content message.location

/-- Walks the unit once; a session that is built stays as it is. -/
def build (s : Session) : Session :=
  if s.built then s
  else
    let d := { s.draft with diagnostics := s.draft.diagnostics ++ messages s.unit }
    { s with
      draft := d.visitAll s.unit s.factory Model.root [Model.root] s.unit.tree.children
      built := true }

def model (s : Session) : Model := s.draft.model

def diagnostics (s : Session) : List Diagnostic := s.draft.diagnostics

end Session

end Bindery
