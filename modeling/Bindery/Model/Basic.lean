import Bindery.Ast.View
import Bindery.Model.Kind
import Bindery.OrderedMap
import Bindery.OrderedSet

/-! The model of a translation unit: an arena of nodes, one for each declaration, with tables that
find a node by its symbol reference and a marker by the spelling of its type. -/

set_option autoImplicit false

namespace Bindery

open Ast (Access Cursor CursorId Flags Location)

/-- Position of a node in the arena; positions are given out in order of creation. -/
structure NodeId where
  index : Nat
  deriving DecidableEq, Repr, Inhabited

/-- How far the type of a node has been resolved. -/
inductive Resolution where
  | pending
  /-- A request for the type meanwhile finds nothing. -/
  | inProgress
  | done (target : Option NodeId)
  deriving DecidableEq

structure BaseList where
  resolved : OrderedSet NodeId := ∅
  /-- How many base specifiers yield no record. -/
  unresolved : Nat := 0
  deriving DecidableEq

/-- An entity of the model. What is copied from a cursor reflects the occurrence last adopted. -/
structure Node where
  kind : NodeKind
  /-- The local name, empty for an anonymous entity. -/
  name : String
  displayName : String
  usr : Option String := none
  /-- The cursor that the node reflects; markers have none. -/
  occurrence : Option CursorId := none
  owner : Option NodeId := none
  /-- Named members by name, so that overloads share a key. -/
  content : OrderedMap String (OrderedSet NodeId) := ∅
  /-- All members in the order in which they were accepted. -/
  members : OrderedSet NodeId := ∅
  location : Location := {}
  access : Access := .none
  flags : Flags := {}
  comment : Option String := none
  /-- A callable that has been met a second time. -/
  isInline : Bool := false
  /-- The type reference of a template non-type parameter. -/
  refType : Option NodeId := none
  resolution : Resolution := .pending
  bases : Option BaseList := none
  deriving DecidableEq

namespace Node

def ofCursor (kind : NodeKind) (id : CursorId) (c : Cursor) : Node := {
  kind
  name := c.spelling
  displayName := c.shownName
  usr := c.usr?
  occurrence := some id
  location := c.location
  access := c.access
  flags := c.flags
  comment := c.comment? }

/-- The marker of a type without a declaration. -/
def builtin (spelling : String) : Node := {
  kind := .builtin
  name := spelling
  displayName := spelling
  resolution := .done none }

/-- Points a node at another occurrence of its declaration. The comment of a declaration survives
an occurrence without one. -/
def adopt (node : Node) (id : CursorId) (c : Cursor) : Node :=
  { node with
    occurrence := some id
    displayName := c.shownName
    location := c.location
    access := c.access
    flags := c.flags
    comment := c.comment? <|> node.comment }

/-- Drops what was derived from earlier occurrences. -/
def reset (node : Node) : Node :=
  { node with content := ∅, members := ∅, refType := none, resolution := .pending, bases := none }

def isAnonymous (node : Node) : Bool := node.name.isEmpty

def isPublic (node : Node) : Bool := node.access.isAccessible

end Node

structure Model where
  nodes : Array Node
  /-- The node of each symbol reference. -/
  symbols : OrderedMap String NodeId := ∅
  /-- The marker of each spelling. -/
  markers : OrderedMap String NodeId := ∅
  deriving DecidableEq

namespace Model

/-- A model of the root alone. -/
def start (root : Node) : Model := {
  nodes := #[root]
  symbols := match root.usr with
    | some usr => (∅ : OrderedMap String NodeId).put usr ⟨0⟩
    | none => ∅ }

def root : NodeId := ⟨0⟩

def size (m : Model) : Nat := m.nodes.size

def node? (m : Model) (id : NodeId) : Option Node := m.nodes[id.index]?

/-- The node at a position; outside the arena there are only nameless markers. -/
def node (m : Model) (id : NodeId) : Node := (m.node? id).getD (.builtin "")

def kind (m : Model) (id : NodeId) : NodeKind := (m.node id).kind

def name (m : Model) (id : NodeId) : String := (m.node id).name

def ids (m : Model) : List NodeId := (List.range m.size).map NodeId.mk

def byUsr? (m : Model) (usr : String) : Option NodeId := m.symbols.get? usr

def marker? (m : Model) (spelling : String) : Option NodeId := m.markers.get? spelling

def update (m : Model) (id : NodeId) (change : Node → Node) : Model :=
  { m with nodes := m.nodes.modify id.index change }

def add (m : Model) (node : Node) : Model × NodeId :=
  ({ m with nodes := m.nodes.push node }, ⟨m.size⟩)

/-- Registers a node as a member of another. Anonymous members have no key. -/
def attach (m : Model) (owner item : NodeId) : Model :=
  let name := m.name item
  m.update owner fun node => { node with
    members := node.members.insert item
    content :=
      if name.isEmpty then node.content
      else node.content.put name (((node.content.get? name).getD ∅).insert item) }

@[simp] theorem size_update (m : Model) (id : NodeId) (change : Node → Node) :
    (m.update id change).size = m.size := by
  simp [update, size]

theorem node?_update (m : Model) (id other : NodeId) (change : Node → Node) :
    (m.update id change).node? other =
      if other = id then (m.node? other).map change else m.node? other := by
  cases id with | mk i =>
  cases other with | mk j =>
  by_cases same : j = i
  · subst same
    simp [update, node?, Array.getElem?_modify]
  · have apart : ¬ i = j := fun equal => same equal.symm
    simp [update, node?, Array.getElem?_modify, same, apart]

@[simp] theorem size_add (m : Model) (node : Node) : (m.add node).1.size = m.size + 1 := by
  simp [add, size]

/-- The new node takes the next position, and all others keep theirs. -/
theorem node?_add (m : Model) (node : Node) (id : NodeId) :
    (m.add node).1.node? id = if id.index = m.size then some node else m.node? id := by
  by_cases last : id.index = m.nodes.size <;> simp [add, node?, size, Array.getElem?_push, last]

theorem node?_isSome {m : Model} {id : NodeId} : (m.node? id).isSome ↔ id.index < m.size := by
  simp [node?, size]

end Model

end Bindery
