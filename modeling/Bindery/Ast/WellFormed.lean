import Bindery.Ast.Unit
import Bindery.Report
import Bindery.Text.Quoted

/-! Checking a translation unit before it is used: every reference stays inside its table, the root
is a translation unit, and child lists lead to no cursor twice. The first fault found is the
answer. -/

set_option autoImplicit false

namespace Bindery.Ast

inductive Site where
  | root
  | cursor (index : Nat) (kind : CursorKind) (spelling : String)
  | type (index : Nat) (spelling : String)
  deriving DecidableEq, Repr

def Site.text : Site → String
  | .root => "root"
  | .cursor index kind spelling => s!"cursor #{index} ({kind.label} {Text.quoted spelling})"
  | .type index spelling => s!"type t{index} ({Text.quoted spelling})"

inductive Fault where
  | danglingCursor (id : CursorId) (site : Site)
  | danglingType (id : TypeId) (site : Site)
  /-- Child lists lead to a cursor again, this time as a child of `parent`. -/
  | cyclicCursor (id parent : CursorId)
  | badRoot (id : CursorId) (kind : CursorKind)
  deriving DecidableEq, Repr

def Fault.report : Fault → Report
  | .danglingCursor id site =>
    { message := s!"Dangling cursor reference {id.label} in {site.text}"
      code := "hydra_source::dangling_cursor" }
  | .danglingType id site =>
    { message := s!"Dangling type reference {id.label} in {site.text}"
      code := "hydra_source::dangling_type" }
  | .cyclicCursor id parent =>
    { message := s!"Cursor {id.label} is reached a second time as a child of {parent.label}"
      code := "hydra_source::cyclic_cursor"
      help := some "Child lists in the AST dump must form a tree rooted at the translation unit" }
  | .badRoot id kind =>
    { message := s!"Root cursor {id.label} is {kind.label}, expected a translation unit"
      code := "hydra_source::bad_root" }

namespace Cursor

/-- The cursors that a cursor refers to, in the order in which they are checked. -/
def linkedCursors (c : Cursor) : List CursorId :=
  c.semanticParent.toList ++ c.lexicalParent.toList ++ c.definition.toList ++ c.children

def linkedTypes (c : Cursor) : List TypeId := c.type.toList ++ c.resultType.toList

end Cursor

def TypeDescriptor.linkedTypes (t : TypeDescriptor) : List TypeId :=
  t.pointee.toList ++ t.canonical.toList

namespace TranslationUnit

variable (u : TranslationUnit)

def danglingCursor? (site : Site) (id : CursorId) : Option Fault :=
  if id.index < u.cursors.size then none else some (.danglingCursor id site)

def danglingType? (site : Site) (id : TypeId) : Option Fault :=
  if id.index < u.types.size then none else some (.danglingType id site)

def rootFault? : Option Fault :=
  match u.cursor? u.root with
  | none => some (.danglingCursor u.root .root)
  | some c => if c.kind = .translationUnit then none else some (.badRoot u.root c.kind)

def cursorFault? (entry : Cursor × Nat) : Option Fault :=
  let site := Site.cursor entry.2 entry.1.kind entry.1.spelling
  entry.1.linkedCursors.findSome? (u.danglingCursor? site) <|>
    entry.1.linkedTypes.findSome? (u.danglingType? site)

def typeFault? (entry : TypeDescriptor × Nat) : Option Fault :=
  let site := Site.type entry.2 entry.1.spelling
  entry.1.linkedTypes.findSome? (u.danglingType? site) <|>
    entry.1.declaration.bind (u.danglingCursor? site)

def childrenOf (id : CursorId) : List CursorId := ((u.cursor? id).map (·.children)).getD []

/-- Visits the pending cursors, each with the cursor that lists it, last listed first, until one has
been seen before. A bound of one more than the number of cursors is never used up, since every
visit sees another cursor. -/
def repeatedChild? : Nat → List CursorId → List (CursorId × CursorId) → Option Fault
  | 0, _, _ => none
  | _ + 1, _, [] => none
  | bound + 1, seen, (id, parent) :: pending =>
    if id ∈ seen then some (.cyclicCursor id parent)
    else repeatedChild? bound (id :: seen)
      ((u.childrenOf id).reverse.map (fun child => (child, id)) ++ pending)

def treeFault? : Option Fault := u.repeatedChild? (u.cursors.size + 1) [] [(u.root, u.root)]

/-- The first fault of a unit, in the order root, cursors, types, tree. -/
def firstFault? : Option Fault :=
  u.rootFault? <|>
    u.cursors.toList.zipIdx.findSome? u.cursorFault? <|>
    u.types.toList.zipIdx.findSome? u.typeFault? <|>
    u.treeFault?

end TranslationUnit

end Bindery.Ast
