import Bindery.Ast.Unit
import Bindery.Text.Blank
import Bindery.Text.Quoted

/-! Facts read off a cursor or a type: names and comments that count as absent, definitions, and
types with indirection taken away. -/

set_option autoImplicit false

namespace Bindery.Ast

namespace Cursor

/-- The display name, or the spelling where the front end gave none. -/
def shownName (c : Cursor) : String := c.displayName.getD c.spelling

/-- The stable symbol reference; an empty one counts as absent. -/
def usr? (c : Cursor) : Option String := c.usr.filter fun usr => !usr.isEmpty

/-- The documentation comment; one of white space counts as absent. -/
def comment? (c : Cursor) : Option String :=
  c.briefComment.filter fun text => !Text.isBlankText text

/-- Kind and spelling, for people who read a trace. -/
def trace (c : Cursor) : String := s!"{c.kind.label}:{Text.quoted c.spelling}"

end Cursor

namespace TypeDescriptor

def isValid (t : TypeDescriptor) : Bool := t.kind ≠ .invalid

def trace (t : TypeDescriptor) : String := s!"{t.kind.label}:{Text.quoted t.spelling}"

end TypeDescriptor

def Inclusion.text (inclusion : Inclusion) : String :=
  s!"<include {inclusion.depth.toNat} {Text.quoted inclusion.path}>"

namespace TranslationUnit

variable (u : TranslationUnit)

/-- The definition of the entity that a cursor declares or refers to. A cursor flagged as a
definition is its own, unless it names another. -/
def definition? (id : CursorId) : Option CursorId := do
  let c ← u.cursor? id
  c.definition <|> if c.flags.isDefinition then some id else none

def isValidType (id : TypeId) : Bool := (u.type? id).any TypeDescriptor.isValid

/-- One level of pointer or reference taken away; an invalid target counts as absent. -/
def pointee? (id : TypeId) : Option TypeId := do
  let t ← u.type? id
  if t.kind.isIndirection then t.pointee.filter u.isValidType else none

/-- One level of pointer taken away; references stay. -/
def pointerTarget? (id : TypeId) : Option TypeId := do
  let t ← u.type? id
  if t.kind = .pointer then u.pointee? id else none

def followPointers : Nat → TypeId → Option TypeId
  | 0, _ => none
  | bound + 1, id =>
    match u.pointerTarget? id with
    | none => some id
    | some target => followPointers bound target

/-- Every level of pointer taken away. There is no answer for pointers that form a ring: a chain
longer than the table of types meets a type again. -/
def stripPointers? (id : TypeId) : Option TypeId := u.followPointers (u.types.size + 1) id

def canonical (id : TypeId) : TypeId := ((u.type? id).bind (·.canonical)).getD id

def declaration? (id : TypeId) : Option CursorId := (u.type? id).bind (·.declaration)

def typeDefinition? (id : TypeId) : Option CursorId := (u.declaration? id).bind u.definition?

end TranslationUnit

end Bindery.Ast
