import Bindery.Ast.Unit

/-! Building a translation unit step by step, as a front end does that translates its own tree.
Every step that makes a cursor or a type returns its position, and later steps may refer to it. -/

set_option autoImplicit false

namespace Bindery.Ast

inductive CursorEdit where
  | usr (usr : String)
  | displayName (name : String)
  /-- The lexical parent stays where the cursor was added. -/
  | semanticParent (parent : CursorId)
  | noSemanticParent
  | access (access : Access)
  | type (type : TypeId)
  | resultType (type : TypeId)
  | definition (definition : CursorId)
  | definitionOfItself
  | briefComment (comment : String)
  | location (file : String) (line : UInt32)
  | isStatic
  | isVirtual
  /-- A pure virtual method is virtual as well. -/
  | isPureVirtual
  | isAbstract
  deriving DecidableEq, Repr

def Cursor.edited (c : Cursor) : CursorEdit → Cursor
  | .usr usr => { c with usr := some usr }
  | .displayName name => { c with displayName := some name }
  | .semanticParent parent => { c with semanticParent := some parent }
  | .noSemanticParent => { c with semanticParent := none }
  | .access access => { c with access }
  | .type type => { c with type := some type }
  | .resultType type => { c with resultType := some type }
  | .definition definition => { c with definition := some definition }
  | .definitionOfItself => { c with flags := { c.flags with isDefinition := true } }
  | .briefComment comment => { c with briefComment := some comment }
  | .location file line => { c with location := { file := some file, line, column := 1 } }
  | .isStatic => { c with flags := { c.flags with isStatic := true } }
  | .isVirtual => { c with flags := { c.flags with isVirtual := true } }
  | .isPureVirtual => { c with flags := { c.flags with isVirtual := true, isPureVirtual := true } }
  | .isAbstract => { c with flags := { c.flags with isAbstract := true } }

structure UnitBuilder where
  unit : TranslationUnit
  /-- The line given to the next cursor, so that locations tell cursors apart. -/
  nextLine : UInt32 := 1
  deriving DecidableEq, Repr

namespace UnitBuilder

def new (path : String) : UnitBuilder :=
  { unit := {
      path
      root := ⟨0⟩
      cursors := #[{ kind := .translationUnit, spelling := path }] } }

def root (b : UnitBuilder) : CursorId := b.unit.root

def kindAt (b : UnitBuilder) (id : CursorId) : CursorKind :=
  ((b.unit.cursor? id).map (·.kind)).getD .other

def spellingAt (b : UnitBuilder) (id : CursorId) : String :=
  ((b.unit.cursor? id).map (·.spelling)).getD ""

def typeSpellingAt (b : UnitBuilder) (id : TypeId) : String :=
  ((b.unit.type? id).map (·.spelling)).getD ""

/-- Members of these are public unless something else is said. -/
def hasMembers : CursorKind → Bool
  | .classDecl | .structDecl | .classTemplate | .classTemplatePartialSpecialization => true
  | _ => false

def edit (b : UnitBuilder) (id : CursorId) (edits : List CursorEdit) : UnitBuilder :=
  { b with unit := { b.unit with
      cursors := b.unit.cursors.modify id.index fun c => edits.foldl Cursor.edited c } }

/-- Adds a cursor as the last child of a parent, which is its semantic and its lexical parent. -/
def addCursor (b : UnitBuilder) (parent : CursorId) (kind : CursorKind) (spelling : String) :
    UnitBuilder × CursorId :=
  let id := CursorId.ofIndex b.unit.cursors.size
  let cursor : Cursor := {
    kind
    spelling
    semanticParent := some parent
    lexicalParent := some parent
    location := { file := some b.unit.path, line := b.nextLine, column := 1 }
    access := if hasMembers (b.kindAt parent) then .publicMember else .none }
  let cursors := (b.unit.cursors.push cursor).modify parent.index fun c =>
    { c with children := c.children ++ [id] }
  ({ unit := { b.unit with cursors }, nextLine := b.nextLine + 1 }, id)

def addType (b : UnitBuilder) (descriptor : TypeDescriptor) : UnitBuilder × TypeId :=
  ({ b with unit := { b.unit with types := b.unit.types.push descriptor } },
    TypeId.ofIndex b.unit.types.size)

/-- The type that a declaration introduces, spelled as the declaration. -/
def addDeclaredType (b : UnitBuilder) (declaration : CursorId) : UnitBuilder × TypeId :=
  let kind : TypeKind := match b.kindAt declaration with
    | .enumDecl => .enumeration
    | .typedefDecl | .typeAliasDecl => .typedef
    | .classTemplate => .unexposed
    | _ => .record
  b.addType { kind, spelling := b.spellingAt declaration, declaration := some declaration }

/-- The type of an alias; its canonical form is that of what it stands for. -/
def addAliasType (b : UnitBuilder) (declaration : CursorId) (target : TypeId) :
    UnitBuilder × TypeId :=
  let canonical := ((b.unit.type? target).bind (·.canonical)).getD target
  b.addType {
    kind := .typedef
    spelling := b.spellingAt declaration
    declaration := some declaration
    canonical := some canonical }

/-- How a pointer or reference is spelled behind its target. -/
inductive Indirection where
  | pointer
  | lvalueReference
  | rvalueReference
  deriving DecidableEq, Repr

namespace Indirection

def kind : Indirection → TypeKind
  | .pointer => .pointer
  | .lvalueReference => .lvalueReference
  | .rvalueReference => .rvalueReference

def suffix : Indirection → String
  | .pointer => " *"
  | .lvalueReference => " &"
  | .rvalueReference => " &&"

end Indirection

def addIndirection (b : UnitBuilder) (indirection : Indirection) (pointee : TypeId) :
    UnitBuilder × TypeId :=
  b.addType {
    kind := indirection.kind
    spelling := b.typeSpellingAt pointee ++ indirection.suffix
    pointee := some pointee }

inductive Step where
  | cursor (parent : CursorId) (kind : CursorKind) (spelling : String) (edits : List CursorEdit)
  | edit (id : CursorId) (edits : List CursorEdit)
  | type (kind : TypeKind) (spelling : String)
  | declaredType (declaration : CursorId)
  | aliasType (declaration : CursorId) (target : TypeId)
  | indirection (indirection : Indirection) (pointee : TypeId)
  | message (message : Message)
  | inclusion (inclusion : Inclusion)
  deriving Repr

/-- A fundamental type has no declaration. -/
def Step.fundamental (spelling : String) : Step := .type .builtin spelling

def Step.invalidType : Step := .type .invalid ""

inductive Made where
  | cursor (id : CursorId)
  | type (id : TypeId)
  | nothing
  deriving DecidableEq, Repr

def take (b : UnitBuilder) : Step → UnitBuilder × Made
  | .cursor parent kind spelling edits =>
    let (b, id) := b.addCursor parent kind spelling
    (b.edit id edits, .cursor id)
  | .edit id edits => (b.edit id edits, .cursor id)
  | .type kind spelling => (b.addType { kind, spelling }).map id .type
  | .declaredType declaration => (b.addDeclaredType declaration).map id .type
  | .aliasType declaration target => (b.addAliasType declaration target).map id .type
  | .indirection indirection pointee => (b.addIndirection indirection pointee).map id .type
  | .message message =>
    ({ b with unit := { b.unit with messages := b.unit.messages ++ [message] } }, .nothing)
  | .inclusion inclusion =>
    ({ b with unit := { b.unit with inclusions := b.unit.inclusions ++ [inclusion] } }, .nothing)

end UnitBuilder

end Bindery.Ast
