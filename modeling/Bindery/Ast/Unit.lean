import Bindery.Ast.Kind

/-! The translation unit of an AST dump: a table of cursors and a table of types that refer to each
other by index, with the messages and inclusions of the parse. Numbers are 32-bit words, as in
the dump. -/

set_option autoImplicit false

namespace Bindery.Ast

structure CursorId where
  word : UInt32
  deriving DecidableEq, Repr, Inhabited

namespace CursorId

def index (id : CursorId) : Nat := id.word.toNat

def ofIndex (index : Nat) : CursorId := ⟨UInt32.ofNat index⟩

def label (id : CursorId) : String := s!"#{id.index}"

end CursorId

structure TypeId where
  word : UInt32
  deriving DecidableEq, Repr, Inhabited

namespace TypeId

def index (id : TypeId) : Nat := id.word.toNat

def ofIndex (index : Nat) : TypeId := ⟨UInt32.ofNat index⟩

def label (id : TypeId) : String := s!"t{id.index}"

end TypeId

/-- A position in a source file; built-in declarations have no file. -/
structure Location where
  file : Option String := none
  line : UInt32 := 0
  column : UInt32 := 0
  deriving DecidableEq, Repr, Inhabited

def Location.text (location : Location) : String :=
  match location.file with
  | some file => s!"{file}:{location.line.toNat}:{location.column.toNat}"
  | none => "<unknown location>"

/-- What the front end says of a declaration by yes or no. -/
structure Flags where
  isStatic : Bool := false
  isVirtual : Bool := false
  isPureVirtual : Bool := false
  isAbstract : Bool := false
  /-- The cursor is the definition of its entity and not a mere declaration. -/
  isDefinition : Bool := false
  deriving DecidableEq, Repr, Inhabited

/-- One occurrence of a declaration, reference or statement. -/
structure Cursor where
  kind : CursorKind
  spelling : String := ""
  /-- The spelling with the parameter list, for callables. -/
  displayName : Option String := none
  usr : Option String := none
  semanticParent : Option CursorId := none
  lexicalParent : Option CursorId := none
  location : Location := {}
  access : Access := .none
  type : Option TypeId := none
  resultType : Option TypeId := none
  definition : Option CursorId := none
  children : List CursorId := []
  flags : Flags := {}
  briefComment : Option String := none
  deriving DecidableEq, Repr, Inhabited

structure TypeDescriptor where
  kind : TypeKind
  spelling : String := ""
  /-- What a pointer or reference points at. -/
  pointee : Option TypeId := none
  /-- The declaring cursor, where there is one. -/
  declaration : Option CursorId := none
  /-- The fully unwrapped form; a type without one is canonical itself. -/
  canonical : Option TypeId := none
  deriving DecidableEq, Repr, Inhabited

/-- A message that the front end gave while parsing. -/
structure Message where
  severity : Severity
  content : String
  location : Location := {}
  deriving DecidableEq, Repr, Inhabited

def Message.text (message : Message) : String :=
  s!"{message.location.text}: {message.severity.label}: {message.content}"

/-- A file drawn in while parsing, with the depth of its inclusion. -/
structure Inclusion where
  path : String
  depth : UInt32 := 0
  deriving DecidableEq, Repr, Inhabited

/-- One parse of an umbrella header. -/
structure TranslationUnit where
  path : String := ""
  root : CursorId
  cursors : Array Cursor
  types : Array TypeDescriptor := #[]
  messages : List Message := []
  inclusions : List Inclusion := []
  deriving DecidableEq, Repr, Inhabited

namespace TranslationUnit

def cursor? (u : TranslationUnit) (id : CursorId) : Option Cursor := u.cursors[id.index]?

def type? (u : TranslationUnit) (id : TypeId) : Option TypeDescriptor := u.types[id.index]?

end TranslationUnit

end Bindery.Ast
