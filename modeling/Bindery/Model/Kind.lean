/-! The kinds of entity that a model holds. -/

set_option autoImplicit false

namespace Bindery

inductive RecordKind where
  | classRecord
  | structRecord
  | classTemplate
  | partialSpecialization
  deriving DecidableEq, Repr

inductive CallableKind where
  | function
  | functionTemplate
  | method
  | constructor
  | destructor
  deriving DecidableEq, Repr

inductive NodeKind where
  | translationUnit
  | namespaceScope
  | record (kind : RecordKind)
  | callable (kind : CallableKind)
  | param
  | field
  | variable
  | enumeration
  | enumConstant
  | typeDef
  | typeAlias
  | aliasTemplate
  | baseSpecifier
  | typeRef
  | templateRef
  | templateTypeParam
  | templateNonTypeParam
  /-- The marker of a type without a declaration, such as `int`. -/
  | builtin
  deriving DecidableEq, Repr

namespace NodeKind

def all : List NodeKind := [
  .translationUnit, .namespaceScope, .record .classRecord, .record .structRecord,
  .record .classTemplate, .record .partialSpecialization, .callable .function,
  .callable .functionTemplate, .callable .method, .callable .constructor, .callable .destructor,
  .param, .field, .variable, .enumeration, .enumConstant, .typeDef, .typeAlias, .aliasTemplate,
  .baseSpecifier, .typeRef, .templateRef, .templateTypeParam, .templateNonTypeParam, .builtin]

def label : NodeKind → String
  | .translationUnit => "translation unit"
  | .namespaceScope => "namespace"
  | .record .classRecord => "class"
  | .record .structRecord => "struct"
  | .record .classTemplate => "class template"
  | .record .partialSpecialization => "partial specialization"
  | .callable .function => "function"
  | .callable .functionTemplate => "function template"
  | .callable .method => "method"
  | .callable .constructor => "constructor"
  | .callable .destructor => "destructor"
  | .param => "param"
  | .field => "field"
  | .variable => "variable"
  | .enumeration => "enum"
  | .enumConstant => "enum constant"
  | .typeDef => "typedef"
  | .typeAlias => "type alias"
  | .aliasTemplate => "alias template"
  | .baseSpecifier => "base"
  | .typeRef => "type ref"
  | .templateRef => "template ref"
  | .templateTypeParam => "template type param"
  | .templateNonTypeParam => "template param"
  | .builtin => "builtin"

def ofLabel? (label : String) : Option NodeKind := all.find? fun kind => kind.label = label

theorem mem_all (kind : NodeKind) : kind ∈ all := by
  cases kind with
  | record kind => cases kind <;> decide
  | callable kind => cases kind <;> decide
  | _ => decide

def isRecord : NodeKind → Bool
  | .record _ => true
  | _ => false

def isCallable : NodeKind → Bool
  | .callable _ => true
  | _ => false

def isScope : NodeKind → Bool
  | .translationUnit | .namespaceScope => true
  | _ => false

def isAlias : NodeKind → Bool
  | .typeDef | .typeAlias => true
  | _ => false

def isReference : NodeKind → Bool
  | .typeRef | .templateRef => true
  | _ => false

def holdsType : NodeKind → Bool
  | .callable _ | .param | .field | .variable | .typeDef | .typeAlias | .baseSpecifier | .typeRef
  | .templateRef => true
  | _ => false

/-- Entities that can be exposed on their own: plain classes and structs, enums and free
functions. -/
def isBindable : NodeKind → Bool
  | .record .classRecord | .record .structRecord | .enumeration | .callable .function => true
  | _ => false

end NodeKind

end Bindery
