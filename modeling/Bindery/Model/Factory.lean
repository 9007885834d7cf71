import Bindery.Ast.Unit
import Bindery.Model.Kind

/-! Which cursors become nodes, and of what kind. -/

set_option autoImplicit false

namespace Bindery

open Ast (CursorId CursorKind TranslationUnit)

/-- Decides the kind of node that a cursor of a unit becomes, or declines it together with all that
is below it. -/
abbrev Constructor := TranslationUnit → CursorId → Option NodeKind

/-- The constructors by kind of cursor; a kind without one is not modeled. -/
structure Factory where
  constructor? : CursorKind → Option Constructor

namespace Factory

def empty : Factory := ⟨fun _ => none⟩

def register (f : Factory) (kind : CursorKind) (constructor : Constructor) : Factory :=
  ⟨fun asked => if asked = kind then some constructor else f.constructor? asked⟩

def unregister (f : Factory) (kind : CursorKind) : Factory :=
  ⟨fun asked => if asked = kind then none else f.constructor? asked⟩

def isModeled (f : Factory) (kind : CursorKind) : Bool := (f.constructor? kind).isSome

/-- The node that a kind of cursor stands for, where it stands for one. -/
def standardKind? : CursorKind → Option NodeKind
  | .translationUnit => some .translationUnit
  | .namespaceDecl => some .namespaceScope
  | .classDecl => some (.record .classRecord)
  | .structDecl => some (.record .structRecord)
  | .classTemplate => some (.record .classTemplate)
  | .classTemplatePartialSpecialization => some (.record .partialSpecialization)
  | .functionDecl => some (.callable .function)
  | .functionTemplate => some (.callable .functionTemplate)
  | .cxxMethod => some (.callable .method)
  | .constructor => some (.callable .constructor)
  | .destructor => some (.callable .destructor)
  | .parmDecl => some .param
  | .fieldDecl => some .field
  | .varDecl => some .variable
  | .enumDecl => some .enumeration
  | .enumConstantDecl => some .enumConstant
  | .typedefDecl => some .typeDef
  | .typeAliasDecl => some .typeAlias
  | .typeAliasTemplateDecl => some .aliasTemplate
  | .cxxBaseSpecifier => some .baseSpecifier
  | .typeRef => some .typeRef
  | .templateRef => some .templateRef
  | .templateTypeParameter => some .templateTypeParam
  | .templateNonTypeParameter => some .templateNonTypeParam
  | _ => none

/-- A constructor that takes every cursor as a node of one kind. -/
def always (kind : NodeKind) : Constructor := fun _ _ => some kind

def standard : Factory := ⟨fun kind => (standardKind? kind).map always⟩

end Factory

end Bindery
