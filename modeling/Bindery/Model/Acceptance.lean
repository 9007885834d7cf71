import Bindery.Ast.Kind
import Bindery.Model.Kind

/-! Which children an owner takes, and which children may end up with an owner other than the node
they are written in. -/

set_option autoImplicit false

namespace Bindery

open Ast (CursorKind)

namespace NodeKind

def takesInScope : CursorKind → Bool
  | .namespaceDecl | .functionDecl | .functionTemplate | .classDecl | .structDecl | .classTemplate
  | .classTemplatePartialSpecialization | .enumDecl | .typedefDecl | .typeAliasDecl
  | .typeAliasTemplateDecl | .varDecl => true
  | _ => false

def takesAsMember : CursorKind → Bool
  | .fieldDecl | .cxxMethod | .constructor | .destructor | .varDecl | .cxxBaseSpecifier | .classDecl
  | .structDecl | .classTemplate | .classTemplatePartialSpecialization | .enumDecl | .typedefDecl
  | .typeAliasDecl | .typeAliasTemplateDecl | .functionTemplate | .typeRef => true
  | _ => false

def takesReference : CursorKind → Bool
  | .typeRef | .templateRef => true
  | _ => false

/-- Type and non-type parameters; template template parameters are not modeled. -/
def takesTemplateParameter : CursorKind → Bool
  | .templateTypeParameter | .templateNonTypeParameter => true
  | _ => false

end NodeKind

open NodeKind in
def allows : NodeKind → CursorKind → Bool
  | .translationUnit, child | .namespaceScope, child => takesInScope child
  | .record .classRecord, child | .record .structRecord, child => takesAsMember child
  | .record .classTemplate, child | .record .partialSpecialization, child =>
    takesAsMember child || takesTemplateParameter child || child = .templateRef
  | .callable .functionTemplate, child =>
    child = .parmDecl || takesReference child || takesTemplateParameter child
  | .callable _, child => child = .parmDecl || takesReference child
  | .param, child | .field, child | .typeAlias, child | .baseSpecifier, child
  | .templateTypeParam, child => takesReference child
  | .variable, child => takesReference child || takesTemplateParameter child
  | .aliasTemplate, child =>
    takesReference child || takesTemplateParameter child || child = .typeAliasDecl
  | .typeDef, child => takesReference child || child = .enumDecl || child = .structDecl
  | .templateRef, child => takesReference child || child = .typeAliasDecl
  | .templateNonTypeParam, child => child = .typeRef
  | .enumeration, child => child = .enumConstantDecl
  | .typeRef, _ | .enumConstant, _ | .builtin, _ => false

/-- Whether an item written in one node may belong to another. Class templates take what they own
from anywhere, records take their out-of-line callables, named scopes take alias templates, and
between scopes everything may move. -/
def mayRelocate (container item owner : NodeKind) : Bool :=
  let ownerIsScope := owner = .namespaceScope || owner.isRecord
  owner = .record .classTemplate ||
    (item = .aliasTemplate && ownerIsScope) ||
    ((item = .callable .method || item = .callable .constructor || item = .callable .destructor) &&
      owner.isRecord) ||
    (container.isScope && ownerIsScope)

/-- An enum or struct spelled inside a typedef, or inside a field of a record, belongs to both that
node and its semantic owner. -/
def isElaboration (container item owner : NodeKind) : Bool :=
  (item = .enumeration || item = .record .structRecord) &&
    (container = .typeDef || (container = .field && owner.isRecord))

end Bindery
