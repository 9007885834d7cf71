/-! The closed vocabularies of an AST dump: kinds of cursors and types, member access and the
severity of front-end messages. Each value has the key that spells it in a dump and the label
that names it in messages. -/

set_option autoImplicit false

namespace Bindery.Ast

/-- What a cursor of the dump stands for; `other` covers everything without a kind of its own. -/
inductive CursorKind where
  | translationUnit
  | namespaceDecl
  | classDecl
  | structDecl
  | unionDecl
  | classTemplate
  | classTemplatePartialSpecialization
  | enumDecl
  | enumConstantDecl
  | fieldDecl
  | varDecl
  | functionDecl
  | functionTemplate
  | cxxMethod
  | constructor
  | destructor
  | conversionFunction
  | parmDecl
  | typedefDecl
  | typeAliasDecl
  | typeAliasTemplateDecl
  | cxxBaseSpecifier
  | cxxAccessSpecDecl
  | typeRef
  | templateRef
  | namespaceRef
  | templateTypeParameter
  | templateNonTypeParameter
  | templateTemplateParameter
  | usingDirective
  | usingDeclaration
  | unexposedDecl
  | linkageSpec
  | friendDecl
  | staticAssert
  | compoundStmt
  | unexposedExpr
  | unexposedAttr
  | noDeclFound
  | other
  deriving DecidableEq, Repr, Inhabited

namespace CursorKind

def all : List CursorKind := [
  .translationUnit, .namespaceDecl, .classDecl, .structDecl, .unionDecl, .classTemplate,
  .classTemplatePartialSpecialization, .enumDecl, .enumConstantDecl, .fieldDecl, .varDecl,
  .functionDecl, .functionTemplate, .cxxMethod, .constructor, .destructor, .conversionFunction,
  .parmDecl, .typedefDecl, .typeAliasDecl, .typeAliasTemplateDecl, .cxxBaseSpecifier,
  .cxxAccessSpecDecl, .typeRef, .templateRef, .namespaceRef, .templateTypeParameter,
  .templateNonTypeParameter, .templateTemplateParameter, .usingDirective, .usingDeclaration,
  .unexposedDecl, .linkageSpec, .friendDecl, .staticAssert, .compoundStmt, .unexposedExpr,
  .unexposedAttr, .noDeclFound, .other]

def label : CursorKind → String
  | .translationUnit => "TranslationUnit"
  | .namespaceDecl => "Namespace"
  | .classDecl => "ClassDecl"
  | .structDecl => "StructDecl"
  | .unionDecl => "UnionDecl"
  | .classTemplate => "ClassTemplate"
  | .classTemplatePartialSpecialization => "ClassTemplatePartialSpecialization"
  | .enumDecl => "EnumDecl"
  | .enumConstantDecl => "EnumConstantDecl"
  | .fieldDecl => "FieldDecl"
  | .varDecl => "VarDecl"
  | .functionDecl => "FunctionDecl"
  | .functionTemplate => "FunctionTemplate"
  | .cxxMethod => "CxxMethod"
  | .constructor => "Constructor"
  | .destructor => "Destructor"
  | .conversionFunction => "ConversionFunction"
  | .parmDecl => "ParmDecl"
  | .typedefDecl => "TypedefDecl"
  | .typeAliasDecl => "TypeAliasDecl"
  | .typeAliasTemplateDecl => "TypeAliasTemplateDecl"
  | .cxxBaseSpecifier => "CxxBaseSpecifier"
  | .cxxAccessSpecDecl => "CxxAccessSpecDecl"
  | .typeRef => "TypeRef"
  | .templateRef => "TemplateRef"
  | .namespaceRef => "NamespaceRef"
  | .templateTypeParameter => "TemplateTypeParameter"
  | .templateNonTypeParameter => "TemplateNonTypeParameter"
  | .templateTemplateParameter => "TemplateTemplateParameter"
  | .usingDirective => "UsingDirective"
  | .usingDeclaration => "UsingDeclaration"
  | .unexposedDecl => "UnexposedDecl"
  | .linkageSpec => "LinkageSpec"
  | .friendDecl => "FriendDecl"
  | .staticAssert => "StaticAssert"
  | .compoundStmt => "CompoundStmt"
  | .unexposedExpr => "UnexposedExpr"
  | .unexposedAttr => "UnexposedAttr"
  | .noDeclFound => "NoDeclFound"
  | .other => "Other"

def key : CursorKind → String
  | .translationUnit => "TRANSLATION_UNIT"
  | .namespaceDecl => "NAMESPACE"
  | .classDecl => "CLASS_DECL"
  | .structDecl => "STRUCT_DECL"
  | .unionDecl => "UNION_DECL"
  | .classTemplate => "CLASS_TEMPLATE"
  | .classTemplatePartialSpecialization => "CLASS_TEMPLATE_PARTIAL_SPECIALIZATION"
  | .enumDecl => "ENUM_DECL"
  | .enumConstantDecl => "ENUM_CONSTANT_DECL"
  | .fieldDecl => "FIELD_DECL"
  | .varDecl => "VAR_DECL"
  | .functionDecl => "FUNCTION_DECL"
  | .functionTemplate => "FUNCTION_TEMPLATE"
  | .cxxMethod => "CXX_METHOD"
  | .constructor => "CONSTRUCTOR"
  | .destructor => "DESTRUCTOR"
  | .conversionFunction => "CONVERSION_FUNCTION"
  | .parmDecl => "PARM_DECL"
  | .typedefDecl => "TYPEDEF_DECL"
  | .typeAliasDecl => "TYPE_ALIAS_DECL"
  | .typeAliasTemplateDecl => "TYPE_ALIAS_TEMPLATE_DECL"
  | .cxxBaseSpecifier => "CXX_BASE_SPECIFIER"
  | .cxxAccessSpecDecl => "CXX_ACCESS_SPEC_DECL"
  | .typeRef => "TYPE_REF"
  | .templateRef => "TEMPLATE_REF"
  | .namespaceRef => "NAMESPACE_REF"
  | .templateTypeParameter => "TEMPLATE_TYPE_PARAMETER"
  | .templateNonTypeParameter => "TEMPLATE_NON_TYPE_PARAMETER"
  | .templateTemplateParameter => "TEMPLATE_TEMPLATE_PARAMETER"
  | .usingDirective => "USING_DIRECTIVE"
  | .usingDeclaration => "USING_DECLARATION"
  | .unexposedDecl => "UNEXPOSED_DECL"
  | .linkageSpec => "LINKAGE_SPEC"
  | .friendDecl => "FRIEND_DECL"
  | .staticAssert => "STATIC_ASSERT"
  | .compoundStmt => "COMPOUND_STMT"
  | .unexposedExpr => "UNEXPOSED_EXPR"
  | .unexposedAttr => "UNEXPOSED_ATTR"
  | .noDeclFound => "NO_DECL_FOUND"
  | .other => "OTHER"

/-- A key outside the vocabulary reads as `other`. -/
def ofKey (key : String) : CursorKind := (all.find? fun kind => kind.key = key).getD .other

theorem mem_all (kind : CursorKind) : kind ∈ all := by cases kind <;> decide

/-- A reference to another declaration rather than a declaration itself. -/
def isReference : CursorKind → Bool
  | .typeRef | .templateRef | .namespaceRef => true
  | _ => false

def isTemplateParameter : CursorKind → Bool
  | .templateTypeParameter | .templateNonTypeParameter | .templateTemplateParameter => true
  | _ => false

end CursorKind

/-- The kind of a type; the spelling tells fundamental types apart. -/
inductive TypeKind where
  | invalid
  | unexposed
  | void
  | builtin
  | pointer
  | lvalueReference
  | rvalueReference
  | record
  | enumeration
  | typedef
  | elaborated
  | constantArray
  | incompleteArray
  | functionProto
  | deduced
  | other
  deriving DecidableEq, Repr, Inhabited

namespace TypeKind

def all : List TypeKind := [
  .invalid, .unexposed, .void, .builtin, .pointer, .lvalueReference, .rvalueReference, .record,
  .enumeration, .typedef, .elaborated, .constantArray, .incompleteArray, .functionProto,
  .deduced, .other]

def label : TypeKind → String
  | .invalid => "Invalid"
  | .unexposed => "Unexposed"
  | .void => "Void"
  | .builtin => "Builtin"
  | .pointer => "Pointer"
  | .lvalueReference => "LValueReference"
  | .rvalueReference => "RValueReference"
  | .record => "Record"
  | .enumeration => "Enum"
  | .typedef => "Typedef"
  | .elaborated => "Elaborated"
  | .constantArray => "ConstantArray"
  | .incompleteArray => "IncompleteArray"
  | .functionProto => "FunctionProto"
  | .deduced => "Auto"
  | .other => "Other"

def key : TypeKind → String
  | .invalid => "INVALID"
  | .unexposed => "UNEXPOSED"
  | .void => "VOID"
  | .builtin => "BUILTIN"
  | .pointer => "POINTER"
  | .lvalueReference => "L_VALUE_REFERENCE"
  | .rvalueReference => "R_VALUE_REFERENCE"
  | .record => "RECORD"
  | .enumeration => "ENUM"
  | .typedef => "TYPEDEF"
  | .elaborated => "ELABORATED"
  | .constantArray => "CONSTANT_ARRAY"
  | .incompleteArray => "INCOMPLETE_ARRAY"
  | .functionProto => "FUNCTION_PROTO"
  | .deduced => "AUTO"
  | .other => "OTHER"

/-- A key outside the vocabulary reads as `other`. -/
def ofKey (key : String) : TypeKind := (all.find? fun kind => kind.key = key).getD .other

def isIndirection : TypeKind → Bool
  | .pointer | .lvalueReference | .rvalueReference => true
  | _ => false

end TypeKind

/-- C++ member access; `none` is for everything that is not a member of a class. -/
inductive Access where
  | publicMember
  | protectedMember
  | privateMember
  | none
  deriving DecidableEq, Repr

namespace Access

instance : Inhabited Access := ⟨.none⟩

def all : List Access := [.publicMember, .protectedMember, .privateMember, .none]

def label : Access → String
  | .publicMember => "Public"
  | .protectedMember => "Protected"
  | .privateMember => "Private"
  | .none => "None"

def key : Access → String
  | .publicMember => "public"
  | .protectedMember => "protected"
  | .privateMember => "private"
  | .none => "none"

/-- The key `invalid` is a second spelling of `none`. -/
def ofKey? (key : String) : Option Access :=
  if key = "invalid" then some .none else all.find? fun access => access.key = key

/-- Visible from outside of the class: public members, and whatever is not a member. -/
def isAccessible : Access → Bool
  | .publicMember | .none => true
  | .protectedMember | .privateMember => false

theorem ofKey?_key (access : Access) : ofKey? access.key = some access := by
  cases access <;> decide

end Access

inductive Severity where
  | ignored
  | note
  | warning
  | error
  | fatal
  deriving DecidableEq, Repr, Inhabited

namespace Severity

def all : List Severity := [.ignored, .note, .warning, .error, .fatal]

def label : Severity → String
  | .ignored => "Ignored"
  | .note => "Note"
  | .warning => "Warning"
  | .error => "Error"
  | .fatal => "Fatal"

def key : Severity → String
  | .ignored => "ignored"
  | .note => "note"
  | .warning => "warning"
  | .error => "error"
  | .fatal => "fatal"

def ofKey? (key : String) : Option Severity := all.find? fun severity => severity.key = key

theorem ofKey?_key (severity : Severity) : ofKey? severity.key = some severity := by
  cases severity <;> decide

end Severity

theorem CursorKind.ofKey_key (kind : CursorKind) : CursorKind.ofKey kind.key = kind := by
  cases kind <;> decide

theorem TypeKind.ofKey_key (kind : TypeKind) : TypeKind.ofKey kind.key = kind := by
  cases kind <;> decide

end Bindery.Ast
