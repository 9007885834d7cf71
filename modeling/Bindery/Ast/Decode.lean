import Bindery.Ast.Unit
import Bindery.Json.Record

/-! Reading a translation unit from JSON. Only the root, the cursors and the few fields without a
sensible default must be given. -/

set_option autoImplicit false

namespace Bindery.Ast

open Json (Fields)

def CursorId.ofJson? (value : Json) : Option CursorId := value.word?.map CursorId.mk

def TypeId.ofJson? (value : Json) : Option TypeId := value.word?.map TypeId.mk

def CursorKind.ofJson? (value : Json) : Option CursorKind := value.choice?.map CursorKind.ofKey

def TypeKind.ofJson? (value : Json) : Option TypeKind := value.choice?.map TypeKind.ofKey

def Access.ofJson? (value : Json) : Option Access := value.choice?.bind Access.ofKey?

def Severity.ofJson? (value : Json) : Option Severity := value.choice?.bind Severity.ofKey?

def Location.fieldNames : List String := ["file", "line", "column"]

def Location.ofJson? (value : Json) : Option Location := do
  let fields ← value.fields? fieldNames
  return {
    file := ← fields.optional "file" none (Json.nullable? Json.text?)
    line := ← fields.optional "line" 0 Json.word?
    column := ← fields.optional "column" 0 Json.word? }

def Flags.fieldNames : List String :=
  ["is_static", "is_virtual", "is_pure_virtual", "is_abstract", "is_definition"]

def Flags.ofJson? (value : Json) : Option Flags := do
  let fields ← value.fields? fieldNames
  return {
    isStatic := ← fields.optional "is_static" false Json.boolean?
    isVirtual := ← fields.optional "is_virtual" false Json.boolean?
    isPureVirtual := ← fields.optional "is_pure_virtual" false Json.boolean?
    isAbstract := ← fields.optional "is_abstract" false Json.boolean?
    isDefinition := ← fields.optional "is_definition" false Json.boolean? }

def Cursor.fieldNames : List String :=
  ["kind", "spelling", "display_name", "usr", "semantic_parent", "lexical_parent", "location",
    "access", "type", "result_type", "definition", "children", "flags", "brief_comment"]

def Cursor.ofJson? (value : Json) : Option Cursor := do
  let fields ← value.fields? fieldNames
  return {
    kind := ← fields.required "kind" CursorKind.ofJson?
    spelling := ← fields.optional "spelling" "" Json.text?
    displayName := ← fields.optional "display_name" none (Json.nullable? Json.text?)
    usr := ← fields.optional "usr" none (Json.nullable? Json.text?)
    semanticParent := ← fields.optional "semantic_parent" none (Json.nullable? CursorId.ofJson?)
    lexicalParent := ← fields.optional "lexical_parent" none (Json.nullable? CursorId.ofJson?)
    location := ← fields.optional "location" {} Location.ofJson?
    access := ← fields.optional "access" .none Access.ofJson?
    type := ← fields.optional "type" none (Json.nullable? TypeId.ofJson?)
    resultType := ← fields.optional "result_type" none (Json.nullable? TypeId.ofJson?)
    definition := ← fields.optional "definition" none (Json.nullable? CursorId.ofJson?)
    children := ← fields.optional "children" [] (Json.list? CursorId.ofJson?)
    flags := ← fields.optional "flags" {} Flags.ofJson?
    briefComment := ← fields.optional "brief_comment" none (Json.nullable? Json.text?) }

def TypeDescriptor.fieldNames : List String :=
  ["kind", "spelling", "pointee", "declaration", "canonical"]

def TypeDescriptor.ofJson? (value : Json) : Option TypeDescriptor := do
  let fields ← value.fields? fieldNames
  return {
    kind := ← fields.required "kind" TypeKind.ofJson?
    spelling := ← fields.optional "spelling" "" Json.text?
    pointee := ← fields.optional "pointee" none (Json.nullable? TypeId.ofJson?)
    declaration := ← fields.optional "declaration" none (Json.nullable? CursorId.ofJson?)
    canonical := ← fields.optional "canonical" none (Json.nullable? TypeId.ofJson?) }

def Message.fieldNames : List String := ["severity", "message", "location"]

def Message.ofJson? (value : Json) : Option Message := do
  let fields ← value.fields? fieldNames
  return {
    severity := ← fields.required "severity" Severity.ofJson?
    content := ← fields.required "message" Json.text?
    location := ← fields.optional "location" {} Location.ofJson? }

def Inclusion.fieldNames : List String := ["path", "depth"]

def Inclusion.ofJson? (value : Json) : Option Inclusion := do
  let fields ← value.fields? fieldNames
  return {
    path := ← fields.required "path" Json.text?
    depth := ← fields.optional "depth" 0 Json.word? }

def TranslationUnit.fieldNames : List String :=
  ["path", "root", "cursors", "types", "diagnostics", "includes"]

def TranslationUnit.ofJson? (value : Json) : Option TranslationUnit := do
  let fields ← value.fields? fieldNames
  return {
    path := ← fields.optional "path" "" Json.text?
    root := ← fields.required "root" CursorId.ofJson?
    cursors := (← fields.required "cursors" (Json.list? Cursor.ofJson?)).toArray
    types := (← fields.optional "types" [] (Json.list? TypeDescriptor.ofJson?)).toArray
    messages := ← fields.optional "diagnostics" [] (Json.list? Message.ofJson?)
    inclusions := ← fields.optional "includes" [] (Json.list? Inclusion.ofJson?) }

end Bindery.Ast
