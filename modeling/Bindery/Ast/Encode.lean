import Bindery.Ast.Unit
import Bindery.Json.Printer

/-! Writing a translation unit as JSON: every field is given, in a fixed order, and null stands for
what is absent. -/

set_option autoImplicit false

namespace Bindery.Ast

def CursorId.toJson (id : CursorId) : Json := .natural id.index

def TypeId.toJson (id : TypeId) : Json := .natural id.index

def Location.toJson (location : Location) : Json := .record [
  ("file", .ofOption .text location.file),
  ("line", .natural location.line.toNat),
  ("column", .natural location.column.toNat)]

def Flags.toJson (flags : Flags) : Json := .record [
  ("is_static", .boolean flags.isStatic),
  ("is_virtual", .boolean flags.isVirtual),
  ("is_pure_virtual", .boolean flags.isPureVirtual),
  ("is_abstract", .boolean flags.isAbstract),
  ("is_definition", .boolean flags.isDefinition)]

def Cursor.toJson (c : Cursor) : Json := .record [
  ("kind", .text c.kind.key),
  ("spelling", .text c.spelling),
  ("display_name", .ofOption .text c.displayName),
  ("usr", .ofOption .text c.usr),
  ("semantic_parent", .ofOption CursorId.toJson c.semanticParent),
  ("lexical_parent", .ofOption CursorId.toJson c.lexicalParent),
  ("location", c.location.toJson),
  ("access", .text c.access.key),
  ("type", .ofOption TypeId.toJson c.type),
  ("result_type", .ofOption TypeId.toJson c.resultType),
  ("definition", .ofOption CursorId.toJson c.definition),
  ("children", .ofList CursorId.toJson c.children),
  ("flags", c.flags.toJson),
  ("brief_comment", .ofOption .text c.briefComment)]

def TypeDescriptor.toJson (t : TypeDescriptor) : Json := .record [
  ("kind", .text t.kind.key),
  ("spelling", .text t.spelling),
  ("pointee", .ofOption TypeId.toJson t.pointee),
  ("declaration", .ofOption CursorId.toJson t.declaration),
  ("canonical", .ofOption TypeId.toJson t.canonical)]

def Message.toJson (message : Message) : Json := .record [
  ("severity", .text message.severity.key),
  ("message", .text message.content),
  ("location", message.location.toJson)]

def Inclusion.toJson (inclusion : Inclusion) : Json := .record [
  ("path", .text inclusion.path),
  ("depth", .natural inclusion.depth.toNat)]

namespace TranslationUnit

def toJson (u : TranslationUnit) : Json := .record [
  ("path", .text u.path),
  ("root", u.root.toJson),
  ("cursors", .ofList Cursor.toJson u.cursors.toList),
  ("types", .ofList TypeDescriptor.toJson u.types.toList),
  ("diagnostics", .ofList Message.toJson u.messages),
  ("includes", .ofList Inclusion.toJson u.inclusions)]

def dumpText (u : TranslationUnit) : String := u.toJson.pretty

end TranslationUnit

end Bindery.Ast
