import Bindery.Proofs.Ast.Dump
import Bindery.Proofs.Json.Spelling

/-! The spellings of a dump. A front end can leave out of every record of a unit what has its default,
order the members as it likes, add members of its own, or give the values alone; all of these load as
the unit. What lacks a member that must be given, repeats one or has too many values does not load. -/

set_option autoImplicit false

namespace Bindery.Ast

open Json (Field Fields Form bind_of_eq_some)

/-! ## Forms of records -/

def Location.form : Form := .record [
  .optional "file" .null .fixed,
  .optional "line" (.natural 0) .fixed,
  .optional "column" (.natural 0) .fixed]

def Flags.form : Form := .record [
  .optional "is_static" (.boolean false) .fixed,
  .optional "is_virtual" (.boolean false) .fixed,
  .optional "is_pure_virtual" (.boolean false) .fixed,
  .optional "is_abstract" (.boolean false) .fixed,
  .optional "is_definition" (.boolean false) .fixed]

def Cursor.form : Form := .record [
  .required "kind" .fixed,
  .optional "spelling" (.text "") .fixed,
  .optional "display_name" .null .fixed,
  .optional "usr" .null .fixed,
  .optional "semantic_parent" .null .fixed,
  .optional "lexical_parent" .null .fixed,
  .optional "location" (Location.toJson {}) Location.form,
  .optional "access" (.text Access.none.key) .fixed,
  .optional "type" .null .fixed,
  .optional "result_type" .null .fixed,
  .optional "definition" .null .fixed,
  .optional "children" (.ofList CursorId.toJson []) .fixed,
  .optional "flags" (Flags.toJson {}) Flags.form,
  .optional "brief_comment" .null .fixed]

def TypeDescriptor.form : Form := .record [
  .required "kind" .fixed,
  .optional "spelling" (.text "") .fixed,
  .optional "pointee" .null .fixed,
  .optional "declaration" .null .fixed,
  .optional "canonical" .null .fixed]

def Message.form : Form := .record [
  .required "severity" .fixed,
  .required "message" .fixed,
  .optional "location" (Location.toJson {}) Location.form]

def Inclusion.form : Form := .record [
  .required "path" .fixed,
  .optional "depth" (.natural 0) .fixed]

def TranslationUnit.form : Form := .record [
  .optional "path" (.text "") .fixed,
  .required "root" .fixed,
  .required "cursors" (.list Cursor.form),
  .optional "types" (.ofList TypeDescriptor.toJson []) (.list TypeDescriptor.form),
  .optional "diagnostics" (.ofList Message.toJson []) (.list Message.form),
  .optional "includes" (.ofList Inclusion.toJson []) (.list Inclusion.form)]

/-! ## Reading -/

-- The fields that are carried are read in turn; what is cited says how. What can fail is a field that
-- must be given or has records within; in what gives a value, none of them does.

theorem Location.reads : Location.form.Reads Location.toJson Location.ofJson? :=
  .record (by decide) Location.ofJson?_toJson
    (fun _ _ (.cons file (.cons line (.cons column .nil))) =>
      bind_of_eq_some (Fields.optional_of_carries (.fixed Json.nullable?_ofOption_text) file) <|
      bind_of_eq_some (Fields.optional_of_carries (.fixed Json.word?_natural) line) <|
      bind_of_eq_some (Fields.optional_of_carries (.fixed Json.word?_natural) column) rfl)
    (by simp)

theorem Flags.reads : Flags.form.Reads Flags.toJson Flags.ofJson? :=
  .record (by decide) Flags.ofJson?_toJson
    (fun _ _ (.cons static (.cons virtual (.cons pureVirtual (.cons abstract (.cons definition
        .nil))))) =>
      bind_of_eq_some (Fields.optional_of_carries (.fixed Json.boolean?_boolean) static) <|
      bind_of_eq_some (Fields.optional_of_carries (.fixed Json.boolean?_boolean) virtual) <|
      bind_of_eq_some (Fields.optional_of_carries (.fixed Json.boolean?_boolean) pureVirtual) <|
      bind_of_eq_some (Fields.optional_of_carries (.fixed Json.boolean?_boolean) abstract) <|
      bind_of_eq_some (Fields.optional_of_carries (.fixed Json.boolean?_boolean) definition) rfl)
    (by simp)

theorem Cursor.reads : Cursor.form.Reads Cursor.toJson Cursor.ofJson? :=
  .record (by decide) Cursor.ofJson?_toJson
    (fun _ _ (.cons kind (.cons spelling (.cons displayName (.cons usr (.cons semanticParent
        (.cons lexicalParent (.cons location (.cons access (.cons type (.cons resultType
        (.cons definition (.cons children (.cons flags (.cons briefComment .nil)))))))))))))) =>
      bind_of_eq_some (Fields.required_of_carries (.fixed CursorKind.ofJson?_key) kind) <|
      bind_of_eq_some (Fields.optional_of_carries (.fixed Json.text?_text) spelling) <|
      bind_of_eq_some (Fields.optional_of_carries (.fixed Json.nullable?_ofOption_text) displayName) <|
      bind_of_eq_some (Fields.optional_of_carries (.fixed Json.nullable?_ofOption_text) usr) <|
      bind_of_eq_some (Fields.optional_of_carries (.fixed nullable?_cursorId) semanticParent) <|
      bind_of_eq_some (Fields.optional_of_carries (.fixed nullable?_cursorId) lexicalParent) <|
      bind_of_eq_some (Fields.optional_of_carries Location.reads location) <|
      bind_of_eq_some (Fields.optional_of_carries (.fixed Access.ofJson?_key) access) <|
      bind_of_eq_some (Fields.optional_of_carries (.fixed nullable?_typeId) type) <|
      bind_of_eq_some (Fields.optional_of_carries (.fixed nullable?_typeId) resultType) <|
      bind_of_eq_some (Fields.optional_of_carries (.fixed nullable?_cursorId) definition) <|
      bind_of_eq_some (Fields.optional_of_carries
        (.fixed (Json.list?_ofList CursorId.ofJson?_toJson)) children) <|
      bind_of_eq_some (Fields.optional_of_carries Flags.reads flags) <|
      bind_of_eq_some (Fields.optional_of_carries (.fixed Json.nullable?_ofOption_text) briefComment)
        rfl)
    (fun found _ given => by
      simp only [Json.bind_eq_some_iff] at given
      obtain ⟨_, kind, _, -, _, -, _, -, _, -, _, -, _, location, _, -, _, -, _, -, _, -, _, -, _,
        flags, -⟩ := given
      simp [Fields.not_fails_of_required (.fixed CursorKind.ofJson?_key) kind,
        Fields.not_fails_of_optional Location.reads location,
        Fields.not_fails_of_optional Flags.reads flags])

theorem TypeDescriptor.reads :
    TypeDescriptor.form.Reads TypeDescriptor.toJson TypeDescriptor.ofJson? :=
  .record (by decide) TypeDescriptor.ofJson?_toJson
    (fun _ _ (.cons kind (.cons spelling (.cons pointee (.cons declaration (.cons canonical .nil))))) =>
      bind_of_eq_some (Fields.required_of_carries (.fixed TypeKind.ofJson?_key) kind) <|
      bind_of_eq_some (Fields.optional_of_carries (.fixed Json.text?_text) spelling) <|
      bind_of_eq_some (Fields.optional_of_carries (.fixed nullable?_typeId) pointee) <|
      bind_of_eq_some (Fields.optional_of_carries (.fixed nullable?_cursorId) declaration) <|
      bind_of_eq_some (Fields.optional_of_carries (.fixed nullable?_typeId) canonical) rfl)
    (fun found _ given => by
      simp only [Json.bind_eq_some_iff] at given
      obtain ⟨_, kind, -⟩ := given
      simp [Fields.not_fails_of_required (.fixed TypeKind.ofJson?_key) kind])

theorem Message.reads : Message.form.Reads Message.toJson Message.ofJson? :=
  .record (by decide) Message.ofJson?_toJson
    (fun _ _ (.cons severity (.cons content (.cons location .nil))) =>
      bind_of_eq_some (Fields.required_of_carries (.fixed Severity.ofJson?_key) severity) <|
      bind_of_eq_some (Fields.required_of_carries (.fixed Json.text?_text) content) <|
      bind_of_eq_some (Fields.optional_of_carries Location.reads location) rfl)
    (fun found _ given => by
      simp only [Json.bind_eq_some_iff] at given
      obtain ⟨_, severity, _, content, _, location, -⟩ := given
      simp [Fields.not_fails_of_required (.fixed Severity.ofJson?_key) severity,
        Fields.not_fails_of_required (.fixed Json.text?_text) content,
        Fields.not_fails_of_optional Location.reads location])

theorem Inclusion.reads : Inclusion.form.Reads Inclusion.toJson Inclusion.ofJson? :=
  .record (by decide) Inclusion.ofJson?_toJson
    (fun _ _ (.cons path (.cons depth .nil)) =>
      bind_of_eq_some (Fields.required_of_carries (.fixed Json.text?_text) path) <|
      bind_of_eq_some (Fields.optional_of_carries (.fixed Json.word?_natural) depth) rfl)
    (fun found _ given => by
      simp only [Json.bind_eq_some_iff] at given
      obtain ⟨_, path, -⟩ := given
      simp [Fields.not_fails_of_required (.fixed Json.text?_text) path])

theorem TranslationUnit.reads :
    TranslationUnit.form.Reads TranslationUnit.toJson TranslationUnit.ofJson? :=
  .record (by decide) TranslationUnit.ofJson?_toJson
    (fun _ _ (.cons path (.cons root (.cons cursors (.cons types (.cons messages (.cons inclusions
        .nil)))))) =>
      bind_of_eq_some (Fields.optional_of_carries (.fixed Json.text?_text) path) <|
      bind_of_eq_some (Fields.required_of_carries (.fixed CursorId.ofJson?_toJson) root) <|
      bind_of_eq_some (Fields.required_of_carries (.list Cursor.reads) cursors) <|
      bind_of_eq_some (Fields.optional_of_carries (.list TypeDescriptor.reads) types) <|
      bind_of_eq_some (Fields.optional_of_carries (.list Message.reads) messages) <|
      bind_of_eq_some (Fields.optional_of_carries (.list Inclusion.reads) inclusions) rfl)
    (fun found _ given => by
      simp only [Json.bind_eq_some_iff] at given
      obtain ⟨_, -, _, root, _, cursors, _, types, _, messages, _, inclusions, -⟩ := given
      simp [Fields.not_fails_of_required (.fixed CursorId.ofJson?_toJson) root,
        Fields.not_fails_of_required (.list Cursor.reads) cursors,
        Fields.not_fails_of_optional (.list TypeDescriptor.reads) types,
        Fields.not_fails_of_optional (.list Message.reads) messages,
        Fields.not_fails_of_optional (.list Inclusion.reads) inclusions])

/-! ## Loading -/

namespace TranslationUnit

/-- A valid unit is what every spelling of its dump loads as, and a document with a record in it that
can be none does not load. -/
theorem spellings_load_alike :
    (∀ u : TranslationUnit, u.firstFault? = none →
        Json.parse? u.dumpText = some u.toJson ∧
          ∀ document, form.respells u.toJson document → ofDocument document = .ok u ∧
            ∀ text, Json.parse? text = some document → ofText text = .ok u) ∧
      ∀ document, form.spoils document → ofDocument document = .error .undecodable ∧
        ∀ text, Json.parse? text = some document → ofText text = .error .undecodable := by
  refine ⟨fun u valid => ⟨Json.parse?_pretty u.plain_toJson, fun document respells => ?_⟩,
    fun document spoils => ?_⟩
  · have loaded : ofDocument document = .ok u := by
      rw [ofDocument, reads.respelt u document respells]
      exact checked_eq_ok_iff.mpr ⟨valid, rfl⟩
    exact ⟨loaded, fun text parsed => by rw [ofText, parsed]; exact loaded⟩
  · have refused : ofDocument document = .error .undecodable := by
      rw [ofDocument, reads.spoilt document spoils]
    exact ⟨refused, fun text parsed => by rw [ofText, parsed]; exact refused⟩

def parcel : TranslationUnit where
  path := "parcel.h"
  root := ⟨0⟩
  cursors := #[{ kind := .translationUnit, spelling := "knot", location := { line := 3 } }]
  types := #[{ kind := .builtin, spelling := "int" }]

/-- A member of another's making in front, a kind behind its spelling, a type by its values alone, and
no default given. -/
def parcelDocument : Json := .record [
  ("adapter", .boolean true),
  ("path", .text "parcel.h"),
  ("root", .natural 0),
  ("cursors", .array [.record [
    ("spelling", .text "knot"),
    ("kind", .text "TRANSLATION_UNIT"),
    ("location", .record [("line", .natural 3)])]]),
  ("types", .array [.array [.text "BUILTIN", .text "int"]])]

/-- The values of a unit alone, with a cursor without a kind. -/
def parcelWithoutKind : Json := .array [
  .text "parcel.h", .natural 0, .array [.record [("spelling", .text "knot")]]]

theorem respells_parcelDocument : form.respells parcel.toJson parcelDocument := by
  have location : Location.form.respells (Location.toJson { line := 3 })
      (.record [("line", .natural 3)]) :=
    ⟨_, rfl, .of_keeps (.drop rfl (.keep rfl (.drop rfl .nil))) (.refl _)⟩
  have cursor : Cursor.form.respells
      (Cursor.toJson { kind := .translationUnit, spelling := "knot", location := { line := 3 } })
      (.record [
        ("spelling", .text "knot"),
        ("kind", .text "TRANSLATION_UNIT"),
        ("location", .record [("line", .natural 3)])]) :=
    ⟨_, rfl, .of_keeps (.keep rfl <| .keep rfl <| .drop rfl <| .drop rfl <| .drop rfl <| .drop rfl <|
      .keep location <| .drop rfl <| .drop rfl <| .drop rfl <| .drop rfl <| .drop rfl <|
      .drop rfl <| .drop rfl .nil) (.swap _ _ _)⟩
  have type : TypeDescriptor.form.respells
      (TypeDescriptor.toJson { kind := .builtin, spelling := "int" })
      (.array [.text "BUILTIN", .text "int"]) :=
    ⟨_, rfl, .positional (.next rfl <| .next rfl <| .cut <| .drop rfl <| .drop rfl <| .drop rfl .nil)⟩
  exact ⟨_, rfl, .keyed
    (.keep rfl <| .keep rfl <| .keep ⟨_, _, rfl, rfl, .cons cursor .nil⟩ <|
      .keep ⟨_, _, rfl, rfl, .cons type .nil⟩ <| .drop rfl <| .drop rfl .nil)
    (by decide) (List.perm_append_singleton _ _).symm⟩

theorem spoils_parcelWithoutKind : form.spoils parcelWithoutKind := by
  have cursor : Cursor.form.spoils (.record [("spelling", .text "knot")]) :=
    .lacking List.mem_cons_self rfl (by decide)
  exact .item (List.mem_cons_of_mem _ (List.mem_cons_of_mem _ List.mem_cons_self))
    ⟨_, rfl, _, List.mem_cons_self, cursor⟩

theorem spellings_load_alike_parcel :
    parcel.firstFault? = none ∧ ofText parcelDocument.pretty = .ok parcel ∧
      ofText parcelWithoutKind.pretty = .error .undecodable := by
  have valid : parcel.firstFault? = none := by decide +kernel
  have location : (Json.record [("line", .natural 3)]).Plain := .record (by simp [Json.Plain.natural])
  have plain : parcelDocument.Plain := .record (by
    simp [Json.Plain.text, Json.Plain.natural, Json.Plain.boolean, Json.Plain.array,
      Json.Plain.record, location])
  have plain' : parcelWithoutKind.Plain := .array (by
    simp [Json.Plain.text, Json.Plain.natural, Json.Plain.array, Json.Plain.record])
  have alike := (spellings_load_alike.1 parcel valid).2 parcelDocument respells_parcelDocument
  have refused := spellings_load_alike.2 parcelWithoutKind spoils_parcelWithoutKind
  exact ⟨valid, alike.2 _ (Json.parse?_pretty plain), refused.2 _ (Json.parse?_pretty plain')⟩

end TranslationUnit

end Bindery.Ast
