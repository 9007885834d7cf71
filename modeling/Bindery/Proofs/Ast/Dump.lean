import Bindery.Ast.Encode
import Bindery.Ast.Load
import Bindery.Proofs.Json.Record

/-! The dump of a unit holds the whole unit. Reading a dump gives the unit that was written, so a
text that loads has one normal form, which is the dump of what it loads as. -/

set_option autoImplicit false

namespace Bindery.Ast

open Json (bind_of_eq_some)

/-! ## References and kinds -/

theorem CursorId.ofJson?_toJson (id : CursorId) : CursorId.ofJson? id.toJson = some id := by
  rw [CursorId.ofJson?, CursorId.toJson, CursorId.index, Json.word?_natural]
  rfl

theorem TypeId.ofJson?_toJson (id : TypeId) : TypeId.ofJson? id.toJson = some id := by
  rw [TypeId.ofJson?, TypeId.toJson, TypeId.index, Json.word?_natural]
  rfl

theorem CursorKind.ofJson?_key (kind : CursorKind) :
    CursorKind.ofJson? (.text kind.key) = some kind := by
  rw [CursorKind.ofJson?, Json.choice?_text, Option.map_some, CursorKind.ofKey_key]

theorem TypeKind.ofJson?_key (kind : TypeKind) : TypeKind.ofJson? (.text kind.key) = some kind := by
  rw [TypeKind.ofJson?, Json.choice?_text, Option.map_some, TypeKind.ofKey_key]

theorem Access.ofJson?_key (access : Access) : Access.ofJson? (.text access.key) = some access := by
  rw [Access.ofJson?, Json.choice?_text, Option.bind_some, Access.ofKey?_key]

theorem Severity.ofJson?_key (severity : Severity) :
    Severity.ofJson? (.text severity.key) = some severity := by
  rw [Severity.ofJson?, Json.choice?_text, Option.bind_some, Severity.ofKey?_key]

theorem nullable?_cursorId (id : Option CursorId) :
    Json.nullable? CursorId.ofJson? (.ofOption CursorId.toJson id) = some id :=
  Json.nullable?_ofOption (fun _ => Json.noConfusion) CursorId.ofJson?_toJson id

theorem nullable?_typeId (id : Option TypeId) :
    Json.nullable? TypeId.ofJson? (.ofOption TypeId.toJson id) = some id :=
  Json.nullable?_ofOption (fun _ => Json.noConfusion) TypeId.ofJson?_toJson id

/-! ## Records -/

-- Every field is found under its name by computation; what is cited says how its value is read.

theorem Location.ofJson?_toJson (location : Location) :
    Location.ofJson? location.toJson = some location :=
  bind_of_eq_some (Json.fields?_record rfl (by decide)) <|
    bind_of_eq_some (Json.nullable?_ofOption_text location.file) <|
    bind_of_eq_some (Json.word?_natural location.line) <|
    bind_of_eq_some (Json.word?_natural location.column) rfl

theorem Flags.ofJson?_toJson (flags : Flags) : Flags.ofJson? flags.toJson = some flags :=
  bind_of_eq_some (Json.fields?_record rfl (by decide)) <|
    bind_of_eq_some (Json.boolean?_boolean flags.isStatic) <|
    bind_of_eq_some (Json.boolean?_boolean flags.isVirtual) <|
    bind_of_eq_some (Json.boolean?_boolean flags.isPureVirtual) <|
    bind_of_eq_some (Json.boolean?_boolean flags.isAbstract) <|
    bind_of_eq_some (Json.boolean?_boolean flags.isDefinition) rfl

theorem Cursor.ofJson?_toJson (c : Cursor) : Cursor.ofJson? c.toJson = some c :=
  bind_of_eq_some (Json.fields?_record rfl (by decide)) <|
    bind_of_eq_some (CursorKind.ofJson?_key c.kind) <|
    bind_of_eq_some (Json.text?_text c.spelling) <|
    bind_of_eq_some (Json.nullable?_ofOption_text c.displayName) <|
    bind_of_eq_some (Json.nullable?_ofOption_text c.usr) <|
    bind_of_eq_some (nullable?_cursorId c.semanticParent) <|
    bind_of_eq_some (nullable?_cursorId c.lexicalParent) <|
    bind_of_eq_some c.location.ofJson?_toJson <|
    bind_of_eq_some (Access.ofJson?_key c.access) <|
    bind_of_eq_some (nullable?_typeId c.type) <|
    bind_of_eq_some (nullable?_typeId c.resultType) <|
    bind_of_eq_some (nullable?_cursorId c.definition) <|
    bind_of_eq_some (Json.list?_ofList CursorId.ofJson?_toJson c.children) <|
    bind_of_eq_some c.flags.ofJson?_toJson <|
    bind_of_eq_some (Json.nullable?_ofOption_text c.briefComment) rfl

theorem TypeDescriptor.ofJson?_toJson (t : TypeDescriptor) :
    TypeDescriptor.ofJson? t.toJson = some t :=
  bind_of_eq_some (Json.fields?_record rfl (by decide)) <|
    bind_of_eq_some (TypeKind.ofJson?_key t.kind) <|
    bind_of_eq_some (Json.text?_text t.spelling) <|
    bind_of_eq_some (nullable?_typeId t.pointee) <|
    bind_of_eq_some (nullable?_cursorId t.declaration) <|
    bind_of_eq_some (nullable?_typeId t.canonical) rfl

theorem Message.ofJson?_toJson (message : Message) :
    Message.ofJson? message.toJson = some message :=
  bind_of_eq_some (Json.fields?_record rfl (by decide)) <|
    bind_of_eq_some (Severity.ofJson?_key message.severity) <|
    bind_of_eq_some (Json.text?_text message.content) <|
    bind_of_eq_some message.location.ofJson?_toJson rfl

theorem Inclusion.ofJson?_toJson (inclusion : Inclusion) :
    Inclusion.ofJson? inclusion.toJson = some inclusion :=
  bind_of_eq_some (Json.fields?_record rfl (by decide)) <|
    bind_of_eq_some (Json.text?_text inclusion.path) <|
    bind_of_eq_some (Json.word?_natural inclusion.depth) rfl

theorem TranslationUnit.ofJson?_toJson (u : TranslationUnit) :
    TranslationUnit.ofJson? u.toJson = some u :=
  bind_of_eq_some (Json.fields?_record rfl (by decide)) <|
    bind_of_eq_some (Json.text?_text u.path) <|
    bind_of_eq_some u.root.ofJson?_toJson <|
    bind_of_eq_some (Json.list?_ofList Cursor.ofJson?_toJson u.cursors.toList) <|
    bind_of_eq_some (Json.list?_ofList TypeDescriptor.ofJson?_toJson u.types.toList) <|
    bind_of_eq_some (Json.list?_ofList Message.ofJson?_toJson u.messages) <|
    bind_of_eq_some (Json.list?_ofList Inclusion.ofJson?_toJson u.inclusions) rfl

/-! ## Dumps -/

theorem Location.plain_toJson (location : Location) : location.toJson.Plain :=
  .record (by simp [Json.Plain.ofOption Json.Plain.text, Json.Plain.natural])

theorem Flags.plain_toJson (flags : Flags) : flags.toJson.Plain :=
  .record (by simp [Json.Plain.boolean])

theorem CursorId.plain_toJson (id : CursorId) : id.toJson.Plain := .natural id.index

theorem TypeId.plain_toJson (id : TypeId) : id.toJson.Plain := .natural id.index

theorem Cursor.plain_toJson (c : Cursor) : c.toJson.Plain :=
  .record (by simp [Json.Plain.text, Json.Plain.ofOption Json.Plain.text,
    Json.Plain.ofOption CursorId.plain_toJson, Json.Plain.ofOption TypeId.plain_toJson,
    Json.Plain.ofList CursorId.plain_toJson, Location.plain_toJson, Flags.plain_toJson])

theorem TypeDescriptor.plain_toJson (t : TypeDescriptor) : t.toJson.Plain :=
  .record (by simp [Json.Plain.text, Json.Plain.ofOption CursorId.plain_toJson,
    Json.Plain.ofOption TypeId.plain_toJson])

theorem Message.plain_toJson (message : Message) : message.toJson.Plain :=
  .record (by simp [Json.Plain.text, Location.plain_toJson])

theorem Inclusion.plain_toJson (inclusion : Inclusion) : inclusion.toJson.Plain :=
  .record (by simp [Json.Plain.text, Json.Plain.natural])

namespace TranslationUnit

theorem plain_toJson (u : TranslationUnit) : u.toJson.Plain :=
  .record (by simp [Json.Plain.text, CursorId.plain_toJson, Json.Plain.ofList Cursor.plain_toJson,
    Json.Plain.ofList TypeDescriptor.plain_toJson, Json.Plain.ofList Message.plain_toJson,
    Json.Plain.ofList Inclusion.plain_toJson])

/-- Loading a dump of any unit is checking the unit. -/
theorem ofText_dumpText_eq_checked (u : TranslationUnit) : ofText u.dumpText = u.checked := by
  rw [ofText, dumpText, Json.parse?_pretty u.plain_toJson]
  simp only [ofDocument, ofJson?_toJson]

theorem checked_eq_ok_iff {u v : TranslationUnit} :
    u.checked = .ok v ↔ u.firstFault? = none ∧ u = v := by
  unfold checked
  cases u.firstFault? <;> simp

/-- Only a unit without a fault is loaded. -/
theorem firstFault?_of_ofText {text : String} {u : TranslationUnit} (loaded : ofText text = .ok u) :
    u.firstFault? = none := by
  unfold ofText ofDocument at loaded
  split at loaded
  · cases loaded
  · split at loaded
    · cases loaded
    · obtain ⟨valid, rfl⟩ := checked_eq_ok_iff.mp loaded
      exact valid

/-- A text that loads, written anew. -/
def normalize (text : String) : Except LoadError String := (ofText text).map dumpText

theorem ofText_dumpText_of_valid {u : TranslationUnit} (valid : u.firstFault? = none) :
    ofText u.dumpText = .ok u :=
  (ofText_dumpText_eq_checked u).trans (checked_eq_ok_iff.mpr ⟨valid, rfl⟩)

-- Two units with one dump are one unit, since both are what the dump loads as.
theorem normalize_eq_dumpText_iff {u : TranslationUnit} (valid : u.firstFault? = none)
    (text : String) : normalize text = .ok u.dumpText ↔ ofText text = .ok u := by
  constructor
  · intro written
    cases loaded : ofText text with
    | error fault => simp [normalize, loaded, Except.map] at written
    | ok v =>
      have same : v.dumpText = u.dumpText := by
        simpa [normalize, loaded, Except.map] using written
      have back := ofText_dumpText_of_valid (firstFault?_of_ofText loaded)
      rw [same, ofText_dumpText_of_valid valid] at back
      exact back.symm
  · intro loaded
    rw [normalize, loaded]
    rfl

/-- A valid unit is what its dump loads as, and the dump of what a text loads as is the normal form
of the text: it loads as the same unit, is left as it is by another pass, and is shared by exactly
the texts that load as that unit. -/
theorem dumpText_reloads :
    (∀ u : TranslationUnit, u.firstFault? = none → ofText u.dumpText = .ok u) ∧
      ∀ (text : String) (u : TranslationUnit), ofText text = .ok u →
        ofText u.dumpText = .ok u ∧ normalize text = .ok u.dumpText ∧
          normalize u.dumpText = .ok u.dumpText ∧
            ∀ other : String, normalize other = normalize text ↔ ofText other = .ok u := by
  refine ⟨fun u valid => ofText_dumpText_of_valid valid, fun text u loaded => ?_⟩
  have valid := firstFault?_of_ofText loaded
  have reloads := ofText_dumpText_of_valid valid
  have normal := (normalize_eq_dumpText_iff valid text).mpr loaded
  refine ⟨reloads, normal, (normalize_eq_dumpText_iff valid u.dumpText).mpr reloads, fun other => ?_⟩
  rw [normal]
  exact normalize_eq_dumpText_iff valid other

/-- A unit whose texts need every way of writing a character, and whose numbers reach the limit. -/
def scribbles : TranslationUnit where
  path := "say \"hi\"\\ \x01\x1f\n\t\x7f é 漢 𝄞.h"
  root := ⟨0⟩
  cursors := #[
    { kind := .translationUnit, children := [⟨1⟩] },
    { kind := .fieldDecl, spelling := "", usr := some "", semanticParent := some ⟨0⟩
      location := { file := some "\r", line := 4294967295, column := 0 }
      access := .privateMember, type := some ⟨0⟩, flags := { isStatic := true } }]
  types := #[{ kind := .lvalueReference, spelling := "T &", canonical := some ⟨0⟩ }]
  messages := [{ severity := .fatal, content := "\x00\x08\x0c" }]
  inclusions := [{ path := "/", depth := 4294967295 }]

theorem dumpText_reloads_scribbles :
    scribbles.firstFault? = none ∧ ofText scribbles.dumpText = .ok scribbles ∧
      normalize scribbles.dumpText = .ok scribbles.dumpText := by
  have valid : scribbles.firstFault? = none := by decide +kernel
  have loaded := dumpText_reloads.1 scribbles valid
  exact ⟨valid, loaded, (dumpText_reloads.2 scribbles.dumpText scribbles loaded).2.1⟩

end TranslationUnit

end Bindery.Ast
