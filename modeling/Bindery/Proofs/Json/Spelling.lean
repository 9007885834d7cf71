import Bindery.Proofs.Json.Record
import Mathlib.Data.List.Count
import Mathlib.Data.List.Forall2
import Mathlib.Data.List.Nodup

/-! The spellings of a record. A record is written in full as the object of all its fields in order. Its
members can stand in any order and among others, and a field that has its default can be left out; or
the values stand in an array, where only the end can be left out. All of these are read alike. -/

set_option autoImplicit false

namespace Bindery.Json

/-- How a kind of value can be written: what can stand in place of the value written in full, and what
can stand for no value. -/
structure Form where
  respells : Json → Json → Prop
  spoils : Json → Prop

/-- A field of a record. One that need not be given stands for its default, which is written in full. -/
structure Field where
  name : String
  default : Option Json
  form : Form

namespace Field

def required (name : String) (form : Form) : Field := ⟨name, none, form⟩

def optional (name : String) (default : Json) (form : Form) : Field := ⟨name, some default, form⟩

end Field

/-- The members that are given of a record in full, in order. Only defaults are left out. -/
inductive Keeps : List Field → Fields → Fields → Prop where
  | nil : Keeps [] [] []
  | keep {field : Field} {layout : List Field} {value other : Json} {full given : Fields}
      (respells : field.form.respells value other) (keeps : Keeps layout full given) :
      Keeps (field :: layout) ((field.name, value) :: full) ((field.name, other) :: given)
  | drop {field : Field} {layout : List Field} {value : Json} {full given : Fields}
      (default : field.default = some value) (keeps : Keeps layout full given) :
      Keeps (field :: layout) ((field.name, value) :: full) given

/-- The values of a record in full, in order, up to some end behind which there are only defaults. -/
inductive Lists : List Field → Fields → List Json → Prop where
  | cut {layout : List Field} {full : Fields} (keeps : Keeps layout full []) : Lists layout full []
  | next {field : Field} {layout : List Field} {value other : Json} {full : Fields}
      {items : List Json} (respells : field.form.respells value other)
      (lists : Lists layout full items) :
      Lists (field :: layout) ((field.name, value) :: full) (other :: items)

/-- What can stand in place of a record in full. -/
inductive RecordRespells (layout : List Field) (full : Fields) : Json → Prop where
  | keyed {given others members : Fields} (keeps : Keeps layout full given)
      (unknown : ∀ other ∈ others, other.1 ∉ layout.map Field.name)
      (order : members.Perm (given ++ others)) : RecordRespells layout full (.record members)
  | positional {items : List Json} (lists : Lists layout full items) :
      RecordRespells layout full (.array items)

/-- The members that are kept, in any order, are a spelling without others. -/
theorem RecordRespells.of_keeps {layout : List Field} {full given members : Fields}
    (keeps : Keeps layout full given) (order : members.Perm given) :
    RecordRespells layout full (.record members) :=
  .keyed keeps (fun _ listed => absurd listed List.not_mem_nil) (by rwa [List.append_nil])

/-- What can be no record, whatever else is in it: a field is missing that must be given, one is given
twice, there are more values than fields, or the value of a field is spoilt. -/
inductive RecordSpoils (layout : List Field) : Json → Prop where
  | lacking {field : Field} {members : List (Text × Json)} (known : field ∈ layout)
      (required : field.default = none) (absent : some field.name ∉ members.map Prod.fst) :
      RecordSpoils layout (.object members)
  | repeated {field : Field} {members : List (Text × Json)} (known : field ∈ layout)
      (twice : 1 < (members.map Prod.fst).count (some field.name)) :
      RecordSpoils layout (.object members)
  | member {field : Field} {members : List (Text × Json)} {value : Json} (known : field ∈ layout)
      (given : (some field.name, value) ∈ members) (spoils : field.form.spoils value) :
      RecordSpoils layout (.object members)
  | short {field : Field} {items : List Json} (beyond : field ∈ layout.drop items.length)
      (required : field.default = none) : RecordSpoils layout (.array items)
  | long {items : List Json} (more : layout.length < items.length) :
      RecordSpoils layout (.array items)
  | item {field : Field} {items : List Json} {value : Json} (given : (field, value) ∈ layout.zip items)
      (spoils : field.form.spoils value) : RecordSpoils layout (.array items)

namespace Form

/-- A value that is written in one way. -/
def fixed : Form := ⟨fun value other => other = value, fun _ => False⟩

def list (item : Form) : Form where
  respells value other := ∃ values others, value = .array values ∧ other = .array others ∧
    List.Forall₂ item.respells values others
  spoils value := ∃ items, value = .array items ∧ ∃ spoilt ∈ items, item.spoils spoilt

def record (layout : List Field) : Form where
  respells value other := ∃ full, value = .record full ∧ RecordRespells layout full other
  spoils := RecordSpoils layout

/-- All spellings of a value are read as the value, and what stands for none is not read. -/
structure Reads {α : Type} (form : Form) (encode : α → Json) (decode : Json → Option α) :
    Prop where
  full : ∀ value, decode (encode value) = some value
  respelt : ∀ value other, form.respells (encode value) other → decode other = some value
  spoilt : ∀ other, form.spoils other → decode other = none

end Form

/-! ## Known members -/

theorem lookup_eq_none_iff_notMem {name : String} {fields : Fields} :
    fields.lookup name = none ↔ name ∉ fields.map Prod.fst := by
  refine ⟨fun absent given => ?_, lookup_eq_none_of_notMem⟩
  obtain ⟨field, listed, rfl⟩ := List.mem_map.mp given
  simpa using List.lookup_eq_none_iff.mp absent field listed

theorem lookup_eq_some_iff_mem {name : String} {value : Json} {fields : Fields}
    (distinct : (fields.map Prod.fst).Nodup) :
    fields.lookup name = some value ↔ (name, value) ∈ fields := by
  induction fields with
  | nil => simp
  | cons field fields ih =>
    obtain ⟨key, held⟩ := field
    obtain ⟨fresh, distinct⟩ := List.nodup_cons.mp distinct
    by_cases here : name = key
    · subst here
      have apart : (name, value) ∉ fields := fun listed =>
        fresh (List.mem_map.mpr ⟨(name, value), listed, rfl⟩)
      simp [apart, eq_comm]
    · have other : (name == key) = false := by simpa using here
      simp [List.lookup_cons, other, ih distinct, here]

theorem lookup_perm {fields others : Fields} (order : fields.Perm others)
    (distinct : (others.map Prod.fst).Nodup) (name : String) :
    fields.lookup name = others.lookup name := by
  have distinct' : (fields.map Prod.fst).Nodup := (order.map Prod.fst).nodup_iff.mpr distinct
  ext value
  rw [lookup_eq_some_iff_mem distinct', lookup_eq_some_iff_mem distinct, order.mem_iff]

/-- If members are known as fields, all their keys are text and no known one is given twice. -/
theorem exists_of_knownMembers {names : List String} {members : List (Text × Json)}
    {found : Fields} (read : knownMembers names members = some found) :
    ∃ given : Fields, members = given.map (fun field => (some field.1, field.2)) ∧
      found = given.filter (·.1 ∈ names) ∧ (found.map Prod.fst).Nodup := by
  induction members generalizing found with
  | nil =>
    cases read
    exact ⟨[], rfl, rfl, List.nodup_nil⟩
  | cons member members ih =>
    obtain ⟨text, value⟩ := member
    simp only [knownMembers, Option.bind_eq_bind, Option.bind_eq_some_iff] at read
    obtain ⟨key, rfl, fields, rest, read⟩ := read
    obtain ⟨given, rfl, rfl, distinct⟩ := ih rest
    refine ⟨(key, value) :: given, rfl, ?_⟩
    by_cases known : key ∈ names
    · rw [List.filter_cons_of_pos (by simpa using known)]
      rw [if_pos known] at read
      split at read
      · cases read
      · next once =>
        cases read
        rw [Option.not_isSome_iff_eq_none, lookup_eq_none_iff_notMem] at once
        exact ⟨rfl, List.nodup_cons.mpr ⟨once, distinct⟩⟩
    · rw [List.filter_cons_of_neg (by simpa using known)]
      rw [if_neg known] at read
      cases read
      exact ⟨rfl, distinct⟩

theorem record_injective : Function.Injective Json.record := fun _ _ same =>
  List.map_injective_iff.mpr (fun _ _ alike => by simpa [Prod.ext_iff] using alike)
    (Json.object.inj same)

theorem map_fst_zip_eq_take (names : List String) (items : List Json) :
    (names.zip items).map Prod.fst = names.take items.length := by
  induction names generalizing items with
  | nil => simp
  | cons name names ih => cases items <;> simp [ih]

/-! ## What is found of a record -/

namespace Field

/-- What is found holds a spelling of the value of the field, or the value is the default. -/
def Carries (field : Field) (found : Fields) (value : Json) : Prop :=
  match found.lookup field.name with
  | some other => field.form.respells value other
  | none => field.default = some value

def Fails (field : Field) (found : Fields) : Prop :=
  match found.lookup field.name with
  | some other => field.form.spoils other
  | none => field.default = none

/-- What is found carries all the values of a record. -/
abbrev CarryAll (layout : List Field) (found full : Fields) : Prop :=
  List.Forall₂ (fun field entry => field.Carries found entry.2) layout full

variable {field : Field} {found : Fields} {value other : Json}

theorem carries_of_lookup (given : found.lookup field.name = some other)
    (respells : field.form.respells value other) : field.Carries found value := by
  simpa [Carries, given] using respells

theorem carries_of_default (absent : found.lookup field.name = none)
    (default : field.default = some value) : field.Carries found value := by
  simpa [Carries, absent] using default

theorem fails_of_lookup (given : found.lookup field.name = some other)
    (spoils : field.form.spoils other) : field.Fails found := by
  simpa [Fails, given] using spoils

theorem fails_of_required (absent : found.lookup field.name = none)
    (required : field.default = none) : field.Fails found := by
  simpa [Fails, absent] using required

end Field

/-- What is found of one field does not matter to others. -/
theorem lookup_cons_of_fresh {field another : Field} {layout : List Field} {value : Json}
    {found : Fields} (fresh : field.name ∉ layout.map Field.name) (known : another ∈ layout) :
    ((field.name, value) :: found).lookup another.name = found.lookup another.name := by
  have apart : another.name ≠ field.name := fun same =>
    fresh (same ▸ List.mem_map_of_mem known)
  rw [List.lookup_cons, beq_eq_false_iff_ne.mpr apart]

theorem Keeps.names {layout : List Field} {full given : Fields} (keeps : Keeps layout full given) :
    (given.map Prod.fst).Sublist (layout.map Field.name) := by
  induction keeps with
  | nil => exact .slnil
  | keep _ _ ih => exact ih.cons_cons _
  | drop _ _ ih => exact ih.cons _

theorem Keeps.carries {layout : List Field} {full given found : Fields}
    (keeps : Keeps layout full given) (distinct : (layout.map Field.name).Nodup)
    (agree : ∀ field ∈ layout, found.lookup field.name = given.lookup field.name) :
    Field.CarryAll layout found full := by
  induction keeps with
  | nil => exact .nil
  | @keep field layout value other full given respells keeps ih =>
    obtain ⟨fresh, distinct⟩ := List.nodup_cons.mp distinct
    have here := agree field List.mem_cons_self
    refine .cons (Field.carries_of_lookup (by simpa using here) respells)
      (ih distinct fun another known => ?_)
    exact (agree another (List.mem_cons_of_mem _ known)).trans (lookup_cons_of_fresh fresh known)
  | @drop field layout value full given default keeps ih =>
    obtain ⟨fresh, distinct⟩ := List.nodup_cons.mp distinct
    have absent := lookup_eq_none_of_notMem fun given => fresh (keeps.names.subset given)
    have here := agree field List.mem_cons_self
    exact .cons (Field.carries_of_default (here.trans absent) default)
      (ih distinct fun another known => agree another (List.mem_cons_of_mem _ known))

theorem Lists.length_le {layout : List Field} {full : Fields} {items : List Json}
    (lists : Lists layout full items) : items.length ≤ layout.length := by
  induction lists with
  | cut _ => exact Nat.zero_le _
  | next _ _ ih => exact Nat.succ_le_succ ih

theorem Lists.carries {layout : List Field} {full found : Fields} {items : List Json}
    (lists : Lists layout full items) (distinct : (layout.map Field.name).Nodup)
    (agree : ∀ field ∈ layout,
      found.lookup field.name = ((layout.map Field.name).zip items).lookup field.name) :
    Field.CarryAll layout found full := by
  induction lists with
  | cut keeps => exact keeps.carries distinct (by simpa using agree)
  | @next field layout value other full items respells lists ih =>
    obtain ⟨fresh, distinct⟩ := List.nodup_cons.mp distinct
    have here := agree field List.mem_cons_self
    refine .cons (Field.carries_of_lookup (by simpa using here) respells)
      (ih distinct fun another known => ?_)
    exact (agree another (List.mem_cons_of_mem _ known)).trans (lookup_cons_of_fresh fresh known)

section
variable {layout : List Field} (distinct : (layout.map Field.name).Nodup)
include distinct

/-- Among the members of a record in any order, the known ones are those that were kept. -/
theorem Keeps.exists_found {full given others members : Fields} (keeps : Keeps layout full given)
    (unknown : ∀ other ∈ others, other.1 ∉ layout.map Field.name)
    (order : members.Perm (given ++ others)) :
    ∃ found, (Json.record members).fields? (layout.map Field.name) = some found ∧
      Field.CarryAll layout found full := by
  have known : given.filter (·.1 ∈ layout.map Field.name) = given :=
    List.filter_eq_self.mpr fun entry listed => by
      simpa using keeps.names.subset (List.mem_map_of_mem listed)
  have none : others.filter (·.1 ∈ layout.map Field.name) = [] :=
    List.filter_eq_nil_iff.mpr fun other listed => by simpa using unknown other listed
  have kept : (members.filter (·.1 ∈ layout.map Field.name)).Perm given := by
    have parts := order.filter (·.1 ∈ layout.map Field.name)
    rwa [List.filter_append, known, none, List.append_nil] at parts
  have single : (given.map Prod.fst).Nodup := keeps.names.nodup distinct
  refine ⟨members.filter (·.1 ∈ layout.map Field.name),
    knownMembers_of_nodup ((kept.map Prod.fst).nodup_iff.mpr single),
    keeps.carries distinct fun field _ => lookup_perm kept single field.name⟩

theorem RecordRespells.exists_found {full : Fields} {document : Json}
    (respells : RecordRespells layout full document) :
    ∃ found, document.fields? (layout.map Field.name) = some found ∧
      Field.CarryAll layout found full := by
  cases respells with
  | keyed keeps unknown order => exact keeps.exists_found distinct unknown order
  | @positional items lists =>
    refine ⟨(layout.map Field.name).zip items, ?_, lists.carries distinct fun _ _ => rfl⟩
    simp [fields?, lists.length_le]

omit distinct in
theorem fields?_array {items : List Json} {found : Fields} :
    (Json.array items).fields? (layout.map Field.name) = some found ↔
      items.length ≤ layout.length ∧ (layout.map Field.name).zip items = found := by
  simp [fields?]

/-- Whatever has fields, one of them fails in it if it can be no record. -/
theorem RecordSpoils.exists_fails {document : Json} (spoils : RecordSpoils layout document)
    {found : Fields} (read : document.fields? (layout.map Field.name) = some found) :
    ∃ field ∈ layout, field.Fails found := by
  cases spoils with
  | @lacking field members known required absent =>
    obtain ⟨given, rfl, rfl, -⟩ := exists_of_knownMembers read
    have absent' : field.name ∉ given.map Prod.fst := by simpa using absent
    have kept : (given.filter (·.1 ∈ layout.map Field.name)).Sublist given := List.filter_sublist
    exact ⟨field, known, Field.fails_of_required
      (lookup_eq_none_of_notMem fun listed => absent' ((kept.map Prod.fst).subset listed)) required⟩
  | @repeated field members known twice =>
    obtain ⟨given, rfl, rfl, single⟩ := exists_of_knownMembers read
    have keys : (given.map fun entry => (some entry.1, entry.2)).map Prod.fst =
        (given.map Prod.fst).map some := by simp
    have kept : (given.filter (·.1 ∈ layout.map Field.name)).map Prod.fst =
        (given.map Prod.fst).filter (· ∈ layout.map Field.name) := by
      rw [List.filter_map]
      rfl
    have once := List.nodup_iff_count_le_one.mp single field.name
    rw [kept, List.count_filter (by simpa using List.mem_map_of_mem known)] at once
    rw [keys, List.count_map_of_injective _ some (fun _ _ => Option.some.inj)] at twice
    exact absurd twice (Nat.not_lt.mpr once)
  | @member field members value known given spoils =>
    obtain ⟨entries, rfl, rfl, single⟩ := exists_of_knownMembers read
    have held : (field.name, value) ∈ entries := by simpa using given
    have kept : (field.name, value) ∈ entries.filter (·.1 ∈ layout.map Field.name) :=
      List.mem_filter.mpr ⟨held, by simpa using List.mem_map_of_mem known⟩
    exact ⟨field, known, Field.fails_of_lookup ((lookup_eq_some_iff_mem single).mpr kept) spoils⟩
  | @short field items beyond required =>
    obtain ⟨-, rfl⟩ := fields?_array.mp read
    have apart := List.disjoint_take_drop distinct (Nat.le_refl items.length)
    have beyond' : field.name ∈ (layout.map Field.name).drop items.length := by
      rw [← List.map_drop]
      exact List.mem_map_of_mem beyond
    refine ⟨field, List.mem_of_mem_drop beyond, Field.fails_of_required
      (lookup_eq_none_of_notMem fun listed => apart ?_ beyond') required⟩
    rwa [map_fst_zip_eq_take] at listed
  | @long items more =>
    obtain ⟨fits, -⟩ := fields?_array.mp read
    exact absurd more (Nat.not_lt.mpr fits)
  | @item field items value given spoils =>
    obtain ⟨-, rfl⟩ := fields?_array.mp read
    have single : (((layout.map Field.name).zip items).map Prod.fst).Nodup := by
      rw [map_fst_zip_eq_take]
      exact distinct.sublist (List.take_sublist _ _)
    have held : (field.name, value) ∈ (layout.map Field.name).zip items := by
      rw [List.zip_map_left]
      exact List.mem_map.mpr ⟨(field, value), given, rfl⟩
    exact ⟨field, (List.of_mem_zip given).1,
      Field.fails_of_lookup ((lookup_eq_some_iff_mem single).mpr held) spoils⟩

end

/-! ## Forms that are read -/

section
variable {α : Type} {form : Form} {encode : α → Json} {decode : Json → Option α} {name : String}
  {found : Fields} {value default : α}

theorem Fields.required_of_carries (reads : form.Reads encode decode)
    (carries : (Field.required name form).Carries found (encode value)) :
    found.required name decode = some value := by
  cases given : found.lookup name with
  | none => simp [Field.Carries, Field.required, given] at carries
  | some other =>
    have respells : form.respells (encode value) other := by
      simpa [Field.Carries, Field.required, given] using carries
    simpa [Fields.required, given] using reads.respelt value other respells

-- A default and a value that are written alike are alike, since they are read back.
theorem Fields.optional_of_carries (reads : form.Reads encode decode)
    (carries : (Field.optional name (encode default) form).Carries found (encode value)) :
    found.optional name default decode = some value := by
  cases given : found.lookup name with
  | none =>
    have same : encode default = encode value := by
      simpa [Field.Carries, Field.optional, given] using carries
    simp only [Fields.optional, given]
    rw [← reads.full default, same, reads.full value]
  | some other =>
    have respells : form.respells (encode value) other := by
      simpa [Field.Carries, Field.optional, given] using carries
    simpa [Fields.optional, given] using reads.respelt value other respells

theorem Fields.not_fails_of_required (reads : form.Reads encode decode)
    (read : found.required name decode = some value) : ¬(Field.required name form).Fails found := by
  intro fails
  obtain ⟨other, given, read⟩ := Option.bind_eq_some_iff.mp read
  have spoils : form.spoils other := by simpa [Field.Fails, Field.required, given] using fails
  simp [reads.spoilt other spoils] at read

theorem Fields.not_fails_of_optional (reads : form.Reads encode decode)
    (read : found.optional name default decode = some value) :
    ¬(Field.optional name (encode default) form).Fails found := by
  intro fails
  cases given : found.lookup name with
  | none => simp [Field.Fails, Field.optional, given] at fails
  | some other =>
    have spoils : form.spoils other := by simpa [Field.Fails, Field.optional, given] using fails
    simp [Fields.optional, given, reads.spoilt other spoils] at read

@[simp] theorem Field.not_fails_fixed {default : Json} :
    ¬(Field.optional name default .fixed).Fails found := by
  cases given : found.lookup name <;> simp [Field.Fails, Field.optional, Form.fixed, given]

namespace Form.Reads

theorem fixed (full : ∀ value, decode (encode value) = some value) :
    Form.fixed.Reads encode decode where
  full := full
  respelt value other same := by
    obtain rfl : other = encode value := same
    exact full value
  spoilt _ := False.elim

theorem mapM_of_respells (reads : form.Reads encode decode) {values : List α} {others : List Json}
    (each : List.Forall₂ form.respells (values.map encode) others) :
    others.mapM decode = some values := by
  induction values generalizing others with
  | nil =>
    cases each
    rfl
  | cons value values ih =>
    cases each with
    | cons first each => simp [List.mapM_cons, reads.respelt value _ first, ih each]

theorem mapM_of_spoils (reads : form.Reads encode decode) {items : List Json} {spoilt : Json}
    (listed : spoilt ∈ items) (spoils : form.spoils spoilt) : items.mapM decode = none := by
  induction items with
  | nil => cases listed
  | cons item items ih =>
    rcases List.mem_cons.mp listed with rfl | listed
    · simp [List.mapM_cons, reads.spoilt spoilt spoils]
    · simp [List.mapM_cons, ih listed]

theorem list (reads : form.Reads encode decode) :
    (Form.list form).Reads (ofList encode) (list? decode) where
  full := list?_ofList reads.full
  respelt values other respells := by
    obtain ⟨items, others, same, rfl, each⟩ := respells
    obtain rfl := Json.array.inj same
    exact reads.mapM_of_respells each
  spoilt other spoils := by
    obtain ⟨items, rfl, spoilt, listed, spoils⟩ := spoils
    exact reads.mapM_of_spoils listed spoils

/-- A record is read as soon as its fields are: by what carries them all, and by nothing in which
one of them fails. -/
theorem record {layout : List Field} {content : α → Fields} {read : Fields → Option α}
    (distinct : (layout.map Field.name).Nodup)
    (full : ∀ value,
      (Json.record (content value)).fields? (layout.map Field.name) >>= read = some value)
    (carried : ∀ value found, Field.CarryAll layout found (content value) →
      read found = some value)
    (sound : ∀ found value, read found = some value → ∀ field ∈ layout, ¬field.Fails found) :
    (Form.record layout).Reads (fun value => .record (content value))
      (fun document => document.fields? (layout.map Field.name) >>= read) where
  full := full
  respelt value other respells := by
    obtain ⟨given, same, respells⟩ := respells
    obtain rfl := record_injective same
    obtain ⟨found, read, carries⟩ := respells.exists_found distinct
    exact bind_of_eq_some read (carried value found carries)
  spoilt other spoils := by
    rw [Option.bind_eq_bind, Option.eq_none_iff_forall_ne_some]
    intro value given
    obtain ⟨found, read, given⟩ := Option.bind_eq_some_iff.mp given
    obtain ⟨field, known, fails⟩ := RecordSpoils.exists_fails distinct spoils read
    exact sound found value given field known fails

end Form.Reads

end

end Bindery.Json
