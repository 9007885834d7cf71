import Bindery.Json.Record
import Bindery.Proofs.Json.Printing

/-! Decoding undoes encoding, one kind of field at a time: a record gives its fields back under the
names that it is read with, and so do the values that may be null, the lists and the words. -/

set_option autoImplicit false

namespace Bindery.Json

/-! ## Plain documents -/

theorem Plain.text (content : String) : Plain (.text content) := .string (some content)

theorem Plain.record {fields : Fields} (each : ∀ field ∈ fields, Plain field.2) :
    Plain (.record fields) :=
  .object fun member listed => by
    obtain ⟨field, given, rfl⟩ := List.mem_map.mp listed
    exact each field given

section
variable {α : Type} {encode : α → Json}

theorem Plain.ofOption (each : ∀ value, Plain (encode value)) (value : Option α) :
    Plain (.ofOption encode value) := by
  cases value with
  | none => exact .null
  | some value => exact each value

theorem Plain.ofList (each : ∀ value, Plain (encode value)) (values : List α) :
    Plain (.ofList encode values) :=
  .array fun item listed => by
    obtain ⟨value, _, rfl⟩ := List.mem_map.mp listed
    exact each value

end

/-! ## Records -/

theorem lookup_eq_none_of_notMem {name : String} {fields : Fields}
    (fresh : name ∉ fields.map Prod.fst) : fields.lookup name = none := by
  rw [List.lookup_eq_none_iff]
  intro field given
  have other : name ≠ field.1 := fun same => fresh (same ▸ List.mem_map_of_mem given)
  simpa using other

/-- Members are known as fields if no known one is given twice. -/
theorem knownMembers_of_nodup {names : List String} {given : Fields}
    (distinct : ((given.filter (·.1 ∈ names)).map Prod.fst).Nodup) :
    knownMembers names (given.map fun field => (some field.1, field.2)) =
      some (given.filter (·.1 ∈ names)) := by
  induction given with
  | nil => rfl
  | cons field given ih =>
    by_cases known : field.1 ∈ names
    · rw [List.filter_cons_of_pos (by simpa using known)] at distinct ⊢
      obtain ⟨fresh, distinct⟩ := List.nodup_cons.mp distinct
      have once := lookup_eq_none_of_notMem fresh
      simp [knownMembers, ih distinct, known, once]
    · rw [List.filter_cons_of_neg (by simpa using known)] at distinct ⊢
      simp [knownMembers, ih distinct, known]

/-- A record that gives each field once is read back under the names of its fields. -/
theorem fields?_record {names : List String} {fields : Fields}
    (named : fields.map Prod.fst = names) (distinct : names.Nodup) :
    (Json.record fields).fields? names = some fields := by
  have known : fields.filter (·.1 ∈ names) = fields :=
    List.filter_eq_self.mpr fun field given => by
      simpa [← named] using ⟨field.2, given⟩
  have single : ((fields.filter (·.1 ∈ names)).map Prod.fst).Nodup := by rwa [known, named]
  exact (knownMembers_of_nodup single).trans (congrArg some known)

/-- Decoding goes on with a value that is known. -/
theorem bind_of_eq_some {α β : Type} {read : Option α} {rest : α → Option β} {value : α}
    {answer : Option β} (known : read = some value) (further : rest value = answer) :
    (read >>= rest) = answer := by
  rw [known]
  exact further

-- Stated for the bind as it is written, so that long chains are taken apart without being opened.
theorem bind_eq_some_iff {α β : Type} {read : Option α} {rest : α → Option β} {answer : β} :
    (read >>= rest) = some answer ↔ ∃ value, read = some value ∧ rest value = some answer :=
  Option.bind_eq_some_iff

/-! ## Values -/

theorem text?_text (content : String) : text? (.text content) = some content := rfl

theorem boolean?_boolean (value : Bool) : boolean? (.boolean value) = some value := rfl

theorem choice?_text (content : String) : choice? (.text content) = some content := rfl

theorem word?_natural (word : UInt32) : word? (.natural word.toNat) = some word := by
  have small : word.toNat < UInt32.size := word.toNat_lt_size
  simp [word?, natural?, small]

section
variable {α : Type} {encode : α → Json} {decode : Json → Option α}

/-- Null stands for an absent value only, as long as no value is written as null. -/
theorem nullable?_ofOption (visible : ∀ value, encode value ≠ .null)
    (back : ∀ value, decode (encode value) = some value) (value : Option α) :
    nullable? decode (ofOption encode value) = some value := by
  cases value with
  | none => rfl
  | some value =>
    rw [ofOption, nullable?, back]
    · rfl
    · exact visible value

theorem list?_ofList (back : ∀ value, decode (encode value) = some value) (values : List α) :
    list? decode (ofList encode values) = some values := by
  have each : (values.map encode).mapM decode = some values := by
    induction values with
    | nil => rfl
    | cons value values ih => simp [List.mapM_cons, back, ih]
  exact each

theorem nullable?_ofOption_text (content : Option String) :
    nullable? text? (ofOption .text content) = some content :=
  nullable?_ofOption (fun _ => Json.noConfusion) text?_text content

end

end Bindery.Json
