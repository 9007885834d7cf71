import Bindery.Ast.WellFormed
import Bindery.Proofs.Model.Ending
import Bindery.Proofs.Session

/-! Taking the pointers off a type. Nothing keeps the pointers of a unit from leading into a ring, and
from such a ring no type is ever reached that is left to stand; from everywhere else one is. A
parameter is resolved from what is left of its type, and so it is resolved just where that is found. -/

set_option autoImplicit false

namespace Bindery

open Ast (CursorId TranslationUnit TypeId)
open Relation (ReflTransGen TransGen)

namespace Ast.TranslationUnit

variable (u : TranslationUnit)

/-- A type is a pointer to another, which is valid. -/
def Unwraps (type target : TypeId) : Prop :=
  ∃ t, u.type? type = some t ∧ t.kind = .pointer ∧ t.pointee = some target ∧ u.isValidType target

/-- A type is no pointer, or one whose target is absent or invalid. -/
def Bare (type : TypeId) : Prop :=
  ∀ t, u.type? type = some t → t.kind = .pointer → ∀ target ∈ t.pointee, ¬ u.isValidType target

/-- A type leads into pointers that point at one another in a ring. -/
def EntersPointerRing (type : TypeId) : Prop :=
  ∃ pointer, ReflTransGen u.Unwraps type pointer ∧ TransGen u.Unwraps pointer pointer

variable {u} {type target next : TypeId}

theorem pointerTarget?_eq_some_iff : u.pointerTarget? type = some target ↔ u.Unwraps type target := by
  simp only [pointerTarget?, pointee?, Unwraps, Option.bind_eq_bind, Option.bind_eq_some_iff,
    Option.ite_none_right_eq_some, Option.filter_eq_some_iff]
  constructor
  · rintro ⟨t, known, pointer, t', known', _, points, valid⟩
    cases known.symm.trans known'
    exact ⟨t, known, pointer, points, valid⟩
  · rintro ⟨t, known, pointer, points, valid⟩
    exact ⟨t, known, pointer, t, known, by simp [pointer, TypeKind.isIndirection], points, valid⟩

theorem pointerTarget?_eq_none_iff : u.pointerTarget? type = none ↔ u.Bare type := by
  rw [Option.eq_none_iff_forall_ne_some]
  simp only [ne_eq, pointerTarget?_eq_some_iff]
  constructor
  · exact fun apart t known pointer target points valid =>
      apart target ⟨t, known, pointer, points, valid⟩
  · rintro bare target ⟨t, known, pointer, points, valid⟩
    exact bare t known pointer target points valid

theorem leadsTo_pointerStep_iff : LeadsTo u.pointerStep type target ↔ u.Unwraps type target := by
  rw [← pointerTarget?_eq_some_iff, LeadsTo, pointerStep]
  split
  · next found => simp [found]
  · next found => simp [found]

theorem Bare.stripPointers? (bare : u.Bare type) : u.stripPointers? type = some type := by
  rw [TranslationUnit.stripPointers?, followPointers, pointerTarget?_eq_none_iff.mpr bare]

/-- One pointer less leaves the same type in the end. -/
theorem Unwraps.stripPointers? (unwraps : u.Unwraps type next) :
    u.stripPointers? type = u.stripPointers? next := by
  -- One step more is allowed for, which makes no difference.
  have roomy : u.followPointers (u.types.size + 2) type = u.stripPointers? type := by
    rw [TranslationUnit.stripPointers?, followPointers_eq_chase, followPointers_eq_chase]
    refine chase_eq u.typeIds (fun _ => rfl) (fun _ _ on => mem_typeIds_of_pointerStep on) ?_ ?_ type
    · simp [typeIds]
    · simp [typeIds]
  rw [← roomy, followPointers, pointerTarget?_eq_some_iff.mpr unwraps]
  rfl

theorem of_followPointers_eq_some {bound : Nat} (found : u.followPointers bound type = some target) :
    ReflTransGen u.Unwraps type target ∧ u.Bare target := by
  induction bound generalizing type with
  | zero => cases found
  | succ bound ih =>
    rw [followPointers] at found
    split at found
    · next bare =>
      cases found
      exact ⟨.refl, pointerTarget?_eq_none_iff.mp bare⟩
    · next next unwraps =>
      obtain ⟨leads, bare⟩ := ih found
      exact ⟨.head (pointerTarget?_eq_some_iff.mp unwraps) leads, bare⟩

/-- What is left of a type is the bare type that its pointers lead to. -/
theorem stripPointers?_eq_some_iff :
    u.stripPointers? type = some target ↔ ReflTransGen u.Unwraps type target ∧ u.Bare target := by
  constructor
  · exact of_followPointers_eq_some
  · rintro ⟨leads, bare⟩
    induction leads using ReflTransGen.head_induction_on with
    | refl => exact bare.stripPointers?
    | head unwraps _ ih => rw [unwraps.stripPointers?, ih]

theorem stripPointers?_eq_none_iff_enters : u.stripPointers? type = none ↔ u.EntersPointerRing type := by
  have steps : LeadsTo u.pointerStep = u.Unwraps :=
    funext fun _ => funext fun _ => propext leadsTo_pointerStep_iff
  rw [stripPointers?_eq_none_iff, steps, EntersPointerRing]

end Ast.TranslationUnit

namespace Meaning

variable {u : TranslationUnit} {m : Model} {id : NodeId}

def reflectedType? (u : TranslationUnit) (m : Model) (id : NodeId) : Option TypeId :=
  ((m.node id).occurrence.bind u.cursor?).bind (·.type)

theorem startingType?_eq_none_iff {occurrence : CursorId} :
    startingType? u m id occurrence = none ↔
      m.kind id = .param ∧ ∃ type, (u.cursor? occurrence).bind (·.type) = some type ∧
        u.stripPointers? type = none := by
  unfold startingType?
  cases m.kind id with
  | param => cases known : (u.cursor? occurrence).bind (·.type) <;> simp [known]
  | _ => simp

/-- Only a parameter whose type leads into a ring of pointers has a type without a meaning. -/
theorem ofNode?_eq_none_iff :
    ofNode? u m id = none ↔
      m.kind id = .param ∧ ∃ type ∈ reflectedType? u m id, u.EntersPointerRing type := by
  simp only [Option.mem_def, ← TranslationUnit.stripPointers?_eq_none_iff_enters]
  unfold ofNode? reflectedType?
  by_cases isParam : m.kind id = .param
  · cases (m.node id).occurrence with
    | none => simp [isParam, NodeKind.holdsType]
    | some occurrence =>
      simp [isParam, NodeKind.holdsType, NodeKind.isReference, ofOccurrence?,
        startingType?_eq_none_iff]
  · cases (m.node id).occurrence with
    | none => simp [isParam]
    | some occurrence =>
      have started : startingType? u m id occurrence ≠ none := fun endless =>
        isParam (startingType?_eq_none_iff.mp endless).1
      by_cases holds : (m.kind id).holdsType <;> by_cases refers : (m.kind id).isReference <;>
        simp [isParam, holds, refers, ofOccurrence?, started]

end Meaning

theorem Answers.ends_iff {α β : Type} {u : TranslationUnit} {m : Model} {busy : List NodeId}
    {d : Draft} {question : Query α} {expected : Option β} {fits : Model → α → β → Prop}
    (answers : Answers u m busy d question expected fits) :
    (∃ answer e, question d = .ok (answer, e)) ↔ expected ≠ none := by
  cases expected with
  | none =>
    obtain ⟨endless, failed⟩ := answers
    simp [failed]
  | some answer =>
    obtain ⟨given, e, ran, _⟩ := answers
    simp [ran]

/-- A type is left when its pointers are taken off if and only if they do not lead into a ring, and it
is the bare type at their end. The question for the type of a node ends unless the node is a parameter
whose type does lead into a ring of pointers. -/
theorem stripPointers_ends_iff (u : TranslationUnit) :
    (∀ type target, u.stripPointers? type = some target ↔
      ReflTransGen u.Unwraps type target ∧ u.Bare target) ∧
    (∀ type, (∃ target, ReflTransGen u.Unwraps type target ∧ u.Bare target) ↔
      ¬ u.EntersPointerRing type) ∧
    ∀ d, Reached u d → ∀ id, (∃ target e, Query.resolveType u id d = .ok (target, e)) ↔
      ¬ (d.model.kind id = .param ∧
        ∃ type ∈ Meaning.reflectedType? u d.model id, u.EntersPointerRing type) := by
  refine ⟨fun _ _ => TranslationUnit.stripPointers?_eq_some_iff, fun type => ?_, ?_⟩
  · simp only [← TranslationUnit.stripPointers?_eq_some_iff,
      ← TranslationUnit.stripPointers?_eq_none_iff_enters]
    exact Option.ne_none_iff_exists'.symm
  · intro d reached id
    rw [(answers_resolveType reached.coherent.1 id).ends_iff, ← Meaning.ofNode?_eq_none_iff]

/-- `void pull(Rope *rope, int **hook)`, where `Rope` stands for a pointer to `Rope *`. A reference to
itself and a pointer to an invalid type lie beside. -/
def snare : TranslationUnit where
  path := "snare.h"
  root := ⟨0⟩
  cursors := #[
    { kind := .translationUnit, children := [⟨1⟩] },
    { kind := .functionDecl, spelling := "pull", usr := some "c:pull", semanticParent := some ⟨0⟩,
      children := [⟨2⟩, ⟨3⟩] },
    { kind := .parmDecl, spelling := "rope", semanticParent := some ⟨1⟩, type := some ⟨0⟩ },
    { kind := .parmDecl, spelling := "hook", semanticParent := some ⟨1⟩, type := some ⟨2⟩ }]
  types := #[
    { kind := .pointer, spelling := "Rope *", pointee := some ⟨1⟩ },
    { kind := .pointer, spelling := "Rope", pointee := some ⟨0⟩ },
    { kind := .pointer, spelling := "int **", pointee := some ⟨3⟩ },
    { kind := .pointer, spelling := "int *", pointee := some ⟨4⟩ },
    { kind := .builtin, spelling := "int" },
    { kind := .lvalueReference, spelling := "Self &", pointee := some ⟨5⟩ },
    { kind := .pointer, spelling := "Lost *", pointee := some ⟨7⟩ },
    { kind := .invalid }]

def snareDraft : Draft := (Session.start snare).build.draft

/-- Both parameters are told apart by what their pointers lead to, and neither the reference nor the
pointer to the invalid type is followed. -/
theorem stripPointers_ends_snare :
    Reached snare snareDraft ∧
      ReflTransGen snare.Unwraps ⟨2⟩ ⟨4⟩ ∧ snare.Bare ⟨5⟩ ∧ snare.Bare ⟨6⟩ ∧
      (∃ target e, Query.resolveType snare ⟨3⟩ snareDraft = .ok (target, e)) ∧
      snare.EntersPointerRing ⟨0⟩ ∧
      ¬ ∃ target e, Query.resolveType snare ⟨2⟩ snareDraft = .ok (target, e) := by
  have reached : Reached snare snareDraft := .built .standard
  obtain ⟨strips, ends, asked⟩ := stripPointers_ends_iff snare
  have hook := (strips ⟨2⟩ ⟨4⟩).mp (by decide +kernel)
  have ring : snare.EntersPointerRing ⟨0⟩ := by
    by_contra free
    obtain ⟨target, left⟩ := (ends ⟨0⟩).mpr free
    have endless : snare.stripPointers? ⟨0⟩ = none := by decide +kernel
    rw [(strips ⟨0⟩ target).mpr left] at endless
    cases endless
  refine ⟨reached, hook.1, ((strips ⟨5⟩ ⟨5⟩).mp (by decide +kernel)).2,
    ((strips ⟨6⟩ ⟨6⟩).mp (by decide +kernel)).2, ?_, ring, ?_⟩
  · rw [asked snareDraft reached]
    rintro ⟨_, type, reflected, enters⟩
    have known : Meaning.reflectedType? snare snareDraft.model ⟨3⟩ = some ⟨2⟩ := by decide +kernel
    cases known.symm.trans reflected
    exact (ends ⟨2⟩).mp ⟨⟨4⟩, hook⟩ enters
  · rw [asked snareDraft reached, not_not]
    exact ⟨by decide +kernel, ⟨0⟩, by decide +kernel, ring⟩

/-- A unit without faults has a type from which pointers lead to no bare type, and a parameter of that
type for which there is no answer. -/
theorem snare_never_bare :
    snare.firstFault? = none ∧
      (∀ target, ReflTransGen snare.Unwraps ⟨0⟩ target → ¬ snare.Bare target) ∧
      snareDraft.model.name ⟨2⟩ = "rope" ∧
      ¬ ∃ target e, Query.resolveType snare ⟨2⟩ snareDraft = .ok (target, e) := by
  refine ⟨by decide +kernel, fun target leads bare => ?_, by decide +kernel, ?_⟩
  · have endless : snare.stripPointers? ⟨0⟩ = none := by decide +kernel
    rw [Ast.TranslationUnit.stripPointers?_eq_some_iff.mpr ⟨leads, bare⟩] at endless
    cases endless
  · have failed : (Query.resolveType snare ⟨2⟩ snareDraft).isOk = false := by decide +kernel
    rintro ⟨target, e, ran⟩
    rw [ran] at failed
    cases failed

end Bindery
