import Bindery.Ast.WellFormed
import Bindery.Proofs.Binding.Plan
import Bindery.Proofs.Model.Ending

/-! Which questions end. What a field needs takes in what the field that declares its type needs, and
so on: the question for it goes on for ever if this leads into a ring of two or more fields, and ends
otherwise. Where there is no such ring, closures, orders and plans end as well. -/

set_option autoImplicit false

namespace Bindery.Binding

open Ast (TranslationUnit)
open Project (EmitConfig)
open Relation (ReflTransGen TransGen)

/-- The type of a field is declared by another field. -/
def DeclaredBy (u : TranslationUnit) (d : Draft) (field other : NodeId) : Prop :=
  d.model.kind field = .field ∧ d.model.kind other = .field ∧ other ≠ field ∧
    ∃ found e, Query.typeDependencies u field d = .ok (found, e) ∧ other ∈ found

variable {u : TranslationUnit} {p : Policy} {emit : EmitConfig} {d e : Draft}

theorem declaredBy_iff (reached : Reached u d) {field other : NodeId} :
    DeclaredBy u d field other ↔
      d.model.kind field = .field ∧ LeadsTo (Meaning.fieldStep u d.model) field other := by
  have asked (found : OrderedSet NodeId) :=
    answered_iff (answers_typeDependencies reached.coherent.1 field) found
  have typed : (∃ found e, Query.typeDependencies u field d = .ok (found, e) ∧ other ∈ found) ↔
      Meaning.typeDependency? u d.model field = some (some other) := by
    constructor
    · rintro ⟨found, e, ran, member⟩
      obtain ⟨target, means, rfl⟩ := Option.map_eq_some_iff.mp ((asked found).mp ⟨e, ran⟩)
      rw [means, Option.some.injEq]
      exact Option.mem_toList.mp (OrderedSet.mem_ofList.mp member)
    · intro means
      obtain ⟨e, ran⟩ := (asked (.ofList [other])).mpr (by simp [Meaning.typeDependencies?, means])
      exact ⟨_, e, ran, OrderedSet.mem_ofList.mpr List.mem_cons_self⟩
  rw [Meaning.leadsTo_fieldStep_iff, DeclaredBy, typed]
  tauto

-- Whatever a field leads to is a field.
theorem reflTransGen_declaredBy_iff (reached : Reached u d) {field other : NodeId}
    (isField : d.model.kind field = .field) :
    ReflTransGen (DeclaredBy u d) field other ↔
      ReflTransGen (LeadsTo (Meaning.fieldStep u d.model)) field other := by
  constructor
  · exact ReflTransGen.mono (fun _ _ declared => ((declaredBy_iff reached).mp declared).2) _ _
  · intro leads
    induction leads using ReflTransGen.head_induction_on with
    | refl => exact .refl
    | head on _ ih =>
      exact .head ((declaredBy_iff reached).mpr ⟨isField, on⟩)
        (ih (Meaning.leadsTo_fieldStep_iff.mp on).2.2)

theorem transGen_declaredBy_iff (reached : Reached u d) {field other : NodeId} :
    TransGen (DeclaredBy u d) field other ↔
      d.model.kind field = .field ∧
        TransGen (LeadsTo (Meaning.fieldStep u d.model)) field other := by
  constructor
  · intro declared
    obtain ⟨next, first, rest⟩ := TransGen.head'_iff.mp declared
    have isField : d.model.kind next = .field := first.2.1
    exact ⟨first.1, .head' ((declaredBy_iff reached).mp first).2
      ((reflTransGen_declaredBy_iff reached isField).mp rest)⟩
  · rintro ⟨isField, leads⟩
    obtain ⟨next, on, rest⟩ := TransGen.head'_iff.mp leads
    have further := (Meaning.leadsTo_fieldStep_iff.mp on).2.2
    exact .head' ((declaredBy_iff reached).mpr ⟨isField, on⟩)
      ((reflTransGen_declaredBy_iff reached further).mpr rest)

/-- A node leads into a ring of fields, each declaring the type of the one before it. -/
def LeadsIntoRing (u : TranslationUnit) (d : Draft) (id : NodeId) : Prop :=
  ∃ field, ReflTransGen (DeclaredBy u d) id field ∧ TransGen (DeclaredBy u d) field field

theorem leadsIntoRing_iff (reached : Reached u d) (acyclic : u.AcyclicPointees) (id : NodeId) :
    LeadsIntoRing u d id ↔ Meaning.needs? u d.model id = none := by
  rw [Meaning.needs?_eq_none_iff acyclic]
  constructor
  · rintro ⟨field, leads, around⟩
    have isField : d.model.kind id = .field := by
      rcases ReflTransGen.cases_head leads with rfl | ⟨_, first, _⟩
      · exact ((transGen_declaredBy_iff reached).mp around).1
      · exact first.1
    exact ⟨isField, field, (reflTransGen_declaredBy_iff reached isField).mp leads,
      ((transGen_declaredBy_iff reached).mp around).2⟩
  · rintro ⟨isField, field, leads, around⟩
    have declared := (reflTransGen_declaredBy_iff reached isField).mpr leads
    have still : d.model.kind field = .field := by
      rcases ReflTransGen.cases_tail declared with rfl | ⟨_, _, last⟩
      · exact isField
      · exact last.2.1
    exact ⟨field, declared, (transGen_declaredBy_iff reached).mpr ⟨still, around⟩⟩

/-! ## Plans of any order -/

section

variable {bound : List NodeId} (reached : Reached u d) (coherent : Coherent u d.model [] e.model)

include reached coherent

-- An order that comes from elsewhere may hold what cannot be planned.
theorem ends_planEntry (id : NodeId) :
    Meets u d.model e (Plan.planEntry u p emit bound id) fun _ => True := by
  have item : Meets u d.model e (Plan.planItem u p emit bound id) fun _ => True := by
    unfold Plan.planItem
    apply Meets.model
    rw [coherent.grown.kind_eq]
    split
    · next kind =>
      have isRecord : (d.model.kind id).isRecord := by rw [kind]; rfl
      refine (meets_planRecord reached coherent isRecord).bind ?_
      exact fun _ _ coherent' _ _ => .pure coherent' trivial
    · exact .pure coherent trivial
    · refine (meets_planMember reached coherent id).bind ?_
      exact fun _ _ coherent' _ _ => .pure coherent' trivial
    · exact .pure coherent trivial
  refine item.bind fun found e' coherent' _ _ => ?_
  cases found with
  | none => exact .pure coherent' trivial
  | some _ =>
    refine (meets_dependencies coherent' id).bind fun _ e'' coherent'' _ _ => ?_
    exact Meets.model (.pure coherent'' trivial)

theorem ends_ofOrder (sorted : List NodeId) :
    Meets u d.model e (Plan.ofOrder u p emit sorted) fun _ => True :=
  Meets.model <| (Meets.mapM _ coherent fun id _ _ coherent' _ =>
    ends_planEntry reached coherent' id).bind fun _ _ coherent' _ _ => .pure coherent' trivial

end

/-- Where no chain of pointees comes back to itself, the question for the dependencies of a node ends
if and only if the node does not lead into a ring of fields. Without such rings, so do the questions
for the closure of any roots, the order of any closure and the plan of any order. -/
theorem dependencies_end_iff (reached : Reached u d) (acyclic : u.AcyclicPointees) :
    (∀ id, (∃ needed e, Query.dependencies u id d = .ok (needed, e)) ↔ ¬ LeadsIntoRing u d id) ∧
      ((∀ field, ¬ TransGen (DeclaredBy u d) field field) → ∀ (p : Policy) (emit : EmitConfig),
        (∀ roots : List NodeId, (∀ id ∈ roots, id.index < d.model.size) →
          ∃ c e, closure u p roots d = .ok (c, e)) ∧
        (∀ c, ∃ outcome e, order u c d = .ok (outcome, e)) ∧
        ∀ sorted, ∃ plan e, Plan.ofOrder u p emit sorted d = .ok (plan, e)) := by
  refine ⟨fun id => ?_, fun ringless p emit => ?_⟩
  · rw [leadsIntoRing_iff reached acyclic, exists_congr (dependencies_iff reached id),
      ← Option.ne_none_iff_exists']
  · have halting : Halting u d.model := by
      intro id endless
      obtain ⟨field, _, around⟩ := (leadsIntoRing_iff reached acyclic id).mpr endless
      exact ringless field around
    have coherent := reached.coherent.1
    refine ⟨fun roots inside => ?_, fun c => ?_, fun sorted => ?_⟩
    · obtain ⟨c, e, ran, _⟩ := (meets_closure (p := p) reached inside).exists_of_halting halting
      exact ⟨c, e, ran⟩
    · obtain ⟨outcome, e, ran, _⟩ :=
        (meets_order (c := c) reached coherent).exists_of_halting halting
      exact ⟨outcome, e, ran⟩
    · have planned : Meets u d.model d (Plan.ofOrder u p emit sorted) fun _ => True :=
        ends_ofOrder reached coherent sorted
      obtain ⟨plan, e, ran, _⟩ := planned.exists_of_halting halting
      exact ⟨plan, e, ran⟩

/-- `struct Strand` beside an alias of itself. The type of one of its fields is declared by that field
and that of the other by the first. -/
def strand : TranslationUnit where
  path := "strand.h"
  root := ⟨0⟩
  cursors := #[
    { kind := .translationUnit, children := [⟨1⟩, ⟨2⟩] },
    { kind := .typedefDecl, spelling := "Loop", usr := some "c:Loop", semanticParent := some ⟨0⟩,
      type := some ⟨0⟩ },
    { kind := .structDecl, spelling := "Strand", usr := some "c:Strand", semanticParent := some ⟨0⟩,
      children := [⟨3⟩, ⟨4⟩, ⟨5⟩] },
    { kind := .fieldDecl, spelling := "self", usr := some "c:self", semanticParent := some ⟨2⟩,
      access := .publicMember, type := some ⟨1⟩ },
    { kind := .fieldDecl, spelling := "next", usr := some "c:next", semanticParent := some ⟨2⟩,
      access := .publicMember, type := some ⟨1⟩ },
    { kind := .fieldDecl, spelling := "loop", usr := some "c:loop", semanticParent := some ⟨2⟩,
      access := .publicMember, type := some ⟨2⟩ }]
  types := #[
    { kind := .typedef, spelling := "Loop", declaration := some ⟨1⟩ },
    { kind := .record, spelling := "self", declaration := some ⟨3⟩ },
    { kind := .pointer, spelling := "Loop *", pointee := some ⟨0⟩ }]

/-- Neither the alias of itself nor the fields keep a plan from being made. -/
theorem dependencies_end_strand :
    strand.firstFault? = none ∧ strand.AcyclicPointees ∧
      ∃ plan e, Plan.ofOrder strand {} {} [⟨2⟩] (Session.start strand).build.draft = .ok (plan, e) := by
  have acyclic : strand.AcyclicPointees :=
    TranslationUnit.acyclicPointees_of_lt (by decide +kernel)
  have ends : NeedsEnd strand (Session.start strand).build.draft := by decide +kernel
  obtain ⟨each, rest⟩ := dependencies_end_iff (.built .standard) acyclic
  have ringless (field : NodeId) :
      ¬ TransGen (DeclaredBy strand (Session.start strand).build.draft) field field := fun around =>
    (each field).mp (ends field) ⟨field, .refl, around⟩
  exact ⟨by decide +kernel, acyclic, (rest ringless {} {}).2.2 [⟨2⟩]⟩

/-- `struct Knot` with two fields whose types are declared by each other. -/
def knot : TranslationUnit where
  path := "knot.h"
  root := ⟨0⟩
  cursors := #[
    { kind := .translationUnit, children := [⟨1⟩] },
    { kind := .structDecl, spelling := "Knot", usr := some "c:Knot", semanticParent := some ⟨0⟩,
      children := [⟨2⟩, ⟨3⟩] },
    { kind := .fieldDecl, spelling := "left", usr := some "c:left", semanticParent := some ⟨1⟩,
      access := .publicMember, type := some ⟨0⟩ },
    { kind := .fieldDecl, spelling := "right", usr := some "c:right", semanticParent := some ⟨1⟩,
      access := .publicMember, type := some ⟨1⟩ }]
  types := #[
    { kind := .record, spelling := "right", declaration := some ⟨3⟩ },
    { kind := .record, spelling := "left", declaration := some ⟨2⟩ }]

/-- A unit without faults, and without any pointers, has a field whose dependencies have no end. -/
theorem dependencies_endless_knot :
    knot.firstFault? = none ∧ knot.AcyclicPointees ∧
      (Session.start knot).build.model.name ⟨2⟩ = "left" ∧
      ¬ ∃ needed e, Query.dependencies knot ⟨2⟩ (Session.start knot).build.draft = .ok (needed, e) := by
  refine ⟨by decide +kernel, TranslationUnit.acyclicPointees_of_lt (by decide +kernel),
    by decide +kernel, ?_⟩
  have failed : (Query.dependencies knot ⟨2⟩ (Session.start knot).build.draft).isOk = false := by
    decide +kernel
  rintro ⟨needed, e, ran⟩
  rw [ran] at failed
  cases failed

end Bindery.Binding
