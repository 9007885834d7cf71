import Bindery.Ast.WellFormed
import Bindery.Binding.Root
import Bindery.Proofs.Binding.Plan

/-! Access in a plan. What is private or protected has no entry, but a closure takes it in like
everything else that is needed, with what is nested in it. Access is a matter of each entity by
itself: those around it have no say. -/

set_option autoImplicit false

namespace Bindery.Binding

open Ast (TranslationUnit)
open Project (EmitConfig)
open Relation (TransGen)

/-! ## Roots -/

theorem isBindable_of_resolveRoot {m : Model} {name : String} {roots : List NodeId}
    (found : resolveRoot m name = .ok roots) : ∀ id ∈ roots, (m.kind id).isBindable := by
  unfold resolveRoot at found
  split at found
  · cases found
  · split at found
    · cases found
    · cases found
      exact fun id member => (List.mem_filter.mp member).2

/-- Roots that are found by name can be bound. -/
theorem isBindable_of_resolveRoots (m : Model) (names : List String) :
    ∀ id ∈ (resolveRoots m names).1, (m.kind id).isBindable := by
  unfold resolveRoots
  refine List.foldlRecOn names _ (fun id member => absurd member (OrderedSet.not_mem_empty id))
    (motive := fun found : OrderedSet NodeId × List BindError =>
      ∀ id ∈ found.1, (m.kind id).isBindable) ?_
  rintro ⟨roots, errors⟩ bindable name _ id member
  dsimp only at member
  split at member
  · next found resolved =>
    rcases OrderedSet.mem_insertAll.mp member with earlier | here
    · exact bindable id earlier
    · exact isBindable_of_resolveRoot resolved id here
  · exact bindable id member

/-! ## Entities around others -/

variable {u : TranslationUnit} {p : Policy} {emit : EmitConfig} {d e : Draft} {c : Closure}

/-- Records and enums, which know the record they stand in. -/
def IsType (m : Model) (id : NodeId) : Prop := (m.kind id).isRecord ∨ m.kind id = .enumeration

/-- The owner of an entity is a record that can be bound, and nothing keeps it out. -/
def OwnedBy (u : TranslationUnit) (p : Policy) (d : Draft) (id outer : NodeId) : Prop :=
  Query.recordOwner? d.model id = some outer ∧ (d.model.kind outer).isBindable ∧
    ∀ veto, ¬ Blocked u p d outer veto

theorem OwnedBy.isRecord {id outer : NodeId} (owned : OwnedBy u p d id outer) :
    (d.model.kind outer).isRecord :=
  (Option.filter_eq_some_iff.mp owned.1).2

theorem needs_owner (reached : Reached u d) {id outer : NodeId} (isType : IsType d.model id)
    (ends : Meaning.needs? u d.model id ≠ none)
    (owned : Query.recordOwner? d.model id = some outer) : Needs u d id outer := by
  obtain ⟨needed, means⟩ := Option.ne_none_iff_exists'.mp ends
  refine (needs_iff reached id outer).mpr ⟨needed, means, ?_⟩
  rcases isType with isRecord | isEnum
  · cases kind : d.model.kind id with
    | record _ =>
      simp only [Meaning.needs?, Meaning.plain?, kind, reduceCtorEq, if_false,
        Option.bind_eq_bind, Option.bind_eq_some_iff, Option.some.injEq, owned, pure] at means
      obtain ⟨_, _, rfl⟩ := means
      exact OrderedSet.mem_insertAll.mpr (.inl (OrderedSet.mem_ofList.mpr List.mem_cons_self))
    | _ => simp [kind, NodeKind.isRecord] at isRecord
  · simp only [Meaning.needs?, Meaning.plain?, isEnum, reduceCtorEq, if_false, owned,
      Option.some.injEq] at means
    rw [← means]
    exact OrderedSet.mem_ofList.mpr List.mem_cons_self

-- An order asks what every settled entity needs.
theorem needs?_of_order (coherent : Coherent u d.model [] e.model)
    {outcome : Except BindError (List NodeId)} {e' : Draft}
    (orders : order u c e = .ok (outcome, e')) :
    ∀ id ∈ c.settled, Meaning.needs? u d.model id ≠ none := by
  obtain ⟨g, _, draws, _⟩ := Query.exists_of_bind_eq_ok orders
  have each : Meets u d.model e (dependencyGraph u c)
      (List.Forall₂ (fun id _ => Meaning.needs? u d.model id ≠ none) c.settled.toList) := by
    refine Meets.mapM _ coherent fun id _ e' coherent' _ => ?_
    refine (meets_dependencies coherent' id).bind fun needed e'' coherent'' _ means => ?_
    exact .pure coherent'' (by simp [means])
  intro id settled
  obtain ⟨_, _, ended⟩ := exists_left_of_mem (each.of_ok draws).2.2.flip settled
  exact ended

namespace Passes

variable {roots : List NodeId} {sorted : List NodeId} {plan : Plan}

/-- What stands around a settled type is settled as well, and comes first. -/
theorem edge_of_ownedBy (passes : Passes u p d roots c sorted plan) (reached : Reached u d)
    (ends : ∀ id ∈ c.settled, Meaning.needs? u d.model id ≠ none) {id outer : NodeId}
    (settled : id ∈ c.settled) (isType : IsType d.model id) (owned : OwnedBy u p d id outer) :
    outer ∈ c.settled ∧ (outer = id ∨ Edge u d c id outer) := by
  have needs := needs_owner reached isType (ends id settled) owned.1
  have inside : outer ∈ c.settled :=
    passes.closure.least.1.next id settled outer ⟨owned.2.1, .inl needs⟩ owned.2.2
  by_cases same : outer = id
  · exact ⟨inside, .inl same⟩
  · exact ⟨inside, .inr ⟨settled, needs, inside, same⟩⟩

theorem settled_of_around (passes : Passes u p d roots c sorted plan) (reached : Reached u d)
    (ends : ∀ id ∈ c.settled, Meaning.needs? u d.model id ≠ none) {id outer : NodeId}
    (settled : id ∈ c.settled) (isType : IsType d.model id)
    (around : TransGen (OwnedBy u p d) id outer) :
    outer ∈ c.settled ∧ (outer = id ∨ sorted.idxOf outer < sorted.idxOf id) := by
  induction around with
  | single owned =>
    obtain ⟨inside, same | edge⟩ := passes.edge_of_ownedBy reached ends settled isType owned
    · exact ⟨inside, .inl same⟩
    · exact ⟨inside, .inr (passes.ordered _ _ edge)⟩
  | @tail between outer earlier owned ih =>
    -- Whatever owns anything here is a record.
    have isType' : IsType d.model between := by
      obtain ⟨_, _, last⟩ := TransGen.tail'_iff.mp earlier
      exact .inl last.isRecord
    obtain ⟨between_settled, before⟩ := ih
    obtain ⟨inside, rfl | edge⟩ :=
      passes.edge_of_ownedBy reached ends between_settled isType' owned
    · exact ⟨inside, before⟩
    · have first := passes.ordered _ _ edge
      rcases before with rfl | before
      · exact ⟨inside, .inr first⟩
      · exact ⟨inside, .inr (Nat.lt_trans first before)⟩

end Passes

/-- Every entry of a plan is accessible itself. The records around a type with an entry, as far as
they can be bound and nothing keeps them out, are settled with it, and have entries of their own, each
before it, if and only if they are accessible. What is nested in a settled record has an entry if it is
accessible itself and nothing keeps it out, whatever the access of the record. -/
theorem plan_access (reached : Reached u d) (p : Policy) (emit : EmitConfig) (names : List String)
    (plan : Plan) (e : Draft)
    (planned :
      Plan.ofRoots u p emit (resolveRoots d.model names).1.toList d = .ok (.ok plan, e)) :
    (∀ id ∈ plan.nodes, (d.model.node id).isPublic) ∧
      ∃ c e', closure u p (resolveRoots d.model names).1.toList d = .ok (c, e') ∧
        (∀ id ∈ plan.nodes, IsType d.model id → ∀ outer, TransGen (OwnedBy u p d) id outer →
          outer ∈ c.settled ∧ (outer ∈ plan.nodes ↔ (d.model.node outer).isPublic) ∧
            (outer ∈ plan.nodes → outer ≠ id →
              plan.nodes.idxOf outer < plan.nodes.idxOf id)) ∧
        ∀ record ∈ c.settled, (d.model.kind record).isRecord → ∀ nested,
          NestedType p d record nested → (d.model.kind nested).isBindable →
            (∀ veto, ¬ Blocked u p d nested veto) → nested ∈ plan.nodes := by
  obtain ⟨c, e₁, sorted, e₂, closes, orders, passes⟩ :=
    exists_passes reached (isBindable_of_resolveRoots d.model names) planned
  have coherent : Coherent u d.model [] e₁.model :=
    (Keeps.resolving.closure p _ d reached.coherent.1 c e₁ closes).1
  have ends := needs?_of_order coherent orders
  refine ⟨fun id member => (passes.mem_nodes_iff.mp member).2, c, e₁, closes, ?_, ?_⟩
  · intro id member isType outer around
    obtain ⟨settled, isPublic⟩ := passes.mem_nodes_iff.mp member
    obtain ⟨inside, before⟩ := passes.settled_of_around reached ends settled isType around
    refine ⟨inside, ?_, fun shown apart => ?_⟩
    · simp [passes.mem_nodes_iff, inside]
    · rw [passes.nodes]
      exact idxOf_filter_lt isPublic (passes.mem_nodes_iff.mp shown).2
        (before.resolve_left apart)
  · intro record settled isRecord nested inner bindable free
    have edge : Successor u p d record nested := ⟨bindable, .inr ⟨isRecord, .inl inner⟩⟩
    have shown : (d.model.node nested).isPublic :=
      (Bool.and_eq_true_iff.mp inner.2).1
    exact passes.mem_nodes_iff.mpr
      ⟨passes.closure.least.1.next record settled nested edge free, shown⟩

/-- `class Outer { struct Hidden { struct Inner {}; }; public: Hidden get(); };` -/
def shelter : TranslationUnit where
  path := "shelter.h"
  root := ⟨0⟩
  cursors := #[
    { kind := .translationUnit, children := [⟨1⟩] },
    { kind := .classDecl, spelling := "Outer", usr := some "c:Outer", semanticParent := some ⟨0⟩,
      children := [⟨2⟩, ⟨4⟩] },
    { kind := .structDecl, spelling := "Hidden", usr := some "c:Hidden", semanticParent := some ⟨1⟩,
      access := .privateMember, children := [⟨3⟩] },
    { kind := .structDecl, spelling := "Inner", usr := some "c:Inner", semanticParent := some ⟨2⟩,
      access := .publicMember },
    { kind := .cxxMethod, spelling := "get", displayName := some "get()", usr := some "c:get",
      semanticParent := some ⟨1⟩, access := .publicMember, resultType := some ⟨0⟩ }]
  types := #[{ kind := .record, spelling := "Hidden", declaration := some ⟨2⟩ }]

def shelterDraft : Draft := (Session.start shelter).build.draft

theorem exists_plan_shelter :
    ∃ plan e, Plan.ofRoots shelter {} {} (resolveRoots shelterDraft.model ["Outer"]).1.toList
        shelterDraft = .ok (.ok plan, e) ∧ plan.nodes = [⟨1⟩, ⟨3⟩] := by
  have computed : (Plan.ofRoots shelter {} {} (resolveRoots shelterDraft.model ["Outer"]).1.toList
      shelterDraft).toOption.bind (fun ended => ended.1.toOption.map Plan.nodes) =
        some [⟨1⟩, ⟨3⟩] := by decide +kernel
  match planned : Plan.ofRoots shelter {} {} (resolveRoots shelterDraft.model ["Outer"]).1.toList
      shelterDraft with
  | .ok (.ok plan, e) =>
    rw [planned] at computed
    exact ⟨plan, e, rfl, Option.some.inj computed⟩
  | .ok (.error _, _) | .error _ =>
    rw [planned] at computed
    cases computed

/-- The private record is settled for the sake of a method. It has no entry, and what is public in it
has one. -/
theorem plan_access_shelter :
    ∃ plan e, Plan.ofRoots shelter {} {} (resolveRoots shelterDraft.model ["Outer"]).1.toList
        shelterDraft = .ok (.ok plan, e) ∧
      ∃ c e', closure shelter {} (resolveRoots shelterDraft.model ["Outer"]).1.toList shelterDraft =
          .ok (c, e') ∧
        ⟨2⟩ ∈ c.settled ∧ ⟨2⟩ ∉ plan.nodes ∧ ⟨3⟩ ∈ plan.nodes := by
  obtain ⟨plan, e, planned, nodes⟩ := exists_plan_shelter
  obtain ⟨_, c, e', closes, around, _⟩ :=
    plan_access (.built .standard) {} {} ["Outer"] plan e planned
  have owned : OwnedBy shelter {} shelterDraft ⟨3⟩ ⟨2⟩ := by
    refine ⟨by decide +kernel, by decide +kernel, fun veto blocked => ?_⟩
    cases veto with
    | caster =>
      have cast : Policy.isCaster {} shelterDraft.model ⟨2⟩ := blocked
      exact absurd cast (by decide +kernel)
    | excluded => exact absurd blocked.2 (by decide +kernel)
    | unresolvedBase => exact absurd blocked.2.1 (by decide +kernel)
  have inner : (⟨3⟩ : NodeId) ∈ plan.nodes := by simp [nodes]
  obtain ⟨settled, shown, _⟩ :=
    around ⟨3⟩ inner (.inl (by decide +kernel)) ⟨2⟩ (.single owned)
  exact ⟨plan, e, planned, c, e', closes, settled,
    fun entry => absurd (shown.mp entry) (by decide +kernel), inner⟩

/-- A unit without faults has a plan with an entry for what stands in a private record. -/
theorem private_owner_shelter :
    shelter.firstFault? = none ∧
      ∃ plan e, Plan.ofRoots shelter {} {} (resolveRoots shelterDraft.model ["Outer"]).1.toList
          shelterDraft = .ok (.ok plan, e) ∧
        ∃ entry ∈ plan.entries, ∃ owner,
          Query.recordOwner? shelterDraft.model entry.node = some owner ∧
            ¬ (shelterDraft.model.node owner).isPublic := by
  obtain ⟨plan, e, planned, nodes⟩ := exists_plan_shelter
  have inner : (⟨3⟩ : NodeId) ∈ plan.nodes := by simp [nodes]
  obtain ⟨entry, present, node⟩ := List.mem_map.mp inner
  refine ⟨by decide +kernel, plan, e, planned, entry, present, ⟨2⟩, ?_, by decide +kernel⟩
  rw [node]
  decide +kernel

end Bindery.Binding
