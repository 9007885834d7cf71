import Bindery.Proofs.Session

/-! What a session says of single entities: what they need, what keeps them out of a closure, and
what they bring into it. All of it is told by the answers to questions, and reads the same from any
later draft of the session. -/

set_option autoImplicit false

namespace Bindery.Binding

open Ast (TranslationUnit)

variable (u : TranslationUnit) (p : Policy) (d : Draft)

/-- Asked for the dependencies of one node, the session names another among them. -/
def Needs (id other : NodeId) : Prop :=
  ∃ needed e, Query.dependencies u id d = .ok (needed, e) ∧ other ∈ needed

def NeedsEnd : Prop := ∀ id, ∃ needed e, Query.dependencies u id d = .ok (needed, e)

def LacksBase (id : NodeId) : Prop := ∃ e, Query.hasUnresolvedBases u id d = .ok (true, e)

def Blocked (id : NodeId) : Veto → Prop
  | .caster => p.isCaster d.model id
  | .excluded => ¬ p.isCaster d.model id ∧ p.excludes d.model id
  | .unresolvedBase =>
    (¬ p.isCaster d.model id ∧ ¬ p.excludes d.model id) ∧
      p.dropsUnresolvedBases ∧ (d.model.kind id).isRecord ∧ LacksBase u d id

/-- The members of a record whose needs the record brings in. -/
def PlannedMember (record member : NodeId) : Prop :=
  (member ∈ d.model.fields record ∨ member ∈ d.model.methods record ∨
    member ∈ d.model.constructors record) ∧ p.shows d.model member

def NestedType (record nested : NodeId) : Prop :=
  (nested ∈ d.model.records record ∨ nested ∈ d.model.enums record) ∧ p.shows d.model nested

/-- What an entity brings in: the bindable nodes among its needs and, for a record, its nested types
that show and what the members that show need. -/
def Successor (id other : NodeId) : Prop :=
  (d.model.kind other).isBindable ∧
    (Needs u d id other ∨ (d.model.kind id).isRecord ∧
      (NestedType p d id other ∨ ∃ member, PlannedMember p d id member ∧ Needs u d member other))

variable {u p d}

theorem Blocked.unique {id : NodeId} {veto other : Veto} (first : Blocked u p d id veto)
    (second : Blocked u p d id other) : veto = other := by
  cases veto <;> cases other <;> simp_all [Blocked]

theorem index_lt_of_isBindable {m : Model} {id : NodeId} (bindable : (m.kind id).isBindable) :
    id.index < m.size := by
  apply Model.index_lt_of_kind_ne
  intro builtin
  rw [builtin] at bindable
  cases bindable

-- A marker needs nothing.
theorem dependencies_of_builtin {id : NodeId} (builtin : d.model.kind id = .builtin) :
    Query.dependencies u id d = .ok (∅, d) := by
  unfold Query.dependencies Query.plainDependencies
  simp [Query.bind_apply, Query.model, builtin]
  rfl

-- Only nodes of the arena need anything: outside every node reads as a marker.
theorem dependencies_of_size_le {id : NodeId} (outside : d.model.size ≤ id.index) :
    Query.dependencies u id d = .ok (∅, d) := by
  apply dependencies_of_builtin
  rw [Model.kind, Model.node_of_size_le outside]
  rfl

theorem index_lt_of_needs {id other : NodeId} (needs : Needs u d id other) :
    id.index < d.model.size := by
  by_contra outside
  obtain ⟨needed, e, ran, member⟩ := needs
  rw [dependencies_of_size_le (Nat.le_of_not_lt outside)] at ran
  cases ran
  exact OrderedSet.not_mem_empty other member

theorem needsEnd_iff :
    NeedsEnd u d ↔ ∀ id ∈ d.model.ids, (Query.dependencies u id d).isOk := by
  constructor
  · intro ends id _
    obtain ⟨needed, e, ran⟩ := ends id
    rw [ran]
    rfl
  · intro ends id
    by_cases inside : id.index < d.model.size
    · have ended := ends id (Model.mem_ids.mpr inside)
      cases ran : Query.dependencies u id d with
      | ok result => exact ⟨result.1, result.2, rfl⟩
      | error endless =>
        rw [ran] at ended
        cases ended
    · exact ⟨∅, d, dependencies_of_size_le (Nat.le_of_not_lt inside)⟩

instance : Decidable (NeedsEnd u d) := decidable_of_iff _ needsEnd_iff.symm

instance (id other : NodeId) : Decidable (Needs u d id other) :=
  match ran : Query.dependencies u id d with
  | .error _ => .isFalse fun ⟨_, _, ended, _⟩ => nomatch ran.symm.trans ended
  | .ok (needed, e) => decidable_of_iff (other ∈ needed)
    ⟨fun member => ⟨needed, e, ran, member⟩, fun ⟨_, _, ended, member⟩ => by
      cases ran.symm.trans ended
      exact member⟩

/-! ## Answers and meanings -/

theorem answered_iff {α : Type} {question : Query α} {expected : Option α} {m : Model}
    (answers : Answers u m [] d question expected Exactly) (answer : α) :
    (∃ e, question d = .ok (answer, e)) ↔ expected = some answer := by
  cases expected with
  | none =>
    obtain ⟨endless, failed⟩ := answers
    simp [failed]
  | some meant =>
    obtain ⟨given, e, ran, _, _, same⟩ := answers
    cases same
    simp [ran, eq_comm]

variable (reached : Reached u d)

include reached

theorem dependencies_iff (id : NodeId) (needed : OrderedSet NodeId) :
    (∃ e, Query.dependencies u id d = .ok (needed, e)) ↔
      Meaning.needs? u d.model id = some needed :=
  answered_iff (answers_dependencies reached.coherent.1 id) needed

theorem needs_iff (id other : NodeId) :
    Needs u d id other ↔ ∃ needed, Meaning.needs? u d.model id = some needed ∧ other ∈ needed := by
  constructor
  · rintro ⟨needed, e, ran, member⟩
    exact ⟨needed, (dependencies_iff reached id needed).mp ⟨e, ran⟩, member⟩
  · rintro ⟨needed, means, member⟩
    obtain ⟨e, ran⟩ := (dependencies_iff reached id needed).mpr means
    exact ⟨needed, e, ran, member⟩

theorem NeedsEnd.halting (ends : NeedsEnd u d) : Halting u d.model := by
  intro id endless
  obtain ⟨needed, e, ran⟩ := ends id
  rw [(dependencies_iff reached id needed).mp ⟨e, ran⟩] at endless
  cases endless

theorem lacksBase_iff (id : NodeId) :
    LacksBase u d id ↔
      (Meaning.bases? u d.model id).map (fun found => decide (0 < found.unresolved)) = some true :=
  answered_iff (answers_hasUnresolvedBases reached.coherent.1 id) true

/-! ## Policies read the same later -/

variable {n : Model} (grown : d.model.Extends n) {id : NodeId}

include grown

theorem isCaster_eq (inside : id.index < d.model.size) :
    p.isCaster n id = p.isCaster d.model id := by
  rw [Policy.isCaster, Policy.isCaster, grown.fullName_eq reached.coherent.2 inside]

theorem excludes_eq (inside : id.index < d.model.size) :
    p.excludes n id = p.excludes d.model id := by
  rw [Policy.excludes, Policy.excludes, grown.fullName_eq reached.coherent.2 inside,
    grown.signatureKey_eq reached.coherent.2 inside, grown.kind_eq]

theorem shows_eq (inside : id.index < d.model.size) : p.shows n id = p.shows d.model id := by
  rw [Policy.shows, Policy.shows, grown.isPublic_eq, excludes_eq reached grown inside]

-- Members of a kind that markers do not have are in the arena.
theorem filter_shows_eq {wanted : NodeKind → Bool} (real : wanted .builtin = false) :
    (n.membersWhere id wanted).filter (p.shows n) =
      (d.model.membersWhere id wanted).filter (p.shows d.model) := by
  rw [grown.membersWhere_eq]
  apply List.filter_congr
  intro member present
  apply shows_eq reached grown
  apply Model.index_lt_of_kind_ne
  intro builtin
  have kept := (List.mem_filter.mp present).2
  rw [builtin, real] at kept
  cases kept

end Bindery.Binding
