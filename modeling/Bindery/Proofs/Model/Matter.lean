import Bindery.Proofs.Model.Asking
import Bindery.Proofs.Model.Composition
import Mathlib.Data.Finset.Lattice.Lemmas

/-! What questions settle: the types of nodes and the bases of records. A matter is settled when its
answer is kept, and markers, which are made settled, do not count. -/

set_option autoImplicit false

namespace Bindery

open Ast (CursorId TranslationUnit TypeId)

inductive Matter where
  | type (id : NodeId)
  | bases (record : NodeId)
  deriving DecidableEq

def Resolution.isDone : Resolution → Bool
  | .pending | .inProgress => false
  | .done _ => true

namespace Model

/-- The answer to a matter is kept. A type in the course of resolution is not settled. -/
def settles (n : Model) : Matter → Bool
  | .type id => (n.node id).resolution.isDone
  | .bases record => (n.node record).bases.isSome

variable (m : Model)

/-- All that there is to settle of a model. -/
def matters : Finset Matter := (m.ids.flatMap fun id => [.type id, .bases id]).toFinset

/-- What of it a later model has settled. -/
def settled (n : Model) : Finset Matter := m.matters.filter fun matter => n.settles matter

variable {m} {n : Model}

@[simp] theorem type_mem_matters {id : NodeId} : .type id ∈ m.matters ↔ id.index < m.size := by
  simp [matters, mem_ids]

@[simp] theorem bases_mem_matters {id : NodeId} : .bases id ∈ m.matters ↔ id.index < m.size := by
  simp [matters, mem_ids]

theorem mem_settled {matter : Matter} :
    matter ∈ m.settled n ↔ matter ∈ m.matters ∧ n.settles matter := by
  simp [settled]

/-! ## What is written to a model -/

theorem settled_note (large : m.size ≤ n.size) (id : NodeId) (target : Option NodeId) :
    m.settled (n.update id fun node => { node with resolution := .done target }) =
      m.settled n ∪ m.matters ∩ {.type id} := by
  ext matter
  simp only [Finset.mem_union, Finset.mem_inter, Finset.mem_singleton, mem_settled,
    ← and_or_left, and_congr_right_iff]
  cases matter with
  | bases record =>
    intro _
    simp only [settles, node_update, reduceCtorEq, or_false]
    split <;> rfl
  | type other =>
    intro inside
    have here : other.index < n.size := Nat.lt_of_lt_of_le (type_mem_matters.mp inside) large
    by_cases same : other = id
    · simp [settles, node_update, same, same ▸ here, Resolution.isDone]
    · simp [settles, node_update, same]

theorem settled_begin {id : NodeId} (pending : (n.node id).resolution = .pending) :
    m.settled (n.update id fun node => { node with resolution := .inProgress }) = m.settled n := by
  ext matter
  simp only [mem_settled, and_congr_right_iff]
  intro _
  cases matter with
  | bases record =>
    simp only [settles, node_update]
    split <;> rfl
  | type other =>
    simp only [settles, node_update]
    split
    · next both => rw [both.1, pending]; rfl
    · rfl

theorem settled_noteBases (large : m.size ≤ n.size) (id : NodeId) (found : BaseList) :
    m.settled (n.update id fun node => { node with bases := some found }) =
      m.settled n ∪ m.matters ∩ {.bases id} := by
  ext matter
  simp only [Finset.mem_union, Finset.mem_inter, Finset.mem_singleton, mem_settled,
    ← and_or_left, and_congr_right_iff]
  cases matter with
  | type other =>
    intro _
    simp only [settles, node_update, reduceCtorEq, or_false]
    split <;> rfl
  | bases other =>
    intro inside
    have here : other.index < n.size := Nat.lt_of_lt_of_le (bases_mem_matters.mp inside) large
    by_cases same : other = id
    · simp [settles, node_update, same, same ▸ here]
    · simp [settles, node_update, same]

end Model

/-! ## What questions gain -/

/-- From one draft to another, some matters have been settled and some conditions recorded. -/
structure Draft.Gains (m : Model) (d e : Draft) (new : Finset Matter) (late : List Diagnostic) :
    Prop where
  settled : m.settled e.model = m.settled d.model ∪ new
  diagnostics : e.diagnostics = d.diagnostics ++ late

/-- The nodes of a model, with the answers kept with them, are the same in both drafts, and so are the
conditions. -/
structure Draft.Untouched (m : Model) (d e : Draft) : Prop where
  large : m.size ≤ e.model.size
  node : ∀ id, id.index < m.size → e.model.node id = d.model.node id
  diagnostics : e.diagnostics = d.diagnostics

namespace Draft

variable {m : Model} {d e k : Draft} {new further : Finset Matter} {late later : List Diagnostic}

theorem Gains.trans (first : d.Gains m e new late) (second : e.Gains m k further later) :
    d.Gains m k (new ∪ further) (late ++ later) where
  settled := by rw [second.settled, first.settled, Finset.union_assoc]
  diagnostics := by rw [second.diagnostics, first.diagnostics, List.append_assoc]

/-- What was settled before is gained by doing nothing. -/
theorem Gains.of_subset (known : new ⊆ m.settled d.model) : d.Gains m d new [] where
  settled := (Finset.union_eq_left.mpr known).symm
  diagnostics := (List.append_nil _).symm

theorem Gains.refl (m : Model) (d : Draft) : d.Gains m d ∅ [] := .of_subset (Finset.empty_subset _)

theorem Gains.report (m : Model) (d : Draft) (found : Diagnostic) :
    d.Gains m (d.report found) ∅ [found] := ⟨(Finset.union_empty _).symm, rfl⟩

theorem Gains.begin {id : NodeId} (pending : (d.model.node id).resolution = .pending)
    (ran : Query.noteResolution id .inProgress d = .ok ((), e)) : d.Gains m e ∅ [] := by
  cases ran
  exact ⟨(Model.settled_begin pending).trans (Finset.union_empty _).symm,
    (List.append_nil _).symm⟩

theorem Gains.note (large : m.size ≤ d.model.size) {id : NodeId} {target : Option NodeId}
    (ran : Query.noteResolution id (.done target) d = .ok ((), e)) :
    d.Gains m e (m.matters ∩ {.type id}) [] := by
  cases ran
  exact ⟨Model.settled_note large id target, (List.append_nil _).symm⟩

theorem Gains.noteBases (large : m.size ≤ d.model.size) (id : NodeId) (found : BaseList) :
    d.Gains m { d with model := d.model.update id fun node => { node with bases := some found } }
      (m.matters ∩ {.bases id}) [] :=
  ⟨Model.settled_noteBases large id found, (List.append_nil _).symm⟩

theorem Untouched.trans (first : d.Untouched m e) (second : e.Untouched m k) : d.Untouched m k where
  large := second.large
  node id inside := (second.node id inside).trans (first.node id inside)
  diagnostics := second.diagnostics.trans first.diagnostics

theorem Untouched.gains (same : d.Untouched m e) : d.Gains m e ∅ [] where
  settled := by
    ext matter
    simp only [Finset.union_empty, Model.mem_settled, and_congr_right_iff]
    intro inside
    cases matter with
    | type id => simp only [Model.settles, same.node id (Model.type_mem_matters.mp inside)]
    | bases id => simp only [Model.settles, same.node id (Model.bases_mem_matters.mp inside)]
  diagnostics := by rw [same.diagnostics, List.append_nil]

end Draft

/-- A question that leaves the nodes of a model and the conditions alone. -/
def Query.Quiet (m : Model) {α : Type} (question : Query α) : Prop :=
  ∀ d : Draft, m.size ≤ d.model.size → ∀ answer e, question d = .ok (answer, e) → d.Untouched m e

theorem Query.quiet_marker (m : Model) (spelling : String) : Quiet m (marker spelling) := by
  intro d large answer e ran
  unfold marker at ran
  split at ran
  · cases ran
    exact ⟨large, fun _ _ => rfl, rfl⟩
  · cases ran
    refine ⟨?_, fun id inside => ?_, rfl⟩
    · change m.size ≤ (d.model.add (.builtin spelling)).1.size
      rw [Model.size_add]
      omega
    · exact Model.Extends.node_add_of_lt _ (Nat.lt_of_lt_of_le inside large)

-- Nothing is remembered or reported while a type is only looked at.
theorem Query.reads_quiet (m : Model) : Reads fun _ question => Quiet m question :=
  .of_leads (fun _ large => ⟨large, fun _ _ => rfl, rfl⟩) (fun _ _ => Draft.Untouched.large)
    (fun _ _ _ => Draft.Untouched.trans) (quiet_marker m)

end Bindery
