import Bindery.Proofs.Model.Condition

/-! The chains that questions follow. Their bounds grow with the arena and are never used up, except that
a ring of aliases is gone around until they are; once its types are settled, that changes nothing. -/

set_option autoImplicit false

namespace Bindery

open Ast (TranslationUnit)

variable {u : TranslationUnit} {m : Model} {d e : Draft}

/-! ## Chains of aliases -/

theorem settled_subset_of_resolveType (links : m.Linked) (coherent : Coherent u m [] d.model)
    {id : NodeId} {answer : Option NodeId} (ran : Query.resolveType u id d = .ok (answer, e)) :
    m.settled d.model ⊆ m.settled e.model ∧
      (id.index < m.size → .type id ∈ m.settled e.model) := by
  rcases gains_resolveType links coherent ran with ⟨known, rfl⟩ | ⟨_, gained⟩
  · exact ⟨subset_rfl, fun inside => Model.mem_settled.mpr ⟨by simpa, known⟩⟩
  · rw [gained.settled]
    exact ⟨Finset.subset_union_left, fun inside => by simp [inside]⟩

/-- The type of a node on a way along a chain is settled, and leads on along the way or to its end. -/
def Treads (u : TranslationUnit) (m : Model) (d : Draft) (way : List NodeId) (last : NodeId) : Prop :=
  ∀ id ∈ way, .type id ∈ m.settled d.model ∧
    ∃ next, Meaning.chainStep u m id = .inr next ∧ (next ∈ way ∨ next = last)

theorem chainStep_eq_inr_iff {id next : NodeId} :
    Meaning.chainStep u m id = .inr next ↔ m.kind id ≠ .builtin ∧
      ((m.kind id).isReference || (m.kind id).isAlias) ∧
        Meaning.ofNode? u m id = some (some (.node next)) := by
  unfold Meaning.chainStep
  constructor
  · intro on
    split at on
    · cases on
    · next real =>
      split at on
      · next leads =>
        split at on
        · cases on
        · next means =>
          cases on
          exact ⟨real, leads, means⟩
        · cases on
      · cases on
  · rintro ⟨real, leads, means⟩
    rw [if_neg real, if_pos leads, means]

theorem Treads.step {way : List NodeId} {last next : NodeId} (treads : Treads u m d way last)
    (on : Meaning.chainStep u m last = .inr next)
    (kept : m.settled d.model ⊆ m.settled e.model) (here : .type last ∈ m.settled e.model) :
    Treads u m e (last :: way) next := by
  intro id member
  rcases List.mem_cons.mp member with rfl | earlier
  · exact ⟨here, next, on, .inr rfl⟩
  · obtain ⟨settled, next', on', inner | rfl⟩ := treads id earlier
    · exact ⟨kept settled, next', on', .inl (List.mem_cons_of_mem last inner)⟩
    · exact ⟨kept settled, next', on', .inl List.mem_cons_self⟩

theorem Treads.length_le {way : List NodeId} {last : NodeId} (treads : Treads u m d way last)
    (distinct : way.Nodup) : way.length ≤ m.size :=
  Model.length_le_size distinct fun id member =>
    Model.type_mem_matters.mp (Model.mem_settled.mp (treads id member).1).1

theorem chainEnd_succ (coherent : Coherent u m [] d.model) (bound : Nat) (id : NodeId) :
    Query.chainEnd u (bound + 1) id d =
      if m.kind id = .builtin then .ok (none, d)
      else if (m.kind id).isReference || (m.kind id).isAlias then
        match Query.resolveType u id d with
        | .error endless => .error endless
        | .ok (none, e) => .ok (none, e)
        | .ok (some next, e) => Query.chainEnd u bound next e
      else .ok (some id, d) := by
  rw [← coherent.grown.kind_eq]
  change (if d.model.kind id = .builtin then _ else _ : Query (Option NodeId)) d = _
  split
  · rfl
  · split
    · rw [Query.bind_apply]
      rcases Query.resolveType u id d with _ | ⟨_ | _, _⟩ <;> rfl
    · rfl

theorem chainEnd_of_builtin (coherent : Coherent u m [] d.model) {id : NodeId}
    (builtin : m.kind id = .builtin) (bound : Nat) :
    Query.chainEnd u bound id d = .ok (none, d) := by
  cases bound with
  | zero => rfl
  | succ bound => rw [chainEnd_succ coherent, if_pos builtin]

-- Around a ring that is settled, nothing changes however often it is gone around.
theorem chainEnd_of_treads (links : m.Linked) (coherent : Coherent u m [] d.model)
    {way : List NodeId} {last : NodeId} (treads : Treads u m d way last) (around : last ∈ way)
    (bound : Nat) {id : NodeId} (member : id ∈ way) :
    Query.chainEnd u bound id d = .ok (none, d) := by
  induction bound generalizing id with
  | zero => rfl
  | succ bound ih =>
    obtain ⟨settled, next, on, onward⟩ := treads id member
    obtain ⟨real, leads, means⟩ := chainStep_eq_inr_iff.mp on
    have here : next ∈ way := onward.elim (fun inner => inner) fun same => same ▸ around
    have answered := answers_resolveType coherent id
    rw [means] at answered
    obtain ⟨given, k, ran, _, _, right⟩ := answered
    have same : k = d := by
      rcases gains_resolveType links coherent ran with ⟨_, same⟩ | ⟨unsettled, _⟩
      · exact same
      · rw [(Model.mem_settled.mp settled).2] at unsettled
        cases unsettled
    match given, right with
    | some _, rfl =>
      rw [chainEnd_succ coherent, if_neg real, if_pos leads, ran, same]
      exact ih here

/-- Bounds that exceed the number of nodes on a chain make no difference. -/
theorem chainEnd_eq_of_treads (links : m.Linked) {bound larger : Nat} {way : List NodeId}
    {id : NodeId} (coherent : Coherent u m [] d.model) (distinct : way.Nodup)
    (treads : Treads u m d way id) (enough : m.size < bound + way.length)
    (more : m.size < larger + way.length) :
    Query.chainEnd u larger id d = Query.chainEnd u bound id d := by
  induction bound generalizing larger way id d with
  | zero =>
    have short := treads.length_le distinct
    omega
  | succ bound ih =>
    cases larger with
    | zero =>
      have short := treads.length_le distinct
      omega
    | succ larger =>
      by_cases around : id ∈ way
      · rw [chainEnd_of_treads links coherent treads around _ around,
          chainEnd_of_treads links coherent treads around _ around]
      · rw [chainEnd_succ coherent, chainEnd_succ coherent]
        split
        · rfl
        · next real =>
          split
          · next leads =>
            have answers := answers_resolveType coherent id
            cases ran : Query.resolveType u id d with
            | error endless => rfl
            | ok result =>
              obtain ⟨_ | next, e⟩ := result
              · rfl
              · obtain ⟨target, means, coherent', _, right⟩ := answers.of_ok ran
                obtain ⟨kept, here⟩ := settled_subset_of_resolveType links coherent ran
                match target, right with
                | some (.marker _), right =>
                  have builtin : m.kind next = .builtin := by
                    rw [← coherent'.grown.kind_eq]
                    exact right.2
                  dsimp only
                  rw [chainEnd_of_builtin coherent' builtin, chainEnd_of_builtin coherent' builtin]
                | some (.node _), rfl =>
                  have on := chainStep_eq_inr_iff.mpr ⟨real, leads, means⟩
                  have treads' := treads.step on kept (here (Model.index_lt_of_kind_ne real))
                  refine ih coherent' (List.nodup_cons.mpr ⟨around, distinct⟩) treads' ?_ ?_
                  · rw [List.length_cons]
                    omega
                  · rw [List.length_cons]
                    omega
          · rfl

/-- The arena may have grown since, but the chains in it are the same. -/
theorem declarationBehind_eq (links : m.Linked) (coherent : Coherent u m [] d.model) (id : NodeId) :
    Query.declarationBehind u id d = Query.chainEnd u (m.size + 1) id d := by
  have large := coherent.grown.size_le
  change Query.chainEnd u (d.model.size + 1) id d = _
  refine chainEnd_eq_of_treads links coherent List.nodup_nil ?_ ?_ ?_
  · exact List.forall_mem_nil _
  · rw [List.length_nil]
    omega
  · rw [List.length_nil]
    omega

/-! ## Chains of fields -/

-- A bound that is not used up does not matter.
theorem fieldDependencies_of_le {bound larger : Nat} (larger_le : bound ≤ larger) {id : NodeId}
    {needed : OrderedSet NodeId} (ran : Query.fieldDependencies u bound id d = .ok (needed, e)) :
    Query.fieldDependencies u larger id d = .ok (needed, e) := by
  induction bound generalizing larger id needed d e with
  | zero => cases ran
  | succ bound ih =>
    cases larger with
    | zero => omega
    | succ larger =>
      obtain ⟨found, k, looked, ran⟩ := Query.exists_of_bind_eq_ok ran
      unfold Query.fieldDependencies
      rw [Query.bind_apply, looked]
      cases found with
      | none => exact ran
      | some target =>
        dsimp only at ran ⊢
        by_cases same : target = id
        · rw [if_pos same] at ran ⊢
          exact ran
        · rw [if_neg same] at ran ⊢
          obtain ⟨_, _, read, ran⟩ := Query.exists_of_bind_eq_ok ran
          cases read
          rw [Query.bind_apply, show Query.model k = .ok (k.model, k) from rfl]
          dsimp only at ran ⊢
          split at ran
          · next field =>
            obtain ⟨further, k', more, ran⟩ := Query.exists_of_bind_eq_ok ran
            rw [if_pos field, Query.bind_apply, ih (Nat.le_of_succ_le_succ larger_le) more]
            exact ran
          · next other =>
            rw [if_neg other]
            exact ran

theorem fieldDependencies_eq (coherent : Coherent u m [] d.model) (id : NodeId) :
    (Query.fieldDependencies u (d.model.size + 1) id d).toOption =
      (Query.fieldDependencies u (m.size + 1) id d).toOption := by
  have large := coherent.grown.size_le
  have few := answers_fieldDependencies (m.size + 1) coherent id
  have many := answers_fieldDependencies (d.model.size + 1) coherent id
  rw [Meaning.fieldNeeds?_eq (by omega)] at many
  cases means : Meaning.fieldNeeds? u m (m.size + 1) id with
  | none =>
    rw [means] at few many
    obtain ⟨_, failed⟩ := few
    obtain ⟨_, failed'⟩ := many
    rw [failed, failed']
    rfl
  | some needed =>
    rw [means] at few
    obtain ⟨given, e, ran, _⟩ := few
    rw [ran, fieldDependencies_of_le (by omega) ran]

end Bindery
