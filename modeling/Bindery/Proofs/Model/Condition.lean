import Bindery.Proofs.Model.Matter
import Bindery.Proofs.Model.Naming
import Bindery.Proofs.Model.Recording
import Mathlib.Data.Finset.Option

/-! Which conditions a model meets, read off the model itself, and that a type which is resolved for
the first time brings its own condition to light and no other. -/

set_option autoImplicit false

namespace Bindery

open Ast (CursorId TranslationUnit TypeId)

namespace Meaning

variable (u : TranslationUnit) (m : Model)

/-- The condition of a node whose type leads nowhere. That of a base specifier is a matter of its
record. -/
def unresolved? (id : NodeId) (type : Option TypeId) (target : Option Denoted) :
    Option Diagnostic :=
  if target.isNone && m.kind id ≠ .baseSpecifier then
    let spelling := ((type.bind u.type?).map (·.spelling)).getD ""
    some (.unresolvedType (m.fullName id) spelling (m.node id).location)
  else none

-- A node with neither a reference nor a type has nothing to resolve.
def occurrenceCondition? (id : NodeId) (occurrence : CursorId) : Option Diagnostic :=
  (startingType? u m id occurrence).bind fun type =>
    if (m.references id).getLast?.isNone && type.isNone then none
    else unresolved? u m id type ((found? u m id type).or (fallback? u m id type))

/-- The condition of a node, if its type cannot be resolved. References have none of their own. -/
def typeCondition? (id : NodeId) : Option Diagnostic :=
  if (m.kind id).holdsType && !(m.kind id).isReference then
    (m.node id).occurrence.bind (occurrenceCondition? u m id)
  else none

/-- The condition of a base specifier of a record, if there is no record behind it or the record
itself. -/
def baseCondition? (record specifier : NodeId) : Option Diagnostic :=
  let node := m.node specifier
  (base? u m specifier).bind fun base =>
    match base with
    | none => some (.unresolvedBase (m.fullName record) node.displayName node.location)
    | some base => if base = record then some (.selfBase (m.fullName record) node.location) else none

/-- The conditions that come to light when a matter is settled. -/
def conditions : Matter → List Diagnostic
  | .type id => (typeCondition? u m id).toList
  | .bases record => (m.baseSpecifiers record).filterMap (baseCondition? u m record)

end Meaning

/-- What is resolved along with a type, namely the reference that wins over it. -/
def Model.lastReference (m : Model) (id : NodeId) : Finset Matter :=
  if (m.kind id).holdsType && !(m.kind id).isReference && (m.node id).occurrence.isSome then
    ((m.references id).getLast?.map Matter.type).toFinset
  else ∅

variable {u : TranslationUnit} {m : Model} {busy : List NodeId} {d e : Draft} {id : NodeId}

theorem Meaning.exists_of_typeCondition? {found : Diagnostic}
    (condition : typeCondition? u m id = some found) :
    ∃ spelling, found = .unresolvedType (m.fullName id) spelling (m.node id).location := by
  unfold typeCondition? at condition
  split at condition
  · obtain ⟨occurrence, _, condition⟩ := Option.bind_eq_some_iff.mp condition
    obtain ⟨type, _, condition⟩ := Option.bind_eq_some_iff.mp condition
    split at condition
    · cases condition
    · unfold unresolved? at condition
      split at condition
      · cases condition
        exact ⟨_, rfl⟩
      · cases condition
  · cases condition

/-! ## Conclusions -/

theorem gains_of_quiet {α : Type} {question : Query α} (coherent : Coherent u m busy d.model)
    (quiet : Query.Quiet m question) {answer : α} (ran : question d = .ok (answer, e)) :
    d.Gains m e ∅ [] :=
  (quiet d coherent.grown.size_le answer e ran).gains

theorem gains_reportUnresolved (links : m.Linked) (coherent : Coherent u m busy d.model)
    (inside : id.index < m.size) (type : Option TypeId)
    (ran : Query.reportUnresolved u id type d = .ok ((), e)) :
    d.Gains m e ∅ (Meaning.unresolved? u m id type none).toList := by
  have kind := coherent.grown.kind_eq id
  have name := coherent.grown.fullName_eq links inside
  have location : (d.model.node id).location = (m.node id).location :=
    coherent.grown.kept_read Node.location (fun _ => rfl) inside
  unfold Query.reportUnresolved at ran
  change (if d.model.kind id ≠ .baseSpecifier then _ else _ : Query Unit) d = _ at ran
  rw [kind] at ran
  by_cases base : m.kind id = .baseSpecifier
  · rw [if_neg (not_not_intro base)] at ran
    cases ran
    simpa [Meaning.unresolved?, base] using Draft.Gains.refl m d
  · rw [if_pos base, name, location] at ran
    cases ran
    simpa [Meaning.unresolved?, base] using Draft.Gains.report m d _

theorem gains_conclude (links : m.Linked) (coherent : Coherent u m busy d.model)
    (inside : id.index < m.size) (type : Option TypeId) {found answer : Option NodeId}
    {target : Option Denoted} (right : Represents d.model found target)
    (ran : Query.conclude u id type found d = .ok (answer, e)) :
    d.Gains m e ∅
      (Meaning.unresolved? u m id type (target.or (Meaning.fallback? u m id type))).toList := by
  cases found with
  | some here =>
    cases target with
    | none => exact right.elim
    | some target =>
      cases ran
      simpa [Meaning.unresolved?] using Draft.Gains.refl m d
  | none =>
    cases target with
    | some target => exact right.elim
    | none =>
      obtain ⟨back, k, fell, ran⟩ := Query.exists_of_bind_eq_ok ran
      obtain ⟨target, means, coherent', _, right'⟩ :=
        (answers_fallback coherent id type).of_ok fell
      have quiet := gains_of_quiet coherent ((Query.reads_quiet m).fallback u id type) fell
      rw [Option.none_or, Option.some.inj means]
      match back, target, right' with
      | some node, some target, _ =>
        cases ran
        simpa [Meaning.unresolved?] using quiet
      | none, none, _ =>
        obtain ⟨_, reported, reports, ran⟩ := Query.exists_of_bind_eq_ok ran
        cases ran
        simpa using quiet.trans (gains_reportUnresolved links coherent' inside type reports)

/-! ## Types -/

/-- A question whose answers are remembered does nothing where the answer is known. Otherwise it gains
what computing the answer gains, and settles the type. -/
theorem gains_remember {compute : Query (Option NodeId)} {new : Finset Matter}
    {late : List Diagnostic} (coherent : Coherent u m busy d.model) (idle : id ∉ busy)
    (grows : Query.Grows compute)
    (computes : (m.kind id).holdsType → ∀ k : Draft, Coherent u m (id :: busy) k.model →
      ∀ answer e, compute k = .ok (answer, e) → k.Gains m e new late)
    (plain : ¬ (m.kind id).holdsType → new = ∅ ∧ late = []) {answer : Option NodeId}
    (ran : Query.remember id compute d = .ok (answer, e)) :
    d.model.settles (.type id) ∧ e = d ∨
      d.model.settles (.type id) = false ∧ d.Gains m e (new ∪ m.matters ∩ {.type id}) late := by
  have recalled := coherent.targets id idle
  have large := coherent.grown.size_le
  obtain ⟨_, _, read, ran⟩ := Query.exists_of_bind_eq_ok ran
  cases read
  cases state : (d.model.node id).resolution with
  | inProgress =>
    rw [state] at recalled
    exact recalled.elim
  | done target =>
    rw [state] at ran
    cases ran
    exact .inl ⟨by simp [Model.settles, state, Resolution.isDone], rfl⟩
  | pending =>
    refine .inr ⟨by simp [Model.settles, state, Resolution.isDone], ?_⟩
    rw [state] at ran
    dsimp only at ran
    rw [coherent.grown.kind_eq] at ran
    by_cases holds : (m.kind id).holdsType
    · rw [if_pos holds] at ran
      obtain ⟨_, begun, begins, ran⟩ := Query.exists_of_bind_eq_ok ran
      obtain ⟨target, computed, ran', ran⟩ := Query.exists_of_bind_eq_ok ran
      obtain ⟨_, noted, notes, ran⟩ := Query.exists_of_bind_eq_ok ran
      cases ran
      have started : Coherent u m (id :: busy) begun.model := by
        cases begins
        exact coherent.note (fun free => absurd List.mem_cons_self free)
          fun other _ free member => free (List.mem_cons_of_mem id member)
      have size : m.size ≤ computed.model.size :=
        Nat.le_trans started.grown.size_le (grows _ _ _ ran').model.size_le
      have gained := ((Draft.Gains.begin state begins).trans
        (computes holds begun started _ _ ran')).trans (.note size notes)
      simpa using gained
    · rw [if_neg holds] at ran
      obtain ⟨rfl, rfl⟩ := plain holds
      obtain ⟨_, noted, notes, ran⟩ := Query.exists_of_bind_eq_ok ran
      cases ran
      simpa using Draft.Gains.note large notes

theorem holdsType_of_isReference {kind : NodeKind} (reference : kind.isReference) :
    kind.holdsType := by
  cases kind <;> simp_all [NodeKind.isReference, NodeKind.holdsType]

theorem inside_of_holdsType (holds : (m.kind id).holdsType) : id.index < m.size := by
  apply Model.index_lt_of_kind_ne
  intro builtin
  simp [builtin, NodeKind.holdsType] at holds

-- A reference is settled alone.
theorem gains_referenceTarget (coherent : Coherent u m busy d.model) (idle : id ∉ busy)
    (reference : (m.kind id).isReference) {answer : Option NodeId}
    (ran : Query.referenceTarget u id d = .ok (answer, e)) :
    d.model.settles (.type id) ∧ e = d ∨
      d.model.settles (.type id) = false ∧ d.Gains m e (m.matters ∩ {.type id}) [] := by
  have holds := holdsType_of_isReference reference
  have reads := Query.reads_quiet m
  rw [← Finset.empty_union (m.matters ∩ {.type id})]
  refine gains_remember coherent idle ?_ (fun _ k coherent' answer e ran => ?_) (absurd holds) ran
  · refine Query.pervades_grows.bind Query.pervades_grows.model fun n => ?_
    split
    · exact Query.pervades_grows.pure _
    · exact Query.pervades_grows.reference u _
  · refine (reads.bind reads.model (fun n => ?_) k coherent'.grown.size_le answer e ran).gains
    split
    · exact reads.pure _
    · exact reads.reference u _

theorem gains_lastReference {reference : NodeId} (coherent : Coherent u m busy d.model)
    (idle : reference ∉ busy) (refers : (m.kind reference).isReference) {answer : Option NodeId}
    (ran : Query.referenceTarget u reference d = .ok (answer, e)) :
    d.Gains m e {.type reference} [] := by
  have present : Matter.type reference ∈ m.matters :=
    Model.type_mem_matters.mpr (inside_of_holdsType (holdsType_of_isReference refers))
  rcases gains_referenceTarget coherent idle refers ran with ⟨known, rfl⟩ | ⟨_, gained⟩
  · exact .of_subset (Finset.singleton_subset_iff.mpr (Model.mem_settled.mpr ⟨present, known⟩))
  · rwa [Finset.inter_singleton_of_mem present] at gained

theorem gains_computeTarget (links : m.Linked) (coherent : Coherent u m [id] d.model)
    (plain : (m.kind id).isReference = false) (inside : id.index < m.size)
    (occurrence : CursorId) {answer : Option NodeId}
    (ran : Query.computeTarget u id occurrence d = .ok (answer, e)) :
    d.Gains m e ((m.references id).getLast?.map Matter.type).toFinset
      (Meaning.occurrenceCondition? u m id occurrence).toList := by
  obtain ⟨_, _, read, ran⟩ := Query.exists_of_bind_eq_ok ran
  cases read
  obtain ⟨type, k, started, ran⟩ := Query.exists_of_bind_eq_ok ran
  have quiet := gains_of_quiet coherent ((Query.reads_quiet m).startingType u id _) started
  rw [Meaning.references_extends coherent.grown] at ran
  obtain ⟨_, means, coherent', _, same⟩ :=
    (answers_startingType coherent id occurrence).of_ok started
  cases same
  rw [Meaning.occurrenceCondition?, means, Option.bind_some, Meaning.found?]
  cases last : (m.references id).getLast? with
  | some reference =>
    rw [last] at ran
    obtain ⟨found, k', referred, ran⟩ := Query.exists_of_bind_eq_ok ran
    have refers := isReference_of_getLast? last
    have apart : reference ∉ [id] := fun member => by
      rw [List.mem_singleton.mp member, plain] at refers
      cases refers
    have asked := answers_referenceTarget coherent' apart refers
    rw [ofNode?_of_isReference refers] at asked
    obtain ⟨_, denotes, coherent'', _, right⟩ := asked.of_ok referred
    cases denotes
    have settled := gains_lastReference coherent' apart refers referred
    simpa using (quiet.trans settled).trans
      (gains_conclude links coherent'' inside type right ran)
  | none =>
    rw [last] at ran
    cases type with
    | none =>
      cases ran
      simpa using quiet
    | some type =>
      obtain ⟨found, k', described, ran⟩ := Query.exists_of_bind_eq_ok ran
      obtain ⟨_, denotes, coherent'', _, right⟩ :=
        (answers_descriptor coherent' type).of_ok described
      cases denotes
      have seen := gains_of_quiet coherent' ((Query.reads_quiet m).descriptor u _) described
      simpa using (quiet.trans seen).trans
        (gains_conclude links coherent'' inside (some type) right ran)

/-- A type that is not settled yet is settled along with the reference that wins over it, and brings
its condition to light. One that is settled already makes no difference. -/
theorem gains_resolveType (links : m.Linked) (coherent : Coherent u m [] d.model)
    {answer : Option NodeId} (ran : Query.resolveType u id d = .ok (answer, e)) :
    d.model.settles (.type id) ∧ e = d ∨
      d.model.settles (.type id) = false ∧
        d.Gains m e (m.lastReference id ∪ m.matters ∩ {.type id})
          (Meaning.typeCondition? u m id).toList := by
  obtain ⟨_, _, read, ran⟩ := Query.exists_of_bind_eq_ok ran
  cases read
  rw [coherent.grown.kind_eq] at ran
  by_cases reference : (m.kind id).isReference
  · rw [if_pos reference] at ran
    simpa [Model.lastReference, Meaning.typeCondition?, reference] using
      gains_referenceTarget coherent List.not_mem_nil reference ran
  · rw [if_neg reference] at ran
    refine gains_remember coherent List.not_mem_nil ?_ ?_ ?_ ran
    · refine Query.pervades_grows.bind Query.pervades_grows.model fun n => ?_
      split
      · exact Query.pervades_grows.pure _
      · exact Query.pervades_grows.computeTarget u _ _
    · intro holds k coherent' answer e ran
      obtain ⟨_, _, read, ran⟩ := Query.exists_of_bind_eq_ok ran
      cases read
      rw [coherent'.grown.occurrence_eq] at ran
      cases present : (m.node id).occurrence with
      | none =>
        rw [present] at ran
        cases ran
        simpa [Model.lastReference, Meaning.typeCondition?, present] using Draft.Gains.refl m k
      | some occurrence =>
        rw [present] at ran
        have plain := Bool.eq_false_iff.mpr reference
        simpa [Model.lastReference, Meaning.typeCondition?, present, plain, holds] using
          gains_computeTarget links coherent' plain (inside_of_holdsType holds) occurrence ran
    · intro plain
      simp [Model.lastReference, Meaning.typeCondition?, plain]

end Bindery
