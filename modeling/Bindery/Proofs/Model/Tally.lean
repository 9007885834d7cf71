import Bindery.Proofs.Model.Condition
import Bindery.Proofs.Session
import Mathlib.Algebra.BigOperators.Group.Finset.Basic
import Mathlib.Algebra.Order.Group.Multiset

/-! The conditions that questions record are those of what they settle. Every step of a question keeps
the two in balance, but for the conditions of bases, which are recorded before the bases are settled. -/

set_option autoImplicit false

namespace Bindery

open Ast (TranslationUnit)

variable (u : TranslationUnit) (m : Model)

/-- The conditions of all that is settled. -/
def Model.tally (n : Model) : Multiset Diagnostic :=
  ∑ matter ∈ m.settled n, (Meaning.conditions u m matter : Multiset Diagnostic)

/-- What has been recorded since, apart from some conditions recorded ahead, are the conditions of all
that is settled. -/
def Draft.Balanced (base : List Diagnostic) (ahead : Multiset Diagnostic) (d : Draft) : Prop :=
  ∃ late : List Diagnostic, d.diagnostics = base ++ late ∧
    (late : Multiset Diagnostic) = m.tally u d.model + ahead

/-- A question that ends leaves a coherent draft coherent and in balance. -/
def Query.Balances {α : Type} (question : Query α) : Prop :=
  ∀ d : Draft, Coherent u m [] d.model → ∀ answer e, question d = .ok (answer, e) →
    Coherent u m [] e.model ∧
      ∀ base ahead, d.Balanced u m base ahead → e.Balanced u m base ahead

/-- A question that settles no bases. -/
def Query.SparesBases {α : Type} (question : Query α) : Prop :=
  ∀ d : Draft, Coherent u m [] d.model → ∀ answer e, question d = .ok (answer, e) →
    Coherent u m [] e.model ∧
      ∀ record, .bases record ∈ m.settled e.model ↔ .bases record ∈ m.settled d.model

variable {u m} {d e : Draft} {base : List Diagnostic} {ahead ahead' : Multiset Diagnostic}

theorem Draft.Gains.balanced {new : Finset Matter} {late : List Diagnostic}
    (gained : d.Gains m e new late)
    (even : (late : Multiset Diagnostic) + ahead =
      ∑ matter ∈ new \ m.settled d.model, (Meaning.conditions u m matter : Multiset Diagnostic) +
        ahead')
    (balanced : d.Balanced u m base ahead) : e.Balanced u m base ahead' := by
  obtain ⟨before, recorded, balance⟩ := balanced
  refine ⟨before ++ late, by rw [gained.diagnostics, recorded, List.append_assoc], ?_⟩
  have more : m.tally u e.model = m.tally u d.model +
      ∑ matter ∈ new \ m.settled d.model, (Meaning.conditions u m matter : Multiset Diagnostic) := by
    rw [Model.tally, gained.settled, ← Finset.union_sdiff_self_eq_union,
      Finset.sum_union Finset.disjoint_sdiff, Model.tally]
  calc ((before ++ late : List Diagnostic) : Multiset Diagnostic)
      = m.tally u d.model + (late + ahead) := by
        rw [← Multiset.coe_add, balance, add_assoc, add_comm ahead]
    _ = m.tally u e.model + ahead' := by rw [even, more, add_assoc]

/-! ## Types -/

theorem conditions_of_mem_lastReference {id : NodeId} {matter : Matter}
    (member : matter ∈ m.lastReference id) : Meaning.conditions u m matter = [] := by
  unfold Model.lastReference at member
  split at member
  · obtain ⟨reference, last, rfl⟩ := Option.map_eq_some_iff.mp (Option.mem_toFinset.mp member)
    simp [Meaning.conditions, Meaning.typeCondition?, isReference_of_getLast? last]
  · simp at member

-- Only its own condition comes to light when a type is settled.
theorem balances_resolveType (links : m.Linked) (id : NodeId) :
    Query.Balances u m (Query.resolveType u id) := by
  intro d coherent answer e ran
  obtain ⟨_, _, coherent', _⟩ := (answers_resolveType coherent id).of_ok ran
  refine ⟨coherent', fun base ahead balanced => ?_⟩
  rcases gains_resolveType links coherent ran with ⟨_, rfl⟩ | ⟨unsettled, gained⟩
  · exact balanced
  · refine gained.balanced ?_ balanced
    rw [Finset.sum_eq_single (.type id)]
    · rfl
    · intro matter member apart
      have added := (Finset.mem_sdiff.mp member).1
      rcases Finset.mem_union.mp added with along | here
      · rw [conditions_of_mem_lastReference along]
        rfl
      · exact absurd (Finset.mem_singleton.mp (Finset.mem_inter.mp here).2) apart
    · intro absent
      have outside : ¬ id.index < m.size := fun inside => absent (by
        simp [Model.mem_settled, unsettled, inside])
      simp [Meaning.conditions, Meaning.typeCondition?, Model.kind,
        Model.node_of_size_le (Nat.le_of_not_lt outside), Node.builtin, NodeKind.holdsType]

theorem sparesBases_resolveType (links : m.Linked) (id : NodeId) :
    Query.SparesBases u m (Query.resolveType u id) := by
  intro d coherent answer e ran
  obtain ⟨_, _, coherent', _⟩ := (answers_resolveType coherent id).of_ok ran
  refine ⟨coherent', fun record => ?_⟩
  rcases gains_resolveType links coherent ran with ⟨_, rfl⟩ | ⟨_, gained⟩
  · rfl
  · rw [gained.settled, Model.lastReference]
    split <;> simp

/-! ## Whatever is put together from questions for types -/

theorem reads_balances : Query.Reads fun _ question => Query.Balances u m question := by
  refine .of_leads (fun _ coherent => ⟨coherent, fun _ _ balanced => balanced⟩) (fun _ _ => And.left)
    (fun _ _ _ first second => ⟨second.1, fun base ahead balanced => ?_⟩)
    fun spelling d coherent id e ran => ⟨?_, fun base ahead balanced => ?_⟩
  · exact second.2 base ahead (first.2 base ahead balanced)
  · exact (Keeps.marker spelling d coherent id e ran).1
  · exact (gains_of_quiet coherent (Query.quiet_marker m spelling) ran).balanced (by simp) balanced

theorem typing_balances (links : m.Linked) :
    Query.Typing u fun _ question => Query.Balances u m question :=
  ⟨reads_balances, balances_resolveType links⟩

theorem typing_sparesBases (links : m.Linked) :
    Query.Typing u fun _ question => Query.SparesBases u m question := by
  refine ⟨.of_leads (fun _ coherent => ⟨coherent, fun _ => .rfl⟩) (fun _ _ => And.left)
    (fun _ _ _ first second => ⟨second.1, fun record => (second.2 record).trans (first.2 record)⟩)
    fun spelling d coherent id e ran => ⟨?_, fun record => ?_⟩, sparesBases_resolveType links⟩
  · exact (Keeps.marker spelling d coherent id e ran).1
  · rw [(gains_of_quiet coherent (Query.quiet_marker m spelling) ran).settled, Finset.union_empty]

/-! ## Bases -/

-- What is outside the arena has no specifiers.
theorem inside_of_mem_baseSpecifiers {record specifier : NodeId}
    (member : specifier ∈ m.baseSpecifiers record) :
    record.index < m.size ∧ specifier.index < m.size := by
  obtain ⟨inner, kind⟩ := List.mem_filter.mp member
  constructor
  · by_contra outside
    rw [Model.membersOf, Model.node_of_size_le (Nat.le_of_not_lt outside)] at inner
    cases inner
  · apply Model.index_lt_of_kind_ne
    rw [of_decide_eq_true kind]
    simp

theorem baseSpecifiers_of_not_lt {record : NodeId} (outside : ¬ record.index < m.size) :
    m.baseSpecifiers record = [] :=
  List.eq_nil_iff_forall_not_mem.mpr fun _ member =>
    outside (inside_of_mem_baseSpecifiers member).1

/-- A base specifier is resolved, and its condition is recorded. -/
theorem exists_resolveBase_of_addBase (links : m.Linked) (coherent : Coherent u m [] d.model)
    {record specifier : NodeId} (member : specifier ∈ m.baseSpecifiers record)
    {found answer : BaseList} (ran : Query.addBase u record found specifier d = .ok (answer, e)) :
    ∃ base k, Query.resolveBase u specifier d = .ok (base, k) ∧ k.Gains m e ∅
      (Meaning.baseCondition? u m record specifier).toList ∧ e.model = k.model := by
  obtain ⟨base, k, resolved, ran⟩ := Query.exists_of_bind_eq_ok ran
  refine ⟨base, k, resolved, ?_⟩
  obtain ⟨_, means, coherent', _, same⟩ := (answers_resolveBase coherent specifier).of_ok resolved
  cases same
  obtain ⟨_, _, read, ran⟩ := Query.exists_of_bind_eq_ok ran
  cases read
  obtain ⟨inside, inside'⟩ := inside_of_mem_baseSpecifiers member
  have name := coherent'.grown.fullName_eq links inside
  have shown := coherent'.grown.displayName_eq inside'
  have location : (k.model.node specifier).location = (m.node specifier).location :=
    coherent'.grown.kept_read Node.location (fun _ => rfl) inside'
  dsimp only at ran
  rw [Meaning.baseCondition?, means, Option.bind_some]
  cases base with
  | none =>
    rw [name, shown, location] at ran
    cases ran
    exact ⟨.report m k _, rfl⟩
  | some base =>
    dsimp only at ran ⊢
    split at ran
    · next self =>
      rw [name, location] at ran
      cases ran
      rw [if_pos self]
      exact ⟨.report m k _, rfl⟩
    · next other =>
      cases ran
      rw [if_neg other]
      exact ⟨.refl m e, rfl⟩

-- The conditions of the specifiers run ahead of the bases, which are settled after the last of them.
theorem balanced_addBases (links : m.Linked) {record : NodeId} {specifiers : List NodeId}
    (listed : ∀ specifier ∈ specifiers, specifier ∈ m.baseSpecifiers record) :
    ∀ {d : Draft} {found answer : BaseList}, Coherent u m [] d.model →
      specifiers.foldlM (Query.addBase u record) found d = .ok (answer, e) →
      Coherent u m [] e.model ∧
        (∀ other, .bases other ∈ m.settled e.model ↔ .bases other ∈ m.settled d.model) ∧
        ∀ base ahead, d.Balanced u m base ahead → e.Balanced u m base
          (specifiers.filterMap (Meaning.baseCondition? u m record) + ahead) := by
  induction specifiers with
  | nil =>
    intro d found answer coherent ran
    cases ran
    exact ⟨coherent, fun _ => .rfl, fun base ahead balanced => by simpa using balanced⟩
  | cons specifier rest ih =>
    intro d found answer coherent ran
    rw [List.foldlM_cons] at ran
    obtain ⟨next, k, added, ran⟩ := Query.exists_of_bind_eq_ok ran
    obtain ⟨_, resolved, looked, gained, same⟩ :=
      exists_resolveBase_of_addBase links coherent (listed specifier List.mem_cons_self) added
    obtain ⟨coherent', even⟩ := (typing_balances links).resolveBase specifier d coherent _ _ looked
    obtain ⟨_, spared⟩ := (typing_sparesBases links).resolveBase specifier d coherent _ _ looked
    rw [← same] at coherent' spared
    obtain ⟨coherent'', spared', even'⟩ :=
      ih (fun other member => listed other (List.mem_cons_of_mem specifier member)) coherent' ran
    refine ⟨coherent'', fun other => (spared' other).trans (spared other), fun base ahead balanced => ?_⟩
    have here : k.Balanced u m base
        ((Meaning.baseCondition? u m record specifier).toList + ahead) :=
      gained.balanced (by simp) (even base ahead balanced)
    have last := even' base _ here
    cases condition : Meaning.baseCondition? u m record specifier with
    | none => simpa [condition] using last
    | some found =>
      rw [List.filterMap_cons_some condition]
      simpa [condition, ← Multiset.cons_coe] using last

theorem balances_baseList (links : m.Linked) (record : NodeId) :
    Query.Balances u m (Query.baseList u record) := by
  intro d coherent answer e ran
  obtain ⟨_, _, final, _⟩ := (answers_baseList coherent record).of_ok ran
  refine ⟨final, fun base ahead balanced => ?_⟩
  obtain ⟨_, _, read, ran⟩ := Query.exists_of_bind_eq_ok ran
  cases read
  cases known : (d.model.node record).bases with
  | some found =>
    rw [known] at ran
    cases ran
    exact balanced
  | none =>
    rw [known, show d.model.baseSpecifiers record = m.baseSpecifiers record from
      coherent.grown.membersWhere_eq ..] at ran
    obtain ⟨found, k, added, ran⟩ := Query.exists_of_bind_eq_ok ran
    obtain ⟨coherent', spared, even⟩ :=
      balanced_addBases links (fun _ member => member) coherent added
    obtain ⟨_, noted, notes, ran⟩ := Query.exists_of_bind_eq_ok ran
    cases ran
    cases notes
    refine (Draft.Gains.noteBases coherent'.grown.size_le record answer).balanced ?_
      (even base ahead balanced)
    have unsettled : .bases record ∉ m.settled k.model := by
      simp [spared, Model.mem_settled, Model.settles, known]
    rw [Finset.sum_eq_single (.bases record)]
    · simp [Meaning.conditions]
    · intro matter member apart
      have here := (Finset.mem_sdiff.mp member).1
      exact absurd (Finset.mem_singleton.mp (Finset.mem_inter.mp here).2) apart
    · intro absent
      have outside : ¬ record.index < m.size := fun inside => absent (by simp [unsettled, inside])
      simp [Meaning.conditions, baseSpecifiers_of_not_lt outside]

/-- Whatever is asked, the conditions recorded are those of what has been settled. -/
theorem balances_ask (links : m.Linked) (question : Question) :
    Query.Balances u m (question.ask u) := by
  have settling : Query.Settling u fun _ question => Query.Balances u m question :=
    ⟨typing_balances links, balances_baseList links⟩
  exact settling.resolving.ask question

end Bindery
