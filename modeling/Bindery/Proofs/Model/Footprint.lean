import Bindery.Proofs.Model.Agreement
import Bindery.Proofs.Model.Chain
import Bindery.Proofs.Model.Tally

/-! What questions settle does not depend on what was settled before. Asked of a sound draft, in which
nothing is settled without what is settled along with it, a question adds to what is settled just what
it settles of the untouched model. -/

set_option autoImplicit false

namespace Bindery

open Ast (TranslationUnit)

/-- What a question settles of the model as it is. -/
def Query.reach (m : Model) {α : Type} (question : Query α) : Finset Matter :=
  match question { model := m } with
  | .ok (_, e) => m.settled e.model
  | .error _ => ∅

variable (u : TranslationUnit) (m : Model)

/-- A coherent model in which nothing is settled without what is settled along with it. -/
structure Sound (n : Model) : Prop where
  coherent : Coherent u m [] n
  types : ∀ id, .type id ∈ m.settled n → m.lastReference id ⊆ m.settled n
  bases : ∀ record, .bases record ∈ m.settled n → ∀ specifier ∈ m.baseSpecifiers record,
    (Query.resolveBase u specifier).reach m ⊆ m.settled n

/-- Drafts with sound models of which the second has settled some matters more than the first. -/
structure Mirrors (more : Finset Matter) (d e : Draft) : Prop where
  left : Sound u m d.model
  right : Sound u m e.model
  settled : m.settled e.model = m.settled d.model ∪ more

/-- A question that adds some matters to what is settled of a sound draft. -/
def Query.Adds {α : Type} (question : Query α) (new : Finset Matter) : Prop :=
  ∀ d : Draft, Sound u m d.model → ∀ answer e, question d = .ok (answer, e) →
    Sound u m e.model ∧ m.settled e.model = m.settled d.model ∪ new

/-- Two nodes that are one, or two markers. -/
def Akin (id other : NodeId) : Prop := id = other ∨ m.kind id = .builtin ∧ m.kind other = .builtin

variable {u m} {d e : Draft} {more : Finset Matter}

theorem Mirrors.coherents (mirrors : Mirrors u m more d e) : Coherents u m d e :=
  ⟨mirrors.left.coherent, mirrors.right.coherent⟩

theorem Model.Fresh.settled_eq (fresh : m.Fresh) : m.settled m = ∅ := by
  refine Finset.eq_empty_of_forall_notMem fun matter member => ?_
  obtain ⟨inside, kept⟩ := mem_settled.mp member
  cases matter with
  | type id =>
    simp [settles, (fresh.unasked id (type_mem_matters.mp inside)).pending,
      Resolution.isDone] at kept
  | bases id =>
    simp [settles, (fresh.unasked id (bases_mem_matters.mp inside)).baseless] at kept

theorem Model.Fresh.sound (fresh : m.Fresh) : Sound u m m where
  coherent := fresh.coherent
  types id member := by
    rw [fresh.settled_eq] at member
    exact absurd member (Finset.notMem_empty _)
  bases record member := by
    rw [fresh.settled_eq] at member
    exact absurd member (Finset.notMem_empty _)

theorem Model.Fresh.mirrors (fresh : m.Fresh) (sound : Sound u m d.model) :
    Mirrors u m (m.settled d.model) { model := m } d where
  left := fresh.sound
  right := sound
  settled := by rw [fresh.settled_eq, Finset.empty_union]

-- What is added to both makes no difference between them.
theorem Mirrors.add {d' e' : Draft} {new : Finset Matter} (mirrors : Mirrors u m more d e)
    (first : Sound u m d'.model ∧ m.settled d'.model = m.settled d.model ∪ new)
    (second : Sound u m e'.model ∧ m.settled e'.model = m.settled e.model ∪ new) :
    Mirrors u m more d' e' where
  left := first.1
  right := second.1
  settled := by rw [second.2, first.2, mirrors.settled, Finset.union_right_comm]

/-! ## Footprints -/

/-- A question that comes to the same on drafts of which one has settled more adds what it settles of the
untouched model. -/
theorem Query.Adds.of_parallel {α : Type} {same : α → α → Prop} {question : Query α} (fresh : m.Fresh)
    (parallel : ∀ more, Parallel (Mirrors u m more) same question question) :
    question.Adds u m (question.reach m) := by
  intro d sound answer e ran
  have both := parallel (m.settled d.model) _ _ (fresh.mirrors sound)
  rw [ran] at both
  unfold Query.reach
  generalize question { model := m } = other at both
  cases both with
  | ended _ drafts => exact ⟨drafts.right, by rw [drafts.settled, Finset.union_comm]⟩

/-- A question with expected answers that adds the same matters whenever it ends. -/
theorem Parallel.of_answers {α β : Type} {question : Query α} {expected : Option β}
    {fits : Model → α → β → Prop} {same : α → α → Prop} {new : Finset Matter}
    (answers : ∀ d : Draft, Coherent u m [] d.model → Answers u m [] d question expected fits)
    (adds : question.Adds u m new)
    (right : ∀ given given' answer (n k : Model), m.Extends n → m.Extends k →
      fits n given answer → fits k given' answer → same given given') :
    Parallel (Mirrors u m more) same question question := by
  intro d e mirrors
  have first := answers d mirrors.left.coherent
  have second := answers e mirrors.right.coherent
  cases expected with
  | none =>
    obtain ⟨_, failed⟩ := first
    obtain ⟨_, failed'⟩ := second
    rw [failed, failed']
    exact .endless
  | some answer =>
    obtain ⟨given, d', ran, left, _, fit⟩ := first
    obtain ⟨given', e', ran', right', _, fit'⟩ := second
    rw [ran, ran']
    exact .ended (right _ _ _ _ _ left.grown right'.grown fit fit')
      (mirrors.add (adds d mirrors.left _ _ ran) (adds e mirrors.right _ _ ran'))

/-! ## Markers -/

theorem adds_marker (spelling : String) : (Query.marker spelling).Adds u m ∅ := by
  intro d sound id e ran
  have coherent := (Keeps.marker spelling d sound.coherent id e ran).1
  have same := (gains_of_quiet sound.coherent (Query.quiet_marker m spelling) ran).settled
  rw [Finset.union_empty] at same
  refine ⟨⟨coherent, ?_, ?_⟩, by rw [same, Finset.union_empty]⟩
  · rw [same]
    exact sound.types
  · rw [same]
    exact sound.bases

theorem parallel_marker (spelling : String) :
    Parallel (Mirrors u m more) (fun _ _ => True) (Query.marker spelling)
      (Query.marker spelling) := by
  have total (n : Draft) : ∃ id k, Query.marker spelling n = .ok (id, k) := by
    unfold Query.marker
    split <;> exact ⟨_, _, rfl⟩
  intro d e mirrors
  obtain ⟨id, d', ran⟩ := total d
  obtain ⟨id', e', ran'⟩ := total e
  rw [ran, ran']
  exact .ended trivial (mirrors.add (adds_marker spelling d mirrors.left id d' ran)
    (adds_marker spelling e mirrors.right id' e' ran'))

/-! ## Types -/

theorem lastReference_eq_empty {id : NodeId} {matter : Matter}
    (member : matter ∈ m.lastReference id) :
    ∃ reference, matter = .type reference ∧ m.lastReference reference = ∅ := by
  unfold Model.lastReference at member
  split at member
  · obtain ⟨reference, last, rfl⟩ := Option.map_eq_some_iff.mp (Option.mem_toFinset.mp member)
    exact ⟨reference, rfl, by simp [Model.lastReference, isReference_of_getLast? last]⟩
  · simp at member

theorem adds_resolveType (links : m.Linked) (id : NodeId) :
    (Query.resolveType u id).Adds u m (m.lastReference id ∪ m.matters ∩ {.type id}) := by
  intro d sound answer e ran
  obtain ⟨coherent', spared⟩ := sparesBases_resolveType links id d sound.coherent answer e ran
  rcases gains_resolveType links sound.coherent ran with ⟨known, rfl⟩ | ⟨_, gained⟩
  · refine ⟨sound, (Finset.union_eq_left.mpr ?_).symm⟩
    by_cases inside : .type id ∈ m.matters
    · have settled : .type id ∈ m.settled e.model := Model.mem_settled.mpr ⟨inside, known⟩
      rw [Finset.inter_singleton_of_mem inside]
      exact Finset.union_subset (sound.types id settled) (Finset.singleton_subset_iff.mpr settled)
    · have plain : ¬ (m.kind id).holdsType := fun holds =>
        inside (Model.type_mem_matters.mpr (inside_of_holdsType holds))
      simp [Finset.inter_singleton_of_notMem inside, Model.lastReference, plain]
  · have kept : m.settled d.model ⊆ m.settled e.model := by
      rw [gained.settled]
      exact Finset.subset_union_left
    refine ⟨⟨coherent', fun other member => ?_, fun record member specifier listed => ?_⟩,
      gained.settled⟩
    · rw [gained.settled, Finset.mem_union, Finset.mem_union, Finset.mem_inter,
        Finset.mem_singleton] at member
      rcases member with before | along | ⟨_, here⟩
      · exact (sound.types other before).trans kept
      · obtain ⟨_, same, alone⟩ := lastReference_eq_empty along
        cases same
        rw [alone]
        exact Finset.empty_subset _
      · cases here
        rw [gained.settled]
        exact Finset.subset_union_left.trans Finset.subset_union_right
    · exact (sound.bases record ((spared record).mp member) specifier listed).trans kept

theorem parallel_resolveType (links : m.Linked) (id : NodeId) :
    Parallel (Mirrors u m more) (Option.Rel (Akin m)) (Query.resolveType u id)
      (Query.resolveType u id) := by
  refine .of_answers (fun _ coherent => answers_resolveType coherent id)
    (adds_resolveType links id) ?_
  intro given given' target n k grown grown' right right'
  match given, given', target, right, right' with
  | none, none, none, _, _ => exact .none
  | some _, some _, some (.node _), rfl, rfl => exact .some (.inl rfl)
  | some _, some _, some (.marker _), right, right' =>
    exact .some (.inr ⟨(grown.kind_eq _).symm.trans right.2, (grown'.kind_eq _).symm.trans right'.2⟩)

/-! ## What is behind types -/

theorem Akin.kind_eq {id other : NodeId} (akin : Akin m id other) : m.kind id = m.kind other := by
  rcases akin with rfl | ⟨left, right⟩
  · rfl
  · rw [left, right]

theorem Mirrors.kind_eq (mirrors : Mirrors u m more d e) {id other : NodeId}
    (akin : Akin m id other) : e.model.kind other = d.model.kind id := by
  rw [mirrors.right.coherent.grown.kind_eq, mirrors.left.coherent.grown.kind_eq, akin.kind_eq]

theorem parallel_onlyRecord {found found' : Option NodeId}
    (alike : Option.Rel (Akin m) found found') :
    Parallel (Mirrors u m more) (fun left right => left = right) (Query.onlyRecord found)
      (Query.onlyRecord found') := by
  refine Parallel.model fun d e mirrors => ?_
  have coherents := mirrors.coherents
  simp only [coherents.left.grown.kind_eq, coherents.right.grown.kind_eq]
  refine .pure ?_
  cases alike with
  | none => rfl
  | @some id other akin =>
    rcases akin with rfl | ⟨left, right⟩
    · rfl
    · simp [Option.filter, left, right, NodeKind.isRecord]

section

variable (links : m.Linked)

include links

theorem parallel_chainEnd (bound : Nat) {id other : NodeId} (akin : Akin m id other) :
    Parallel (Mirrors u m more) (fun left right => left = right) (Query.chainEnd u bound id)
      (Query.chainEnd u bound other) := by
  induction bound generalizing id other with
  | zero => exact .pure rfl
  | succ bound ih =>
    refine Parallel.model fun d e mirrors => ?_
    have kinds : e.model.kind other = d.model.kind id := mirrors.kind_eq akin
    simp only [kinds, mirrors.left.coherent.grown.kind_eq]
    split
    · exact .pure rfl
    · next real =>
      have same : id = other := akin.resolve_right fun both => real both.1
      subst same
      split
      · refine (parallel_resolveType links id).bind fun left right alike => ?_
        cases alike with
        | none => exact .pure rfl
        | some akin => exact ih akin
      · exact .pure rfl

theorem parallel_declarationBehind {id other : NodeId} (akin : Akin m id other) :
    Parallel (Mirrors u m more) (fun left right => left = right) (Query.declarationBehind u id)
      (Query.declarationBehind u other) := by
  intro d e mirrors
  rw [declarationBehind_eq links mirrors.left.coherent,
    declarationBehind_eq links mirrors.right.coherent]
  exact parallel_chainEnd links (m.size + 1) akin d e mirrors

theorem concur_typeDependency (id : NodeId) :
    Concur (Mirrors u m more) (Query.typeDependency u id) fun _ => True := by
  refine (parallel_resolveType links id).bind fun left right alike => ?_
  cases alike with
  | none => exact .pure ⟨rfl, trivial⟩
  | some akin => exact (parallel_declarationBehind links akin).mono fun _ _ same => ⟨same, trivial⟩

theorem concur_typeDependencies (id : NodeId) :
    Concur (Mirrors u m more) (Query.typeDependencies u id) fun _ => True :=
  (concur_typeDependency links id).bind fun _ _ => .pure trivial

/-! ## Bases -/

theorem parallel_recordBehind {id other : NodeId} (akin : Akin m id other) :
    Parallel (Mirrors u m more) (fun left right => left = right) (Query.recordBehind u id)
      (Query.recordBehind u other) := by
  refine Parallel.model fun d e mirrors => ?_
  rw [mirrors.kind_eq akin]
  split
  · refine (parallel_declarationBehind links akin).bind fun left right same => ?_
    subst same
    refine parallel_onlyRecord ?_
    cases left with
    | none => exact .none
    | some found => exact .some (.inl rfl)
  · exact parallel_onlyRecord (.some akin)

theorem concur_resolveBase (specifier : NodeId) :
    Concur (Mirrors u m more) (Query.resolveBase u specifier) fun _ => True := by
  refine .model (fun _ _ mirrors => mirrors.coherents)
    (fun n grown => by rw [Meaning.firstReference?_extends grown]) ?_
  split
  · exact .pure trivial
  · split
    · exact .pure trivial
    · refine (parallel_resolveType links specifier).bind fun left right alike => ?_
      cases alike with
      | none => exact .pure ⟨rfl, trivial⟩
      | some akin => exact (parallel_recordBehind links akin).mono fun _ _ same => ⟨same, trivial⟩

end

section

variable (fresh : m.Fresh)

include fresh

theorem adds_resolveBase (specifier : NodeId) :
    (Query.resolveBase u specifier).Adds u m ((Query.resolveBase u specifier).reach m) :=
  .of_parallel fresh fun _ => concur_resolveBase fresh.linked specifier

theorem adds_addBases {record : NodeId} {specifiers : List NodeId}
    (listed : ∀ specifier ∈ specifiers, specifier ∈ m.baseSpecifiers record) (found : BaseList) :
    (specifiers.foldlM (Query.addBase u record) found).Adds u m
      (specifiers.toFinset.biUnion fun specifier => (Query.resolveBase u specifier).reach m) := by
  intro d sound answer e ran
  induction specifiers generalizing d found with
  | nil =>
    cases ran
    exact ⟨sound, by simp⟩
  | cons specifier rest ih =>
    rw [List.foldlM_cons] at ran
    obtain ⟨next, k, added, ran⟩ := Query.exists_of_bind_eq_ok ran
    obtain ⟨_, resolved, looked, _, same⟩ := exists_resolveBase_of_addBase fresh.linked
      sound.coherent (listed specifier List.mem_cons_self) added
    obtain ⟨sound', settled⟩ := adds_resolveBase fresh specifier d sound _ _ looked
    rw [← same] at sound' settled
    obtain ⟨sound'', settled'⟩ :=
      ih (fun other member => listed other (List.mem_cons_of_mem specifier member)) next k sound' ran
    refine ⟨sound'', ?_⟩
    rw [settled', settled, List.toFinset_cons, Finset.biUnion_insert, Finset.union_assoc]

theorem adds_baseList (record : NodeId) :
    (Query.baseList u record).Adds u m
      (((m.baseSpecifiers record).toFinset.biUnion fun specifier =>
        (Query.resolveBase u specifier).reach m) ∪ m.matters ∩ {.bases record}) := by
  intro d sound answer e ran
  obtain ⟨_, _, final, _⟩ := (answers_baseList sound.coherent record).of_ok ran
  obtain ⟨_, _, read, ran⟩ := Query.exists_of_bind_eq_ok ran
  cases read
  cases known : (d.model.node record).bases with
  | some found =>
    rw [known] at ran
    cases ran
    refine ⟨sound, (Finset.union_eq_left.mpr ?_).symm⟩
    by_cases inside : .bases record ∈ m.matters
    · have settled : .bases record ∈ m.settled d.model :=
        Model.mem_settled.mpr ⟨inside, by simp [Model.settles, known]⟩
      rw [Finset.inter_singleton_of_mem inside]
      refine Finset.union_subset (Finset.biUnion_subset.mpr fun specifier listed => ?_)
        (Finset.singleton_subset_iff.mpr settled)
      exact sound.bases record settled specifier (List.mem_toFinset.mp listed)
    · have outside : ¬ record.index < m.size := by simpa using inside
      simp [Finset.inter_singleton_of_notMem inside, baseSpecifiers_of_not_lt outside]
  | none =>
    rw [known, show d.model.baseSpecifiers record = m.baseSpecifiers record from
      sound.coherent.grown.membersWhere_eq ..] at ran
    obtain ⟨found, k, added, ran⟩ := Query.exists_of_bind_eq_ok ran
    obtain ⟨sound', settled⟩ := adds_addBases fresh (fun _ member => member) {} d sound _ _ added
    obtain ⟨_, noted, notes, ran⟩ := Query.exists_of_bind_eq_ok ran
    cases ran
    cases notes
    have gained := (Draft.Gains.noteBases sound'.coherent.grown.size_le record answer).settled
    have kept : m.settled k.model ⊆ m.settled _ := Finset.subset_union_left.trans gained.superset
    refine ⟨⟨final, fun id member => ?_, fun other member specifier listed => ?_⟩, ?_⟩
    · have before : .type id ∈ m.settled k.model := by
        rw [gained] at member
        simpa using member
      exact (sound'.types id before).trans kept
    · refine Finset.Subset.trans ?_ kept
      rw [gained, Finset.mem_union, Finset.mem_inter, Finset.mem_singleton] at member
      rcases member with before | ⟨_, here⟩
      · exact sound'.bases other before specifier listed
      · cases here
        rw [settled]
        refine Finset.Subset.trans ?_ Finset.subset_union_right
        exact Finset.subset_biUnion_of_mem (fun specifier => (Query.resolveBase u specifier).reach m)
          (List.mem_toFinset.mpr listed)
    · rw [gained, settled, Finset.union_assoc]

theorem concur_baseList (record : NodeId) :
    Concur (Mirrors u m more) (Query.baseList u record) fun _ => True :=
  Parallel.of_answers (fun _ coherent => answers_baseList coherent record)
    (adds_baseList fresh record) fun _ _ _ _ _ _ _ same same' => ⟨same.trans same'.symm, trivial⟩

/-! ## Dependencies -/

theorem concur_plainDependencies (id : NodeId) :
    Concur (Mirrors u m more) (Query.plainDependencies u id) fun _ => True := by
  refine .model (fun _ _ mirrors => mirrors.coherents) (fun n grown => ?_) ?_
  · have owners : Query.recordOwner? n id = Query.recordOwner? m id := by
      simp only [Query.recordOwner?, grown.owner_eq, grown.kind_eq]
    simp only [owners, Model.parameters, grown.membersWhere_eq, grown.kind_eq]
  · have needs (other : NodeId) :
        Concur (Mirrors u m more) (Query.typeDependencies u other) fun _ => True :=
      concur_typeDependencies fresh.linked other
    split
    · have bases : Concur (Mirrors u m more) (Query.bases u id) fun _ => True :=
        (concur_baseList fresh id).bind fun _ _ => .pure trivial
      exact bases.bind fun _ _ => .pure trivial
    · exact .pure trivial
    · refine (needs id).bind fun returned _ => Concur.foldlM (fun needed _ param _ => ?_) trivial
      exact (needs param).bind fun _ _ => .pure trivial
    · exact (concur_resolveBase fresh.linked id).bind fun _ _ => .pure trivial
    all_goals first | exact needs id | exact .pure trivial

theorem concur_fieldDependencies (bound : Nat) (id : NodeId) :
    Concur (Mirrors u m more) (Query.fieldDependencies u bound id) fun _ => True := by
  induction bound generalizing id with
  | zero => exact fun _ _ _ => .endless
  | succ bound ih =>
    refine (concur_typeDependency fresh.linked id).bind fun found _ => ?_
    cases found with
    | none => exact .pure trivial
    | some target =>
      dsimp only
      split
      · exact .pure trivial
      · refine .model (fun _ _ mirrors => mirrors.coherents) (fun n grown => by rw [grown.kind_eq]) ?_
        split
        · exact (ih target).bind fun _ _ => .pure trivial
        · exact (concur_plainDependencies fresh target).bind fun _ _ => .pure trivial

theorem concur_dependencies (id : NodeId) :
    Concur (Mirrors u m more) (Query.dependencies u id) fun _ => True := by
  intro d e mirrors
  obtain ⟨left, right⟩ := mirrors.coherents
  change Paired _ _ ((if d.model.kind id = .field then _ else _ : Query (OrderedSet NodeId)) d)
    ((if e.model.kind id = .field then _ else _ : Query (OrderedSet NodeId)) e)
  rw [left.grown.kind_eq, right.grown.kind_eq]
  split
  · exact (concur_fieldDependencies fresh (m.size + 1) id d e mirrors).of_toOption
      (fieldDependencies_eq left id) (fieldDependencies_eq right id)
  · exact concur_plainDependencies fresh id d e mirrors

theorem unison_mirrors : Unison u m (Mirrors u m more) where
  coherents _ _ mirrors := mirrors.coherents
  dependencies id := by
    refine (concur_dependencies fresh id).strengthen (fun _ _ mirrors => mirrors.coherents)
      fun d coherent => ?_
    exact (meets_dependencies coherent id).weaken fun _ means => Meaning.noMarkers_needs? means
  bases record := (concur_baseList fresh record).bind fun _ _ => .pure trivial
  unresolvedBases record := (concur_baseList fresh record).bind fun _ _ => .pure trivial

end

end Bindery
