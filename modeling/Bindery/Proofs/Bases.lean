import Bindery.Proofs.Aliases
import Bindery.Proofs.Reporting

/-! What becomes of base specifiers. Each stands for one record or for none, seen through aliases. The
bases of a record are the records that its specifiers stand for, first come first; a specifier that
stands for the record itself is reported, and so is one that stands for nothing. Every report is made
once, when the bases are first asked for. -/

set_option autoImplicit false

namespace Bindery

open Ast (TranslationUnit)

/-! ## First occurrences -/

/-- An element occurs in a list before another does, if that does at all. -/
def OccursFirst {α : Type} (items : List α) (a b : α) : Prop :=
  ∃ front back, items = front ++ a :: back ∧ b ∉ front ++ [a]

-- What occurs first among all that items yield comes from an item before any that yields the other.
theorem OccursFirst.exists_item {ι α : Type} {yields : ι → Option α} {items : List ι} {a b : α}
    (first : OccursFirst (items.filterMap yields) a b) :
    ∃ front item back, items = front ++ item :: back ∧ yields item = some a ∧
      ∀ other ∈ front ++ [item], yields other ≠ some b := by
  obtain ⟨early, late, split, absent⟩ := first
  obtain ⟨before, rest, rfl, rfl, others⟩ := List.filterMap_eq_append_iff.mp split
  obtain ⟨skipped, item, back, rfl, nothing, yielded, _⟩ := List.filterMap_eq_cons_iff.mp others
  refine ⟨before ++ skipped, item, back, by simp, yielded, fun other member found => absent ?_⟩
  rcases List.mem_append.mp member with front | last
  · rcases List.mem_append.mp front with earlier | passed
    · exact List.mem_append_left _ (List.mem_filterMap.mpr ⟨other, earlier, found⟩)
    · rw [nothing other passed] at found
      cases found
  · rw [List.mem_singleton.mp last, yielded] at found
    cases found
    exact List.mem_append_right _ List.mem_cons_self

namespace OrderedSet

variable {α : Type} [DecidableEq α]

theorem pairwise_ofList (items : List α) : (ofList items).toList.Pairwise (OccursFirst items) := by
  induction items using List.reverseRecOn with
  | nil => exact .nil
  | append_singleton items last ih =>
    have kept : (ofList items).toList.Pairwise (OccursFirst (items ++ [last])) := by
      refine ih.imp ?_
      rintro a b ⟨front, back, rfl, absent⟩
      exact ⟨front, back ++ [last], by simp, absent⟩
    rw [ofList_append_singleton, toList_insert]
    split
    · exact kept
    · next new =>
      refine List.pairwise_append.mpr ⟨kept, List.pairwise_singleton _ last, ?_⟩
      intro a member b single
      rw [List.mem_singleton.mp single]
      obtain ⟨front, back, split⟩ := List.append_of_mem (mem_ofList.mp member)
      refine ⟨front, back ++ [last], by simp [split], fun inside => new (mem_ofList.mpr ?_)⟩
      rw [split, List.append_cons]
      exact List.mem_append_left back inside

end OrderedSet

/-! ## The record of a base specifier -/

/-- A base specifier whose first reference is not of an invalid type stands for the record that its
type denotes, or for the record at the end of the aliases that start there. -/
structure StandsFor (u : TranslationUnit) (d : Draft) (specifier base : NodeId) : Prop where
  named : ∃ first, Query.firstReference? d.model specifier = some first ∧
    ∀ type, (u.cursor? first).bind (·.type) = some type → u.isValidType type
  leads : ∃ target e, Query.resolveType u specifier d = .ok (some target, e) ∧
    (target = base ∨ (e.model.kind target).isAlias ∧ ∃ k, ChainEnds u e target (some base) k)
  isRecord : (d.model.kind base).isRecord

/-- What a base specifier of a record reports: nothing if it stands for another record. -/
inductive BaseReport (u : TranslationUnit) (d : Draft) (record specifier : NodeId) :
    Option Diagnostic → Prop where
  | yields {base : NodeId} (stands : StandsFor u d specifier base) (apart : base ≠ record) :
    BaseReport u d record specifier none
  | self (stands : StandsFor u d specifier record) :
    BaseReport u d record specifier
      (some (.selfBase (d.model.fullName record) (d.model.node specifier).location))
  | unresolved (nothing : ∀ base, ¬ StandsFor u d specifier base) :
    BaseReport u d record specifier
      (some (.unresolvedBase (d.model.fullName record) (d.model.node specifier).displayName
        (d.model.node specifier).location))

variable {u : TranslationUnit} {m : Model} {d e : Draft} {record specifier base : NodeId}

theorem NodeKind.standsIn_of_isAlias {kind : NodeKind} (isAlias : kind.isAlias) : kind.standsIn := by
  rw [NodeKind.standsIn, isAlias, Bool.or_true]

namespace Meaning

theorem onlyRecord_eq_some_iff {found : Option NodeId} :
    onlyRecord m found = some base ↔ found = some base ∧ (m.kind base).isRecord :=
  Option.filter_eq_some_iff

theorem recordBehind?_eq_some_iff {target : NodeId} :
    recordBehind? u m target = some (some base) ↔
      (target = base ∨ (m.kind target).isAlias ∧ behind? u m target = some (some base)) ∧
        (m.kind base).isRecord := by
  have apart (isAlias : (m.kind target).isAlias) (isRecord : (m.kind base).isRecord) :
      target ≠ base := by
    rintro rfl
    revert isAlias isRecord
    cases m.kind target <;> simp [NodeKind.isAlias, NodeKind.isRecord]
  unfold recordBehind?
  split
  · next isAlias =>
    simp only [Option.map_eq_some_iff, onlyRecord_eq_some_iff, ↓existsAndEq, true_and, isAlias]
    constructor
    · exact fun both => ⟨.inr both.1, both.2⟩
    · rintro ⟨here | behind, isRecord⟩
      · exact absurd here (apart isAlias isRecord)
      · exact ⟨behind, isRecord⟩
  · next plain => simp [onlyRecord_eq_some_iff, plain]

/-- A specifier whose first reference is not marked invalid leads to the record behind the node it
denotes. -/
theorem base?_eq_some_iff :
    base? u m specifier = some (some base) ↔
      (∃ first, Query.firstReference? m specifier = some first ∧
        ∀ type, (u.cursor? first).bind (·.type) = some type → u.isValidType type) ∧
      ∃ target, ofNode? u m specifier = some (some (.node target)) ∧
        recordBehind? u m target = some (some base) := by
  unfold base?
  cases Query.firstReference? m specifier with
  | none => simp
  | some first =>
    cases typed : (u.cursor? first).bind (·.type) with
    | none => rcases ofNode? u m specifier with _ | _ | _ | _ <;> simp [typed]
    | some type =>
      by_cases valid : u.isValidType type
      · rcases ofNode? u m specifier with _ | _ | _ | _ <;> simp [typed, valid]
      · simp [typed, valid]

end Meaning

theorem standsFor_iff (coherent : Coherent u m [] d.model) :
    StandsFor u d specifier base ↔ Meaning.base? u m specifier = some (some base) := by
  rw [Meaning.base?_eq_some_iff]
  have reference : Query.firstReference? d.model specifier = Query.firstReference? m specifier :=
    Meaning.firstReference?_extends coherent.grown specifier
  constructor
  · rintro ⟨named, ⟨target, e, ran, leads⟩, isRecord⟩
    obtain ⟨denoted, means, coherent', _, right⟩ :=
      (answers_resolveType coherent specifier).of_ok ran
    rw [coherent.grown.kind_eq] at isRecord
    rw [coherent'.grown.kind_eq] at leads
    have declared := NodeKind.ne_builtin_of_isDeclaration (NodeKind.isDeclaration_of_isRecord isRecord)
    have real : e.model.kind target ≠ .builtin := by
      rw [coherent'.grown.kind_eq]
      rcases leads with rfl | ⟨isAlias, _⟩
      · exact declared
      · exact Meaning.ne_builtin_of_standsIn (NodeKind.standsIn_of_isAlias isAlias)
    refine ⟨reference ▸ named, target, right.eq_node real ▸ means, ?_⟩
    rw [Meaning.recordBehind?_eq_some_iff]
    refine ⟨leads.imp_right fun ⟨isAlias, k, ends⟩ => ⟨isAlias, ?_⟩, isRecord⟩
    rw [behind?_eq_some_iff coherent' (NodeKind.standsIn_of_isAlias isAlias)]
    exact ⟨k, ends, declared⟩
  · rintro ⟨named, target, means, behind⟩
    obtain ⟨leads, isRecord⟩ := Meaning.recordBehind?_eq_some_iff.mp behind
    obtain ⟨e, ran, coherent'⟩ := exists_resolveType coherent means
    refine ⟨reference.symm ▸ named, ⟨target, e, ran, leads.imp_right ?_⟩,
      by rwa [coherent.grown.kind_eq]⟩
    rintro ⟨isAlias, ends⟩
    rw [behind?_eq_some_iff coherent' (NodeKind.standsIn_of_isAlias isAlias)] at ends
    obtain ⟨k, ended, _⟩ := ends
    exact ⟨by rwa [coherent'.grown.kind_eq], k, ended⟩

/-- Where pointers form no ring, a specifier stands for nothing if the model means none by it. -/
theorem standsFor_nothing_iff (acyclic : u.AcyclicPointees) (coherent : Coherent u m [] d.model) :
    (∀ base, ¬ StandsFor u d specifier base) ↔ Meaning.base? u m specifier = some none := by
  obtain ⟨behind, means⟩ :=
    Option.ne_none_iff_exists'.mp (Meaning.base?_ne_none (m := m) acyclic specifier)
  cases behind <;> simp [standsFor_iff coherent, means]

/-! ## The bases of a record -/

namespace Meaning

/-- What a specifier adds to the bases of a record. -/
def yield? (u : TranslationUnit) (m : Model) (record specifier : NodeId) : Option NodeId :=
  ((base? u m specifier).join).filter (· ≠ record)

theorem yield?_eq_some_iff :
    yield? u m record specifier = some base ↔
      base? u m specifier = some (some base) ∧ base ≠ record := by
  simp [yield?, Option.filter_eq_some_iff, Option.join_eq_some_iff]

theorem foldlM_addBase?_eq (acyclic : u.AcyclicPointees) (specifiers : List NodeId)
    (found : BaseList) :
    specifiers.foldlM (addBase? u m record) found = some
      { resolved := found.resolved.insertAll (specifiers.filterMap (yield? u m record))
        unresolved := found.unresolved + specifiers.countP (base? u m · = some none) } := by
  induction specifiers generalizing found with
  | nil => rfl
  | cons specifier rest ih =>
    obtain ⟨behind, means⟩ :=
      Option.ne_none_iff_exists'.mp (base?_ne_none (m := m) acyclic specifier)
    rw [List.foldlM_cons, addBase?, means]
    cases behind with
    | none =>
      have nothing : yield? u m record specifier = none := by simp [yield?, means]
      simp [ih, nothing, means, Nat.add_assoc, Nat.add_comm 1]
    | some base =>
      by_cases self : base = record
      · have nothing : yield? u m record specifier = none := by
          simp [yield?, means, self, Option.filter_some]
        simp [self, ih, nothing, means]
      · have yields : yield? u m record specifier = some base :=
          yield?_eq_some_iff.mpr ⟨means, self⟩
        simp [self, ih, yields, means, OrderedSet.insertAll]

theorem bases?_eq (acyclic : u.AcyclicPointees) (record : NodeId) :
    bases? u m record = some
      { resolved := .ofList ((m.baseSpecifiers record).filterMap (yield? u m record))
        unresolved := (m.baseSpecifiers record).countP (base? u m · = some none) } := by
  rw [bases?, foldlM_addBase?_eq acyclic, Nat.zero_add]
  rfl

end Meaning

theorem mem_yields_iff (coherent : Coherent u m [] d.model) :
    base ∈ OrderedSet.ofList ((m.baseSpecifiers record).filterMap (Meaning.yield? u m record)) ↔
      base ≠ record ∧ ∃ specifier ∈ m.baseSpecifiers record, StandsFor u d specifier base := by
  simp only [OrderedSet.mem_ofList, List.mem_filterMap, Meaning.yield?_eq_some_iff,
    standsFor_iff coherent]
  constructor
  · rintro ⟨specifier, inside, here, apart⟩
    exact ⟨apart, specifier, inside, here⟩
  · rintro ⟨apart, specifier, inside, here⟩
    exact ⟨specifier, inside, here, apart⟩

/-- Bases are in the order of the first specifiers that stand for them. -/
theorem pairwise_yields (coherent : Coherent u m [] d.model) :
    (OrderedSet.ofList ((m.baseSpecifiers record).filterMap
      (Meaning.yield? u m record))).toList.Pairwise fun base later =>
        ∃ front specifier back, m.baseSpecifiers record = front ++ specifier :: back ∧
          StandsFor u d specifier base ∧
          ∀ other ∈ front ++ [specifier], ¬ StandsFor u d other later := by
  refine (OrderedSet.pairwise_ofList _).imp_of_mem fun {base later} _ inside first => ?_
  obtain ⟨front, specifier, back, split, yields, none⟩ := first.exists_item
  have apart : later ≠ record := ((mem_yields_iff coherent).mp inside).1
  refine ⟨front, specifier, back, split, ?_, fun other before here => ?_⟩
  · exact (standsFor_iff coherent).mpr (Meaning.yield?_eq_some_iff.mp yields).1
  · exact none other before (Meaning.yield?_eq_some_iff.mpr ⟨(standsFor_iff coherent).mp here, apart⟩)

/-- Of a base specifier there is one report, or it yields a base, and which it is can be read off the
model. -/
theorem baseReport_iff (acyclic : u.AcyclicPointees) (links : m.Linked)
    (coherent : Coherent u m [] d.model) (listed : specifier ∈ m.baseSpecifiers record)
    (report : Option Diagnostic) :
    BaseReport u d record specifier report ↔
      report = Meaning.baseCondition? u m record specifier := by
  obtain ⟨inside, inside'⟩ := inside_of_mem_baseSpecifiers listed
  have name := coherent.grown.fullName_eq links inside
  have shown := coherent.grown.displayName_eq inside'
  have location : (d.model.node specifier).location = (m.node specifier).location :=
    coherent.grown.kept_read Node.location (fun _ => rfl) inside'
  obtain ⟨behind, means⟩ :=
    Option.ne_none_iff_exists'.mp (Meaning.base?_ne_none (m := m) acyclic specifier)
  have stands (base : NodeId) : StandsFor u d specifier base ↔ behind = some base := by
    rw [standsFor_iff coherent, means, Option.some.injEq]
  rw [Meaning.baseCondition?, means, Option.bind_some]
  rw [← name, ← shown, ← location]
  cases behind with
  | none =>
    constructor
    · intro reported
      cases reported with
      | yields here _ => cases (stands _).mp here
      | self here => cases (stands _).mp here
      | unresolved _ => rfl
    · rintro rfl
      exact .unresolved fun base here => by cases (stands base).mp here
  | some base =>
    dsimp only
    constructor
    · intro reported
      cases reported with
      | yields here apart =>
        cases (stands _).mp here
        rw [if_neg apart]
      | self here =>
        cases (stands _).mp here
        rw [if_pos rfl]
      | unresolved nothing => exact absurd ((stands base).mpr rfl) (nothing base)
    · rintro rfl
      split
      · next self => exact .self ((stands record).mpr (congrArg some self))
      · next apart => exact .yields ((stands base).mpr rfl) apart

/-! ## What is reported -/

def Diagnostic.isOfBase : Diagnostic → Bool
  | .unresolvedBase .. | .selfBase .. => true
  | .unresolvedType .. | .unresolvedOwner .. | .rejectedChild .. | .parseMessage .. => false

theorem Diagnostic.isOfBase_eq_false {found : Diagnostic} (early : found.isLate = false) :
    found.isOfBase = false := by
  cases found <;> first | rfl | cases early

namespace Meaning

theorem filter_conditions_type (id : NodeId) :
    (conditions u m (.type id)).filter Diagnostic.isOfBase = [] := by
  rw [List.filter_eq_nil_iff]
  intro found member
  obtain ⟨spelling, rfl⟩ := exists_of_typeCondition? (Option.mem_toList.mp member)
  simp [Diagnostic.isOfBase]

theorem filter_conditions_bases (record : NodeId) :
    (conditions u m (.bases record)).filter Diagnostic.isOfBase =
      conditions u m (.bases record) := by
  rw [List.filter_eq_self]
  intro found member
  obtain ⟨specifier, _, condition⟩ := List.mem_filterMap.mp member
  rcases (onceEach u m).base record specifier found condition with rfl | rfl <;> rfl

end Meaning

/-- The nodes whose bases a later model has settled. -/
def Model.settledRecords (m n : Model) : Finset NodeId :=
  m.ids.toFinset.filter fun record => (n.node record).bases.isSome

theorem Model.mem_settledRecords {n : Model} :
    record ∈ m.settledRecords n ↔ .bases record ∈ m.settled n := by
  simp [settledRecords, mem_settled, mem_ids, settles]

-- Of all that is settled, only bases have conditions of this sort.
theorem filter_tally (n : Model) :
    (m.tally u n).filter (Diagnostic.isOfBase ·) =
      ∑ record ∈ m.settledRecords n,
        (Meaning.conditions u m (.bases record) : Multiset Diagnostic) := by
  have parts : (m.tally u n).filter (Diagnostic.isOfBase ·) = ∑ matter ∈ m.settled n,
      ((Meaning.conditions u m matter).filter Diagnostic.isOfBase : Multiset Diagnostic) := by
    refine Finset.sum_hom_rel
      (r := fun all kept : Multiset Diagnostic => all.filter (Diagnostic.isOfBase ·) = kept)
      (Multiset.filter_zero _) ?_
    rintro matter rest _ rfl
    rw [Multiset.filter_add, Multiset.filter_coe]
    simp
  have images : (m.settledRecords n).image Matter.bases ⊆ m.settled n := by
    intro matter member
    obtain ⟨record, settled, rfl⟩ := Finset.mem_image.mp member
    exact Model.mem_settledRecords.mp settled
  rw [parts, ← Finset.sum_subset images, Finset.sum_image fun _ _ _ _ same => Matter.bases.inj same]
  · exact Finset.sum_congr rfl fun record _ => by rw [Meaning.filter_conditions_bases]
  · intro matter settled apart
    cases matter with
    | type id => rw [Meaning.filter_conditions_type, Multiset.coe_nil]
    | bases record =>
      exact absurd (Finset.mem_image_of_mem _ (Model.mem_settledRecords.mpr settled)) apart

theorem settled_of_bases (coherent : Coherent u m [] d.model) (inside : record.index < m.size)
    {found : List NodeId} (ran : Query.bases u record d = .ok (found, e)) :
    record ∈ m.settledRecords e.model := by
  rw [Model.mem_settledRecords, Model.mem_settled, Model.bases_mem_matters]
  refine ⟨inside, ?_⟩
  obtain ⟨_, _, coherent', _⟩ := (answers_bases coherent record).of_ok ran
  have large := coherent'.grown.size_le
  obtain ⟨list, _, ran, ended⟩ := Query.exists_of_bind_eq_ok ran
  cases ended
  obtain ⟨_, _, read, ran⟩ := Query.exists_of_bind_eq_ok ran
  cases read
  cases known : (d.model.node record).bases with
  | some _ =>
    rw [known] at ran
    cases ran
    simp [Model.settles, known]
  | none =>
    rw [known] at ran
    obtain ⟨_, k, _, ran⟩ := Query.exists_of_bind_eq_ok ran
    obtain ⟨_, _, notes, ran⟩ := Query.exists_of_bind_eq_ok ran
    cases ran
    cases notes
    have here : record.index < k.model.size := by
      rw [Model.size_update] at large
      exact Nat.lt_of_lt_of_le inside large
    simp [Model.settles, Model.node_update, here]

/-- What has been recorded of base specifiers by the time that the bases of a record are known are the
conditions of all records whose bases are settled. -/
theorem filter_diagnostics (f : Factory) {asked : List Question} {found : List NodeId}
    (ran : Question.askAll u asked (freshDraft u f) = .ok ((), d))
    (ran' : Query.bases u record d = .ok (found, e)) :
    (e.diagnostics.filter Diagnostic.isOfBase : Multiset Diagnostic) =
      ∑ other ∈ (freshDraft u f).model.settledRecords e.model,
        (Meaning.conditions u (freshDraft u f).model (.bases other) : Multiset Diagnostic) := by
  obtain ⟨coherent, balanced⟩ := balanced_of_askAll f ran
  have balances : Query.Balances u (freshDraft u f).model (Query.bases u record) :=
    reads_balances.toComposes.map (balances_baseList (Session.fresh_build u f).linked record) _
  obtain ⟨late, recorded, even⟩ := (balances d coherent found e ran').2 _ _ balanced
  have early : (freshDraft u f).diagnostics.filter Diagnostic.isOfBase = [] := by
    rw [List.filter_eq_nil_iff]
    intro found member
    have first := early_build u f _ (runs_build u f).final_mem found member
    simp [Diagnostic.isOfBase_eq_false first]
  have kept : (late.filter Diagnostic.isOfBase : Multiset Diagnostic) =
      (late : Multiset Diagnostic).filter (Diagnostic.isOfBase ·) := by simp
  rw [recorded, List.filter_append, early, List.nil_append, kept, even, add_zero, filter_tally]

/-- The bases of a record are known in every session of a unit whose pointers form no ring. They are
other records, each once, in the order of the first base specifiers that stand for them, and whether
some specifier stands for nothing is known as well. Each specifier either yields a base, or has one
report, that it stands for the record itself or that it stands for nothing. What has been recorded of
this sort by then are the reports of all records whose bases have been settled, and the record is one of
them. -/
theorem bases_accounted (f : Factory) (asked : List Question) (d : Draft)
    (ran : Question.askAll u asked (freshDraft u f) = .ok ((), d)) (acyclic : u.AcyclicPointees)
    (record : NodeId) :
    let m := (freshDraft u f).model
    ∃ (found : List NodeId) (lacks : Bool) (e k : Draft),
      Query.bases u record d = .ok (found, e) ∧
      Query.hasUnresolvedBases u record d = .ok (lacks, k) ∧
      found.Nodup ∧ record ∉ found ∧ (∀ base ∈ found, (m.kind base).isRecord) ∧
      (∀ base, base ∈ found ↔
        base ≠ record ∧ ∃ specifier ∈ m.baseSpecifiers record, StandsFor u d specifier base) ∧
      (found.Pairwise fun base later => ∃ front specifier back,
        m.baseSpecifiers record = front ++ specifier :: back ∧ StandsFor u d specifier base ∧
        ∀ other ∈ front ++ [specifier], ¬ StandsFor u d other later) ∧
      (lacks = true ↔
        ∃ specifier ∈ m.baseSpecifiers record, ∀ base, ¬ StandsFor u d specifier base) ∧
      (∀ other, ∀ specifier ∈ m.baseSpecifiers other, ∀ report,
        BaseReport u d other specifier report ↔
          report = Meaning.baseCondition? u m other specifier) ∧
      ∃ settled : Finset NodeId, (record.index < m.size → record ∈ settled) ∧
        (∀ other, other ∈ settled ↔
          other.index < m.size ∧ (e.model.node other).bases.isSome) ∧
        (e.diagnostics.filter Diagnostic.isOfBase : Multiset Diagnostic) = ∑ other ∈ settled,
          ((m.baseSpecifiers other).filterMap (Meaning.baseCondition? u m other) :
            Multiset Diagnostic) := by
  intro m
  have links : m.Linked := (Session.fresh_build u f).linked
  have coherent : Coherent u m [] d.model := (balanced_of_askAll f ran).1
  have listed := answers_bases coherent record
  have lacking := answers_hasUnresolvedBases coherent record
  rw [Meaning.bases?_eq acyclic] at listed lacking
  obtain ⟨_, e, ran', _, _, rfl⟩ := listed
  obtain ⟨_, k, ran'', _, _, rfl⟩ := lacking
  have members (base : NodeId) :
      base ∈ OrderedSet.ofList ((m.baseSpecifiers record).filterMap (Meaning.yield? u m record)) ↔
        base ≠ record ∧ ∃ specifier ∈ m.baseSpecifiers record, StandsFor u d specifier base :=
    mem_yields_iff coherent
  refine ⟨_, _, e, k, ran', ran'', OrderedSet.nodup _, ?_, ?_, members, pairwise_yields coherent,
    ?_, ?_, ?_⟩
  · exact fun inside => ((members record).mp inside).1 rfl
  · intro base inside
    obtain ⟨_, specifier, _, here⟩ := (members base).mp inside
    exact coherent.grown.kind_eq base ▸ here.isRecord
  · simp [List.countP_pos_iff, standsFor_nothing_iff acyclic coherent, m]
  · exact fun other specifier inside => baseReport_iff acyclic links coherent inside
  · refine ⟨m.settledRecords e.model, fun inside => settled_of_bases coherent inside ran', ?_,
      filter_diagnostics f ran ran'⟩
    simp [Model.settledRecords, Model.mem_ids]

/-- `struct Ship : Craft, Ship, Lost, Boat {};` where `Craft` stands for `Vessel`, which stands for the
record `Boat`, and `Lost` is declared nowhere. -/
def fleet : TranslationUnit where
  path := "fleet.h"
  root := ⟨0⟩
  cursors := #[
    { kind := .translationUnit, children := [⟨1⟩, ⟨2⟩, ⟨4⟩, ⟨6⟩] },
    { kind := .structDecl, spelling := "Boat", usr := some "c:Boat", semanticParent := some ⟨0⟩ },
    { kind := .typedefDecl, spelling := "Vessel", usr := some "c:Vessel",
      semanticParent := some ⟨0⟩, children := [⟨3⟩] },
    { kind := .typeRef, spelling := "Boat", definition := some ⟨1⟩ },
    { kind := .typeAliasDecl, spelling := "Craft", usr := some "c:Craft",
      semanticParent := some ⟨0⟩, children := [⟨5⟩] },
    { kind := .typeRef, spelling := "Vessel", definition := some ⟨2⟩ },
    { kind := .structDecl, spelling := "Ship", usr := some "c:Ship", semanticParent := some ⟨0⟩,
      children := [⟨7⟩, ⟨9⟩, ⟨11⟩, ⟨13⟩] },
    { kind := .cxxBaseSpecifier, spelling := "Craft", semanticParent := some ⟨6⟩,
      children := [⟨8⟩] },
    { kind := .typeRef, spelling := "Craft", definition := some ⟨4⟩ },
    { kind := .cxxBaseSpecifier, spelling := "Ship", semanticParent := some ⟨6⟩,
      children := [⟨10⟩] },
    { kind := .typeRef, spelling := "Ship", definition := some ⟨6⟩ },
    { kind := .cxxBaseSpecifier, spelling := "Lost", semanticParent := some ⟨6⟩,
      children := [⟨12⟩] },
    { kind := .typeRef, spelling := "Lost" },
    { kind := .cxxBaseSpecifier, spelling := "Boat", semanticParent := some ⟨6⟩,
      children := [⟨14⟩] },
    { kind := .typeRef, spelling := "Boat", definition := some ⟨1⟩ }]

/-- Both `Craft` and `Boat` stand for the one base of the ship, whose bases have been settled by a
question for its needs. -/
theorem bases_accounted_fleet :
    fleet.AcyclicPointees ∧ ∃ d e k,
      Question.askAll fleet [.needs ⟨6⟩] (freshDraft fleet .standard) = .ok ((), d) ∧
      Query.bases fleet ⟨6⟩ d = .ok ([⟨1⟩], e) ∧
      Query.hasUnresolvedBases fleet ⟨6⟩ d = .ok (true, k) ∧
      BaseReport fleet d ⟨6⟩ ⟨7⟩ none ∧
      BaseReport fleet d ⟨6⟩ ⟨9⟩ (some (.selfBase "Ship" {})) ∧
      BaseReport fleet d ⟨6⟩ ⟨11⟩ (some (.unresolvedBase "Ship" "Lost" {})) ∧
      BaseReport fleet d ⟨6⟩ ⟨13⟩ none := by
  have acyclic : fleet.AcyclicPointees := Ast.TranslationUnit.acyclicPointees_of_lt (by decide)
  have bases : (Question.askAll fleet [.needs ⟨6⟩] >>= fun _ => Query.bases fleet ⟨6⟩).answer?
      (freshDraft fleet .standard) = some [⟨1⟩] := by decide +kernel
  have unresolved : (Question.askAll fleet [.needs ⟨6⟩] >>= fun _ =>
      Query.hasUnresolvedBases fleet ⟨6⟩).answer? (freshDraft fleet .standard) = some true := by
    decide +kernel
  match ran : Question.askAll fleet [.needs ⟨6⟩] (freshDraft fleet .standard) with
  | .error _ =>
    rw [Query.answer?, Query.bind_apply, ran] at bases
    cases bases
  | .ok ((), d) =>
    rw [Query.answer?, Query.bind_apply, ran] at bases unresolved
    obtain ⟨found, lacks, e, k, ran', ran'', _, _, _, _, _, _, reports, _⟩ :=
      bases_accounted .standard [.needs ⟨6⟩] d ran acyclic ⟨6⟩
    dsimp only at bases unresolved
    rw [ran'] at bases
    rw [ran''] at unresolved
    cases bases
    cases unresolved
    have report (specifier : NodeId) (found : Option Diagnostic)
        (listed : specifier ∈ (freshDraft fleet .standard).model.baseSpecifiers ⟨6⟩)
        (reported : found =
          Meaning.baseCondition? fleet (freshDraft fleet .standard).model ⟨6⟩ specifier) :
        BaseReport fleet d ⟨6⟩ specifier found :=
      (reports ⟨6⟩ specifier listed found).mpr reported
    refine ⟨acyclic, d, e, k, rfl, ran', ran'', ?_, ?_, ?_, ?_⟩
    · exact report ⟨7⟩ none (by decide +kernel) (by decide +kernel)
    · exact report ⟨9⟩ _ (by decide +kernel) (by decide +kernel)
    · exact report ⟨11⟩ _ (by decide +kernel) (by decide +kernel)
    · exact report ⟨13⟩ none (by decide +kernel) (by decide +kernel)

end Bindery
