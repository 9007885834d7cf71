import Bindery.Proofs.Model.Chain
import Bindery.Proofs.Model.Naming
import Bindery.Proofs.Pointers

/-! Chains of aliases. A session that is asked for the type of a node, and then again for the type of
every alias or reference it answers, comes to a declaration, to a marker or to nothing, or answers an
alias a second time. What the type of a node brings in is the declaration at the end of that chain,
so that nothing a node needs only stands in for something else. -/

set_option autoImplicit false

namespace Bindery

open Ast (TranslationUnit)
open Relation (ReflTransGen TransGen)

/-- Asked for the type of a node, the session answers an alias or a reference, which it is asked about
next. -/
def Passes (u : TranslationUnit) (here next : Draft × NodeId) : Prop :=
  Query.resolveType u here.2 here.1 = .ok (some next.2, next.1) ∧
    (next.1.model.kind next.2).standsIn

/-- The chain of types from a node comes to one that does not stand in for another, or to none. -/
def ChainEnds (u : TranslationUnit) (d : Draft) (id : NodeId) (target : Option NodeId) (e : Draft) :
    Prop :=
  ∃ last, ReflTransGen (Passes u) (d, id) last ∧
    Query.resolveType u last.2 last.1 = .ok (target, e) ∧
    ∀ other ∈ target, ¬ (e.model.kind other).standsIn

/-- The chain of types from a node comes to an alias or reference twice. -/
def ChainRings (u : TranslationUnit) (d : Draft) (id : NodeId) : Prop :=
  ∃ first again, ReflTransGen (Passes u) (d, id) first ∧ TransGen (Passes u) first again ∧
    again.2 = first.2

variable {u : TranslationUnit} {m : Model} {d e : Draft} {id next : NodeId}

namespace Meaning

theorem ne_builtin_of_standsIn (stands : (m.kind id).standsIn) : m.kind id ≠ .builtin := by
  intro builtin
  rw [builtin] at stands
  cases stands

theorem ids_carry_chains : ∀ id next, chainStep u m id = .inr next → id ∈ m.ids :=
  fun _ _ => mem_ids_of_chainStep

theorem leadsTo_chainStep_iff :
    LeadsTo (chainStep u m) id next ↔
      (m.kind id).standsIn ∧ ofNode? u m id = some (some (.node next)) := by
  rw [LeadsTo, chainStep_eq_inr_iff]
  exact ⟨fun leads => leads.2, fun leads => ⟨ne_builtin_of_standsIn leads.1, leads⟩⟩

theorem chainStep_of_not_standsIn (stays : ¬ (m.kind id).standsIn) :
    chainStep u m id = .inl (some (if m.kind id = .builtin then none else some id)) := by
  unfold NodeKind.standsIn at stays
  unfold chainStep
  split
  · rfl
  · rfl

theorem behind?_of_not_standsIn (stays : ¬ (m.kind id).standsIn) :
    behind? u m id = some (if m.kind id = .builtin then none else some id) := by
  rw [behind?, chainEnd?, chase, chainStep_of_not_standsIn stays]

-- One step more is allowed for, which makes no difference.
theorem behind?_of_standsIn (stands : (m.kind id).standsIn) :
    behind? u m id = typeDependency? u m id := by
  have roomy : chainEnd? u m (m.size + 2) id = behind? u m id := chainEnd?_eq (by omega) id
  have real := ne_builtin_of_standsIn stands
  unfold NodeKind.standsIn at stands
  rw [← roomy, chainEnd?_succ, if_neg real, if_pos stands]
  rfl

/-- A type that stands in for another always has a meaning. -/
theorem ofNode?_ne_none_of_standsIn (stands : (m.kind id).standsIn) : ofNode? u m id ≠ none := by
  intro endless
  rw [(ofNode?_eq_none_iff.mp endless).1] at stands
  cases stands

end Meaning

/-! ## Asked and meant -/

section

variable {here there last : Draft × NodeId}

theorem Represents.eq_node {n : Model} {denoted : Option Denoted}
    (right : Represents n (some id) denoted) (real : n.kind id ≠ .builtin) :
    denoted = some (.node id) := by
  match denoted, right with
  | some (.node _), rfl => rfl
  | some (.marker _), right => exact absurd right.2 real

theorem Passes.means (passes : Passes u here there) (coherent : Coherent u m [] here.1.model) :
    Coherent u m [] there.1.model ∧ (m.kind there.2).standsIn ∧
      Meaning.ofNode? u m here.2 = some (some (.node there.2)) := by
  obtain ⟨ran, stands⟩ := passes
  obtain ⟨target, means, coherent', _, right⟩ := (answers_resolveType coherent here.2).of_ok ran
  have real := Meaning.ne_builtin_of_standsIn stands
  rw [coherent'.grown.kind_eq] at stands
  exact ⟨coherent', stands, right.eq_node real ▸ means⟩

/-- A type that denotes a node is answered with the node. -/
theorem exists_resolveType (coherent : Coherent u m [] d.model)
    (means : Meaning.ofNode? u m id = some (some (.node next))) :
    ∃ e, Query.resolveType u id d = .ok (some next, e) ∧ Coherent u m [] e.model := by
  have answers := answers_resolveType coherent id
  rw [means] at answers
  obtain ⟨given, e, ran, coherent', _, right⟩ := answers
  match given, right with
  | some _, rfl => exact ⟨e, ran, coherent'⟩

theorem exists_passes (coherent : Coherent u m [] d.model) (stands : (m.kind next).standsIn)
    (means : Meaning.ofNode? u m id = some (some (.node next))) :
    ∃ e, Coherent u m [] e.model ∧ Passes u (d, id) (e, next) := by
  obtain ⟨e, ran, coherent'⟩ := exists_resolveType coherent means
  exact ⟨e, coherent', ran, by rwa [coherent'.grown.kind_eq]⟩

/-- On the way along a chain, what a type brings in is always the same. -/
theorem means_of_reflTransGen (coherent : Coherent u m [] here.1.model)
    (path : ReflTransGen (Passes u) here last) :
    Coherent u m [] last.1.model ∧
      Meaning.typeDependency? u m here.2 = Meaning.typeDependency? u m last.2 := by
  induction path with
  | refl => exact ⟨coherent, rfl⟩
  | tail _ passes ih =>
    obtain ⟨coherent', stands, means⟩ := passes.means ih.1
    refine ⟨coherent', ih.2.trans ?_⟩
    rw [← Meaning.behind?_of_standsIn stands, Meaning.typeDependency?, means]
    rfl

theorem leadsTo_of_transGen (coherent : Coherent u m [] here.1.model)
    (stands : (m.kind here.2).standsIn) (path : TransGen (Passes u) here last) :
    (Coherent u m [] last.1.model ∧ (m.kind last.2).standsIn) ∧
      TransGen (LeadsTo (Meaning.chainStep u m)) here.2 last.2 := by
  induction path with
  | single passes =>
    obtain ⟨coherent', stands', means⟩ := passes.means coherent
    exact ⟨⟨coherent', stands'⟩, .single (Meaning.leadsTo_chainStep_iff.mpr ⟨stands, means⟩)⟩
  | tail _ passes ih =>
    obtain ⟨coherent', stands', means⟩ := passes.means ih.1.1
    exact ⟨⟨coherent', stands'⟩,
      .tail ih.2 (Meaning.leadsTo_chainStep_iff.mpr ⟨ih.1.2, means⟩)⟩

/-- What leads on can be asked about, one after the other. -/
theorem exists_path (coherent : Coherent u m [] d.model)
    (leads : ReflTransGen (LeadsTo (Meaning.chainStep u m)) id next)
    (stands : (m.kind next).standsIn) :
    ∃ e, Coherent u m [] e.model ∧ ReflTransGen (Passes u) (d, id) (e, next) := by
  induction leads with
  | refl => exact ⟨d, coherent, .refl⟩
  | tail _ step ih =>
    obtain ⟨stands', means⟩ := Meaning.leadsTo_chainStep_iff.mp step
    obtain ⟨e, coherent', path⟩ := ih stands'
    obtain ⟨k, coherent'', passes⟩ := exists_passes coherent' stands means
    exact ⟨k, coherent'', path.tail passes⟩

theorem typeDependency?_of_chainEnds (coherent : Coherent u m [] d.model) {target : Option NodeId}
    (ends : ChainEnds u d id target e) :
    Meaning.typeDependency? u m id = some (target.filter fun other => m.kind other ≠ .builtin) := by
  obtain ⟨last, path, ran, stays⟩ := ends
  obtain ⟨coherent', same⟩ := means_of_reflTransGen coherent path
  obtain ⟨denoted, means, coherent'', _, right⟩ := (answers_resolveType coherent' last.2).of_ok ran
  rw [same, Meaning.typeDependency?, means]
  cases target with
  | none =>
    cases denoted with
    | none => rfl
    | some _ => exact right.elim
  | some other =>
    cases denoted with
    | none => exact right.elim
    | some denoted =>
      cases denoted with
      | node same =>
        cases right
        have stays' := stays other rfl
        rw [coherent''.grown.kind_eq] at stays'
        change Meaning.behind? u m other = _
        rw [Meaning.behind?_of_not_standsIn stays', Option.filter_some]
        by_cases builtin : m.kind other = .builtin <;> simp [builtin]
      | marker spelling =>
        have builtin := right.2
        rw [coherent''.grown.kind_eq] at builtin
        simp [Option.filter_some, builtin]

theorem typeDependency?_of_chainRings (coherent : Coherent u m [] d.model)
    (rings : ChainRings u d id) : Meaning.typeDependency? u m id = some none := by
  obtain ⟨first, again, path, around, same⟩ := rings
  obtain ⟨coherent', brings⟩ := means_of_reflTransGen coherent path
  -- What is come back to was passed on the way, and so it stands in for another.
  have stands : (m.kind first.2).standsIn := by
    obtain ⟨mid, path', passes⟩ := TransGen.tail'_iff.mp around
    have stands' := (passes.means (means_of_reflTransGen coherent' path').1).2.1
    rwa [same] at stands'
  have ring := (leadsTo_of_transGen coherent' stands around).2
  rw [same] at ring
  have long : (trail (Meaning.chainStep u m) (m.size + 1) first.2).isSome :=
    (trail_isSome_iff m.ids Meaning.ids_carry_chains (by simp [Model.length_ids]) first.2).mpr
      ⟨first.2, .refl, ring⟩
  rw [brings, ← Meaning.behind?_of_standsIn stands]
  exact chase_of_trail_isSome (fun _ => rfl) long

/-! ## Every chain ends or goes around -/

theorem ChainEnds.after {target : Option NodeId} {k : Draft} (ends : ChainEnds u e next target k)
    (path : ReflTransGen (Passes u) (d, id) (e, next)) : ChainEnds u d id target k := by
  obtain ⟨last, path', ran, stays⟩ := ends
  exact ⟨last, path.trans path', ran, stays⟩

theorem ChainRings.after (rings : ChainRings u e next)
    (path : ReflTransGen (Passes u) (d, id) (e, next)) : ChainRings u d id := by
  obtain ⟨first, again, path', around, same⟩ := rings
  exact ⟨first, again, path.trans path', around, same⟩

-- An alias that leads nowhere has a type nevertheless, which is a marker or unknown.
theorem exists_end_of_answer (coherent : Coherent u m [] d.model) (stands : (m.kind id).standsIn)
    {answer : Option (Option NodeId)} (on : Meaning.chainStep u m id = .inl answer) :
    ∃ target e, ChainEnds u d id target e := by
  obtain ⟨denoted, means⟩ :=
    Option.ne_none_iff_exists'.mp (Meaning.ofNode?_ne_none_of_standsIn (u := u) stands)
  have answers := answers_resolveType coherent id
  rw [means] at answers
  obtain ⟨found, e, ran, _⟩ := answers
  refine ⟨found, e, (d, id), .refl, ran, fun other same stands' => ?_⟩
  cases same
  have passes : Passes u (d, id) (e, other) := ⟨ran, stands'⟩
  have onward := (passes.means coherent).2.2
  rw [Meaning.leadsTo_chainStep_iff.mpr ⟨stands, onward⟩] at on
  cases on

theorem exists_end_of_leadsTo (coherent : Coherent u m [] d.model)
    (leads : LeadsTo (Meaning.chainStep u m) id next) (stays : ¬ (m.kind next).standsIn) :
    ∃ target e, ChainEnds u d id target e := by
  obtain ⟨e, ran, coherent'⟩ :=
    exists_resolveType coherent (Meaning.leadsTo_chainStep_iff.mp leads).2
  refine ⟨some next, e, (d, id), .refl, ran, fun other same => ?_⟩
  cases same
  rwa [coherent'.grown.kind_eq]

theorem chainRings_of_ring (coherent : Coherent u m [] d.model)
    (around : TransGen (LeadsTo (Meaning.chainStep u m)) id id) : ChainRings u d id := by
  obtain ⟨_, first, _⟩ := TransGen.head'_iff.mp around
  obtain ⟨mid, leads, last⟩ := TransGen.tail'_iff.mp around
  have stands := (Meaning.leadsTo_chainStep_iff.mp first).1
  obtain ⟨stands', means⟩ := Meaning.leadsTo_chainStep_iff.mp last
  obtain ⟨e, coherent', path⟩ := exists_path coherent leads stands'
  obtain ⟨k, _, passes⟩ := exists_passes coherent' stands means
  exact ⟨(d, id), (k, id), .refl, .tail' path passes, rfl⟩

theorem chain_cases_of_standsIn (coherent : Coherent u m [] d.model)
    (stands : (m.kind id).standsIn) :
    (∃ target e, ChainEnds u d id target e) ∨ ChainRings u d id := by
  rcases exists_answer_or_ring m.ids (Meaning.ids_carry_chains (u := u)) id with
    ⟨last, answer, leads, on⟩ | ⟨first, leads, around⟩
  · left
    by_cases stands' : (m.kind last).standsIn
    · obtain ⟨e, coherent', path⟩ := exists_path coherent leads stands'
      obtain ⟨target, k, ends⟩ := exists_end_of_answer coherent' stands' on
      exact ⟨target, k, ends.after path⟩
    · rcases ReflTransGen.cases_tail leads with same | ⟨mid, leads, step⟩
      · exact absurd (same ▸ stands) stands'
      · obtain ⟨e, coherent', path⟩ :=
          exists_path coherent leads (Meaning.leadsTo_chainStep_iff.mp step).1
        obtain ⟨target, k, ends⟩ := exists_end_of_leadsTo coherent' step stands'
        exact ⟨target, k, ends.after path⟩
  · right
    obtain ⟨_, step, _⟩ := TransGen.head'_iff.mp around
    obtain ⟨e, coherent', path⟩ :=
      exists_path coherent leads (Meaning.leadsTo_chainStep_iff.mp step).1
    exact (chainRings_of_ring coherent' around).after path

/-- A chain that is begun comes to an end, or to an alias again. -/
theorem chain_cases (coherent : Coherent u m [] d.model) {target : Option NodeId}
    (ran : Query.resolveType u id d = .ok (target, e)) :
    (∃ found k, ChainEnds u d id found k) ∨ ChainRings u d id := by
  by_cases stays : ∀ other ∈ target, ¬ (e.model.kind other).standsIn
  · exact .inl ⟨target, e, (d, id), .refl, ran, stays⟩
  · push Not at stays
    obtain ⟨next, rfl, stands⟩ := stays
    have passes : Passes u (d, id) (e, next) := ⟨ran, stands⟩
    obtain ⟨coherent', stands', _⟩ := passes.means coherent
    rcases chain_cases_of_standsIn coherent' stands' with ⟨found, k, ends⟩ | rings
    · exact .inl ⟨found, k, ends.after (.single passes)⟩
    · exact .inr (rings.after (.single passes))

theorem ChainEnds.kind_eq (coherent : Coherent u m [] d.model) {target : Option NodeId}
    (ends : ChainEnds u d id target e) (other : NodeId) : e.model.kind other = m.kind other := by
  obtain ⟨last, path, ran, _⟩ := ends
  have coherent' := (means_of_reflTransGen coherent path).1
  obtain ⟨_, _, coherent'', _⟩ := (answers_resolveType coherent' last.2).of_ok ran
  exact coherent''.grown.kind_eq other

/-- A chain brings in what it ends with, unless that is nothing or a marker or it has no end. -/
theorem exists_typeDependency? (coherent : Coherent u m [] d.model) {target : Option NodeId}
    (ran : Query.resolveType u id d = .ok (target, e)) :
    ∃ found, Meaning.typeDependency? u m id = some found ∧
      (∀ other, found = some other ↔
        ∃ k, ChainEnds u d id (some other) k ∧ k.model.kind other ≠ .builtin) ∧
      (found = none ↔ (∃ k, ChainEnds u d id none k) ∨
        (∃ marker k, ChainEnds u d id (some marker) k ∧ k.model.kind marker = .builtin) ∨
        ChainRings u d id) := by
  have begun := chain_cases coherent ran
  obtain ⟨found, means⟩ : ∃ found, Meaning.typeDependency? u m id = some found := by
    rcases begun with ⟨target, k, ends⟩ | rings
    · exact ⟨_, typeDependency?_of_chainEnds coherent ends⟩
    · exact ⟨_, typeDependency?_of_chainRings coherent rings⟩
  have brings {target : Option NodeId} {k : Draft} (ends : ChainEnds u d id target k) :
      found = target.filter fun other => k.model.kind other ≠ .builtin := by
    have same := typeDependency?_of_chainEnds coherent ends
    rw [means, Option.some.injEq] at same
    simpa only [ends.kind_eq coherent] using same
  have nothing (rings : ChainRings u d id) : found = none := by
    have same := typeDependency?_of_chainRings coherent rings
    rwa [means, Option.some.injEq] at same
  refine ⟨found, means, fun other => ⟨?_, ?_⟩, ?_, ?_⟩
  · rintro rfl
    rcases begun with ⟨target, k, ends⟩ | rings
    · obtain ⟨rfl, real⟩ := Option.filter_eq_some_iff.mp (brings ends).symm
      exact ⟨k, ends, by simpa using real⟩
    · cases nothing rings
  · rintro ⟨k, ends, real⟩
    simp [brings ends, Option.filter_some, real]
  · rintro rfl
    rcases begun with ⟨_ | other, k, ends⟩ | rings
    · exact .inl ⟨k, ends⟩
    · have filtered := brings ends
      by_cases builtin : k.model.kind other = .builtin
      · exact .inr (.inl ⟨other, k, ends, builtin⟩)
      · simp [Option.filter_some, builtin] at filtered
    · exact .inr (.inr rings)
  · rintro (⟨k, ends⟩ | ⟨marker, k, ends, builtin⟩ | rings)
    · exact brings ends
    · simp [brings ends, Option.filter_some, builtin]
    · exact nothing rings

/-- What is behind an alias or a reference is what its chain ends with. -/
theorem behind?_eq_some_iff (coherent : Coherent u m [] d.model) (stands : (m.kind id).standsIn)
    (other : NodeId) : Meaning.behind? u m id = some (some other) ↔
      ∃ k, ChainEnds u d id (some other) k ∧ m.kind other ≠ .builtin := by
  obtain ⟨denoted, means⟩ :=
    Option.ne_none_iff_exists'.mp (Meaning.ofNode?_ne_none_of_standsIn (u := u) stands)
  have answers := answers_resolveType coherent id
  rw [means] at answers
  obtain ⟨_, _, ran, _⟩ := answers
  obtain ⟨found, brings, chains, _⟩ := exists_typeDependency? coherent ran
  rw [Meaning.behind?_of_standsIn stands, brings, Option.some.injEq, chains]
  refine exists_congr fun k => and_congr_right fun ends => ?_
  rw [ends.kind_eq coherent]

end

/-- Once the type of a node is known, so is what the type brings in: the first node on its chain that
is neither an alias nor a reference, unless that is a marker. It is nothing just where the chain ends
with no node or with a marker or goes around. No node needs a marker, an alias or a reference. -/
theorem dependencies_behind_aliases (reached : Reached u d) (id : NodeId) :
    (∀ target e, Query.resolveType u id d = .ok (target, e) →
      ∃ needed k, Query.typeDependencies u id d = .ok (needed, k) ∧ needed.size ≤ 1 ∧
        (∀ other, other ∈ needed ↔
          ∃ k, ChainEnds u d id (some other) k ∧ k.model.kind other ≠ .builtin) ∧
        (needed = ∅ ↔ (∃ k, ChainEnds u d id none k) ∨
          (∃ marker k, ChainEnds u d id (some marker) k ∧ k.model.kind marker = .builtin) ∨
          ChainRings u d id)) ∧
    ∀ needed e, Query.dependencies u id d = .ok (needed, e) → ∀ other ∈ needed,
      d.model.kind other ∉ [.builtin, .typeDef, .typeAlias, .typeRef, .templateRef] := by
  have coherent := reached.coherent.1
  constructor
  · intro target e ran
    obtain ⟨found, means, ends, nothing⟩ := exists_typeDependency? coherent ran
    have answers := answers_typeDependencies coherent id
    rw [Meaning.typeDependencies?, means] at answers
    obtain ⟨_, k, asked, _, _, rfl⟩ := answers
    have listed : (OrderedSet.ofList found.toList).toList = found.toList := by
      cases found <;> rfl
    refine ⟨_, k, asked, ?_, fun other => ?_, ?_⟩
    · rw [OrderedSet.size, listed]
      cases found <;> simp
    · rw [← ends, OrderedSet.mem_ofList, Option.mem_toList]
    · rw [← nothing, ← OrderedSet.isEmpty_iff, OrderedSet.isEmpty, listed]
      cases found <;> simp
  · intro needed e ran other member
    obtain ⟨_, means, _, _, rfl⟩ := (answers_dependencies coherent id).of_ok ran
    have declared := Meaning.declarations_needs? means other member
    revert declared
    cases d.model.kind other <;>
      simp [NodeKind.isDeclaration, NodeKind.standsIn, NodeKind.isReference, NodeKind.isAlias]

/-- `Craft launch(Loop loop, Count count);` where `Craft` stands for `Vessel`, which stands for the
record `Boat`, `Loop` and `Round` stand for each other, and `Count` stands for `int`. -/
def harbor : TranslationUnit where
  path := "harbor.h"
  root := ⟨0⟩
  cursors := #[
    { kind := .translationUnit, children := [⟨1⟩, ⟨2⟩, ⟨4⟩, ⟨6⟩, ⟨8⟩, ⟨10⟩, ⟨11⟩] },
    { kind := .structDecl, spelling := "Boat", usr := some "c:Boat", semanticParent := some ⟨0⟩ },
    { kind := .typedefDecl, spelling := "Vessel", usr := some "c:Vessel",
      semanticParent := some ⟨0⟩, children := [⟨3⟩] },
    { kind := .typeRef, spelling := "Boat", definition := some ⟨1⟩ },
    { kind := .typeAliasDecl, spelling := "Craft", usr := some "c:Craft",
      semanticParent := some ⟨0⟩, children := [⟨5⟩] },
    { kind := .typeRef, spelling := "Vessel", definition := some ⟨2⟩ },
    { kind := .typedefDecl, spelling := "Round", usr := some "c:Round",
      semanticParent := some ⟨0⟩, children := [⟨7⟩] },
    { kind := .typeRef, spelling := "Loop", definition := some ⟨8⟩ },
    { kind := .typedefDecl, spelling := "Loop", usr := some "c:Loop",
      semanticParent := some ⟨0⟩, children := [⟨9⟩] },
    { kind := .typeRef, spelling := "Round", definition := some ⟨6⟩ },
    { kind := .typedefDecl, spelling := "Count", usr := some "c:Count",
      semanticParent := some ⟨0⟩, type := some ⟨0⟩ },
    { kind := .functionDecl, spelling := "launch", usr := some "c:launch",
      semanticParent := some ⟨0⟩, children := [⟨12⟩, ⟨13⟩, ⟨15⟩] },
    { kind := .typeRef, spelling := "Craft", definition := some ⟨4⟩ },
    { kind := .parmDecl, spelling := "loop", semanticParent := some ⟨11⟩, children := [⟨14⟩] },
    { kind := .typeRef, spelling := "Loop", definition := some ⟨8⟩ },
    { kind := .parmDecl, spelling := "count", semanticParent := some ⟨11⟩, children := [⟨16⟩] },
    { kind := .typeRef, spelling := "Count", definition := some ⟨10⟩ }]
  types := #[{ kind := .builtin, spelling := "int" }]

def harborDraft : Draft := (Session.start harbor).build.draft

/-- The chain of the function ends with the record, and nothing is brought in by the aliases that stand
for each other. -/
theorem dependencies_behind_aliases_harbor :
    Reached harbor harborDraft ∧
      (∃ k, ChainEnds harbor harborDraft ⟨11⟩ (some ⟨1⟩) k ∧ k.model.kind ⟨1⟩ ≠ .builtin) ∧
      ((∃ k, ChainEnds harbor harborDraft ⟨13⟩ none k) ∨
        (∃ marker k, ChainEnds harbor harborDraft ⟨13⟩ (some marker) k ∧
          k.model.kind marker = .builtin) ∨
        ChainRings harbor harborDraft ⟨13⟩) := by
  have reached : Reached harbor harborDraft := .built .standard
  have brings (id : NodeId) (expected : OrderedSet NodeId)
      (computed : (Query.typeDependencies harbor id harborDraft).toOption.map Prod.fst =
        some expected)
      (resolves : (Query.resolveType harbor id harborDraft).isOk) :
      (∀ other ∈ expected, ∃ k, ChainEnds harbor harborDraft id (some other) k ∧
        k.model.kind other ≠ .builtin) ∧
      (expected = ∅ → (∃ k, ChainEnds harbor harborDraft id none k) ∨
        (∃ marker k, ChainEnds harbor harborDraft id (some marker) k ∧
          k.model.kind marker = .builtin) ∨
        ChainRings harbor harborDraft id) := by
    match ran : Query.resolveType harbor id harborDraft with
    | .error _ =>
      rw [ran] at resolves
      cases resolves
    | .ok (target, e) =>
      obtain ⟨needed, k, asked, _, ends, nothing⟩ :=
        (dependencies_behind_aliases reached id).1 target e ran
      rw [asked] at computed
      cases computed
      exact ⟨fun other => (ends other).mp, nothing.mp⟩
  refine ⟨reached, ?_, ?_⟩
  · exact (brings ⟨11⟩ (.ofList [⟨1⟩]) (by decide +kernel) (by decide +kernel)).1 ⟨1⟩ (by decide)
  · exact (brings ⟨13⟩ ∅ (by decide +kernel) (by decide +kernel)).2 rfl

end Bindery
