import Bindery.Proofs.Aliases
import Bindery.Proofs.Binding.Plan
import Bindery.Proofs.Binding.Strengthening

/-! What the caster template protects. A declaration is marked if a specialization names it as its
argument, but not if a specialization names an alias of it: the alias is marked then, which is never
settled and never needed. What is marked is settled by no closure and missed by no member. -/

set_option autoImplicit false

namespace Bindery.Binding

open Ast (TranslationUnit)
open Project (EmitConfig)

/-- The argument of a specialization is its first type reference. -/
def argument? (m : Model) (specialization : NodeId) : Option NodeId :=
  (m.membersWhere specialization (· = .typeRef)).head?

/-- The arguments that the caster template is specialized for. -/
def Policy.arguments (p : Policy) (m : Model) : List NodeId :=
  ((p.config.casterTemplate.bind (specializations? m)).getD []).filterMap (argument? m)

/-- Asked for the type of a node, the session answers another. -/
def Names (u : TranslationUnit) (d : Draft) (id other : NodeId) : Prop :=
  ∃ e, Query.resolveType u id d = .ok (some other, e)

/-- No closure settles an entity and no plan of any order has a member that misses it. -/
structure Spared (u : TranslationUnit) (p : Policy) (d : Draft) (id : NodeId) : Prop where
  unsettled : ∀ roots, (∀ root ∈ roots, root.index < d.model.size) → ∀ c e,
    closure u p roots d = .ok (c, e) → id ∉ c.settled
  unmissed : ∀ emit sorted plan e, Plan.ofOrder u p emit sorted d = .ok (plan, e) →
    ∀ entry ∈ plan.entries, ∀ member ∈ entry.item.members, id ∉ member.missing

/-- Apart from markers, a policy has come to mark just what some references denote. -/
structure Marks (u : TranslationUnit) (m : Model) (references : List NodeId) (p q : Policy) :
    Prop where
  casters : q.casters = p.casters
  detected : ∀ id, m.kind id ≠ .builtin → (q.detected.contains id ↔ p.detected.contains id ∨
    ∃ reference ∈ references, Meaning.ofNode? u m reference = some (some (.node id)))

variable {u : TranslationUnit} {p q : Policy} {m : Model} {d e : Draft} {id : NodeId}

/-! ## Marking -/

theorem contains_put_iff {detected : OrderedMap NodeId NodeId} {target specialization : NodeId} :
    (detected.put target specialization).contains id ↔ detected.contains id ∨ id = target := by
  unfold OrderedMap.contains
  rw [OrderedMap.get?_put]
  by_cases same : id = target <;> simp [same]

theorem Marks.refl (p : Policy) : Marks u m [] p p := ⟨rfl, fun id real => by simp⟩

theorem Marks.trans {r : Policy} {front back : List NodeId} (first : Marks u m front p q)
    (second : Marks u m back q r) : Marks u m (front ++ back) p r := by
  refine ⟨second.casters.trans first.casters, fun id real => ?_⟩
  rw [second.detected id real, first.detected id real, or_assoc]
  simp only [List.mem_append, or_and_right, exists_or]

theorem node_iff_of_represents {n : Model} {found : Option NodeId} {denoted : Option Denoted}
    (right : Represents n found denoted) (real : n.kind id ≠ .builtin) :
    denoted = some (.node id) ↔ found = some id := by
  match found, denoted, right with
  | none, none, _ => simp
  | some _, some (.node _), rfl => simp
  | some marker, some (.marker _), right =>
    have apart : marker ≠ id := fun same => real (same ▸ right.2)
    simp [apart]

/-- Marks the answer to a question for the argument of a specialization. -/
def Policy.mark (p : Policy) (specialization : NodeId) : Option NodeId → Policy
  | none => p
  | some target => { p with detected := p.detected.put target specialization }

theorem marks_mark (grown : m.Extends e.model) {reference : NodeId} {found : Option NodeId}
    {denoted : Option Denoted} (means : Meaning.ofNode? u m reference = some denoted)
    (right : Represents e.model found denoted) (p : Policy) (specialization : NodeId) :
    Marks u m [reference] p (p.mark specialization found) := by
  constructor
  · cases found <;> rfl
  · intro id real
    rw [← grown.kind_eq] at real
    simp only [List.mem_singleton, exists_eq_left, means, Option.some.injEq,
      node_iff_of_represents right real]
    cases found with
    | none => simp [Policy.mark]
    | some target => simp [Policy.mark, contains_put_iff, eq_comm (a := id)]

theorem detectIn_of_none {specialization : NodeId}
    (missing : argument? d.model specialization = none) :
    Policy.detectIn u p specialization d = .ok (p, d) := by
  unfold argument? at missing
  unfold Policy.detectIn
  rw [Query.bind_apply]
  dsimp only [Query.model]
  rw [missing]
  rfl

theorem detectIn_of_some {specialization reference : NodeId} {found : Option NodeId}
    (first : argument? d.model specialization = some reference)
    (ran : Query.resolveType u reference d = .ok (found, e)) :
    Policy.detectIn u p specialization d = .ok (p.mark specialization found, e) := by
  unfold argument? at first
  unfold Policy.detectIn
  rw [Query.bind_apply]
  dsimp only [Query.model]
  rw [first]
  dsimp only
  rw [Query.bind_apply, ran]
  cases found <;> rfl

-- A type reference is always answered, and the answer is all that is marked.
theorem marks_detectIn (coherent : Coherent u m [] d.model) (p : Policy)
    (specialization : NodeId) :
    ∃ q e, Policy.detectIn u p specialization d = .ok (q, e) ∧ Coherent u m [] e.model ∧
      Marks u m (argument? m specialization).toList p q := by
  have same : argument? d.model specialization = argument? m specialization :=
    congrArg List.head? (coherent.grown.membersWhere_eq specialization _)
  cases first : argument? m specialization with
  | none => exact ⟨p, d, detectIn_of_none (same.trans first), coherent, .refl p⟩
  | some reference =>
    have refers : (m.kind reference).isReference := by
      have kind := (List.mem_filter.mp (List.mem_of_head? first)).2
      rw [of_decide_eq_true kind]
      rfl
    have means := ofNode?_of_isReference (u := u) refers
    have answers := answers_resolveType coherent reference
    rw [means] at answers
    obtain ⟨found, e, ran, coherent', _, right⟩ := answers
    exact ⟨p.mark specialization found, e, detectIn_of_some (same.trans first) ran, coherent',
      marks_mark coherent'.grown means right p specialization⟩

theorem marks_foldlM (coherent : Coherent u m [] d.model) (p : Policy)
    (specializations : List NodeId) :
    ∃ q e, specializations.foldlM (Policy.detectIn u) p d = .ok (q, e) ∧ Coherent u m [] e.model ∧
      Marks u m (specializations.filterMap (argument? m)) p q := by
  induction specializations generalizing p d with
  | nil => exact ⟨p, d, rfl, coherent, .refl p⟩
  | cons specialization rest ih =>
    obtain ⟨q, e, ran, coherent', first⟩ := marks_detectIn coherent p specialization
    obtain ⟨r, e', ran', coherent'', later⟩ := ih coherent' q
    refine ⟨r, e', ?_, coherent'', ?_⟩
    · rw [List.foldlM_cons, Query.bind_apply, ran]
      exact ran'
    · rw [List.filterMap_cons]
      cases argument : argument? m specialization with
      | none => simpa [argument] using first.trans later
      | some reference => simpa [argument] using first.trans later

theorem marks_detectCasters (coherent : Coherent u d.model [] d.model) (p : Policy) :
    ∃ q count e, p.detectCasters u d = .ok ((q, count), e) ∧ Coherent u d.model [] e.model ∧
      Marks u d.model (p.arguments d.model) p q := by
  unfold Policy.detectCasters Policy.arguments
  simp only [Query.bind_apply, Query.model]
  cases p.config.casterTemplate.bind (Policy.specializations? d.model) with
  | none => exact ⟨p, 0, d, rfl, coherent, .refl p⟩
  | some specializations =>
    obtain ⟨q, e, ran, coherent', marks⟩ := marks_foldlM coherent p specializations
    refine ⟨q, q.detected.entries.length, e, ?_, coherent', marks⟩
    dsimp only
    rw [Query.bind_apply, ran]
    rfl

/-! ## What is marked is spared -/

section

variable (reached : Reached u d) (coherent : Coherent u d.model [] e.model) {emit : EmitConfig}
  {bound : List NodeId}

include reached coherent

-- Not only what can be bound has an item: a class template has one as well.
theorem meets_planItem_members (id : NodeId) :
    Meets u d.model e (Plan.planItem u p emit bound id) fun found =>
      ∀ item ∈ found, ∀ member ∈ item.members, ∃ which, PlansMember u p d bound which member := by
  unfold Plan.planItem
  apply Meets.model
  rw [coherent.grown.kind_eq]
  split
  · next kind =>
    have isRecord : (d.model.kind id).isRecord := by rw [kind]; rfl
    refine (meets_planRecord reached coherent isRecord).bind ?_
    intro item _ coherent' _ plans
    apply Meets.pure coherent'
    rintro _ ⟨⟩ member inside
    obtain ⟨which, _, planned⟩ := plans.members member inside
    exact ⟨which, planned⟩
  · apply Meets.pure coherent
    rintro _ ⟨⟩ member inside
    cases inside
  · refine (meets_planMember reached coherent id).bind ?_
    intro planned _ coherent' _ plans
    apply Meets.pure coherent'
    rintro _ ⟨⟩ member inside
    rw [List.mem_singleton.mp inside]
    exact ⟨id, plans⟩
  · exact .pure coherent nofun

theorem meets_planEntry_members (id : NodeId) :
    Meets u d.model e (Plan.planEntry u p emit bound id) fun found =>
      ∀ entry ∈ found, ∀ member ∈ entry.item.members,
        ∃ which, PlansMember u p d bound which member := by
  unfold Plan.planEntry
  refine (meets_planItem_members reached coherent id).bind ?_
  intro found e' coherent' _ plans
  cases found with
  | none => exact .pure coherent' nofun
  | some item =>
    refine (meets_dependencies coherent' id).bind ?_
    intro needed e'' coherent'' _ _
    apply Meets.model
    apply Meets.pure coherent''
    rintro _ ⟨⟩
    exact plans item rfl

theorem meets_ofOrder_members (sorted : List NodeId) :
    Meets u d.model e (Plan.ofOrder u p emit sorted) fun plan =>
      ∀ entry ∈ plan.entries, ∀ member ∈ entry.item.members,
        ∃ bound which, PlansMember u p d bound which member := by
  unfold Plan.ofOrder
  apply Meets.model
  refine (Meets.mapM _ coherent fun id _ _ coherent' _ =>
    meets_planEntry_members reached coherent' id).bind ?_
  intro found e' coherent' _ planned
  apply Meets.pure coherent'
  intro entry listed member inside
  obtain ⟨answer, answered, rfl⟩ := List.mem_filterMap.mp listed
  obtain ⟨id, _, plans⟩ := exists_left_of_mem planned answered
  exact ⟨_, plans entry rfl member inside⟩

end

theorem spared_of_isCaster (reached : Reached u d) (inside : id.index < d.model.size)
    (caster : p.isCaster d.model id) : Spared u p d id := by
  constructor
  · intro roots known c e ran settled
    obtain ⟨_, _, spec⟩ := (meets_closure reached known).of_ok ran
    exact (spec.mem_settled_iff.mp settled).free .caster caster
  · intro emit sorted plan e ran entry planned member listed missing
    obtain ⟨_, _, plans⟩ := (meets_ofOrder_members reached reached.coherent.1 sorted).of_ok ran
    obtain ⟨_, _, plans⟩ := plans entry planned member listed
    exact (plans.missing id missing).2.2 inside caster

/-! ## Marked or not -/

theorem forget_eq_ok {α : Type} {question : Query α} {answer : α}
    (ran : question d = .ok (answer, e)) : question.forget d = .ok ((), e) := by
  unfold Query.forget
  rw [Query.bind_apply, ran]
  rfl

theorem Later.reached (later : Later u d e) (reached : Reached u d) : Reached u e := by
  obtain ⟨asked, ran⟩ := later
  induction asked generalizing d with
  | nil =>
    cases ran
    exact reached
  | cons question rest ih =>
    rw [Question.askAll, List.foldlM_cons] at ran
    obtain ⟨_, k, first, ran⟩ := Query.exists_of_bind_eq_ok ran
    exact ih (.asked reached question first) ran

theorem names_iff (coherent : Coherent u m [] d.model) (real : m.kind id ≠ .builtin)
    (reference : NodeId) :
    Names u d reference id ↔ Meaning.ofNode? u m reference = some (some (.node id)) := by
  constructor
  · rintro ⟨e, ran⟩
    obtain ⟨target, means, coherent', _, right⟩ := (answers_resolveType coherent reference).of_ok ran
    rw [← coherent'.grown.kind_eq] at real
    rw [means, (node_iff_of_represents right real).mpr rfl]
  · intro means
    obtain ⟨e, ran, _⟩ := exists_resolveType coherent means
    exact ⟨e, ran⟩

/-- Detecting casters always ends. A declaration that the chain from an argument ends with is a caster
then if some argument names it itself, or if it was one before, and is none if the arguments only name
aliases of it. Whatever is asked afterwards, a caster is settled by no closure and missed by no
member. -/
theorem detectCasters_protects_iff (reached : Reached u d) (p : Policy) :
    ∃ marked count e, p.detectCasters u d = .ok ((marked, count), e) ∧
      (∀ reference ∈ p.arguments d.model, ∀ id k, ChainEnds u d reference (some id) k →
        k.model.kind id ≠ .builtin →
          (marked.isCaster e.model id ↔ p.isCaster d.model id ∨
            ∃ other ∈ p.arguments d.model, Names u d other id)) ∧
      ∀ id, id.index < e.model.size → marked.isCaster e.model id →
        ∀ k, Later u e k → marked.isCaster k.model id ∧ Spared u marked k id := by
  have coherent := reached.coherent.1
  obtain ⟨marked, count, e, ran, coherent', marks⟩ := marks_detectCasters coherent p
  have reached' : Reached u e := .asked reached (.casters p) (forget_eq_ok ran)
  refine ⟨marked, count, e, ran, ?_, ?_⟩
  · intro reference _ id k ends real
    rw [ends.kind_eq coherent] at real
    have inside : id.index < d.model.size := Model.index_lt_of_kind_ne real
    have named : e.model.fullName id = d.model.fullName id :=
      coherent'.grown.fullName_eq reached.coherent.2 inside
    simp only [Policy.isCaster, Bool.or_eq_true, decide_eq_true_eq, named, marks.casters,
      marks.detected id real, names_iff coherent real]
    exact or_right_comm
  · intro id inside caster k later
    have reached'' := later.reached reached'
    have grown := (later.coherent reached').grown
    have still : marked.isCaster k.model id := by rwa [isCaster_eq reached' grown inside]
    exact ⟨still, spared_of_isCaster reached'' (Nat.lt_of_lt_of_le inside grown.size_le) still⟩

/-- `Token` stands for the struct `Coin`. The caster template is specialized for `Gem` and for `Token`,
and `Purse` has a field of either struct. -/
def mint : TranslationUnit where
  path := "mint.h"
  root := ⟨0⟩
  cursors := #[
    { kind := .translationUnit, children := [⟨1⟩, ⟨2⟩, ⟨3⟩, ⟨5⟩, ⟨12⟩] },
    { kind := .structDecl, spelling := "Coin", usr := some "c:Coin", semanticParent := some ⟨0⟩ },
    { kind := .structDecl, spelling := "Gem", usr := some "c:Gem", semanticParent := some ⟨0⟩ },
    { kind := .typedefDecl, spelling := "Token", usr := some "c:Token",
      semanticParent := some ⟨0⟩, children := [⟨4⟩] },
    { kind := .typeRef, spelling := "Coin", definition := some ⟨1⟩ },
    { kind := .namespaceDecl, spelling := "detail", usr := some "c:detail",
      semanticParent := some ⟨0⟩, children := [⟨6⟩, ⟨8⟩, ⟨10⟩] },
    { kind := .classTemplate, spelling := "type_caster", usr := some "c:type_caster",
      semanticParent := some ⟨5⟩, children := [⟨7⟩] },
    { kind := .templateTypeParameter, spelling := "T", usr := some "c:T",
      semanticParent := some ⟨6⟩ },
    { kind := .structDecl, spelling := "type_caster", usr := some "c:type_caster<Gem>",
      semanticParent := some ⟨5⟩, children := [⟨9⟩] },
    { kind := .typeRef, spelling := "Gem", definition := some ⟨2⟩ },
    { kind := .structDecl, spelling := "type_caster", usr := some "c:type_caster<Token>",
      semanticParent := some ⟨5⟩, children := [⟨11⟩] },
    { kind := .typeRef, spelling := "Token", definition := some ⟨3⟩ },
    { kind := .structDecl, spelling := "Purse", usr := some "c:Purse", semanticParent := some ⟨0⟩,
      children := [⟨13⟩, ⟨14⟩] },
    { kind := .fieldDecl, spelling := "gem", usr := some "c:gem", semanticParent := some ⟨12⟩,
      access := .publicMember, type := some ⟨0⟩ },
    { kind := .fieldDecl, spelling := "coin", usr := some "c:coin", semanticParent := some ⟨12⟩,
      access := .publicMember, type := some ⟨1⟩ }]
  types := #[
    { kind := .record, spelling := "Gem", declaration := some ⟨2⟩ },
    { kind := .record, spelling := "Coin", declaration := some ⟨1⟩ }]

def mintDraft : Draft := (Session.start mint).build.draft

def mintPolicy : Policy := { config := { casterTemplate := some "detail::type_caster" } }

/-- The struct that is named itself is spared. -/
theorem detectCasters_protects_iff_mint :
    Reached mint mintDraft ∧ ∃ marked count e,
      mintPolicy.detectCasters mint mintDraft = .ok ((marked, count), e) ∧
        marked.isCaster e.model ⟨2⟩ ∧ Spared mint marked e ⟨2⟩ := by
  have reached : Reached mint mintDraft := .built .standard
  have coherent := reached.coherent.1
  obtain ⟨marked, count, e, ran, named, spared⟩ := detectCasters_protects_iff reached mintPolicy
  have argument : ⟨9⟩ ∈ mintPolicy.arguments mintDraft.model := by decide +kernel
  have names : Names mint mintDraft ⟨9⟩ ⟨2⟩ :=
    (names_iff coherent (by decide +kernel) ⟨9⟩).mpr (by decide +kernel)
  obtain ⟨k, ends, real⟩ :=
    (behind?_eq_some_iff coherent (by decide +kernel) ⟨2⟩).mp
      (by decide +kernel : Meaning.behind? mint mintDraft.model ⟨9⟩ = some (some ⟨2⟩))
  rw [← ends.kind_eq coherent] at real
  have caster := (named ⟨9⟩ argument ⟨2⟩ k ends real).mpr (.inr ⟨⟨9⟩, argument, names⟩)
  have inside : 2 < mintDraft.model.size := by decide +kernel
  have grown : mintDraft.model.Extends e.model :=
    (keeps_ask (.casters mintPolicy) mintDraft coherent () e (forget_eq_ok ran)).2
  exact ⟨reached, marked, count, e, ran, caster,
    (spared ⟨2⟩ (Nat.lt_of_lt_of_le inside grown.size_le) caster e (.refl mint e)).2⟩

theorem any_toOption_iff {ε α : Type} {outcome : Except ε α} {holds : α → Bool} :
    outcome.toOption.any holds ↔ ∃ answer, outcome = .ok answer ∧ holds answer := by
  cases outcome <;> simp [Except.toOption]

/-- The struct behind the alias is an argument like the other, but a closure settles it, and a member
of a plan without it misses it. -/
theorem mint_settles_argument :
    mint.firstFault? = none ∧ Reached mint mintDraft ∧
      ⟨11⟩ ∈ mintPolicy.arguments mintDraft.model ∧
      (∃ k, ChainEnds mint mintDraft ⟨11⟩ (some ⟨1⟩) k ∧ (k.model.kind ⟨1⟩).isRecord) ∧
      ∃ marked count e, mintPolicy.detectCasters mint mintDraft = .ok ((marked, count), e) ∧
        ¬ marked.isCaster e.model ⟨1⟩ ∧
        (∃ c k, closure mint marked [⟨12⟩] e = .ok (c, k) ∧ ⟨1⟩ ∈ c.settled) ∧
        ∃ plan k, Plan.ofOrder mint marked {} [⟨12⟩] e = .ok (plan, k) ∧
          ∃ entry ∈ plan.entries, ∃ member ∈ entry.item.members, ⟨1⟩ ∈ member.missing := by
  have reached : Reached mint mintDraft := .built .standard
  have coherent := reached.coherent.1
  refine ⟨by decide +kernel, reached, by decide +kernel, ?_, ?_⟩
  · obtain ⟨k, ends, _⟩ :=
      (behind?_eq_some_iff coherent (by decide +kernel) ⟨1⟩).mp
        (by decide +kernel : Meaning.behind? mint mintDraft.model ⟨11⟩ = some (some ⟨1⟩))
    refine ⟨k, ends, ?_⟩
    rw [ends.kind_eq coherent]
    decide +kernel
  · have computed : (mintPolicy.detectCasters mint mintDraft).toOption.any (fun cast =>
        !cast.1.1.isCaster cast.2.model ⟨1⟩ &&
          (closure mint cast.1.1 [⟨12⟩] cast.2).toOption.any (fun closed =>
            decide (⟨1⟩ ∈ closed.1.settled)) &&
          (Plan.ofOrder mint cast.1.1 {} [⟨12⟩] cast.2).toOption.any (fun planned =>
            planned.1.entries.any fun entry => entry.item.members.any fun member =>
              decide (⟨1⟩ ∈ member.missing))) := by decide +kernel
    simp only [any_toOption_iff, Bool.and_eq_true, Bool.not_eq_true', List.any_eq_true,
      decide_eq_true_eq] at computed
    obtain ⟨⟨⟨marked, count⟩, e⟩, cast, ⟨unmarked, ⟨c, k⟩, closed, settled⟩, ⟨plan, k'⟩, planned,
      entry, listed, missed⟩ := computed
    exact ⟨marked, count, e, cast, Bool.eq_false_iff.mp unmarked, ⟨c, k, closed, settled⟩,
      plan, k', planned, entry, listed, missed⟩

end Bindery.Binding
