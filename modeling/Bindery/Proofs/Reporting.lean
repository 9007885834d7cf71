import Bindery.Proofs.Binding.Outsider
import Bindery.Proofs.History
import Bindery.Proofs.Model.Footprint

/-! Conditions met by questions are reported once, whoever asks. What a session settles is what its
questions settle one by one, in whatever order and however often they are asked, and what is reported are
the conditions of what is settled. -/

set_option autoImplicit false

namespace Bindery

open Ast (TranslationUnit)
open Binding (Policy)

variable {u : TranslationUnit} {m : Model} {d e : Draft} {more : Finset Matter}

/-! ## Every question on two drafts -/

theorem Parallel.forget {α β : Type} {related : Draft → Draft → Prop} {same : α → β → Prop}
    {left : Query α} {right : Query β} (parallel : Parallel related same left right) :
    Parallel related (fun _ _ => True) left.forget right.forget :=
  parallel.bind fun _ _ _ => .pure trivial

theorem parallel_returnType (links : m.Linked) (id : NodeId) :
    Parallel (Mirrors u m more) (Option.Rel (Akin m)) (Query.returnType u id)
      (Query.returnType u id) := by
  refine Parallel.model fun d e mirrors => ?_
  rw [mirrors.left.coherent.grown.kind_eq, mirrors.right.coherent.grown.kind_eq]
  split
  · exact parallel_resolveType links id
  · exact .pure .none

theorem parallel_detectCasters (fresh : m.Fresh) (p : Policy) :
    Parallel (Mirrors u m more) (fun _ _ => True) (p.detectCasters u) (p.detectCasters u) := by
  refine Parallel.model fun d e mirrors => ?_
  have left := mirrors.left.coherent.grown
  have right := mirrors.right.coherent.grown
  have found (template : String) (n : Model) (grown : m.Extends n) :
      Policy.specializations? n template = Policy.specializations? m template := by
    simp only [Policy.specializations?, grown.lookup_eq, grown.kind_eq]
  simp only [funext fun template => found template d.model left,
    funext fun template => found template e.model right]
  split
  · exact .pure trivial
  · refine Parallel.andThen (Parallel.foldlM (fun p q _ item _ => ?_) trivial) fun _ _ =>
      .pure trivial
    refine Parallel.model fun d e mirrors => ?_
    rw [mirrors.left.coherent.grown.membersWhere_eq, mirrors.right.coherent.grown.membersWhere_eq]
    split
    · exact .pure trivial
    · refine (parallel_resolveType fresh.linked _).bind fun target target' alike => ?_
      cases alike <;> exact .pure trivial

theorem parallel_ask (reached : Reached u d) (fresh : d.model.Fresh) (question : Question) :
    Parallel (Mirrors u d.model more) (fun _ _ => True) (question.ask u) (question.ask u) := by
  have unison : Unison u d.model (Mirrors u d.model more) := unison_mirrors fresh
  cases question with
  | type id => exact (parallel_resolveType fresh.linked id).forget
  | returned id => exact (parallel_returnType fresh.linked id).forget
  | typeNeeds id => exact Parallel.forget (concur_typeDependencies fresh.linked id)
  | needs id => exact Parallel.forget (unison.dependencies id)
  | bases id => exact Parallel.forget (unison.bases id)
  | unresolvedBases id => exact Parallel.forget (unison.unresolvedBases id)
  | marker spelling => exact (parallel_marker spelling).forget
  | casters p => exact (parallel_detectCasters fresh p).forget
  | closure p roots => exact (Binding.parallel_closure reached unison roots).forget
  | order settled => exact Parallel.forget (Binding.concur_order reached unison settled)
  | plan p emit sorted => exact Parallel.forget (Binding.concur_ofOrder reached unison sorted)

/-! ## Every question of a session -/

section

variable (reached : Reached u d) (fresh : d.model.Fresh)

include reached fresh

theorem adds_ask (question : Question) :
    (question.ask u).Adds u d.model ((question.ask u).reach d.model) :=
  .of_parallel fresh fun _ => parallel_ask reached fresh question

theorem exists_ask {question : Question} {a b a' : Draft} (left : Sound u d.model a.model)
    (right : Sound u d.model b.model) (ended : question.ask u a = .ok ((), a')) :
    ∃ b', question.ask u b = .ok ((), b') := by
  have first := parallel_ask reached fresh question _ _ (fresh.mirrors left)
  have second := parallel_ask reached fresh question _ _ (fresh.mirrors right)
  rw [ended] at first
  generalize question.ask u { model := d.model } = middle at first second
  generalize question.ask u b = ran at second ⊢
  cases first
  cases second
  exact ⟨_, rfl⟩

/-- What has been settled in the end was settled in the beginning or is settled by some question. -/
theorem adds_askAll (asked : List Question) {a b : Draft} (sound : Sound u d.model a.model)
    (ran : Question.askAll u asked a = .ok ((), b)) :
    Sound u d.model b.model ∧ ∀ matter, matter ∈ d.model.settled b.model ↔
      matter ∈ d.model.settled a.model ∨
        ∃ question ∈ asked, matter ∈ (question.ask u).reach d.model := by
  induction asked generalizing a with
  | nil =>
    cases ran
    exact ⟨sound, by simp⟩
  | cons question rest ih =>
    rw [Question.askAll, List.foldlM_cons] at ran
    obtain ⟨_, next, first, ran⟩ := Query.exists_of_bind_eq_ok ran
    obtain ⟨sound', settled⟩ := adds_ask reached fresh question a sound _ _ first
    obtain ⟨sound'', settled'⟩ := ih sound' ran
    refine ⟨sound'', fun matter => ?_⟩
    rw [settled', settled, Finset.mem_union, List.exists_mem_cons_iff, or_assoc]

-- Every question that was asked has ended on some sound draft.
theorem exists_sound_of_askAll {asked : List Question} {a b : Draft} (sound : Sound u d.model a.model)
    (ran : Question.askAll u asked a = .ok ((), b)) :
    ∀ question ∈ asked, ∃ n k : Draft, Sound u d.model n.model ∧ question.ask u n = .ok ((), k) := by
  induction asked generalizing a with
  | nil => exact List.forall_mem_nil _
  | cons question rest ih =>
    rw [Question.askAll, List.foldlM_cons] at ran
    obtain ⟨_, next, first, ran⟩ := Query.exists_of_bind_eq_ok ran
    obtain ⟨sound', _⟩ := adds_ask reached fresh question a sound _ _ first
    exact List.forall_mem_cons.mpr ⟨⟨a, next, sound, first⟩, ih sound' ran⟩

theorem exists_askAll {asked : List Question}
    (ends : ∀ question ∈ asked, ∃ n k : Draft, Sound u d.model n.model ∧
      question.ask u n = .ok ((), k)) {a : Draft} (sound : Sound u d.model a.model) :
    ∃ b, Question.askAll u asked a = .ok ((), b) := by
  induction asked generalizing a with
  | nil => exact ⟨a, rfl⟩
  | cons question rest ih =>
    obtain ⟨⟨n, k, sound', ended⟩, later⟩ := List.forall_mem_cons.mp ends
    obtain ⟨next, first⟩ := exists_ask reached fresh sound' sound ended
    obtain ⟨sound'', _⟩ := adds_ask reached fresh question a sound _ _ first
    obtain ⟨b, ran⟩ := ih later sound''
    refine ⟨b, ?_⟩
    rw [Question.askAll, List.foldlM_cons, Query.bind_apply, first]
    exact ran

end

/-! ## Reports -/

theorem balances_askAll (links : m.Linked) (asked : List Question) :
    Query.Balances u m (Question.askAll u asked) :=
  reads_balances.toComposes.foldlM (fun _ question => balances_ask links question) asked ()

/-- Whatever has been asked since the build, the conditions are those of what has been settled. -/
theorem balanced_of_askAll (f : Factory) {asked : List Question}
    (ran : Question.askAll u asked (freshDraft u f) = .ok ((), d)) :
    Coherent u (freshDraft u f).model [] d.model ∧
      d.Balanced u (freshDraft u f).model (freshDraft u f).diagnostics 0 := by
  have fresh : (freshDraft u f).model.Fresh := Session.fresh_build u f
  obtain ⟨coherent, balances⟩ :=
    balances_askAll fresh.linked asked _ fresh.coherent () d ran
  refine ⟨coherent, balances _ _ ⟨[], (List.append_nil _).symm, ?_⟩⟩
  simp [Model.tally, fresh.settled_eq]

theorem Draft.Balanced.perm {base : List Diagnostic} {ahead : Multiset Diagnostic}
    (balanced : d.Balanced u m base ahead) (balanced' : e.Balanced u m base ahead)
    (same : m.settled e.model = m.settled d.model) : e.diagnostics.Perm d.diagnostics := by
  obtain ⟨late, recorded, even⟩ := balanced
  obtain ⟨late', recorded', even'⟩ := balanced'
  rw [recorded, recorded']
  refine List.Perm.append_left base (Multiset.coe_eq_coe.mp ?_)
  rw [even, even', Model.tally, Model.tally, same]

/-- A question that settles nothing more reports nothing more. -/
theorem diagnostics_eq_of_reach_subset (reached : Reached u d) (fresh : d.model.Fresh)
    {question : Question} {a b : Draft} (sound : Sound u d.model a.model) {base : List Diagnostic}
    {ahead : Multiset Diagnostic} (balanced : a.Balanced u d.model base ahead)
    (known : (question.ask u).reach d.model ⊆ d.model.settled a.model)
    (ran : question.ask u a = .ok ((), b)) : b.diagnostics = a.diagnostics := by
  have settled : d.model.settled b.model = d.model.settled a.model := by
    rw [(adds_ask reached fresh question a sound () b ran).2, Finset.union_eq_left]
    exact known
  have balanced' :=
    (balances_ask fresh.linked question a sound.coherent () b ran).2 _ _ balanced
  -- What was reported before stands first, and there is not more of it now.
  obtain ⟨late, recorded, _⟩ :=
    ((Query.pervades_grows.resolving u).ask question a () b ran).recorded
  have first : a.diagnostics <+: b.diagnostics := ⟨late, recorded.symm⟩
  exact (first.eq_of_length (balanced.perm balanced' settled).length_eq.symm).symm

/-- At most one condition comes to light with the type of a node, and at most one for each base
specifier with the bases of a record. -/
structure Meaning.OnceEach (u : TranslationUnit) (m : Model) : Prop where
  type : ∀ id, conditions u m (.type id) = [] ∨ ∃ spelling,
    conditions u m (.type id) = [.unresolvedType (m.fullName id) spelling (m.node id).location]
  bases : ∀ record, conditions u m (.bases record) =
    (m.baseSpecifiers record).filterMap (baseCondition? u m record)
  specifiers : ∀ record, (m.baseSpecifiers record).Nodup
  base : ∀ record specifier found, baseCondition? u m record specifier = some found →
    found = .unresolvedBase (m.fullName record) (m.node specifier).displayName
        (m.node specifier).location ∨
      found = .selfBase (m.fullName record) (m.node specifier).location

theorem Meaning.onceEach (u : TranslationUnit) (m : Model) : OnceEach u m where
  type id := by
    cases condition : typeCondition? u m id with
    | none => exact .inl (by simp [conditions, condition])
    | some found =>
      obtain ⟨spelling, rfl⟩ := exists_of_typeCondition? condition
      exact .inr ⟨spelling, by simp [conditions, condition]⟩
  bases _ := rfl
  specifiers record := (m.node record).members.nodup.filter _
  base record specifier found condition := by
    obtain ⟨base, _, condition⟩ := Option.bind_eq_some_iff.mp condition
    cases base with
    | none =>
      cases condition
      exact .inl rfl
    | some base =>
      dsimp only at condition
      split at condition
      · cases condition
        exact .inr rfl
      · cases condition

/-- What has been reported since the build are the conditions of the types and bases that have been
settled, each matter settled once. They are read off the built model, and a matter has been settled if
and only if one of the questions settles it of the built model. A question that was asked can be asked
again, and reports nothing more; and the same questions in another order, or more than once, report the
same. -/
theorem conditions_reported_once (f : Factory) (asked : List Question) (d : Draft)
    (ran : Question.askAll u asked (freshDraft u f) = .ok ((), d)) :
    let m := (freshDraft u f).model
    Meaning.OnceEach u m ∧
      (∃ late : List Diagnostic, d.diagnostics = (freshDraft u f).diagnostics ++ late ∧
        (late : Multiset Diagnostic) =
          ∑ matter ∈ m.settled d.model, (Meaning.conditions u m matter : Multiset Diagnostic)) ∧
      (∀ matter, matter ∈ m.settled d.model ↔
        ∃ question ∈ asked, matter ∈ (question.ask u).reach m) ∧
      (∀ question ∈ asked, ∃ e, question.ask u d = .ok ((), e) ∧ e.diagnostics = d.diagnostics) ∧
      ∀ other : List Question, (∀ question, question ∈ other ↔ question ∈ asked) →
        ∃ e, Question.askAll u other (freshDraft u f) = .ok ((), e) ∧
          e.diagnostics.Perm d.diagnostics := by
  intro m
  have reached : Reached u (freshDraft u f) := .built f
  have fresh : m.Fresh := Session.fresh_build u f
  have start : Sound u m (freshDraft u f).model := fresh.sound
  have ends := exists_sound_of_askAll reached fresh start ran
  have settles {questions : List Question} {e : Draft}
      (ran : Question.askAll u questions (freshDraft u f) = .ok ((), e)) (matter : Matter) :
      matter ∈ m.settled e.model ↔
        ∃ question ∈ questions, matter ∈ (question.ask u).reach m := by
    rw [(adds_askAll reached fresh questions start ran).2, fresh.settled_eq]
    simp [m]
  have balances {questions : List Question} {e : Draft}
      (ran : Question.askAll u questions (freshDraft u f) = .ok ((), e)) :
      e.Balanced u m (freshDraft u f).diagnostics 0 := by
    refine (balances_askAll fresh.linked questions _ start.coherent () e ran).2 _ _ ⟨[], ?_, ?_⟩
    · rw [List.append_nil]
    · have none : m.settled (freshDraft u f).model = ∅ := fresh.settled_eq
      simp [Model.tally, none]
  have sound := (adds_askAll reached fresh asked start ran).1
  refine ⟨Meaning.onceEach u m, ?_, settles ran, fun question member => ?_, fun other same => ?_⟩
  · obtain ⟨late, recorded, even⟩ := balances ran
    exact ⟨late, recorded, by rw [even, add_zero, Model.tally]⟩
  · obtain ⟨n, k, sound', ended⟩ := ends question member
    obtain ⟨e, again⟩ := exists_ask reached fresh sound' sound ended
    have known : (question.ask u).reach m ⊆ m.settled d.model :=
      fun matter reaches => (settles ran matter).mpr ⟨question, member, reaches⟩
    exact ⟨e, again, diagnostics_eq_of_reach_subset reached fresh sound (balances ran) known again⟩
  · obtain ⟨e, ran'⟩ := exists_askAll reached fresh
      (fun question member => ends question ((same question).mp member)) start
    refine ⟨e, ran', (balances ran).perm (balances ran') ?_⟩
    ext matter
    simp only [settles ran', settles ran, same]

/-- `struct Buoy : Lost, Buoy { Rope rope; };` where `Lost` and `Rope` are declared nowhere. -/
def buoy : TranslationUnit where
  path := "buoy.h"
  root := ⟨0⟩
  cursors := #[
    { kind := .translationUnit, children := [⟨1⟩] },
    { kind := .structDecl, spelling := "Buoy", usr := some "c:Buoy", semanticParent := some ⟨0⟩,
      children := [⟨2⟩, ⟨4⟩, ⟨6⟩] },
    { kind := .cxxBaseSpecifier, spelling := "Lost", semanticParent := some ⟨1⟩,
      children := [⟨3⟩] },
    { kind := .typeRef, spelling := "Lost" },
    { kind := .cxxBaseSpecifier, spelling := "Buoy", semanticParent := some ⟨1⟩, type := some ⟨0⟩,
      children := [⟨5⟩] },
    { kind := .typeRef, spelling := "Buoy", definition := some ⟨1⟩, type := some ⟨0⟩ },
    { kind := .fieldDecl, spelling := "rope", usr := some "c:rope", semanticParent := some ⟨1⟩,
      access := .publicMember, type := some ⟨1⟩ },
    { kind := .structDecl, spelling := "Rope" }]
  types := #[
    { kind := .record, spelling := "Buoy", declaration := some ⟨1⟩ },
    { kind := .record, spelling := "Rope", declaration := some ⟨7⟩ }]

/-- A closure reports the bases before the field, and nothing when it is asked for again. In another
order of the same questions the field comes first. -/
theorem conditions_reported_once_buoy :
    ∃ d, Question.askAll buoy [.closure {} [⟨1⟩], .type ⟨6⟩] (freshDraft buoy .standard) =
        .ok ((), d) ∧
      d.diagnostics = [.unresolvedBase "Buoy" "Lost" {}, .selfBase "Buoy" {},
        .unresolvedType "Buoy::rope" "Rope" {}] ∧
      (∃ e, (Question.closure {} [⟨1⟩]).ask buoy d = .ok ((), e) ∧
        e.diagnostics = d.diagnostics) ∧
      ∃ e, Question.askAll buoy [.type ⟨6⟩, .closure {} [⟨1⟩]] (freshDraft buoy .standard) =
          .ok ((), e) ∧
        e.diagnostics.head? = some (.unresolvedType "Buoy::rope" "Rope" {}) ∧
        e.diagnostics.Perm d.diagnostics := by
  have reports : (Question.askAll buoy [.closure {} [⟨1⟩], .type ⟨6⟩]
      (freshDraft buoy .standard)).toOption.map (fun ended => ended.2.diagnostics) =
        some [.unresolvedBase "Buoy" "Lost" {}, .selfBase "Buoy" {},
          .unresolvedType "Buoy::rope" "Rope" {}] := by decide +kernel
  have reversed : (Question.askAll buoy [.type ⟨6⟩, .closure {} [⟨1⟩]]
      (freshDraft buoy .standard)).toOption.bind (fun ended => ended.2.diagnostics.head?) =
        some (.unresolvedType "Buoy::rope" "Rope" {}) := by decide +kernel
  cases ran : Question.askAll buoy [.closure {} [⟨1⟩], .type ⟨6⟩] (freshDraft buoy .standard) with
  | error _ =>
    rw [ran] at reports
    cases reports
  | ok ended =>
    obtain ⟨⟨⟩, d⟩ := ended
    rw [ran] at reports
    obtain ⟨_, _, _, again, reorders⟩ := conditions_reported_once .standard _ d ran
    obtain ⟨e, ran', perm⟩ := reorders [.type ⟨6⟩, .closure {} [⟨1⟩]] fun question => by
      simp [or_comm]
    rw [ran'] at reversed
    exact ⟨d, rfl, Option.some.inj reports, again _ (by simp), e, ran', reversed, perm⟩

end Bindery
