import Bindery.Proofs.Model.Dependency

/-! Reasoning about what is put together from questions. Asked of a coherent draft, it leaves the
draft coherent and meets a condition on its answer, and it ends unless some node needs what has no
meaning. -/

set_option autoImplicit false

namespace Bindery

open Ast (TranslationUnit)

variable (u : TranslationUnit) (m : Model)

/-- Every node has dependencies. -/
def Halting : Prop := ∀ id, Meaning.needs? u m id ≠ none

/-- The answer to a question meets a condition, if there is one. -/
def Meets {α : Type} (d : Draft) (question : Query α) (post : α → Prop) : Prop :=
  match question d with
  | .ok (answer, e) => Coherent u m [] e.model ∧ d.model.Extends e.model ∧ post answer
  | .error _ => ¬ Halting u m

variable {u m} {d : Draft} {α β : Type} {question : Query α} {post : α → Prop}

theorem exists_left_of_mem {related : α → β → Prop} {items : List α} {answers : List β}
    (matched : List.Forall₂ related items answers) {answer : β} (member : answer ∈ answers) :
    ∃ item ∈ items, related item answer := by
  induction matched with
  | nil => cases member
  | cons right _ ih =>
    rcases List.mem_cons.mp member with rfl | later
    · exact ⟨_, List.mem_cons_self, right⟩
    · obtain ⟨item, inside, related⟩ := ih later
      exact ⟨item, List.mem_cons_of_mem _ inside, related⟩

namespace Meets

theorem pure {answer : α} (coherent : Coherent u m [] d.model) (met : post answer) :
    Meets u m d (Pure.pure answer) post :=
  ⟨coherent, .refl _, met⟩

theorem model {next : Model → Query α} (rest : Meets u m d (next d.model) post) :
    Meets u m d (Query.model >>= next) post := rest

theorem weaken {other : α → Prop} (met : Meets u m d question post)
    (weaker : ∀ answer, post answer → other answer) : Meets u m d question other := by
  unfold Meets at met ⊢
  split
  · next answer e ran =>
    rw [ran] at met
    exact ⟨met.1, met.2.1, weaker answer met.2.2⟩
  · next failed =>
    rw [failed] at met
    exact met

theorem bind {next : α → Query β} {final : β → Prop} (first : Meets u m d question post)
    (rest : ∀ answer (e : Draft), Coherent u m [] e.model → d.model.Extends e.model →
      post answer → Meets u m e (next answer) final) :
    Meets u m d (question >>= next) final := by
  unfold Meets at first ⊢
  rw [Query.bind_apply]
  cases ran : question d with
  | error endless =>
    rw [ran] at first
    exact first
  | ok result =>
    obtain ⟨answer, e⟩ := result
    rw [ran] at first
    obtain ⟨coherent, grown, met⟩ := first
    have onwards := rest answer e coherent grown met
    unfold Meets at onwards
    dsimp only
    split
    · next final' e' ended =>
      rw [ended] at onwards
      exact ⟨onwards.1, grown.trans onwards.2.1, onwards.2.2⟩
    · next failed =>
      rw [failed] at onwards
      exact onwards

theorem mapM {related : α → β → Prop} {each : α → Query β} (items : List α)
    (coherent : Coherent u m [] d.model)
    (one : ∀ item ∈ items, ∀ e : Draft, Coherent u m [] e.model → d.model.Extends e.model →
      Meets u m e (each item) (related item)) :
    Meets u m d (items.mapM each) (List.Forall₂ related items) := by
  induction items generalizing d with
  | nil => exact .pure coherent .nil
  | cons item rest ih =>
    rw [List.mapM_cons]
    refine (one item List.mem_cons_self d coherent (.refl _)).bind ?_
    intro answer e coherent' grown right
    refine (ih coherent' fun other member e' later further =>
      one other (List.mem_cons_of_mem item member) e' later (grown.trans further)).bind ?_
    intro answers e' coherent'' _ rights
    exact .pure coherent'' (.cons right rights)

theorem of_ok {answer : α} {e : Draft} (met : Meets u m d question post)
    (ran : question d = .ok (answer, e)) :
    Coherent u m [] e.model ∧ d.model.Extends e.model ∧ post answer := by
  unfold Meets at met
  rw [ran] at met
  exact met

theorem exists_of_halting (met : Meets u m d question post) (halting : Halting u m) :
    ∃ answer e, question d = .ok (answer, e) ∧ Coherent u m [] e.model ∧
      d.model.Extends e.model ∧ post answer := by
  unfold Meets at met
  split at met
  · next answer e ran => exact ⟨answer, e, ran, met⟩
  · exact absurd halting met

/-- A question with an expected answer gives that answer. -/
theorem of_answers {fits : Model → α → β → Prop} {expected : Option β}
    (answers : Answers u m [] d question expected fits)
    (endless : expected = none → ¬ Halting u m)
    (right : ∀ given answer (n : Model), expected = some answer → fits n given answer →
      post given) : Meets u m d question post := by
  cases expected with
  | none =>
    obtain ⟨reason, failed⟩ := answers
    unfold Meets
    rw [failed]
    exact endless rfl
  | some answer =>
    obtain ⟨given, e, ran, coherent, grown, fit⟩ := answers
    unfold Meets
    rw [ran]
    exact ⟨coherent, grown, right given answer e.model rfl fit⟩

end Meets

/-! ## Questions that need nothing but dependencies to end -/

-- The bases of a record are among its dependencies.
theorem not_halting_of_bases {record : NodeId} (isRecord : (m.kind record).isRecord)
    (endless : Meaning.bases? u m record = none) : ¬ Halting u m := by
  intro halting
  apply halting record
  cases kind : m.kind record with
  | record _ => simp [Meaning.needs?, Meaning.plain?, kind, endless]
  | _ => simp [kind, NodeKind.isRecord] at isRecord

theorem meets_dependencies (coherent : Coherent u m [] d.model) (id : NodeId) :
    Meets u m d (Query.dependencies u id) fun needed => Meaning.needs? u m id = some needed :=
  .of_answers (answers_dependencies coherent id) (fun endless halting => halting id endless)
    fun given answer _ means same => by
      cases same
      exact means

theorem meets_hasUnresolvedBases (coherent : Coherent u m [] d.model) {record : NodeId}
    (isRecord : (m.kind record).isRecord) :
    Meets u m d (Query.hasUnresolvedBases u record) fun open? =>
      (Meaning.bases? u m record).map (fun found => decide (0 < found.unresolved)) = some open? :=
  .of_answers (answers_hasUnresolvedBases coherent record)
    (fun endless => not_halting_of_bases isRecord (Option.map_eq_none_iff.mp endless))
    fun given answer _ means same => by
      cases same
      exact means

theorem meets_bases (coherent : Coherent u m [] d.model) {record : NodeId}
    (isRecord : (m.kind record).isRecord) :
    Meets u m d (Query.bases u record) fun bases =>
      (Meaning.bases? u m record).map (·.resolved.toList) = some bases :=
  .of_answers (answers_bases coherent record)
    (fun endless => not_halting_of_bases isRecord (Option.map_eq_none_iff.mp endless))
    fun given answer _ means same => by
      cases same
      exact means

end Bindery
