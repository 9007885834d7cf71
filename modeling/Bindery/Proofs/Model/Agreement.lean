import Bindery.Proofs.Model.Naming
import Bindery.Proofs.Model.Parallel
import Bindery.Proofs.Model.Triple

/-! Asking the same of two drafts. Whatever has been asked of each before, a question that reads only
what earlier questions leave alone has the same answer on both, or ends on neither. -/

set_option autoImplicit false

namespace Bindery

open Ast (TranslationUnit)

variable {α β : Type}

/-- The answer to a question, if it ends. -/
def Query.answer? (question : Query α) (d : Draft) : Option α :=
  (question d).toOption.map Prod.fst

variable (u : TranslationUnit) (m : Model)

/-- Two coherent drafts, whichever they are. -/
structure Coherents (d e : Draft) : Prop where
  left : Coherent u m [] d.model
  right : Coherent u m [] e.model

/-- Drafts that are related give the same answers to what is asked of single nodes, and stay
related. -/
structure Unison (related : Draft → Draft → Prop) : Prop where
  coherents : ∀ d e, related d e → Coherents u m d e
  dependencies : ∀ id, Concur related (Query.dependencies u id) (Meaning.NoMarkers m)
  bases : ∀ record, Concur related (Query.bases u record) fun _ => True
  unresolvedBases : ∀ record, Concur related (Query.hasUnresolvedBases u record) fun _ => True

variable {u m} {related : Draft → Draft → Prop} {question : Query α} {post : α → Prop}

namespace Concur

variable (coherents : ∀ d e, related d e → Coherents u m d e)

include coherents in
-- What comes next may depend on the model only by what questions leave alone.
theorem model {next : Model → Query α} (same : ∀ n, m.Extends n → next n = next m)
    (rest : Concur related (next m) post) : Concur related (Query.model >>= next) post := by
  refine Parallel.model fun d e drafts => ?_
  rw [same d.model (coherents d e drafts).left.grown, same e.model (coherents d e drafts).right.grown]
  exact rest

include coherents in
theorem strengthen {final : α → Prop} (concurs : Concur related question post)
    (meets : ∀ d : Draft, Coherent u m [] d.model → Meets u m d question final) :
    Concur related question final := by
  intro d e drafts
  have both := concurs d e drafts
  generalize first : question d = ran, question e = other at both
  cases both with
  | ended answers drafts' =>
    have met := ((meets d (coherents d e drafts).left).of_ok first).2.2
    exact .ended ⟨answers.1, met⟩ drafts'
  | endless => exact .endless

theorem of_answers {expected : Option α}
    (answers : ∀ d : Draft, Coherent u m [] d.model → Answers u m [] d question expected Exactly)
    (met : ∀ answer, expected = some answer → post answer) :
    Concur (Coherents u m) question post := by
  intro d e drafts
  have first := answers d drafts.left
  have second := answers e drafts.right
  cases expected with
  | none =>
    obtain ⟨reason, failed⟩ := first
    obtain ⟨other, failed'⟩ := second
    rw [failed, failed']
    exact .endless
  | some answer =>
    obtain ⟨_, d', ran, left', _, rfl⟩ := first
    obtain ⟨_, e', ran', right', _, rfl⟩ := second
    rw [ran, ran']
    exact .ended ⟨rfl, met _ rfl⟩ ⟨left', right'⟩

theorem answer?_eq (concurs : Concur related question post) {d e : Draft} (drafts : related d e) :
    question.answer? d = question.answer? e := by
  have both := concurs d e drafts
  unfold Query.answer?
  generalize question d = ran, question e = other at both
  cases both with
  | ended answers _ =>
    cases answers.1
    rfl
  | endless => rfl

end Concur

theorem unison_coherents : Unison u m (Coherents u m) where
  coherents _ _ drafts := drafts
  dependencies id := .of_answers (fun _ coherent => answers_dependencies coherent id)
    fun _ means => Meaning.noMarkers_needs? means
  bases record := .of_answers (fun _ coherent => answers_bases coherent record) fun _ _ => trivial
  unresolvedBases record :=
    .of_answers (fun _ coherent => answers_hasUnresolvedBases coherent record) fun _ _ => trivial

end Bindery
