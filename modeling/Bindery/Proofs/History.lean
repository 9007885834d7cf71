import Bindery.Proofs.Binding.Agreement

/-! The history of a session has no part in its answers. Whatever has been asked since the build, every
question is answered as it would have been at first. Only the places of markers depend on when they
were made, and so markers are told by their spelling. -/

set_option autoImplicit false

namespace Bindery

open Ast (TranslationUnit)
open Binding (Closure Plan Policy closure order)
open Project (EmitConfig)

def Question.askAll (u : TranslationUnit) (questions : List Question) : Query Unit :=
  questions.foldlM (fun _ question => question.ask u) ()

/-- The draft of a session that was built and not asked anything. -/
def freshDraft (u : TranslationUnit) (f : Factory) : Draft := (Session.start u f).build.draft

namespace Query

/-- What the types of some nodes denote, asked for in turn. -/
def tellTypes (u : TranslationUnit) (ids : List NodeId) : Query (List (Option Denoted)) :=
  ids.mapM fun id => (resolveType u id).telling

/-- The marker for a spelling, as an answer that can be told. -/
def tellMarker (spelling : String) : Query (Option Denoted) :=
  telling do return some (← marker spelling)

end Query

/-- Two drafts give the same answer to each question, or neither gives any. Nodes given to a closure
are those of the first draft. -/
structure AnswersAlike (u : TranslationUnit) (fresh d : Draft) : Prop where
  type : ∀ id, (Query.resolveType u id).telling.answer? d =
    (Query.resolveType u id).telling.answer? fresh
  returned : ∀ id, (Query.returnType u id).telling.answer? d =
    (Query.returnType u id).telling.answer? fresh
  typeNeeds : ∀ id, (Query.typeDependencies u id).answer? d =
    (Query.typeDependencies u id).answer? fresh
  needs : ∀ id, (Query.dependencies u id).answer? d = (Query.dependencies u id).answer? fresh
  bases : ∀ id, (Query.bases u id).answer? d = (Query.bases u id).answer? fresh
  unresolvedBases : ∀ id, (Query.hasUnresolvedBases u id).answer? d =
    (Query.hasUnresolvedBases u id).answer? fresh
  marker : ∀ spelling, (Query.tellMarker spelling).answer? d =
    (Query.tellMarker spelling).answer? fresh
  closure : ∀ (p : Policy) (roots : List NodeId), (∀ id ∈ roots, id.index < fresh.model.size) →
    (closure u p roots).answer? d = (closure u p roots).answer? fresh
  order : ∀ c : Closure, (order u c).answer? d = (order u c).answer? fresh
  plan : ∀ (p : Policy) (emit : EmitConfig) (sorted : List NodeId),
    (Plan.ofOrder u p emit sorted).answer? d = (Plan.ofOrder u p emit sorted).answer? fresh
  bindings : ∀ (p : Policy) (emit : EmitConfig) (roots : List NodeId),
    (∀ id ∈ roots, id.index < fresh.model.size) →
      (Plan.ofRoots u p emit roots).answer? d = (Plan.ofRoots u p emit roots).answer? fresh

variable {u : TranslationUnit} {m : Model} {d : Draft}

theorem keeps_askAll (questions : List Question) : Keeps u m (Question.askAll u questions) :=
  Keeps.composes.foldlM (fun _ question => keeps_ask question) questions ()

/-! ## Questions about types -/

theorem answers_tellType (links : m.Linked) (coherent : Coherent u m [] d.model) (id : NodeId) :
    Answers u m [] d (Query.resolveType u id).telling
      ((Meaning.ofNode? u m id).map (Option.map (Denoted.told m))) Exactly :=
  answers_telling (answers_resolveType coherent id) fun _ denotes =>
    Meaning.inside_of_ofNode? links denotes

theorem answers_tellReturned (links : m.Linked) (coherent : Coherent u m [] d.model)
    (id : NodeId) :
    Answers u m [] d (Query.returnType u id).telling
      ((if (m.kind id).isCallable then Meaning.ofNode? u m id else some none).map
        (Option.map (Denoted.told m))) Exactly := by
  have answers : Answers u m [] d (Query.returnType u id)
      (if (m.kind id).isCallable then Meaning.ofNode? u m id else some none) Represents := by
    unfold Query.returnType
    apply Answers.model
    rw [coherent.grown.kind_eq]
    split
    · exact answers_resolveType coherent id
    · exact .pure coherent trivial
  refine answers_telling answers fun target denotes => ?_
  split at denotes
  · exact Meaning.inside_of_ofNode? links denotes
  · cases denotes

theorem answers_tellTypes (links : m.Linked) (coherent : Coherent u m [] d.model)
    (ids : List NodeId) :
    Answers u m [] d (Query.tellTypes u ids)
      (ids.mapM fun id => (Meaning.ofNode? u m id).map (Option.map (Denoted.told m))) Exactly :=
  .mapM (fun id _ coherent' => answers_tellType links coherent' id) coherent ids

theorem mapM_reverse {α β : Type} (means : α → Option β) (items : List α) :
    items.reverse.mapM means = (items.mapM means).map List.reverse := by
  induction items with
  | nil => rfl
  | cons item rest ih =>
    rw [List.reverse_cons, List.mapM_append, ih, List.mapM_cons]
    cases first : means item <;> cases others : rest.mapM means <;> simp [first, others]

theorem answer?_of_answers {α : Type} {question : Query α} {expected : Option α}
    (answers : Answers u m [] d question expected Exactly) : question.answer? d = expected := by
  cases expected with
  | none =>
    obtain ⟨endless, failed⟩ := answers
    simp [Query.answer?, failed, Except.toOption]
  | some answer =>
    obtain ⟨given, e, ran, _, _, same⟩ := answers
    cases same
    simp [Query.answer?, ran, Except.toOption]

/-! ## All questions -/

/-- Any two coherent drafts over one fresh model answer alike. -/
theorem answersAlike {fresh : Draft} (reached : Reached u fresh)
    (coherent : Coherent u fresh.model [] d.model) : AnswersAlike u fresh d := by
  obtain ⟨start, links⟩ := reached.coherent
  have alike {α : Type} {question : Query α} {expected : Option α}
      (answers : ∀ e : Draft, Coherent u fresh.model [] e.model →
        Answers u fresh.model [] e question expected Exactly) :
      question.answer? d = question.answer? fresh :=
    (answer?_of_answers (answers d coherent)).trans (answer?_of_answers (answers fresh start)).symm
  refine ⟨fun id => ?_, fun id => ?_, fun id => ?_, fun id => ?_, fun id => ?_, fun id => ?_,
    fun spelling => ?_, fun p roots known => ?_, fun c => ?_, fun p emit sorted => ?_,
    fun p emit roots known => ?_⟩
  · exact alike fun _ coherent' => answers_tellType links coherent' id
  · exact alike fun _ coherent' => answers_tellReturned links coherent' id
  · exact alike fun _ coherent' => answers_typeDependencies coherent' id
  · exact alike fun _ coherent' => answers_dependencies coherent' id
  · exact alike fun _ coherent' => answers_bases coherent' id
  · exact alike fun _ coherent' => answers_hasUnresolvedBases coherent' id
  · refine alike fun _ coherent' => answers_telling (answers_marker coherent' spelling) ?_
    rintro _ ⟨⟩
    trivial
  · exact (Binding.concur_closure reached unison_coherents known).answer?_eq ⟨coherent, start⟩
  · exact (Binding.concur_order reached unison_coherents c).answer?_eq ⟨coherent, start⟩
  · exact (Binding.concur_ofOrder reached unison_coherents sorted).answer?_eq ⟨coherent, start⟩
  · exact (Binding.concur_ofRoots reached unison_coherents known).answer?_eq ⟨coherent, start⟩

/-- Whatever has been asked since the build, every question has the answer it would have had at first.
The answer for the type of a node is what the model means, in which no node is ever in progress, and
types asked for in one order are those asked for in the opposite order. -/
theorem answers_repeat (f : Factory) (asked : List Question) (d : Draft)
    (ran : Question.askAll u asked (freshDraft u f) = .ok ((), d)) :
    AnswersAlike u (freshDraft u f) d ∧
      (∀ id, (Query.resolveType u id).telling.answer? d =
        (Meaning.ofNode? u (freshDraft u f).model id).map
          (Option.map (Denoted.told (freshDraft u f).model))) ∧
      ∀ ids, (Query.tellTypes u ids.reverse).answer? d =
        ((Query.tellTypes u ids).answer? (freshDraft u f)).map List.reverse := by
  have reached : Reached u (freshDraft u f) := .built f
  obtain ⟨start, links⟩ := reached.coherent
  have coherent := (keeps_askAll asked _ start () d ran).1
  refine ⟨answersAlike reached coherent, fun id => ?_, fun ids => ?_⟩
  · exact answer?_of_answers (answers_tellType links coherent id)
  · rw [answer?_of_answers (answers_tellTypes links coherent ids.reverse),
      answer?_of_answers (answers_tellTypes links start ids), mapM_reverse]

/-- Markers are made, types resolved and a closure found before a plan is asked for. -/
theorem answers_repeat_shapes :
    ∃ d, Question.askAll shapes
        [.marker "int", .type ⟨6⟩, .closure {} [⟨2⟩], .type ⟨5⟩, .bases ⟨2⟩]
        (freshDraft shapes .standard) = .ok ((), d) ∧
      (Plan.ofRoots shapes {} {} [⟨2⟩]).answer? d =
        (Plan.ofRoots shapes {} {} [⟨2⟩]).answer? (freshDraft shapes .standard) ∧
      (Query.resolveType shapes ⟨5⟩).telling.answer? d = some (some (.marker "void")) := by
  have known : ∀ id ∈ [(⟨2⟩ : NodeId)], id.index < (freshDraft shapes .standard).model.size := by
    decide +kernel
  have ended : (Question.askAll shapes
      [.marker "int", .type ⟨6⟩, .closure {} [⟨2⟩], .type ⟨5⟩, .bases ⟨2⟩]
      (freshDraft shapes .standard)).isOk := by decide +kernel
  match ran : Question.askAll shapes
      [.marker "int", .type ⟨6⟩, .closure {} [⟨2⟩], .type ⟨5⟩, .bases ⟨2⟩]
      (freshDraft shapes .standard) with
  | .ok ((), d) =>
    obtain ⟨alike, means, _⟩ := answers_repeat .standard _ d ran
    refine ⟨d, rfl, alike.bindings {} {} [⟨2⟩] known, ?_⟩
    rw [means]
    decide +kernel
  | .error _ =>
    rw [ran] at ended
    cases ended

end Bindery
