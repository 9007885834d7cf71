import Bindery.Proofs.Binding.Composition
import Bindery.Proofs.Model.Fresh
import Bindery.Proofs.Model.Triple

/-! The life of a session: it is built once and then asked any number of questions in any order.
Whatever has been asked, every remembered answer is what the model means. -/

set_option autoImplicit false

namespace Bindery

open Ast (TranslationUnit)
open Binding (Closure Policy)
open Project (EmitConfig)

inductive Question where
  | type (id : NodeId)
  | returned (id : NodeId)
  | typeNeeds (id : NodeId)
  | needs (id : NodeId)
  | bases (id : NodeId)
  | unresolvedBases (id : NodeId)
  | marker (spelling : String)
  | casters (p : Policy)
  | closure (p : Policy) (roots : List NodeId)
  | order (settled : Closure)
  | plan (p : Policy) (emit : EmitConfig) (sorted : List NodeId)

/-- Asks a question for what it does to the session. -/
def Query.forget {α : Type} (question : Query α) : Query Unit := do
  let _ ← question
  return ()

def Question.ask (u : TranslationUnit) : Question → Query Unit
  | .type id => Query.forget (Query.resolveType u id)
  | .returned id => Query.forget (Query.returnType u id)
  | .typeNeeds id => Query.forget (Query.typeDependencies u id)
  | .needs id => Query.forget (Query.dependencies u id)
  | .bases id => Query.forget (Query.bases u id)
  | .unresolvedBases id => Query.forget (Query.hasUnresolvedBases u id)
  | .marker spelling => Query.forget (Query.marker spelling)
  | .casters p => Query.forget (p.detectCasters u)
  | .closure p roots => Query.forget (Binding.closure u p roots)
  | .order settled => Query.forget (Binding.order u settled)
  | .plan p emit sorted => Query.forget (Binding.Plan.ofOrder u p emit sorted)

/-- The drafts of the sessions of a unit: after the build, whatever the factory, and after every
question that ends. -/
inductive Reached (u : TranslationUnit) : Draft → Prop where
  | built (f : Factory) : Reached u (Session.start u f).build.draft
  | asked {d e : Draft} (earlier : Reached u d) (question : Question)
      (ended : question.ask u d = .ok ((), e)) : Reached u e

/-- `struct Base {}; struct Derived : Base { void use(Base base); };` -/
def shapes : TranslationUnit where
  path := "shapes.h"
  root := ⟨0⟩
  cursors := #[
    { kind := .translationUnit, children := [⟨1⟩, ⟨2⟩] },
    { kind := .structDecl, spelling := "Base", usr := some "c:Base", semanticParent := some ⟨0⟩ },
    { kind := .structDecl, spelling := "Derived", usr := some "c:Derived",
      semanticParent := some ⟨0⟩, children := [⟨3⟩, ⟨5⟩] },
    { kind := .cxxBaseSpecifier, spelling := "Base", semanticParent := some ⟨2⟩, type := some ⟨0⟩,
      children := [⟨4⟩] },
    { kind := .typeRef, spelling := "Base", definition := some ⟨1⟩, type := some ⟨0⟩ },
    { kind := .cxxMethod, spelling := "use", displayName := some "use(Base)", usr := some "c:use",
      semanticParent := some ⟨2⟩, access := .publicMember, resultType := some ⟨1⟩,
      children := [⟨6⟩] },
    { kind := .parmDecl, spelling := "base", semanticParent := some ⟨5⟩, type := some ⟨0⟩ }]
  types := #[
    { kind := .record, spelling := "Base", declaration := some ⟨1⟩ },
    { kind := .builtin, spelling := "void" }]

def shapesDraft : Draft := (Session.start shapes).build.draft

theorem reached_shapes : Reached shapes shapesDraft := .built .standard

/-! ## Questions keep drafts coherent -/

/-- If a question ends, it leaves a coherent draft coherent and its model as it was. -/
def Keeps (u : TranslationUnit) (m : Model) {α : Type} (question : Query α) : Prop :=
  ∀ (d : Draft), Coherent u m [] d.model → ∀ answer e, question d = .ok (answer, e) →
    Coherent u m [] e.model ∧ d.model.Extends e.model

namespace Keeps

variable {u : TranslationUnit} {m : Model} {α β : Type} {question : Query α}

theorem of_answers {fits : Model → α → β → Prop} {expected : Option β}
    (answers : ∀ d : Draft, Coherent u m [] d.model →
      Answers u m [] d question expected fits) : Keeps u m question := by
  intro d coherent answer e ran
  have given := answers d coherent
  cases expected with
  | none =>
    obtain ⟨endless, failed⟩ := given
    rw [failed] at ran
    cases ran
  | some expected =>
    obtain ⟨answer', e', ran', coherent', grown, _⟩ := given
    rw [ran'] at ran
    cases ran
    exact ⟨coherent', grown⟩

theorem composes : Query.Composes fun _ question => Keeps u m question :=
  .of_leads (fun _ coherent => ⟨coherent, .refl _⟩) (fun _ _ kept => kept.1)
    fun _ _ _ first second => ⟨second.1, first.2.trans second.2⟩

theorem marker (spelling : String) : Keeps u m (Query.marker spelling) := by
  intro d coherent id e ran
  obtain ⟨id', e', ran', coherent', grown, _⟩ := answers_marker coherent spelling
  rw [Query.bind_apply, ran] at ran'
  cases ran'
  exact ⟨coherent', grown⟩

theorem resolving : Query.Resolving u fun _ question => Keeps u m question where
  toComposes := composes
  type id := .of_answers fun _ coherent => answers_resolveType coherent id
  typeNeeds id := .of_answers fun _ coherent => answers_typeDependencies coherent id
  needs id := .of_answers fun _ coherent => answers_dependencies coherent id
  baseRecords id := .of_answers fun _ coherent => answers_bases coherent id
  unresolvedBases id := .of_answers fun _ coherent => answers_hasUnresolvedBases coherent id
  marker := Keeps.marker

end Keeps

/-- What is true of all questions to the resolver, and of what is put together from them, is true of
whatever a session is asked. -/
theorem Query.Resolving.ask {u : TranslationUnit} {P : (α : Type) → Query α → Prop}
    (resolving : Resolving u P) (question : Question) : P _ (question.ask u) := by
  have forget {α : Type} {asked : Query α} (holds : P α asked) : P Unit asked.forget :=
    resolving.bind holds fun _ => resolving.pure _
  cases question with
  | type id => exact forget (resolving.type id)
  | returned id => exact forget (resolving.returnType id)
  | typeNeeds id => exact forget (resolving.typeNeeds id)
  | needs id => exact forget (resolving.needs id)
  | bases id => exact forget (resolving.baseRecords id)
  | unresolvedBases id => exact forget (resolving.unresolvedBases id)
  | marker spelling => exact forget (resolving.marker spelling)
  | casters p => exact forget (resolving.detectCasters p)
  | closure p roots => exact forget (resolving.closure p roots)
  | order settled => exact forget (resolving.order settled)
  | plan p emit sorted => exact forget (resolving.ofOrder p emit sorted)

section

variable {u : TranslationUnit} {m : Model}

theorem keeps_ask (question : Question) : Keeps u m (question.ask u) := Keeps.resolving.ask question

/-! ## Sessions are coherent -/

-- Before the first question there is nothing to be wrong about.
theorem Model.Fresh.coherent (fresh : m.Fresh) : Coherent u m [] m := by
  refine ⟨.refl m, ?_, ?_, ?_⟩
  · intro spelling id found
    rw [Model.marker?, fresh.unmarked] at found
    cases found
  · intro id _
    by_cases inside : id.index < m.size
    · rw [(fresh.unasked id inside).pending]
      trivial
    · exact recallsTarget_outside (.refl m) (Nat.le_of_not_lt inside)
  · intro id found known
    by_cases inside : id.index < m.size
    · rw [(fresh.unasked id inside).baseless] at known
      cases known
    · rw [Model.node_of_size_le (Nat.le_of_not_lt inside)] at known
      cases known

/-- A coherent model is right about itself: no meaning has changed since it was built. -/
theorem Coherent.rebase {n : Model} (coherent : Coherent u m [] n) : Coherent u n [] n := by
  refine ⟨.refl n, coherent.markers, ?_, ?_⟩
  · intro id idle
    have recalled := coherent.targets id idle
    cases known : (n.node id).resolution with
    | pending => trivial
    | inProgress =>
      rw [known] at recalled
      exact recalled
    | done answer =>
      rw [known] at recalled
      obtain ⟨target, means, right⟩ := recalled
      exact ⟨target, by rw [Meaning.ofNode?_extends coherent.grown, means], right⟩
  · intro id found known
    rw [Meaning.bases?_extends coherent.grown]
    exact coherent.bases id found known

end

theorem Reached.coherent {u : TranslationUnit} {d : Draft} (reached : Reached u d) :
    Coherent u d.model [] d.model ∧ d.model.Linked := by
  induction reached with
  | built f =>
    have fresh := Session.fresh_build u f
    exact ⟨fresh.coherent, fresh.linked⟩
  | @asked d e _ question ended ih =>
    -- Meanings are taken from the later model, where they are the same.
    obtain ⟨coherent, grown⟩ := keeps_ask question d ih.1 () e ended
    exact ⟨coherent.rebase, grown.linked ih.2⟩

/-- A question that ends extends the model of a session. -/
theorem Reached.extends {u : TranslationUnit} {d e : Draft} (reached : Reached u d)
    {question : Question} (ended : question.ask u d = .ok ((), e)) : d.model.Extends e.model :=
  (keeps_ask question d reached.coherent.1 () e ended).2

end Bindery
