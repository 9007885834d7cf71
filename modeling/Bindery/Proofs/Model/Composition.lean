import Bindery.Model.Dependency

/-! What is true of the few steps that questions take, and passes from questions to what is put
together from them, is true of every question to the resolver. -/

set_option autoImplicit false

namespace Bindery

open Ast (CursorId TranslationUnit TypeId)

/-- A condition that is met when a question is asked, and not while the model is built. -/
def Diagnostic.isLate : Diagnostic → Bool
  | .unresolvedType .. | .unresolvedBase .. | .selfBase .. => true
  | .unresolvedOwner .. | .rejectedChild .. | .parseMessage .. => false

namespace Query

section

variable {α β : Type}

theorem bind_apply (question : Query α) (next : α → Query β) (d : Draft) :
    (question >>= next) d =
      match question d with
      | .error endless => .error endless
      | .ok (answer, e) => next answer e := by
  change Except.bind (question d) _ = _
  cases question d <;> rfl

/-- Questions asked one after the other have both ended. -/
theorem exists_of_bind_eq_ok {question : Query α} {next : α → Query β} {d e : Draft} {final : β}
    (ran : (question >>= next) d = .ok (final, e)) :
    ∃ answer e', question d = .ok (answer, e') ∧ next answer e' = .ok (final, e) := by
  rw [bind_apply] at ran
  cases started : question d with
  | error endless =>
    rw [started] at ran
    cases ran
  | ok result =>
    rw [started] at ran
    exact ⟨result.1, result.2, rfl, ran⟩

/-- A question has ended if a test of what it leaves comes out true. -/
theorem exists_of_any {question : Query α} {d : Draft} {test : α × Draft → Bool}
    (passed : (question d).toOption.any test) :
    ∃ answer e, question d = .ok (answer, e) ∧ test (answer, e) := by
  cases ran : question d with
  | error endless =>
    rw [ran] at passed
    cases passed
  | ok ended =>
    rw [ran] at passed
    exact ⟨ended.1, ended.2, rfl, passed⟩

end

/-- A property that passes from questions to what is put together from them. -/
structure Composes (P : (α : Type) → Query α → Prop) : Prop where
  pure : ∀ {α : Type} (answer : α), P α (Pure.pure answer)
  model : P Model Query.model
  bind : ∀ {α β : Type} {question : Query α} {next : α → Query β}, P α question →
    (∀ answer, P β (next answer)) → P β (question >>= next)

/-- A property of all that questions do before anything is remembered or reported. -/
structure Reads (P : (α : Type) → Query α → Prop) : Prop extends Composes P where
  throw : ∀ {α : Type} (endless : Endless), P α (MonadExcept.throw endless)
  marker : ∀ spelling, P NodeId (Query.marker spelling)

/-- A property of all that questions do to a draft. -/
structure Pervades (P : (α : Type) → Query α → Prop) : Prop extends Reads P where
  report : ∀ found : Diagnostic, found.isLate → P Unit (Query.report found)
  resolution : ∀ id resolution, P Unit (noteResolution id resolution)
  bases : ∀ id found, P Unit (update id fun node => { node with bases := some found })

structure Typing (u : TranslationUnit) (P : (α : Type) → Query α → Prop) : Prop
    extends Reads P where
  type : ∀ id, P _ (resolveType u id)

/-- A property of the questions that remember answers: those for types and for bases. -/
structure Settling (u : TranslationUnit) (P : (α : Type) → Query α → Prop) : Prop
    extends Typing u P where
  baseList : ∀ record, P _ (Query.baseList u record)

structure Resolving (u : TranslationUnit) (P : (α : Type) → Query α → Prop) : Prop
    extends Composes P where
  type : ∀ id, P _ (resolveType u id)
  typeNeeds : ∀ id, P _ (typeDependencies u id)
  needs : ∀ id, P _ (dependencies u id)
  baseRecords : ∀ id, P _ (Query.bases u id)
  unresolvedBases : ∀ id, P _ (hasUnresolvedBases u id)
  marker : ∀ spelling, P _ (Query.marker spelling)

variable {P : (α : Type) → Query α → Prop}

namespace Composes

variable {α β : Type} (composes : Composes P)

include composes

theorem map {question : Query α} (holds : P α question) (change : α → β) :
    P β (do return change (← question)) := composes.bind holds fun _ => composes.pure _

theorem foldlM {step : β → α → Query β} (each : ∀ s item, P β (step s item)) (items : List α)
    (s : β) : P β (items.foldlM step s) := by
  induction items generalizing s with
  | nil => exact composes.pure s
  | cons item rest ih =>
    rw [List.foldlM_cons]
    exact composes.bind (each s item) ih

theorem mapM {each : α → Query β} (one : ∀ item, P β (each item)) (items : List α) :
    P (List β) (items.mapM each) := by
  induction items with
  | nil => exact composes.pure []
  | cons item rest ih =>
    rw [List.mapM_cons]
    exact composes.bind (one item) fun _ => composes.bind ih fun _ => composes.pure _

end Composes

theorem Resolving.returnType {u : TranslationUnit} (resolving : Resolving u P) (id : NodeId) :
    P _ (Query.returnType u id) := by
  refine resolving.bind resolving.model fun m => ?_
  split
  · exact resolving.type id
  · exact resolving.pure _

section

variable {ready : Draft → Prop} {leads : Draft → Draft → Prop}
  (stays : ∀ d, ready d → leads d d) (again : ∀ d e, leads d e → ready e)
  (follows : ∀ d e k, leads d e → leads e k → leads d k)

include stays again follows

/-- Nothing is said of questions that do not end. Those that do lead to drafts from which others lead
on. -/
theorem Composes.of_leads : Composes fun _ question =>
    ∀ d, ready d → ∀ answer e, question d = .ok (answer, e) → leads d e where
  pure answer := by
    intro d begun given e ran
    cases ran
    exact stays d begun
  model := by
    intro d begun given e ran
    cases ran
    exact stays d begun
  bind first rest := by
    intro d begun final e' ran
    obtain ⟨answer, e, started, ended⟩ := exists_of_bind_eq_ok ran
    have half := first d begun answer e started
    exact follows d e e' half (rest answer e (again d e half) final e' ended)

theorem Reads.of_leads (marker : ∀ spelling d, ready d → ∀ id e,
    Query.marker spelling d = .ok (id, e) → leads d e) : Reads fun _ question =>
      ∀ d, ready d → ∀ answer e, question d = .ok (answer, e) → leads d e where
  toComposes := .of_leads stays again follows
  throw endless := by
    intro d begun answer e ran
    cases ran
  marker := marker

end

namespace Reads

variable (reads : Reads P) (u : TranslationUnit)

include reads

theorem nodeAt (id : Option CursorId) : P _ (Query.nodeAt u id) :=
  reads.bind reads.model fun _ => reads.pure _

theorem descriptor (type : TypeId) : P _ (resolveDescriptor u type) := by
  unfold resolveDescriptor
  dsimp only
  split
  · exact reads.map (reads.marker _) some
  · next declaration _ =>
    split
    · exact reads.map (reads.marker _) some
    · refine reads.bind (reads.nodeAt u _) fun found => ?_
      cases found with
      | some node => exact reads.pure _
      | none => exact reads.nodeAt u _

theorem reference (id : CursorId) : P _ (resolveReference u id) := by
  refine reads.bind (reads.nodeAt u _) fun found => ?_
  cases found with
  | some node => exact reads.pure _
  | none =>
    dsimp only
    split
    · exact reads.pure _
    · exact reads.descriptor u _

theorem stripPointers (type : TypeId) : P _ (Query.stripPointers u type) := by
  unfold Query.stripPointers
  split
  · exact reads.pure _
  · exact reads.throw _

theorem startingType (id : NodeId) (occurrence : CursorId) :
    P _ (Query.startingType u id occurrence) := by
  refine reads.bind reads.model fun m => ?_
  have stripped (type : Option TypeId) : P _ (type.mapM (Query.stripPointers u)) := by
    cases type with
    | none => exact reads.pure _
    | some type => exact reads.map (reads.stripPointers u type) some
  dsimp only
  split
  case h_2 => exact reads.bind (stripped _) fun _ => reads.pure _
  all_goals exact reads.bind (reads.pure _) fun _ => reads.pure _

theorem fallback (id : NodeId) (type : Option TypeId) : P _ (Query.fallback u id type) := by
  refine reads.bind reads.model fun m => ?_
  split
  · exact reads.nodeAt u _
  · exact reads.pure _

end Reads

namespace Typing

variable {u : TranslationUnit} (typing : Typing u P)

include typing

theorem chainEnd (bound : Nat) (id : NodeId) : P _ (Query.chainEnd u bound id) := by
  induction bound generalizing id with
  | zero => exact typing.pure _
  | succ bound ih =>
    refine typing.bind typing.model fun m => ?_
    dsimp only
    split
    · exact typing.pure _
    · split
      · refine typing.bind (typing.type id) fun target => ?_
        cases target with
        | none => exact typing.pure _
        | some next => exact ih next
      · exact typing.pure _

theorem declarationBehind (id : NodeId) : P _ (Query.declarationBehind u id) :=
  typing.bind typing.model fun _ => typing.chainEnd _ id

theorem typeDependency (id : NodeId) : P _ (Query.typeDependency u id) := by
  refine typing.bind (typing.type id) fun target => ?_
  cases target with
  | none => exact typing.pure _
  | some target => exact typing.declarationBehind target

theorem typeDependencies (id : NodeId) : P _ (Query.typeDependencies u id) :=
  typing.bind (typing.typeDependency id) fun _ => typing.pure _

theorem onlyRecord (found : Option NodeId) : P _ (Query.onlyRecord found) :=
  typing.bind typing.model fun _ => typing.pure _

theorem recordBehind (target : NodeId) : P _ (Query.recordBehind u target) := by
  refine typing.bind typing.model fun m => ?_
  split
  · exact typing.bind (typing.declarationBehind target) fun _ => typing.onlyRecord _
  · exact typing.onlyRecord _

theorem resolveBase (specifier : NodeId) : P _ (Query.resolveBase u specifier) := by
  refine typing.bind typing.model fun m => ?_
  split
  · exact typing.pure _
  · split
    · exact typing.pure _
    · refine typing.bind (typing.type specifier) fun target => ?_
      cases target with
      | none => exact typing.pure _
      | some target => exact typing.recordBehind target

end Typing

namespace Settling

variable {u : TranslationUnit} (settling : Settling u P)

include settling

theorem plainDependencies (id : NodeId) : P _ (Query.plainDependencies u id) := by
  refine settling.bind settling.model fun m => ?_
  split
  · exact settling.bind (settling.map (settling.baseList id) _) fun _ => settling.pure _
  · exact settling.pure _
  · refine settling.bind (settling.typeDependencies id) fun returned => ?_
    exact settling.foldlM (fun needed param =>
      settling.bind (settling.typeDependencies param) fun _ => settling.pure _) _ _
  · exact settling.bind (settling.resolveBase id) fun _ => settling.pure _
  all_goals first | exact settling.typeDependencies id | exact settling.pure _

theorem fieldDependencies (bound : Nat) (id : NodeId) : P _ (Query.fieldDependencies u bound id) := by
  induction bound generalizing id with
  | zero => exact settling.throw _
  | succ bound ih =>
    refine settling.bind (settling.typeDependency id) fun target => ?_
    cases target with
    | none => exact settling.pure _
    | some target =>
      dsimp only
      split
      · exact settling.pure _
      · refine settling.bind settling.model fun m => ?_
        split
        · exact settling.bind (ih target) fun _ => settling.pure _
        · exact settling.bind (settling.plainDependencies target) fun _ => settling.pure _

/-- What holds of the questions that remember answers holds of all questions to the resolver. -/
theorem resolving : Resolving u P where
  toComposes := settling.toComposes
  type := settling.type
  typeNeeds := settling.typeDependencies
  needs id := by
    refine settling.bind settling.model fun m => ?_
    split
    · exact settling.fieldDependencies _ id
    · exact settling.plainDependencies id
  baseRecords id := settling.map (settling.baseList id) _
  unresolvedBases id := settling.map (settling.baseList id) _
  marker := settling.marker

end Settling

namespace Pervades

variable (pervades : Pervades P) (u : TranslationUnit)

include pervades

/-! ## Types -/

theorem remember {id : NodeId} {compute : Query (Option NodeId)} (computes : P _ compute) :
    P _ (Query.remember id compute) := by
  refine pervades.bind pervades.model fun m => ?_
  split
  · exact pervades.pure _
  · exact pervades.pure _
  · split
    · exact pervades.bind (pervades.resolution _ _) fun _ => pervades.bind computes fun target =>
        pervades.bind (pervades.resolution _ _) fun _ => pervades.pure _
    · exact pervades.bind (pervades.resolution _ _) fun _ => pervades.pure _

theorem referenceTarget (id : NodeId) : P _ (Query.referenceTarget u id) := by
  refine pervades.remember (pervades.bind pervades.model fun m => ?_)
  split
  · exact pervades.pure _
  · exact pervades.reference u _

theorem reportUnresolved (id : NodeId) (type : Option TypeId) :
    P _ (Query.reportUnresolved u id type) := by
  refine pervades.bind pervades.model fun m => ?_
  dsimp only
  split
  · exact pervades.report _ rfl
  · exact pervades.pure _

theorem conclude (id : NodeId) (type : Option TypeId) (found : Option NodeId) :
    P _ (Query.conclude u id type found) := by
  cases found with
  | some target => exact pervades.pure _
  | none =>
    refine pervades.bind (pervades.fallback u id type) fun target => ?_
    cases target with
    | some target => exact pervades.pure _
    | none => exact pervades.bind (pervades.reportUnresolved u id type) fun _ => pervades.pure _

theorem computeTarget (id : NodeId) (occurrence : CursorId) :
    P _ (Query.computeTarget u id occurrence) := by
  refine pervades.bind pervades.model fun m => ?_
  refine pervades.bind (pervades.startingType u id occurrence) fun type => ?_
  split
  · exact pervades.bind (pervades.referenceTarget u _) fun _ => pervades.conclude u _ _ _
  · exact pervades.bind (pervades.descriptor u _) fun _ => pervades.conclude u _ _ _
  · exact pervades.pure _

theorem resolveType (id : NodeId) : P _ (Query.resolveType u id) := by
  refine pervades.bind pervades.model fun m => ?_
  split
  · exact pervades.referenceTarget u id
  · refine pervades.remember (pervades.bind pervades.model fun m => ?_)
    split
    · exact pervades.pure _
    · exact pervades.computeTarget u _ _

/-! ## Bases -/

theorem typing : Typing u P := ⟨pervades.toReads, pervades.resolveType u⟩

theorem addBase (record : NodeId) (found : BaseList) (specifier : NodeId) :
    P _ (Query.addBase u record found specifier) := by
  refine pervades.bind ((pervades.typing u).resolveBase specifier) fun base => ?_
  refine pervades.bind pervades.model fun m => ?_
  cases base with
  | none => exact pervades.bind (pervades.report _ rfl) fun _ => pervades.pure _
  | some base =>
    dsimp only
    split
    · exact pervades.bind (pervades.report _ rfl) fun _ => pervades.pure _
    · exact pervades.pure _

theorem baseList (record : NodeId) : P _ (Query.baseList u record) := by
  refine pervades.bind pervades.model fun m => ?_
  split
  · exact pervades.pure _
  · refine pervades.bind (pervades.foldlM (pervades.addBase u record) _ _) fun found => ?_
    exact pervades.bind (pervades.bases record found) fun _ => pervades.pure _

theorem settling : Settling u P := ⟨pervades.typing u, pervades.baseList u⟩

/-- What holds of all that questions do holds of the questions. -/
theorem resolving : Resolving u P := (pervades.settling u).resolving

end Pervades

end Query

end Bindery
