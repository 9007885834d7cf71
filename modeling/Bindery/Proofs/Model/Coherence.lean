import Bindery.Proofs.Model.Composition
import Bindery.Proofs.Model.Meaning

/-! Questions answer what the model means, whatever was asked before. A model is coherent if every
answer remembered with a node is its meaning; every question asked of a coherent model gives the
meaning, or does not end where there is none, and leaves the model coherent. -/

set_option autoImplicit false

namespace Bindery

open Ast (Cursor CursorId TranslationUnit TypeId)

/-- A node of a later model stands for what a type denotes. -/
def Represents (n : Model) : Option NodeId → Option Denoted → Prop
  | none, none => True
  | some id, some (.node other) => id = other
  | some id, some (.marker spelling) => n.marker? spelling = some id ∧ n.kind id = .builtin
  | _, _ => False

/-- An answer remembered with a node is what the type of the node means. -/
def RecallsTarget (u : TranslationUnit) (m n : Model) (id : NodeId) : Resolution → Prop
  | .pending => True
  | .inProgress => False
  | .done answer => ∃ target, Meaning.ofNode? u m id = some target ∧ Represents n answer target

/-- A node of the arena is the marker of a spelling. -/
structure Model.Marks (n : Model) (spelling : String) (id : NodeId) : Prop where
  inside : id.index < n.size
  face : (n.node id).face = (Node.builtin spelling).face

/-- A later model in which all remembered answers are right. The types of some nodes are just being
resolved. -/
structure Coherent (u : TranslationUnit) (m : Model) (busy : List NodeId) (n : Model) : Prop where
  grown : m.Extends n
  markers : ∀ spelling id, n.marker? spelling = some id → n.Marks spelling id
  targets : ∀ id, id ∉ busy → RecallsTarget u m n id (n.node id).resolution
  bases : ∀ id found, (n.node id).bases = some found → Meaning.bases? u m id = some found

/-- Asked of a draft, a question gives an answer that fits the expected one, or does not end where
none is expected. The draft stays coherent. -/
def Answers {α β : Type} (u : TranslationUnit) (m : Model) (busy : List NodeId) (d : Draft)
    (question : Query α) (expected : Option β) (fits : Model → α → β → Prop) : Prop :=
  match expected with
  | none => ∃ endless, question d = .error endless
  | some answer => ∃ given e, question d = .ok (given, e) ∧ Coherent u m busy e.model ∧
      d.model.Extends e.model ∧ fits e.model given answer

def Exactly {α : Type} (_ : Model) (given expected : α) : Prop := given = expected

variable {u : TranslationUnit} {m : Model} {busy : List NodeId} {d : Draft}

theorem Represents.extends {n k : Model} (grown : n.Extends k) {answer : Option NodeId}
    {target : Option Denoted} (right : Represents n answer target) :
    Represents k answer target := by
  match answer, target, right with
  | none, none, _ => trivial
  | some _, some (.node _), right => exact right
  | some id, some (.marker spelling), right =>
    exact ⟨grown.markers spelling id right.1, (grown.kind_eq id).trans right.2⟩

theorem Model.Marks.kind {n : Model} {spelling : String} {id : NodeId}
    (marks : n.Marks spelling id) : n.kind id = .builtin :=
  congrArg Node.kind marks.face

theorem Model.Marks.name {n : Model} {spelling : String} {id : NodeId}
    (marks : n.Marks spelling id) : n.name id = spelling :=
  congrArg Node.name marks.face

theorem Model.Marks.extends {n k : Model} (grown : n.Extends k) {spelling : String} {id : NodeId}
    (marks : n.Marks spelling id) : k.Marks spelling id :=
  ⟨Nat.lt_of_lt_of_le marks.inside grown.size_le, (grown.kept id marks.inside).trans marks.face⟩

theorem RecallsTarget.extends {n k : Model} (grown : n.Extends k) {id : NodeId}
    {resolution : Resolution} (right : RecallsTarget u m n id resolution) :
    RecallsTarget u m k id resolution := by
  match resolution, right with
  | .pending, _ => trivial
  | .done _, ⟨target, means, represents⟩ => exact ⟨target, means, represents.extends grown⟩

/-! ## Putting answers together -/

section

variable {α β γ δ : Type} {fits : Model → α → β → Prop} {fits' : Model → γ → δ → Prop}

theorem Answers.pure {given : α} {answer : β} (coherent : Coherent u m busy d.model)
    (right : fits d.model given answer) : Answers u m busy d (Pure.pure given) (some answer) fits :=
  ⟨given, d, rfl, coherent, .refl _, right⟩

-- What is busy while the first question is asked need not be so in the end.
theorem Answers.bind {inner : List NodeId} {question : Query α} {expected : Option β}
    {next : α → Query γ} {onward : β → Option δ}
    (first : Answers u m inner d question expected fits)
    (rest : ∀ given answer (e : Draft), expected = some answer → Coherent u m inner e.model →
      d.model.Extends e.model → fits e.model given answer →
      Answers u m busy e (next given) (onward answer) fits') :
    Answers u m busy d (question >>= next) (expected.bind onward) fits' := by
  cases expected with
  | none =>
    obtain ⟨endless, failed⟩ := first
    exact ⟨endless, by rw [Query.bind_apply, failed]⟩
  | some answer =>
    obtain ⟨given, e, ran, coherent, grown, right⟩ := first
    have onwards := rest given answer e rfl coherent grown right
    rw [Option.bind_some]
    cases last : onward answer with
    | none =>
      rw [last] at onwards
      obtain ⟨endless, failed⟩ := onwards
      refine ⟨endless, ?_⟩
      rw [Query.bind_apply, ran]
      exact failed
    | some final =>
      rw [last] at onwards
      obtain ⟨given', e', ran', coherent', grown', right'⟩ := onwards
      refine ⟨given', e', ?_, coherent', grown.trans grown', right'⟩
      rw [Query.bind_apply, ran]
      exact ran'

/-- What follows a question that always has an answer. -/
theorem Answers.bind_some {inner : List NodeId} {question : Query α} {answer : β}
    {next : α → Query γ} {expected : Option δ}
    (first : Answers u m inner d question (some answer) fits)
    (rest : ∀ given (e : Draft), Coherent u m inner e.model → d.model.Extends e.model →
      fits e.model given answer → Answers u m busy e (next given) expected fits') :
    Answers u m busy d (question >>= next) expected fits' := by
  obtain ⟨given, e, ran, coherent, grown, right⟩ := first
  have onwards := rest given e coherent grown right
  rw [← Option.bind_some answer fun _ => expected]
  refine Answers.bind ⟨given, e, ran, coherent, grown, right⟩ ?_
  intro other _ e' same coherent' grown' right'
  cases same
  exact rest other e' coherent' grown' right'

theorem Answers.map {question : Query α} {expected : Option β} {change : α → γ} {onward : β → δ}
    (first : Answers u m busy d question expected fits)
    (right : ∀ given answer (n : Model), fits n given answer →
      fits' n (change given) (onward answer)) :
    Answers u m busy d (do return change (← question)) (expected.map onward) fits' := by
  rw [Option.map_eq_bind]
  exact first.bind fun given answer e _ coherent _ fit =>
    .pure coherent (right given answer e.model fit)

/-- A question that has ended was answered as expected. -/
theorem Answers.of_ok {question : Query α} {expected : Option β} {given : α} {e : Draft}
    (answers : Answers u m busy d question expected fits) (ran : question d = .ok (given, e)) :
    ∃ answer, expected = some answer ∧ Coherent u m busy e.model ∧ d.model.Extends e.model ∧
      fits e.model given answer := by
  cases expected with
  | none =>
    obtain ⟨endless, failed⟩ := answers
    rw [failed] at ran
    cases ran
  | some answer =>
    obtain ⟨_, _, ran', coherent, grown, right⟩ := answers
    rw [ran'] at ran
    cases ran
    exact ⟨answer, rfl, coherent, grown, right⟩

theorem Answers.model {next : Model → Query α} {expected : Option β}
    (rest : Answers u m busy d (next d.model) expected fits) :
    Answers u m busy d (Query.model >>= next) expected fits := rest

-- What is done to the draft first, and keeps it coherent, changes no answer.
theorem Answers.after {first : Query Unit} {next : Query α} {expected : Option β} {e : Draft}
    (ran : first d = .ok ((), e)) (grown : d.model.Extends e.model)
    (rest : Answers u m busy e next expected fits) :
    Answers u m busy d (do first; next) expected fits := by
  have started : (do first; next : Query α) d = next e := by
    change (first >>= fun _ => next) d = next e
    rw [Query.bind_apply, ran]
  cases expected with
  | none =>
    obtain ⟨endless, failed⟩ := rest
    exact ⟨endless, started.trans failed⟩
  | some answer =>
    obtain ⟨given, e', ran', coherent, further, right⟩ := rest
    exact ⟨given, e', started.trans ran', coherent, grown.trans further, right⟩

theorem Answers.foldlM {σ ι : Type} {step : σ → ι → Query σ} {means : σ → ι → Option σ}
    (each : ∀ s i (e : Draft), Coherent u m busy e.model → d.model.Extends e.model →
      Answers u m busy e (step s i) (means s i) Exactly)
    (coherent : Coherent u m busy d.model) (items : List ι) (s : σ) :
    Answers u m busy d (items.foldlM step s) (items.foldlM means s) Exactly := by
  induction items generalizing s d with
  | nil => exact .pure coherent rfl
  | cons item rest ih =>
    rw [List.foldlM_cons, List.foldlM_cons]
    refine (each s item d coherent (.refl _)).bind fun given answer e _ coherent grown same => ?_
    rw [show given = answer from same]
    exact ih (fun s i e' coherent' further => each s i e' coherent' (grown.trans further)) coherent _

theorem Answers.mapM {each : α → Query β} {means : α → Option β}
    (one : ∀ item (e : Draft), Coherent u m busy e.model →
      Answers u m busy e (each item) (means item) Exactly)
    (coherent : Coherent u m busy d.model) (items : List α) :
    Answers u m busy d (items.mapM each) (items.mapM means) Exactly := by
  induction items generalizing d with
  | nil => exact .pure coherent rfl
  | cons item rest ih =>
    rw [List.mapM_cons, List.mapM_cons]
    refine (one item d coherent).bind fun given answer e _ coherent' _ same => ?_
    refine (ih coherent').bind fun answers others e' _ coherent'' _ sames => ?_
    cases same
    cases sames
    exact .pure coherent'' rfl

end

/-! ## Types -/

theorem nodeAt_bind {α : Type} (coherent : Coherent u m busy d.model) (id : Option CursorId)
    (next : Option NodeId → Query α) :
    (Query.nodeAt u id >>= next) d = next (Meaning.nodeAt? u m id) d := by
  rw [← Meaning.nodeAt?_extends coherent.grown]
  rfl

theorem ofNode?_of_builtin {id : NodeId} (builtin : m.kind id = .builtin) :
    Meaning.ofNode? u m id = some none := by
  simp [Meaning.ofNode?, builtin, NodeKind.holdsType]

-- Outside an arena nothing is remembered, and rightly so.
theorem recallsTarget_outside {n : Model} (grown : m.Extends n) {id : NodeId}
    (outside : n.size ≤ id.index) : RecallsTarget u m n id (n.node id).resolution := by
  have builtin : m.kind id = .builtin := by
    rw [← grown.kind_eq, Model.kind, Model.node_of_size_le outside]
    rfl
  rw [Model.node_of_size_le outside]
  exact ⟨none, ofNode?_of_builtin builtin, trivial⟩

/-- Where all that is listed as a marker is one, it is so once a marker has been made. -/
theorem Model.marks_mark {n : Model}
    (marks : ∀ spelling id, n.marker? spelling = some id → n.Marks spelling id) {spelling : String}
    (absent : n.marker? spelling = none) (other : String) (id : NodeId)
    (found : (n.markers.put spelling (n.add (.builtin spelling)).2).get? other = some id) :
    Model.Marks { (n.add (.builtin spelling)).1 with
      markers := n.markers.put spelling (n.add (.builtin spelling)).2 } other id := by
  rw [OrderedMap.get?_put] at found
  split at found
  · next same =>
    cases found
    rw [same]
    refine ⟨?_, congrArg Node.face (node_add_size n _)⟩
    change n.size < (n.add (.builtin spelling)).1.size
    rw [Model.size_add]
    exact Nat.lt_succ_self n.size
  · exact (marks other id found).extends (.mark absent)

theorem Coherent.mark {n : Model} (coherent : Coherent u m busy n) {spelling : String}
    (absent : n.marker? spelling = none) :
    Coherent u m busy { (n.add (.builtin spelling)).1 with
      markers := n.markers.put spelling (n.add (.builtin spelling)).2 } := by
  have grown := Model.Extends.mark absent
  have made := Model.node_add_size n (.builtin spelling)
  -- Every node is an earlier one, the new marker, or none at all.
  have cases_node (id : NodeId) : id.index < n.size ∨ id = ⟨n.size⟩ ∨
      (n.add (.builtin spelling)).1.size ≤ id.index := by
    rcases Nat.lt_trichotomy id.index n.size with earlier | last | outside
    · exact .inl earlier
    · exact .inr (.inl (by cases id; cases last; rfl))
    · exact .inr (.inr (by rw [Model.size_add]; exact outside))
  refine ⟨coherent.grown.trans grown, Model.marks_mark coherent.markers absent, ?_, ?_⟩
  · intro id idle
    rcases cases_node id with earlier | rfl | outside
    · have same := Model.Extends.node_add_of_lt (.builtin spelling) earlier
      have right := (coherent.targets id idle).extends grown
      rw [← same] at right
      exact right
    · refine (congrArg (RecallsTarget u m _ _ ·.resolution) made).mpr ?_
      refine ⟨none, ofNode?_of_builtin ?_, trivial⟩
      rw [← (coherent.grown.trans grown).kind_eq]
      exact congrArg Node.kind made
    · exact recallsTarget_outside (coherent.grown.trans grown) outside
  · intro id found known
    change ((n.add (.builtin spelling)).1.node id).bases = some found at known
    rcases cases_node id with earlier | rfl | outside
    · rw [Model.Extends.node_add_of_lt (.builtin spelling) earlier] at known
      exact coherent.bases id found known
    · rw [made] at known
      cases known
    · rw [Model.node_of_size_le outside] at known
      cases known

/-- A marker is made where there is none, and found again later. -/
theorem answers_marker (coherent : Coherent u m busy d.model) (spelling : String) :
    Answers u m busy d (do return some (← Query.marker spelling))
      (some (some (Denoted.marker spelling))) Represents := by
  cases known : d.model.marker? spelling with
  | some id =>
    refine ⟨some id, d, ?_, coherent, .refl _, known, (coherent.markers spelling id known).kind⟩
    rw [Query.bind_apply]
    simp only [Query.marker, known]
    rfl
  | none =>
    have marked := coherent.mark known
    have found : (d.model.markers.put spelling (d.model.add (.builtin spelling)).2).get? spelling =
        some (d.model.add (.builtin spelling)).2 := by
      rw [OrderedMap.get?_put, if_pos rfl]
    refine ⟨some (d.model.add (.builtin spelling)).2, { d with model := _ }, ?_, marked,
      .mark known, found, (marked.markers spelling _ found).kind⟩
    rw [Query.bind_apply]
    simp only [Query.marker, known]
    rfl

/-- Remembering a right answer, or that a node is busy, keeps a model coherent. -/
theorem Coherent.note {n : Model} {busy' : List NodeId} (coherent : Coherent u m busy n)
    {id : NodeId} {resolution : Resolution}
    (right : id ∉ busy' → RecallsTarget u m n id resolution)
    (others : ∀ other, other ≠ id → other ∉ busy' → other ∉ busy) :
    Coherent u m busy' (n.update id fun node => { node with resolution }) := by
  have grown : n.Extends (n.update id fun node => { node with resolution }) :=
    .update n id _ fun _ => rfl
  refine ⟨coherent.grown.trans grown, ?_, ?_, ?_⟩
  · exact fun spelling marker found => (coherent.markers spelling marker found).extends grown
  · intro other idle
    -- Outside the arena nothing is written, and nothing remembered.
    by_cases inside : other.index < n.size
    · rw [Model.node_update]
      by_cases same : other = id
      · subst same
        rw [if_pos ⟨rfl, inside⟩]
        exact (right idle).extends grown
      · rw [if_neg fun both => same both.1]
        exact (coherent.targets other (others other same idle)).extends grown
    · apply recallsTarget_outside (coherent.grown.trans grown)
      rw [Model.size_update]
      exact Nat.le_of_not_lt inside
  · intro other found known
    rw [Model.node_update] at known
    split at known
    · exact coherent.bases other found known
    · exact coherent.bases other found known

theorem Coherent.noteBases {n : Model} (coherent : Coherent u m busy n) {id : NodeId}
    {found : BaseList} (right : Meaning.bases? u m id = some found) :
    Coherent u m busy (n.update id fun node => { node with bases := some found }) := by
  have grown : n.Extends (n.update id fun node => { node with bases := some found }) :=
    .update n id _ fun _ => rfl
  refine ⟨coherent.grown.trans grown, ?_, ?_, ?_⟩
  · exact fun spelling marker known => (coherent.markers spelling marker known).extends grown
  · intro other idle
    have kept := (coherent.targets other idle).extends grown
    rw [Model.node_update]
    split
    · exact kept
    · exact kept
  · intro other list known
    rw [Model.node_update] at known
    split at known
    · next here =>
      cases known
      rw [here.1]
      exact right
    · exact coherent.bases other list known

end Bindery
