import Bindery.Proofs.Model.Dependency
import Bindery.Proofs.Model.Ending

/-! What meanings name. Every node that a type denotes is in the arena, and what a node needs is
declared, so that it is no marker. Answers can therefore be compared between drafts once markers are
told by their spelling. -/

set_option autoImplicit false

namespace Bindery

open Ast (CursorId TranslationUnit TypeId)

/-! ## Nodes of the arena -/

def Denoted.Inside (m : Model) : Denoted → Prop
  | .node id => id.index < m.size
  | .marker _ => True

namespace Meaning

variable {u : TranslationUnit} {m : Model}

section

variable (links : m.Linked)

include links

theorem inside_of_nodeAt? {at? : Option CursorId} {id : NodeId} (found : nodeAt? u m at? = some id) :
    id.index < m.size := by
  obtain ⟨usr, _, known⟩ := Option.bind_eq_some_iff.mp found
  exact links.symbol usr id known

theorem inside_of_ofDescriptor? {type : TypeId} {target : Denoted}
    (denotes : ofDescriptor? u m type = some target) : target.Inside m := by
  unfold ofDescriptor? at denotes
  dsimp only at denotes
  split at denotes
  · cases denotes
    trivial
  · split at denotes
    · cases denotes
      trivial
    · split at denotes
      · next found =>
        cases denotes
        exact inside_of_nodeAt? links found
      · obtain ⟨id, found, rfl⟩ := Option.map_eq_some_iff.mp denotes
        exact inside_of_nodeAt? links found

theorem inside_of_ofReference? {id : CursorId} {target : Denoted}
    (denotes : ofReference? u m id = some target) : target.Inside m := by
  unfold ofReference? at denotes
  split at denotes
  · next found =>
    cases denotes
    exact inside_of_nodeAt? links found
  · obtain ⟨type, _, denotes⟩ := Option.bind_eq_some_iff.mp denotes
    exact inside_of_ofDescriptor? links denotes

/-- What the type of a node denotes is in the arena. -/
theorem inside_of_ofNode? {id : NodeId} {target : Denoted}
    (denotes : ofNode? u m id = some (some target)) : target.Inside m := by
  unfold ofNode? at denotes
  split at denotes
  · split at denotes
    · cases denotes
    · split at denotes
      · exact inside_of_ofReference? links (Option.some.inj denotes)
      · obtain ⟨type, _, denotes⟩ := Option.map_eq_some_iff.mp denotes
        rcases Option.or_eq_some_iff.mp denotes with found | ⟨_, fallback⟩
        · unfold found? at found
          split at found
          · obtain ⟨occurrence, _, found⟩ := Option.bind_eq_some_iff.mp found
            exact inside_of_ofReference? links found
          · obtain ⟨type, _, found⟩ := Option.bind_eq_some_iff.mp found
            exact inside_of_ofDescriptor? links found
        · unfold fallback? at fallback
          split at fallback
          · obtain ⟨node, found, rfl⟩ := Option.map_eq_some_iff.mp fallback
            exact inside_of_nodeAt? links found
          · cases fallback
  · cases denotes

end

/-! ## Declarations -/

end Meaning

namespace NodeKind

/-- Aliases and references only stand in for what their type denotes. -/
def standsIn (kind : NodeKind) : Bool := kind.isReference || kind.isAlias

/-- No marker, and nothing that stands in for another. -/
def isDeclaration (kind : NodeKind) : Bool := kind ≠ .builtin && !kind.standsIn

theorem isDeclaration_of_isRecord {kind : NodeKind} (isRecord : kind.isRecord) :
    kind.isDeclaration := by
  cases kind <;> first | rfl | cases isRecord

theorem ne_builtin_of_isDeclaration {kind : NodeKind} (declares : kind.isDeclaration) :
    kind ≠ .builtin := by
  rintro rfl
  cases declares

end NodeKind

namespace Meaning

variable {u : TranslationUnit} {m : Model}

def Declarations (m : Model) (needed : OrderedSet NodeId) : Prop :=
  ∀ id ∈ needed, (m.kind id).isDeclaration

def NoMarkers (m : Model) (needed : OrderedSet NodeId) : Prop :=
  ∀ id ∈ needed, m.kind id ≠ .builtin

theorem declarations_empty : Declarations m ∅ := fun id member =>
  absurd member (OrderedSet.not_mem_empty id)

theorem declarations_insertAll {needed : OrderedSet NodeId} {items : List NodeId}
    (declared : Declarations m needed) (others : ∀ id ∈ items, (m.kind id).isDeclaration) :
    Declarations m (needed.insertAll items) := fun id member =>
  (OrderedSet.mem_insertAll.mp member).elim (declared id) (others id)

theorem declarations_ofOption {found : Option NodeId}
    (declared : ∀ id ∈ found, (m.kind id).isDeclaration) :
    Declarations m (.ofList found.toList) :=
  declarations_insertAll declarations_empty fun id member =>
    declared id (Option.mem_toList.mp member)

theorem isDeclaration_of_behind? {id last : NodeId} (ends : behind? u m id = some (some last)) :
    (m.kind last).isDeclaration := by
  unfold behind? chainEnd? at ends
  -- Of what a chain comes to, only the last alternative names a node, which is where it ends.
  refine chase_induct (motive := fun answer => ∀ last, answer = some (some last) →
    (m.kind last).isDeclaration) (by simp) ?_ (fun _ _ _ _ given => given) (m.size + 1) id last ends
  intro start answer on last named
  unfold chainStep at on
  split at on
  · cases on
    cases named
  · next real =>
    split at on
    · split at on
      · cases on
        cases named
      · cases on
      · cases on
        cases named
    · next stays =>
      cases on
      cases named
      simp [NodeKind.isDeclaration, NodeKind.standsIn, real, Bool.eq_false_iff.mpr stays]

theorem isDeclaration_of_dependency? {id target : NodeId}
    (found : typeDependency? u m id = some (some target)) : (m.kind target).isDeclaration := by
  unfold typeDependency? at found
  obtain ⟨denoted, _, found⟩ := Option.bind_eq_some_iff.mp found
  split at found
  · exact isDeclaration_of_behind? found
  · cases found

theorem declarations_typeDependencies? {id : NodeId} {needed : OrderedSet NodeId}
    (means : typeDependencies? u m id = some needed) : Declarations m needed := by
  obtain ⟨found, typed, rfl⟩ := Option.map_eq_some_iff.mp means
  refine declarations_ofOption fun other member => ?_
  cases member
  exact isDeclaration_of_dependency? typed

theorem isRecord_of_base? {specifier base : NodeId} (means : base? u m specifier = some (some base)) :
    (m.kind base).isRecord := by
  have only {found : Option NodeId} (named : onlyRecord m found = some base) :
      (m.kind base).isRecord := (Option.filter_eq_some_iff.mp named).2
  unfold base? at means
  split at means
  · cases means
  · split at means
    · cases means
    · obtain ⟨denoted, _, means⟩ := Option.bind_eq_some_iff.mp means
      split at means
      · unfold recordBehind? at means
        split at means
        · obtain ⟨found, _, named⟩ := Option.map_eq_some_iff.mp means
          exact only named
        · exact only (Option.some.inj means)
      · cases means

theorem isRecord_of_bases? {record : NodeId} {found : BaseList}
    (means : bases? u m record = some found) : ∀ base ∈ found.resolved, (m.kind base).isRecord :=
  foldlM_induct (motive := fun found => ∀ base ∈ found.resolved, (m.kind base).isRecord)
    (fun _ _ _ added records base member =>
      (mem_addBase? added member).elim (records base) fun last => isRecord_of_base? last.2)
    means fun base member => absurd member (OrderedSet.not_mem_empty base)

theorem declarations_plain? {id : NodeId} {needed : OrderedSet NodeId}
    (means : plain? u m id = some needed) : Declarations m needed := by
  have owners : Declarations m (.ofList (Query.recordOwner? m id).toList) :=
    declarations_ofOption fun owner owned =>
      NodeKind.isDeclaration_of_isRecord (Option.filter_eq_some_iff.mp owned).2
  unfold plain? at means
  cases kind : m.kind id <;> simp only [kind] at means
  case record =>
    obtain ⟨bases, listed, means⟩ := Option.bind_eq_some_iff.mp means
    obtain ⟨found, known, rfl⟩ := Option.map_eq_some_iff.mp listed
    cases means
    exact declarations_insertAll owners fun base member =>
      NodeKind.isDeclaration_of_isRecord (isRecord_of_bases? known base (List.mem_filter.mp member).1)
  case enumeration =>
    cases means
    exact owners
  case callable =>
    obtain ⟨returned, typed, means⟩ := Option.bind_eq_some_iff.mp means
    refine foldlM_induct (motive := Declarations m) ?_ means (declarations_typeDependencies? typed)
    intro before param after added declared
    obtain ⟨found, typed, added⟩ := Option.bind_eq_some_iff.mp added
    cases added
    exact declarations_insertAll declared (declarations_typeDependencies? typed)
  case baseSpecifier =>
    obtain ⟨found, named, rfl⟩ := Option.map_eq_some_iff.mp means
    refine declarations_ofOption fun base member => ?_
    cases member
    exact NodeKind.isDeclaration_of_isRecord (isRecord_of_base? named)
  case param | field | «variable» | typeDef | typeAlias | typeRef | templateRef =>
    exact declarations_typeDependencies? means
  all_goals
    cases means
    exact declarations_empty

theorem declarations_fieldNeeds? {bound : Nat} {id : NodeId} {needed : OrderedSet NodeId}
    (means : fieldNeeds? u m bound id = some needed) : Declarations m needed := by
  have single {target : NodeId} (declared : (m.kind target).isDeclaration) :
      Declarations m (.ofList [target]) :=
    declarations_insertAll declarations_empty fun id member => List.mem_singleton.mp member ▸ declared
  refine chase_induct (motive := fun answer => ∀ needed, answer = some needed →
    Declarations m needed) (by simp) ?_ ?_ bound id needed means
  · intro start answer on needed meant
    unfold fieldStep at on
    split at on
    · cases on
      cases meant
    · cases on
      cases meant
      exact declarations_empty
    · next target found =>
      have declared := single (isDeclaration_of_dependency? found)
      split at on
      · cases on
        cases meant
        exact declared
      · split at on
        · cases on
        · cases on
          obtain ⟨further, plain, rfl⟩ := Option.map_eq_some_iff.mp meant
          exact declarations_insertAll declared (declarations_plain? plain)
  · intro start next answer on kept needed meant
    obtain ⟨further, rest, rfl⟩ := Option.map_eq_some_iff.mp meant
    exact declarations_insertAll (single (isDeclaration_of_dependency? (leadsTo_fieldStep_iff.mp on).1))
      (kept further rest)

/-- What a node needs is declared. -/
theorem declarations_needs? {id : NodeId} {needed : OrderedSet NodeId}
    (means : needs? u m id = some needed) : Declarations m needed := by
  unfold needs? at means
  split at means
  · exact declarations_fieldNeeds? means
  · exact declarations_plain? means

theorem noMarkers_needs? {id : NodeId} {needed : OrderedSet NodeId}
    (means : needs? u m id = some needed) : NoMarkers m needed := fun other member =>
  NodeKind.ne_builtin_of_isDeclaration (declarations_needs? means other member)

end Meaning

/-! ## Markers told by their spelling -/

/-- A node told by its position, and a marker by its spelling. -/
def Model.told (m : Model) (id : NodeId) : Denoted :=
  if m.kind id = .builtin then .marker (m.name id) else .node id

def Denoted.told (m : Model) : Denoted → Denoted
  | .node id => m.told id
  | .marker spelling => .marker spelling

/-- Asks for a node and tells it wherever markers stand. -/
def Query.telling (question : Query (Option NodeId)) : Query (Option Denoted) := do
  let found ← question
  let m ← Query.model
  return found.map m.told

variable {u : TranslationUnit} {m n : Model} {busy : List NodeId} {d : Draft}

theorem Coherent.told_eq (coherent : Coherent u m busy n) {answer : Option NodeId}
    {target : Option Denoted} (right : Represents n answer target)
    (inside : ∀ denoted, target = some denoted → denoted.Inside m) :
    answer.map n.told = target.map (Denoted.told m) := by
  match answer, target, right with
  | none, none, _ => rfl
  | some id, some (.node _), rfl =>
    have same : n.name id = m.name id := coherent.grown.name_eq (inside _ rfl)
    simp only [Option.map_some, Denoted.told, Model.told, coherent.grown.kind_eq, same]
  | some id, some (.marker spelling), right =>
    have marks := coherent.markers spelling id right.1
    simp [Denoted.told, Model.told, marks.kind, marks.name]

theorem answers_telling {question : Query (Option NodeId)} {expected : Option (Option Denoted)}
    (answers : Answers u m busy d question expected Represents)
    (inside : ∀ denoted, expected = some (some denoted) → denoted.Inside m) :
    Answers u m busy d question.telling (expected.map (Option.map (Denoted.told m))) Exactly := by
  rw [Option.map_eq_bind]
  refine answers.bind ?_
  rintro answer target e rfl coherent _ right
  apply Answers.model
  exact .pure coherent (coherent.told_eq right fun denoted same => inside denoted (same ▸ rfl))

end Bindery
