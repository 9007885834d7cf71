import Bindery.Proofs.Model.Walk
import Bindery.Proofs.Strict.Model

/-! Strict building. The walk of a build looks up cursors of its unit and nodes of its draft alone,
and leaves a ranged draft ranged: what it writes into a node are nodes that it has met. -/

set_option autoImplicit false

namespace Bindery

open Ast (Cursor CursorId CursorTree TranslationUnit)

namespace Strict

/-! ## Visits -/

section
variable (m : Model) (u : TranslationUnit)

def semanticOwner (container : NodeId) (c : Cursor) : Option (Option NodeId) := do
  if c.kind.isTemplateParameter || c.kind.isReference then return some container
  else
    match c.semanticParent with
    | none => return some container
    | some parent =>
      let parent ← u.cursor? parent
      if parent.kind = .translationUnit then return some Model.root
      else if parent.usr? = (← m.node? container).usr then return some container
      else return parent.usr?.bind m.byUsr?

def ownerAllows (owner : NodeId) (child : Ast.CursorKind) : Option Bool := do
  let node ← m.node? owner
  return !(node.kind = .templateNonTypeParam && node.refType.isSome) && allows node.kind child

def judge (container item : NodeId) (c : Cursor) : Option Verdict := do
  match ← semanticOwner m u container c with
  | none => return .ownerless
  | some owner =>
    let containerKind ← kind m container
    let itemKind ← kind m item
    let ownerKind ← kind m owner
    if isElaboration containerKind itemKind ownerKind then
      return if ← ownerAllows m owner c.kind then .elaborated owner else .rejected owner
    else if (← ownerAllows m owner c.kind) &&
        (owner = container || mayRelocate containerKind itemKind ownerKind) then
      return .accepted owner
    else return .rejected owner

def attach (owner item : NodeId) : Option Model := do
  let _ ← m.node? owner
  let _ ← m.node? item
  return m.attach owner item

def setOwner (owner item : NodeId) : Option Model := do
  let _ ← m.node? item
  return m.setOwner owner item

def setRefType (owner item : NodeId) : Option Model := do
  let _ ← m.node? owner
  return m.setRefType owner item

def ownerLabel (owner : NodeId) : Option String := do
  let name ← fullName m owner
  let kind ← kind m owner
  return if name.isEmpty then s!"<anonymous {kind.label}>" else name

end

section
variable (u : TranslationUnit) (f : Factory)

def carryOut (d : Draft) (container item : NodeId) (c : Cursor) : Verdict → Option Draft
  | .accepted owner => do
    let m ← attach d.model owner item
    let m ← setOwner m owner item
    if (← kind m owner) = .templateNonTypeParam then
      return { d with model := ← setRefType m owner item }
    else return { d with model := m }
  | .elaborated owner => do
    let m ← attach d.model container item
    let m ← attach m owner item
    return { d with model := ← setOwner m owner item }
  | .rejected owner => do
    let name ← name d.model item
    let kind ← kind d.model item
    let label ← ownerLabel d.model owner
    return d.report (.rejectedChild name kind.label label c.location)
  | .ownerless => do
    let parent ← c.semanticParent.mapM u.cursor?
    let name ← fullName d.model item
    return d.report (.unresolvedOwner name ((parent.map (·.shownName)).getD "") c.location)

def accept (d : Draft) (container item : NodeId) (c : Cursor) : Option Draft := do
  carryOut u d container item c (← judge d.model u container item c)

def merge (d : Draft) (item : NodeId) (id : CursorId) (c : Cursor) : Option Draft := do
  let _ ← d.model.node? item
  return d.merge item id c

/-- The node for a cursor. A new one is put at the end, with nothing looked up. -/
def enter (d : Draft) (id : CursorId) (c : Cursor) : Option (Option (NodeId × Draft)) := do
  match f.constructor? c.kind, c.usr?.bind d.model.byUsr? with
  | some _, some item => return some (item, ← merge d item id c)
  | _, _ => return d.enter? u f id c

mutual

def visit (container : NodeId) (way : List NodeId) : CursorTree → Draft → Option Draft
  | .node id children, d => do
    let c ← u.cursor? id
    match ← enter u f d id c with
    | none => return d
    | some (item, entered) =>
      let accepted ← accept u entered container item c
      if item ∈ way then return accepted else visitAll item (item :: way) children accepted

def visitAll (container : NodeId) (way : List NodeId) : List CursorTree → Draft → Option Draft
  | [], d => return d
  | tree :: rest, d => do visitAll container way rest (← visit container way tree d)

end

end

/-! ## Sessions -/

def start (u : TranslationUnit) (f : Factory) : Option Session := do
  let root ← u.cursor? u.root
  return {
    unit := u
    factory := f
    draft := { model := .start (.ofCursor .translationUnit u.root root) }
    built := false }

def build (s : Session) : Option Session := do
  if s.built then return s
  else
    let d := { s.draft with diagnostics := s.draft.diagnostics ++ Session.messages s.unit }
    let tree ← tree s.unit
    return { s with
      draft := ← visitAll s.unit s.factory Model.root [Model.root] tree.children d
      built := true }

end Strict

/-! ## Changes keep models ranged -/

section
variable {u : TranslationUnit} {m : Model}

theorem Node.ranged_ofCursor {kind : NodeKind} {id : CursorId} (c : Cursor) (size : Nat)
    (inside : u.HasCursor id) : (Node.ofCursor kind id c).Ranged u size where
  occurrence _ same := Option.some.inj same ▸ inside
  owner := .none
  members := .empty
  content _ _ named := by cases named
  refType := .none
  target _ done := by cases done
  bases _ known := by cases known

theorem Node.Ranged.adopt {node : Node} {size : Nat} (ranged : node.Ranged u size) {id : CursorId}
    (c : Cursor) (inside : u.HasCursor id) : (node.adopt id c).Ranged u size :=
  { ranged with occurrence := fun _ same => Option.some.inj same ▸ inside }

theorem Node.Ranged.reset {node : Node} {size : Nat} (ranged : node.Ranged u size) :
    node.reset.Ranged u size where
  occurrence := ranged.occurrence
  owner := ranged.owner
  members := .empty
  content _ _ named := by cases named
  refType := .none
  target _ done := by cases done
  bases _ known := by cases known

/-- The owner of which a verdict speaks is in the arena. -/
def Verdict.Inside (size : Nat) : Verdict → Prop
  | .accepted owner | .elaborated owner | .rejected owner => owner.index < size
  | .ownerless => True

namespace Model.Ranged

variable {owner item : NodeId}

theorem attach (ranged : m.Ranged u) (owner : NodeId) (inside : item.index < m.size) :
    (m.attach owner item).Ranged u := by
  refine ranged.update owner fun node kept =>
    { kept with members := kept.members.insert inside, content := ?_ }
  dsimp only
  split
  · exact kept.content
  · intro name set named
    rw [OrderedMap.get?_put] at named
    split at named
    · refine Option.some.inj named ▸ Inside.insert ?_ inside
      cases earlier : node.content.get? (m.name item) with
      | none => exact .empty
      | some set => exact kept.content _ set earlier
    · exact kept.content name set named

theorem setOwner (ranged : m.Ranged u) (item : NodeId) (inside : owner.index < m.size) :
    (m.setOwner owner item).Ranged u :=
  ranged.update item fun _ kept => { kept with owner := .some inside }

theorem setRefType (ranged : m.Ranged u) (owner : NodeId) (inside : item.index < m.size) :
    (m.setRefType owner item).Ranged u :=
  ranged.update owner fun _ kept =>
    { kept with refType := .some inside }

theorem enroll (ranged : m.Ranged u) {node : Node} (fits : node.Ranged u (m.size + 1)) :
    (m.enroll node).Ranged u where
  root := by
    rw [size_enroll]
    omega
  nodes id := by
    rw [node_enroll, size_enroll]
    split
    · exact fits
    · exact (ranged.nodes id).mono (Nat.le_succ _)
  symbols usr id found := by
    rw [byUsr?_enroll] at found
    rw [size_enroll]
    split at found
    · cases found
      exact Nat.lt_succ_self _
    · exact Nat.lt_succ_of_lt (ranged.symbols usr id found)
  markers spelling id found := by
    rw [size_enroll]
    exact Nat.lt_succ_of_lt (ranged.markers spelling id found)

end Model.Ranged

theorem Draft.Enters.ranged {f : Factory} {d entered : Draft} {id : CursorId} {c : Cursor}
    {item : NodeId} (enters : Draft.Enters u f d id c item entered) (ranged : d.model.Ranged u)
    (inside : u.HasCursor id) :
    entered.model.Ranged u ∧ d.model.size ≤ entered.model.size ∧
      item.index < entered.model.size := by
  cases enters with
  | known _ found =>
    have same : (d.merge item id c).model.size = d.model.size := Model.size_update _ _ _
    have here := same.symm ▸ ranged.symbols _ _ found
    refine ⟨ranged.update item fun node kept => ?_, Nat.le_of_eq same.symm, here⟩
    dsimp only
    split
    · exact { kept.reset.adopt c inside with }
    · split
      · exact kept.adopt c inside
      · exact kept
  | new =>
    rw [Model.size_enroll]
    exact ⟨ranged.enroll (Node.ranged_ofCursor c _ inside), Nat.le_succ _, Nat.lt_succ_self _⟩

theorem Session.ranged_start (wellFormed : u.WellFormed) (f : Factory) :
    (Session.start u f).model.Ranged u := by
  change (Model.start _).Ranged u
  rw [Model.start_eq]
  have inside := Strict.hasCursor_root wellFormed
  constructor
  · simp
  · intro id
    rw [Model.node_enroll]
    split
    · exact Node.ranged_ofCursor _ _ inside
    · rw [Model.node_of_size_le (Nat.zero_le _)]
      exact Node.ranged_builtin _ _
  · intro usr id found
    rw [Model.byUsr?_enroll] at found
    split at found
    · cases found
      simp
    · cases found
  · exact fun _ _ found => by cases found

end

/-! ## Answers -/

namespace Strict

section
variable {u : TranslationUnit} {m : Model} (ranged : m.Ranged u) {container item owner : NodeId}

include ranged

theorem semanticOwner_eq {c : Cursor} (parents : ∀ id ∈ c.semanticParent, u.HasCursor id)
    (inside : container.index < m.size) :
    semanticOwner m u container c = some (m.semanticOwner? u container c) ∧
      Inside m.size (m.semanticOwner? u container c) := by
  have here : Inside m.size (some container) := .some inside
  unfold semanticOwner Model.semanticOwner?
  split
  · exact ⟨rfl, here⟩
  · cases known : c.semanticParent with
    | none => exact ⟨rfl, here⟩
    | some id =>
      obtain ⟨parent, found⟩ := exists_cursor (parents id known)
      simp only [found, node?_eq inside, Option.bind_eq_bind, Option.bind_some]
      split
      · exact ⟨rfl, .some ranged.root⟩
      · split
        · exact ⟨rfl, here⟩
        · refine ⟨rfl, fun owner symbol => ?_⟩
          obtain ⟨usr, _, found⟩ := Option.bind_eq_some_iff.mp symbol
          exact ranged.symbols usr owner found

omit ranged in
theorem ownerAllows_eq (inside : owner.index < m.size) (child : Ast.CursorKind) :
    ownerAllows m owner child = some (m.ownerAllows owner child) := by
  simp [ownerAllows, Model.ownerAllows, node?_eq inside]

theorem judge_eq {c : Cursor} (parents : ∀ id ∈ c.semanticParent, u.HasCursor id)
    (home : container.index < m.size) (inside : item.index < m.size) :
    judge m u container item c = some (m.judge u container item c) ∧
      (m.judge u container item c).Inside m.size := by
  obtain ⟨semantic, owners⟩ := semanticOwner_eq ranged parents home
  simp only [judge, Model.judge, semantic, Option.bind_eq_bind, Option.bind_some]
  cases belongs : m.semanticOwner? u container c with
  | none => exact ⟨rfl, trivial⟩
  | some owner =>
    have there := owners owner belongs
    simp only [kind_eq home, kind_eq inside, kind_eq there, ownerAllows_eq there, Option.bind_some]
    split
    · split <;> exact ⟨rfl, there⟩
    · split <;> exact ⟨rfl, there⟩

theorem ownerLabel_eq (inside : owner.index < m.size) :
    ownerLabel m owner = some (m.ownerLabel owner) := by
  simp [ownerLabel, Model.ownerLabel, fullName_eq ranged inside, kind_eq inside]

omit ranged in
theorem attach_eq (there : owner.index < m.size) (inside : item.index < m.size) :
    attach m owner item = some (m.attach owner item) := by
  simp [attach, node?_eq there, node?_eq inside]

omit ranged in
theorem setOwner_eq (owner : NodeId) (inside : item.index < m.size) :
    setOwner m owner item = some (m.setOwner owner item) := by
  simp [setOwner, node?_eq inside]

omit ranged in
theorem setRefType_eq (item : NodeId) (there : owner.index < m.size) :
    setRefType m owner item = some (m.setRefType owner item) := by
  simp [setRefType, node?_eq there]

end

section
variable {u : TranslationUnit} {f : Factory} {d : Draft} (ranged : d.model.Ranged u)

include ranged

theorem carryOut_eq {container item : NodeId} {c : Cursor}
    (parents : ∀ id ∈ c.semanticParent, u.HasCursor id) (home : container.index < d.model.size)
    (inside : item.index < d.model.size) {verdict : Verdict}
    (fits : verdict.Inside d.model.size) :
    carryOut u d container item c verdict = some (d.carryOut u container item c verdict) ∧
      (d.carryOut u container item c verdict).model.Ranged u := by
  cases verdict with
  | accepted owner =>
    have attached := ranged.attach owner inside
    have size : (d.model.attach owner item).size = d.model.size := Model.size_update _ _ _
    have owned := attached.setOwner item (size.symm ▸ fits)
    have size' : ((d.model.attach owner item).setOwner owner item).size = d.model.size :=
      (Model.size_update _ _ _).trans size
    simp only [carryOut, Draft.carryOut, attach_eq fits inside,
      setOwner_eq owner (size.symm ▸ inside), kind_eq (size'.symm ▸ fits),
      setRefType_eq item (size'.symm ▸ fits), Option.bind_eq_bind, Option.bind_some]
    split
    · exact ⟨rfl, owned.setRefType owner (size'.symm ▸ inside)⟩
    · exact ⟨rfl, owned⟩
  | elaborated owner =>
    have written := ranged.attach container inside
    have size : (d.model.attach container item).size = d.model.size := Model.size_update _ _ _
    have attached := written.attach owner (size.symm ▸ inside)
    have size' : ((d.model.attach container item).attach owner item).size = d.model.size :=
      (Model.size_update _ _ _).trans size
    simp only [carryOut, Draft.carryOut, attach_eq home inside,
      attach_eq (size.symm ▸ fits) (size.symm ▸ inside), setOwner_eq owner (size'.symm ▸ inside),
      Option.bind_eq_bind, Option.bind_some]
    exact ⟨rfl, attached.setOwner item (size'.symm ▸ fits)⟩
  | rejected owner =>
    simp only [carryOut, Draft.carryOut, name_eq inside, kind_eq inside, ownerLabel_eq ranged fits,
      Option.bind_eq_bind, Option.bind_some]
    exact ⟨rfl, ranged⟩
  | ownerless =>
    simp only [carryOut, Draft.carryOut, fullName_eq ranged inside, Option.bind_eq_bind]
    cases known : c.semanticParent with
    | none => exact ⟨rfl, ranged⟩
    | some id =>
      obtain ⟨parent, found⟩ := exists_cursor (parents id known)
      exact ⟨by simp [Option.mapM_some, found], ranged⟩

theorem accept_eq {container item : NodeId} {c : Cursor}
    (parents : ∀ id ∈ c.semanticParent, u.HasCursor id) (home : container.index < d.model.size)
    (inside : item.index < d.model.size) :
    accept u d container item c = some (d.accept u container item c) ∧
      (d.accept u container item c).model.Ranged u := by
  obtain ⟨judged, fits⟩ := judge_eq ranged parents home inside
  simp only [accept, Draft.accept, judged, Option.bind_eq_bind, Option.bind_some]
  exact carryOut_eq ranged parents home inside fits

theorem enter_eq (id : CursorId) (c : Cursor) : enter u f d id c = some (d.enter? u f id c) := by
  unfold enter Draft.enter?
  cases f.constructor? c.kind with
  | none => rfl
  | some constructor =>
    cases symbol : c.usr?.bind d.model.byUsr? with
    | none => rfl
    | some item =>
      obtain ⟨usr, _, found⟩ := Option.bind_eq_some_iff.mp symbol
      simp [merge, node?_eq (ranged.symbols usr item found)]

end

/-! ## Walks -/

section
variable {u : TranslationUnit} {f : Factory}

/-- What a walk over cursors of the unit comes to from a ranged draft. -/
def Walks (u : TranslationUnit) (d : Draft) (walk : Option Draft) (e : Draft) : Prop :=
  walk = some e ∧ e.model.Ranged u ∧ d.model.size ≤ e.model.size

mutual

theorem walks_visit (wellFormed : u.WellFormed) : ∀ (tree : CursorTree) (container : NodeId)
    (way : List NodeId) (d : Draft), (∀ id ∈ tree.preorder, u.HasCursor id) → d.model.Ranged u →
      container.index < d.model.size →
        Walks u d (visit u f container way tree d) (d.visit u f container way tree)
  | .node id children, container, way, d, cursors, ranged, home => by
    obtain ⟨c, cursor⟩ := exists_cursor (cursors id List.mem_cons_self)
    rw [visit, Draft.visit]
    simp only [cursor, enter_eq ranged, Option.bind_eq_bind, Option.bind_some]
    cases found : d.enter? u f id c with
    | none => exact ⟨rfl, ranged, Nat.le_refl _⟩
    | some result =>
      obtain ⟨item, entered⟩ := result
      have parents (parent : CursorId) (known : parent ∈ c.semanticParent) : u.HasCursor parent :=
        hasCursor_of_refersTo wellFormed cursor (.inl known)
      obtain ⟨ranged', grown, inside⟩ :=
        (Draft.enters_of_enter? found).ranged ranged (cursors id List.mem_cons_self)
      obtain ⟨accepted, kept⟩ :=
        accept_eq ranged' parents (Nat.lt_of_lt_of_le home grown) inside
      have size := (entered.rearranges_accept (u := u) container item c).size
      simp only [accepted, Option.bind_some]
      split
      · exact ⟨rfl, kept, size ▸ grown⟩
      · obtain ⟨walked, kept', further⟩ := walks_visitAll wellFormed children item (item :: way) _
          (fun id below => cursors id (List.mem_cons_of_mem _ below)) kept (size ▸ inside)
        exact ⟨walked, kept', Nat.le_trans grown (size ▸ further)⟩

theorem walks_visitAll (wellFormed : u.WellFormed) : ∀ (trees : List CursorTree)
    (container : NodeId) (way : List NodeId) (d : Draft),
      (∀ id ∈ CursorTree.preorderAll trees, u.HasCursor id) → d.model.Ranged u →
      container.index < d.model.size →
        Walks u d (visitAll u f container way trees d) (d.visitAll u f container way trees)
  | [], _, _, _, _, ranged, _ => ⟨rfl, ranged, Nat.le_refl _⟩
  | tree :: rest, container, way, d, cursors, ranged, home => by
    obtain ⟨walked, kept, grown⟩ := walks_visit wellFormed tree container way d
      (fun id within => cursors id (List.mem_append_left _ within)) ranged home
    obtain ⟨walked', kept', further⟩ := walks_visitAll wellFormed rest container way _
      (fun id within => cursors id (List.mem_append_right _ within)) kept
      (Nat.lt_of_lt_of_le home grown)
    rw [visitAll, Draft.visitAll, walked]
    exact ⟨walked', kept', Nat.le_trans grown further⟩

end

variable (wellFormed : u.WellFormed)

include wellFormed

theorem hasCursor_of_mem_treeBelow (depth : Nat) {id : CursorId} (inside : u.HasCursor id) :
    ∀ other ∈ (u.treeBelow depth id).preorder, u.HasCursor other := by
  induction depth generalizing id with
  | zero => exact fun other same => List.mem_singleton.mp same ▸ inside
  | succ depth ih =>
    obtain ⟨c, known⟩ := exists_cursor inside
    intro other member
    rw [TranslationUnit.treeBelow, known] at member
    rcases List.mem_cons.mp member with rfl | below
    · exact inside
    · rw [CursorTree.preorderAll_eq_flatMap, List.mem_flatMap] at below
      obtain ⟨tree, branch, within⟩ := below
      obtain ⟨child, listed, rfl⟩ := List.mem_map.mp branch
      exact ih (hasCursor_of_refersTo wellFormed known (.inr (.inr (.inr listed)))) other within

theorem start_eq (f : Factory) : start u f = some (Session.start u f) := by
  obtain ⟨root, known, _⟩ := wellFormed.root
  simp [start, Session.start, known]

theorem build_eq {s : Session} (reads : s.unit = u) (ranged : s.model.Ranged u) :
    build s = some s.build ∧ s.build.model.Ranged u ∧ s.model.size ≤ s.build.model.size := by
  subst reads
  unfold build Session.build
  split
  · exact ⟨rfl, ranged, Nat.le_refl _⟩
  · have cursors (id : CursorId) (below : id ∈ CursorTree.preorderAll s.unit.tree.children) :
        s.unit.HasCursor id := by
      have within := hasCursor_of_mem_treeBelow wellFormed s.unit.cursors.size
        (hasCursor_root wellFormed) id
      rw [← TranslationUnit.tree, CursorTree.preorder_eq] at within
      exact within (List.mem_cons_of_mem _ below)
    obtain ⟨walked, kept, grown⟩ := walks_visitAll (f := s.factory) wellFormed s.unit.tree.children
      Model.root [Model.root]
      { s.draft with diagnostics := s.draft.diagnostics ++ Session.messages s.unit }
      cursors ranged ranged.root
    simp only [tree_eq wellFormed, walked, Option.bind_eq_bind, Option.bind_some]
    exact ⟨rfl, kept, grown⟩

end

end Strict

end Bindery
