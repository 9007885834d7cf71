import Bindery.Model.Dependency
import Bindery.Proofs.Model.Frame
import Bindery.Proofs.Search

/-! What the types of a model mean, read off the model itself: no answer is remembered, no marker
made and no condition reported. A marker is told by its spelling. There is no meaning where a
question would go on for ever. -/

set_option autoImplicit false

namespace Bindery

open Ast (Cursor CursorId TranslationUnit TypeId)

/-- What a type denotes. -/
inductive Denoted where
  | node (id : NodeId)
  /-- The marker of a spelling, wherever it stands and whether or not it has been made. -/
  | marker (spelling : String)
  deriving DecidableEq, Repr

namespace Meaning

variable (u : TranslationUnit) (m : Model)

def nodeAt? (id : Option CursorId) : Option NodeId :=
  ((id.bind u.cursor?).bind Cursor.usr?).bind m.byUsr?

def bareMarker (type : TypeId) : Denoted := .marker (((u.type? type).map (·.spelling)).getD "")

def ofDescriptor? (type : TypeId) : Option Denoted :=
  let target := (u.pointee? type).getD type
  match u.declaration? target with
  | none => some (bareMarker u target)
  | some declaration =>
    if ((u.cursor? declaration).map (·.kind)).getD .noDeclFound = .noDeclFound then
      some (bareMarker u target)
    else
      match nodeAt? u m (u.definition? declaration) with
      | some node => some (.node node)
      | none => (nodeAt? u m (some declaration)).map .node

def ofReference? (id : CursorId) : Option Denoted :=
  match nodeAt? u m (u.definition? id) with
  | some node => some (.node node)
  | none => (((u.cursor? id).bind (·.type)).filter u.isValidType).bind (ofDescriptor? u m)

def startingType? (id : NodeId) (occurrence : CursorId) : Option (Option TypeId) :=
  let typeAt (cursor : CursorId) : Option TypeId := (u.cursor? cursor).bind (·.type)
  let type? : Option (Option TypeId) := match m.kind id with
    | .callable _ => some ((u.cursor? occurrence).bind (·.resultType))
    | .param => (typeAt occurrence).mapM u.stripPointers?
    | .field => some (typeAt ((u.definition? occurrence).getD occurrence))
    | .typeDef | .typeAlias => some ((typeAt occurrence).map u.canonical)
    | .baseSpecifier => some ((Query.firstReference? m id).bind typeAt)
    | _ => some (typeAt occurrence)
  type?.map (·.filter u.isValidType)

/-- The last reference among the members of a node wins over its type. -/
def found? (id : NodeId) (type : Option TypeId) : Option Denoted :=
  match (m.references id).getLast? with
  | some reference => (m.node reference).occurrence.bind (ofReference? u m)
  | none => type.bind (ofDescriptor? u m)

/-- A parameter whose type leads nowhere falls back on the bare declaration of its type. -/
def fallback? (id : NodeId) (type : Option TypeId) : Option Denoted :=
  if m.kind id = .param then (nodeAt? u m (type.bind u.declaration?)).map .node else none

def ofOccurrence? (id : NodeId) (occurrence : CursorId) : Option (Option Denoted) :=
  (startingType? u m id occurrence).map fun type =>
    (found? u m id type).or (fallback? u m id type)

def ofNode? (id : NodeId) : Option (Option Denoted) :=
  if (m.kind id).holdsType then
    match (m.node id).occurrence with
    | none => some none
    | some occurrence =>
      if (m.kind id).isReference then some (ofReference? u m occurrence)
      else ofOccurrence? u m id occurrence
  else some none

/-- From an alias or reference to the node it denotes. -/
def chainStep (id : NodeId) : Option (Option NodeId) ⊕ NodeId :=
  if m.kind id = .builtin then .inl (some none)
  else if (m.kind id).isReference || (m.kind id).isAlias then
    match ofNode? u m id with
    | none => .inl none
    | some (some (.node next)) => .inr next
    | some _ => .inl (some none)
  else .inl (some (some id))

def chainEnd? (bound : Nat) (id : NodeId) : Option (Option NodeId) :=
  chase (chainStep u m) (fun _ answer => answer) (some none) bound id

/-- The declaration at the end of the aliases that start with a node. -/
def behind? (id : NodeId) : Option (Option NodeId) := chainEnd? u m (m.size + 1) id

def typeDependency? (id : NodeId) : Option (Option NodeId) := do
  match ← ofNode? u m id with
  | some (.node target) => behind? u m target
  | _ => some none

def typeDependencies? (id : NodeId) : Option (OrderedSet NodeId) :=
  (typeDependency? u m id).map fun found => .ofList found.toList

def onlyRecord (found : Option NodeId) : Option NodeId :=
  found.filter fun base => (m.kind base).isRecord

def recordBehind? (target : NodeId) : Option (Option NodeId) :=
  if (m.kind target).isAlias then (behind? u m target).map (onlyRecord m)
  else some (onlyRecord m (some target))

def base? (specifier : NodeId) : Option (Option NodeId) :=
  match Query.firstReference? m specifier with
  | none => some none
  | some first =>
    if ((u.cursor? first).bind (·.type)).any fun type => !u.isValidType type then some none
    else do
      match ← ofNode? u m specifier with
      | some (.node target) => recordBehind? u m target
      | _ => some none

def addBase? (record : NodeId) (found : BaseList) (specifier : NodeId) : Option BaseList := do
  match ← base? u m specifier with
  | some base =>
    if base = record then return found
    else return { found with resolved := found.resolved.insert base }
  | none => return { found with unresolved := found.unresolved + 1 }

def bases? (record : NodeId) : Option BaseList :=
  (m.baseSpecifiers record).foldlM (addBase? u m record) {}

def plain? (id : NodeId) : Option (OrderedSet NodeId) :=
  match m.kind id with
  | .record _ => do
    let bases ← (bases? u m id).map (·.resolved.toList)
    return (OrderedSet.ofList (Query.recordOwner? m id).toList).insertAll (bases.filter (· ≠ id))
  | .enumeration => some (.ofList (Query.recordOwner? m id).toList)
  | .callable _ => do
    let returned ← typeDependencies? u m id
    (m.parameters id).foldlM (fun needed param => do
      return needed.insertAll (← typeDependencies? u m param).toList) returned
  | .baseSpecifier => (base? u m id).map fun found => .ofList found.toList
  | .param | .field | .variable | .typeDef | .typeAlias | .typeRef | .templateRef =>
    typeDependencies? u m id
  | .translationUnit | .namespaceScope | .enumConstant | .aliasTemplate | .templateTypeParam
  | .templateNonTypeParam | .builtin => some ∅

/-- From a field to the field that declares its type; any other type answers. -/
def fieldStep (id : NodeId) : Option (OrderedSet NodeId) ⊕ NodeId :=
  match typeDependency? u m id with
  | none => .inl none
  | some none => .inl (some ∅)
  | some (some target) =>
    if target = id then .inl (some (.ofList [target]))
    else if m.kind target = .field then .inr target
    else .inl ((plain? u m target).map fun further =>
      (OrderedSet.ofList [target]).insertAll further.toList)

def throughField (next : NodeId) (needed : Option (OrderedSet NodeId)) :
    Option (OrderedSet NodeId) :=
  needed.map fun further => (OrderedSet.ofList [next]).insertAll further.toList

def fieldNeeds? (bound : Nat) (id : NodeId) : Option (OrderedSet NodeId) :=
  chase (fieldStep u m) throughField none bound id

def needs? (id : NodeId) : Option (OrderedSet NodeId) :=
  if m.kind id = .field then fieldNeeds? u m (m.size + 1) id else plain? u m id

/-! ## No bound is used up -/

variable {u m}

theorem mem_ids_of_chainStep {id next : NodeId} (on : chainStep u m id = .inr next) :
    id ∈ m.ids := by
  apply Model.mem_ids.mpr
  apply Model.index_lt_of_kind_ne
  intro builtin
  simp [chainStep, builtin] at on

theorem kind_of_typeDependency? {id target : NodeId}
    (found : typeDependency? u m id = some (some target)) : m.kind id ≠ .builtin := by
  intro builtin
  simp [typeDependency?, ofNode?, builtin, NodeKind.holdsType] at found

theorem mem_ids_of_fieldStep {id next : NodeId} (on : fieldStep u m id = .inr next) :
    id ∈ m.ids := by
  apply Model.mem_ids.mpr
  apply Model.index_lt_of_kind_ne
  unfold fieldStep at on
  split at on
  · cases on
  · cases on
  · next target found => exact kind_of_typeDependency? found

theorem chainEnd?_eq {bound : Nat} (enough : m.size < bound) (id : NodeId) :
    chainEnd? u m bound id = behind? u m id := by
  apply chase_eq m.ids (fun _ => rfl) fun _ _ on => mem_ids_of_chainStep on
  · rw [Model.length_ids]
    omega
  · rw [Model.length_ids]
    exact enough

theorem fieldNeeds?_eq {bound : Nat} (enough : m.size < bound) (id : NodeId) :
    fieldNeeds? u m bound id = fieldNeeds? u m (m.size + 1) id := by
  apply chase_eq m.ids (fun _ => rfl) fun _ _ on => mem_ids_of_fieldStep on
  · rw [Model.length_ids]
    omega
  · rw [Model.length_ids]
    exact enough

/-! ## Bases -/

-- What every step of a fold keeps, the fold keeps.
theorem foldlM_induct {σ ι : Type} {step : σ → ι → Option σ} {motive : σ → Prop}
    (each : ∀ before item after, step before item = some after → motive before → motive after)
    {items : List ι} {before after : σ} (ran : items.foldlM step before = some after)
    (start : motive before) : motive after := by
  induction items generalizing before with
  | nil =>
    cases ran
    exact start
  | cons item rest ih =>
    rw [List.foldlM_cons, Option.bind_eq_bind, Option.bind_eq_some_iff] at ran
    obtain ⟨next, stepped, ran⟩ := ran
    exact ih ran (each before item next stepped start)

-- A specifier adds the record behind it, or none.
theorem mem_addBase? {record base : NodeId} {before after : BaseList} {specifier : NodeId}
    (added : addBase? u m record before specifier = some after) (member : base ∈ after.resolved) :
    base ∈ before.resolved ∨ base ≠ record ∧ base? u m specifier = some (some base) := by
  unfold addBase? at added
  rw [Option.bind_eq_bind, Option.bind_eq_some_iff] at added
  obtain ⟨found, named, added⟩ := added
  cases found with
  | none =>
    cases added
    exact .inl member
  | some other =>
    dsimp only at added
    split at added
    · cases added
      exact .inl member
    · next apart =>
      cases added
      rcases OrderedSet.mem_insert.mp member with earlier | rfl
      · exact .inl earlier
      · exact .inr ⟨apart, named⟩

theorem not_mem_bases? {record : NodeId} {found : BaseList} (means : bases? u m record = some found) :
    record ∉ found.resolved :=
  foldlM_induct (motive := fun found => record ∉ found.resolved)
    (fun _ _ _ added absent member =>
      (mem_addBase? added member).elim absent fun last => last.1 rfl)
    means (OrderedSet.not_mem_empty record)

theorem mem_needs?_of_base {record base : NodeId} {found : BaseList}
    (isRecord : (m.kind record).isRecord) (means : bases? u m record = some found)
    (member : base ∈ found.resolved) :
    ∃ needed, needs? u m record = some needed ∧ base ∈ needed := by
  have apart : base ≠ record := fun same => not_mem_bases? means (same ▸ member)
  cases kind : m.kind record with
  | record _ =>
    refine ⟨(OrderedSet.ofList (Query.recordOwner? m record).toList).insertAll
      (found.resolved.toList.filter (· ≠ record)), ?_, ?_⟩
    · simp [needs?, plain?, kind, means]
    · rw [OrderedSet.mem_insertAll, List.mem_filter]
      exact .inr ⟨member, by simpa using apart⟩
  | _ => simp [kind, NodeKind.isRecord] at isRecord

/-! ## Questions asked in between change no meaning -/

variable {n : Model} (grown : m.Extends n)

include grown

theorem nodeAt?_extends (id : Option CursorId) : nodeAt? u n id = nodeAt? u m id := by
  rw [nodeAt?, nodeAt?, grown.byUsr?_eq]

theorem ofDescriptor?_extends : ofDescriptor? u n = ofDescriptor? u m := by
  funext type
  simp only [ofDescriptor?, nodeAt?_extends grown]

theorem ofReference?_extends : ofReference? u n = ofReference? u m := by
  funext id
  simp only [ofReference?, nodeAt?_extends grown, ofDescriptor?_extends grown]

theorem references_extends (id : NodeId) : n.references id = m.references id :=
  grown.membersWhere_eq id _

theorem firstReference?_extends (id : NodeId) :
    Query.firstReference? n id = Query.firstReference? m id := by
  simp only [Query.firstReference?, references_extends grown, grown.occurrence_eq]

theorem ofNode?_extends : ofNode? u n = ofNode? u m := by
  funext id
  simp only [ofNode?, ofOccurrence?, startingType?, found?, fallback?, grown.kind_eq,
    grown.occurrence_eq, references_extends grown, firstReference?_extends grown,
    ofReference?_extends grown, ofDescriptor?_extends grown, nodeAt?_extends grown]

theorem chainStep_extends : chainStep u n = chainStep u m := by
  funext id
  simp only [chainStep, grown.kind_eq, ofNode?_extends grown]

theorem behind?_extends (id : NodeId) : behind? u n id = behind? u m id := by
  have enough : m.size < n.size + 1 := Nat.lt_succ_of_le grown.size_le
  rw [← chainEnd?_eq enough, behind?, chainEnd?, chainEnd?, chainStep_extends grown]

theorem base?_extends : base? u n = base? u m := by
  funext specifier
  have records : onlyRecord n = onlyRecord m := by
    funext found
    simp only [onlyRecord, grown.kind_eq]
  simp only [base?, firstReference?_extends grown, ofNode?_extends grown, recordBehind?, records,
    grown.kind_eq, behind?_extends grown]

theorem bases?_extends : bases? u n = bases? u m := by
  funext record
  have specifiers : n.baseSpecifiers record = m.baseSpecifiers record := grown.membersWhere_eq ..
  have steps : addBase? u n record = addBase? u m record := by
    funext found specifier
    simp only [addBase?, base?_extends grown]
  rw [bases?, bases?, specifiers, steps]

end Meaning

end Bindery
