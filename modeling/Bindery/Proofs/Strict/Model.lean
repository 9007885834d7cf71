import Bindery.Binding.Root
import Bindery.Model.Listing
import Bindery.Proofs.Model.Frame
import Bindery.Proofs.Strict.Unit

/-! Strict reading of a model. A model is ranged if all that it stores stays inside its arena and the
tables of its unit: the places and members of nodes, names and symbols, and what was remembered of
types and bases. Asked for nodes of a ranged model, strict questions have the answers of the plain
ones. -/

set_option autoImplicit false

namespace Bindery

open Ast (TranslationUnit)

/-- All nodes of a collection are within an arena of some size. -/
def Inside {γ : Type} [Membership NodeId γ] (size : Nat) (ids : γ) : Prop :=
  ∀ id ∈ ids, id.index < size

theorem Inside.mono {γ : Type} [Membership NodeId γ] {ids : γ} {size larger : Nat}
    (inside : Inside size ids) (grown : size ≤ larger) : Inside larger ids :=
  fun id member => Nat.lt_of_lt_of_le (inside id member) grown

namespace Inside

variable {n : Nat} {set : OrderedSet NodeId} {ids : List NodeId}

theorem empty : Inside n (∅ : OrderedSet NodeId) :=
  fun id member => absurd member (OrderedSet.not_mem_empty id)

theorem none : Inside n (Option.none : Option NodeId) :=
  fun id member => absurd member (Option.not_mem_none id)

theorem nil : Inside n ([] : List NodeId) := fun _ member => absurd member List.not_mem_nil

theorem some {id : NodeId} (here : id.index < n) : Inside n (Option.some id) :=
  fun _ same => Option.some.inj same ▸ here

theorem single {id : NodeId} (here : id.index < n) : Inside n [id] :=
  fun _ same => List.mem_singleton.mp same ▸ here

theorem insert (inside : Inside n set) {id : NodeId} (here : id.index < n) :
    Inside n (set.insert id) :=
  fun other member => (OrderedSet.mem_insert.mp member).elim (inside other) fun same => same ▸ here

theorem insertAll (inside : Inside n set) (others : Inside n ids) : Inside n (set.insertAll ids) :=
  fun id member => (OrderedSet.mem_insertAll.mp member).elim (inside id) (others id)

theorem ofList (inside : Inside n ids) : Inside n (OrderedSet.ofList ids) :=
  fun id member => inside id (OrderedSet.mem_ofList.mp member)

theorem toList {found : Option NodeId} (inside : Inside n found) : Inside n found.toList :=
  fun id member => inside id (Option.mem_toList.mp member)

theorem append (inside : Inside n ids) {others : List NodeId} (further : Inside n others) :
    Inside n (ids ++ others) :=
  fun id member => (List.mem_append.mp member).elim (inside id) (further id)

theorem filter (inside : Inside n ids) (keep : NodeId → Bool) : Inside n (ids.filter keep) :=
  fun id member => inside id (List.mem_filter.mp member).1

end Inside

/-- All that a node stores is within an arena of some size, and its cursor within the unit. -/
structure Node.Ranged (u : TranslationUnit) (size : Nat) (node : Node) : Prop where
  occurrence : ∀ id ∈ node.occurrence, u.HasCursor id
  owner : Inside size node.owner
  members : Inside size node.members
  content : ∀ name, ∀ set ∈ node.content.get? name, Inside size set
  refType : Inside size node.refType
  target : ∀ found, node.resolution = .done found → Inside size found
  bases : ∀ found ∈ node.bases, Inside size found.resolved

structure Model.Ranged (u : TranslationUnit) (m : Model) : Prop where
  root : 0 < m.size
  nodes : ∀ id, (m.node id).Ranged u m.size
  symbols : ∀ usr, Inside m.size (m.byUsr? usr)
  markers : ∀ spelling, Inside m.size (m.marker? spelling)

variable {u : TranslationUnit} {m : Model}

theorem Node.Ranged.mono {node : Node} {size larger : Nat} (ranged : node.Ranged u size)
    (grown : size ≤ larger) : node.Ranged u larger where
  occurrence := ranged.occurrence
  owner := ranged.owner.mono grown
  members := ranged.members.mono grown
  content name set named := (ranged.content name set named).mono grown
  refType := ranged.refType.mono grown
  target found done := (ranged.target found done).mono grown
  bases found known := (ranged.bases found known).mono grown

theorem Node.ranged_builtin (spelling : String) (size : Nat) :
    (Node.builtin spelling).Ranged u size where
  occurrence := by simp [Node.builtin]
  owner := .none
  members := .empty
  content _ _ named := by cases named
  refType := .none
  target _ done := Resolution.done.inj done ▸ .none
  bases _ known := by cases known

theorem Model.Ranged.update (ranged : m.Ranged u) (id : NodeId) {change : Node → Node}
    (kept : ∀ node, node.Ranged u m.size → (change node).Ranged u m.size) :
    (m.update id change).Ranged u where
  root := (size_update m id change).symm ▸ ranged.root
  nodes other := by
    rw [node_update, size_update]
    split
    · exact kept _ (ranged.nodes other)
    · exact ranged.nodes other
  symbols usr := (size_update m id change).symm ▸ ranged.symbols usr
  markers spelling := (size_update m id change).symm ▸ ranged.markers spelling

namespace Strict

/-! ## Questions -/

section
variable (m : Model)

def kind (id : NodeId) : Option NodeKind := do return (← m.node? id).kind

def name (id : NodeId) : Option String := do return (← m.node? id).name

def ownerNames : Nat → List NodeId → Option NodeId → Option (List String)
  | 0, _, _ => return []
  | _ + 1, _, none => return []
  | bound + 1, met, some owner => do
    let node ← m.node? owner
    if node.kind = .translationUnit || node.isAnonymous || owner ∈ met then return []
    else return node.name :: (← ownerNames bound (owner :: met) node.owner)

def fullName (id : NodeId) : Option String := do
  let node ← m.node? id
  let outer ← ownerNames m (m.size + 1) [id] node.owner
  return Text.qualified (node.name :: outer).reverse

def membersOf (id : NodeId) : Option (List NodeId) := do return (← m.node? id).members.toList

def membersWhere (id : NodeId) (wanted : NodeKind → Bool) : Option (List NodeId) := do
  (← membersOf m id).filterM fun member => return wanted (← kind m member)

def signature (id : NodeId) : Option String := do
  return Text.signature (← m.node? id).displayName

def signatureKey (id : NodeId) : Option String := do
  let name ← fullName m id
  let parameters ← signature m id
  return s!"{name}({parameters})"

def overloads (id : NodeId) : Option (List NodeId) := do
  let node ← m.node? id
  match node.owner with
  | none => return []
  | some owner =>
    let home ← m.node? owner
    ((home.content.get? node.name).getD ∅).toList.filterM fun other =>
      return other ≠ id && (← kind m other).isCallable

def isOverloaded (id : NodeId) : Option Bool := do return !(← overloads m id).isEmpty

/-! ## Paths -/

def named (scope : NodeId) (path segment : String) :
    Option (Except LookupError (OrderedSet NodeId)) := do
  match (← m.node? scope).content.get? segment with
  | none => return .error (.notFound path segment)
  | some set => return if set.isEmpty then .error (.notFound path segment) else .ok set

/-- The first node of a set of one. -/
def only (path segment : String) (set : OrderedSet NodeId) : Option (Except LookupError NodeId) := do
  if set.size = 1 then return .ok (← set.toList.head?)
  else return .error (.ambiguous path segment set.size)

def namedOne (scope : NodeId) (path segment : String) : Option (Except LookupError NodeId) := do
  match ← named m scope path segment with
  | .error error => return .error error
  | .ok set => only path segment set

def follow (path : String) (scope : NodeId) :
    List String → Option (Except LookupError (OrderedSet NodeId))
  | [] => return .error .emptyPath
  | [last] => named m scope path last
  | segment :: rest => do
    match ← namedOne m scope path segment with
    | .error error => return .error error
    | .ok next => follow path next rest

def lookup (scope : NodeId) (path : String) : Option (Except LookupError (OrderedSet NodeId)) :=
  let segments := Text.segments path
  let (scope, segments) :=
    if segments.head? = some "" then (Model.root, segments.drop 1) else (scope, segments)
  if segments.getLast?.getD "" = "" then return .error .emptyPath
  else follow m path scope segments

def lookupOne (scope : NodeId) (path : String) : Option (Except LookupError NodeId) := do
  match ← lookup m scope path with
  | .error error => return .error error
  | .ok set => only path (Text.lastSegment path) set

/-- The bindable nodes at a path. Where there are none, the first node there is to blame. -/
def resolveRoot (name : String) : Option (Except Binding.BindError (List NodeId)) := do
  match ← lookup m Model.root name with
  | .error error => return .error (.unknownRoot name error.report.message)
  | .ok set =>
    match ← set.toList.filterM fun id => return (← kind m id).isBindable with
    | [] =>
      let kind ← kind m (← set.toList.head?)
      return .error (.unknownRoot name s!"{kind.label} is not bindable")
    | roots => return .ok roots

def resolveRoots (names : List String) :
    Option (OrderedSet NodeId × List Binding.BindError) :=
  names.foldlM (fun (roots, errors) name => do
    match ← resolveRoot m name with
    | .ok found => return (roots.insertAll found, errors)
    | .error error => return (roots, errors ++ [error])) (∅, [])

/-! ## Listings -/

def listingLine (depth : Nat) (id : NodeId) : Option String := do
  let node ← m.node? id
  let access := if node.kind.isRecord && !node.isPublic then s!" [{node.access.label}]" else ""
  return String.ofList (List.replicate (2 * depth) ' ') ++
    s!"{node.kind.label} {Model.listingLabel node}{access}\n"

def listingLines : Nat → List NodeId → NodeId → Option (List String)
  | 0, _, _ => return []
  | bound + 1, way, id => do
    let line ← listingLine m way.length id
    if id ∈ way then return [line]
    else return line :: (← (← membersOf m id).mapM (listingLines bound (id :: way))).flatten

def listingFrom (id : NodeId) : Option String := do
  return String.join (← listingLines m (m.size + 1) [] id)

end

/-! ## Answers -/

section
variable {id scope : NodeId}

theorem node?_eq (inside : id.index < m.size) : m.node? id = some (m.node id) := by
  obtain ⟨node, found⟩ := Option.isSome_iff_exists.mp (Model.node?_isSome.mpr inside)
  simp [Model.node, found]

theorem kind_eq (inside : id.index < m.size) : kind m id = some (m.kind id) := by
  simp [kind, Model.kind, node?_eq inside]

theorem name_eq (inside : id.index < m.size) : name m id = some (m.name id) := by
  simp [name, Model.name, node?_eq inside]

theorem membersOf_eq (inside : id.index < m.size) : membersOf m id = some (m.membersOf id) := by
  simp [membersOf, Model.membersOf, node?_eq inside]

theorem signature_eq (inside : id.index < m.size) : signature m id = some (m.signature id) := by
  simp [signature, Model.signature, node?_eq inside]

variable (ranged : m.Ranged u)

include ranged

theorem ownerNames_eq (bound : Nat) (met : List NodeId) {owner : Option NodeId}
    (inside : ∀ id, owner = some id → id.index < m.size) :
    ownerNames m bound met owner = some (m.ownerNames bound met owner) := by
  induction bound generalizing met owner with
  | zero => rfl
  | succ bound ih =>
    cases owner with
    | none => rfl
    | some owner =>
      have outer := ih (owner :: met) (ranged.nodes owner).owner
      simp only [ownerNames, Model.ownerNames, node?_eq (inside owner rfl), Option.bind_eq_bind,
        Option.bind_some, outer]
      split <;> rfl

theorem fullName_eq (inside : id.index < m.size) : fullName m id = some (m.fullName id) := by
  have outer := ownerNames_eq ranged (m.size + 1) [id] (ranged.nodes id).owner
  simp [fullName, Model.fullName, node?_eq inside, outer]

theorem signatureKey_eq (inside : id.index < m.size) :
    signatureKey m id = some (m.signatureKey id) := by
  simp [signatureKey, Model.signatureKey, fullName_eq ranged inside, signature_eq inside]

theorem inside_membersOf (id : NodeId) : Inside m.size (m.membersOf id) := (ranged.nodes id).members

theorem inside_membersWhere (id : NodeId) (wanted : NodeKind → Bool) :
    Inside m.size (m.membersWhere id wanted) :=
  (inside_membersOf ranged id).filter _

omit ranged in
-- A filter by kind, over nodes of the arena.
theorem filterM_kind_eq {ids : List NodeId} (inside : Inside m.size ids)
    (wanted : NodeId → NodeKind → Bool) :
    (ids.filterM fun id => return wanted id (← kind m id)) =
      some (ids.filter fun id => wanted id (m.kind id)) :=
  filterM_eq_some fun id listed => by simp [kind_eq (inside id listed)]

theorem membersWhere_eq (inside : id.index < m.size) (wanted : NodeKind → Bool) :
    membersWhere m id wanted = some (m.membersWhere id wanted) := by
  have kinds := filterM_kind_eq (inside_membersOf ranged id) fun _ => wanted
  simp only [membersWhere, membersOf_eq inside, Option.bind_eq_bind, Option.bind_some]
  exact kinds

theorem inside_content (id : NodeId) (name : String) :
    Inside m.size (((m.node id).content.get? name).getD ∅) := by
  cases named : (m.node id).content.get? name with
  | none => exact .empty
  | some set => exact (ranged.nodes id).content name set named

theorem inside_overloads (id : NodeId) : Inside m.size (m.overloads id) := by
  unfold Model.overloads
  dsimp only
  cases (m.node id).owner with
  | none => exact .nil
  | some owner => exact Inside.filter (inside_content ranged owner _) _

theorem overloads_eq (inside : id.index < m.size) : overloads m id = some (m.overloads id) := by
  simp only [overloads, Model.overloads, node?_eq inside, Option.bind_eq_bind, Option.bind_some]
  cases owned : (m.node id).owner with
  | none => rfl
  | some owner =>
    have home := node?_eq ((ranged.nodes id).owner owner owned)
    simp only [home, Option.bind_some]
    exact filterM_kind_eq (inside_content ranged owner (m.node id).name) fun other kind =>
      other ≠ id && kind.isCallable

theorem isOverloaded_eq (inside : id.index < m.size) :
    isOverloaded m id = some (m.isOverloaded id) := by
  simp [isOverloaded, Model.isOverloaded, overloads_eq ranged inside]

/-! ## Paths -/

omit ranged in
theorem named_eq (inside : scope.index < m.size) (path segment : String) :
    named m scope path segment = some (m.named scope path segment) := by
  simp only [named, Model.named, node?_eq inside, Option.bind_eq_bind, Option.bind_some]
  cases (m.node scope).content.get? segment <;> rfl

/-- Only names of something are found, and only nodes of the arena. -/
def Finds (m : Model) (set : OrderedSet NodeId) : Prop := set.toList ≠ [] ∧ Inside m.size set

theorem finds_of_named {path segment : String} {set : OrderedSet NodeId}
    (found : m.named scope path segment = .ok set) : Finds m set := by
  unfold Model.named at found
  split at found
  · cases found
  · next given known =>
    split at found
    · cases found
    · next filled =>
      cases found
      refine ⟨fun none => filled ?_, (ranged.nodes scope).content _ _ known⟩
      rw [OrderedSet.isEmpty, none]
      rfl

omit ranged in
theorem only_eq {path segment : String} {set : OrderedSet NodeId}
    {result : Except LookupError NodeId} (inside : Inside m.size set)
    (single : ∀ id, set.toList = [id] → result = .ok id)
    (several : (∀ id, set.toList ≠ [id]) → result = .error (.ambiguous path segment set.size)) :
    only path segment set = some result ∧ ∀ id, result = .ok id → id.index < m.size := by
  unfold only OrderedSet.size
  cases listed : set.toList with
  | nil =>
    have found := several fun id => by simp [listed]
    rw [found, OrderedSet.size, listed]
    exact ⟨rfl, by simp⟩
  | cons id rest =>
    cases rest with
    | nil =>
      rw [single id listed]
      refine ⟨rfl, fun other same => inside other ?_⟩
      cases same
      exact OrderedSet.mem_def.mpr (listed ▸ List.mem_cons_self)
    | cons next rest =>
      have found := several fun id => by simp [listed]
      rw [found, OrderedSet.size, listed]
      exact ⟨by simp, by simp⟩

theorem namedOne_eq (inside : scope.index < m.size) (path segment : String) :
    namedOne m scope path segment = some (m.namedOne scope path segment) ∧
      ∀ id, m.namedOne scope path segment = .ok id → id.index < m.size := by
  simp only [namedOne, Model.namedOne, named_eq inside, Option.bind_eq_bind, Option.bind_some]
  cases found : m.named scope path segment with
  | error => exact ⟨rfl, by simp⟩
  | ok set =>
    refine only_eq (finds_of_named ranged found).2 (fun id listed => by simp only [listed]) ?_
    intro several
    dsimp only
    split
    · next id listed => exact absurd listed (several id)
    · rfl

theorem follow_eq (path : String) (segments : List String) (inside : scope.index < m.size) :
    follow m path scope segments = some (m.follow path scope segments) ∧
      ∀ set, m.follow path scope segments = .ok set → Finds m set := by
  induction segments generalizing scope with
  | nil => exact ⟨rfl, by simp [Model.follow]⟩
  | cons segment rest ih =>
    cases rest with
    | nil => exact ⟨named_eq inside path segment, fun set => finds_of_named ranged⟩
    | cons next rest =>
      obtain ⟨single, within⟩ := namedOne_eq ranged inside path segment
      simp only [follow, Model.follow, single, Option.bind_eq_bind, Option.bind_some]
      cases found : m.namedOne scope path segment with
      | error => exact ⟨rfl, by simp⟩
      | ok next => exact ih (within next found)

theorem lookup_eq (inside : scope.index < m.size) (path : String) :
    lookup m scope path = some (m.lookup scope path) ∧
      ∀ set, m.lookup scope path = .ok set → Finds m set := by
  unfold lookup Model.lookup
  by_cases absolute : (Text.segments path).head? = some ""
  · simp only [absolute, if_true]
    by_cases empty : ((Text.segments path).drop 1).getLast?.getD "" = ""
    · simp only [empty, if_true]
      exact ⟨rfl, by simp⟩
    · simp only [empty, if_false]
      exact follow_eq ranged path _ ranged.root
  · simp only [absolute, if_false]
    by_cases empty : (Text.segments path).getLast?.getD "" = ""
    · simp only [empty, if_true]
      exact ⟨rfl, by simp⟩
    · simp only [empty, if_false]
      exact follow_eq ranged path _ inside

theorem lookupOne_eq (inside : scope.index < m.size) (path : String) :
    lookupOne m scope path = some (m.lookupOne scope path) ∧
      ∀ id, m.lookupOne scope path = .ok id → id.index < m.size := by
  obtain ⟨looked, finds⟩ := lookup_eq ranged inside path
  simp only [lookupOne, Model.lookupOne, looked, Option.bind_eq_bind, Option.bind_some]
  cases found : m.lookup scope path with
  | error => exact ⟨rfl, by simp⟩
  | ok set =>
    refine only_eq (finds set found).2 (fun id listed => by simp only [listed]) ?_
    intro several
    dsimp only
    split
    · next id listed => exact absurd listed (several id)
    · rfl

/-- A path that names something names a first node, whose kind is there to be reported. -/
theorem resolveRoot_eq (name : String) :
    resolveRoot m name = some (Binding.resolveRoot m name) ∧
      ∀ roots, Binding.resolveRoot m name = .ok roots → Inside m.size roots := by
  have within : Model.root.index < m.size := ranged.root
  obtain ⟨looked, finds⟩ := lookup_eq ranged within name
  simp only [resolveRoot, Binding.resolveRoot, looked, Option.bind_eq_bind, Option.bind_some]
  cases found : m.lookup Model.root name with
  | error => exact ⟨rfl, by simp⟩
  | ok set =>
    obtain ⟨filled, inside⟩ := finds set found
    have kinds := filterM_kind_eq inside fun _ kind => kind.isBindable
    simp only [Option.bind_eq_bind] at kinds
    simp only [kinds, Option.bind_some]
    cases bindable : set.toList.filter fun id => (m.kind id).isBindable with
    | cons first rest =>
      refine ⟨rfl, fun roots same id member => inside id ?_⟩
      cases same
      rw [← bindable] at member
      exact (List.mem_filter.mp member).1
    | nil =>
      refine ⟨?_, by simp⟩
      cases listed : set.toList with
      | nil => exact absurd listed filled
      | cons first rest =>
        have member : first ∈ set := OrderedSet.mem_def.mpr (listed ▸ List.mem_cons_self)
        simp [kind_eq (inside first member)]

theorem resolveRoots_eq (names : List String) :
    resolveRoots m names = some (Binding.resolveRoots m names) ∧
      Inside m.size (Binding.resolveRoots m names).1 := by
  refine foldlM_eq_some (fun (result : OrderedSet NodeId × List Binding.BindError)
    (inside : Inside m.size result.1) name _ => ?_) (∅, []) .empty
  obtain ⟨resolved, within⟩ := resolveRoot_eq ranged name
  simp only [resolved, Option.bind_eq_bind, Option.bind_some]
  cases found : Binding.resolveRoot m name with
  | error => exact ⟨rfl, inside⟩
  | ok roots => exact ⟨rfl, inside.insertAll (within roots found)⟩

/-! ## Listings -/

omit ranged in
theorem listingLine_eq (depth : Nat) (inside : id.index < m.size) :
    listingLine m depth id = some (m.listingLine depth id) := by
  simp [listingLine, Model.listingLine, node?_eq inside]

theorem listingLines_eq (bound : Nat) (way : List NodeId) (inside : id.index < m.size) :
    listingLines m bound way id = some (m.listingLines bound way id) := by
  induction bound generalizing way id with
  | zero => rfl
  | succ bound ih =>
    have below := mapM_eq_some fun member (listed : member ∈ m.membersOf id) =>
      ih (id :: way) (inside_membersOf ranged id member listed)
    simp only [listingLines, Model.listingLines, listingLine_eq way.length inside,
      membersOf_eq inside, below, Option.bind_eq_bind, Option.bind_some, List.flatMap_def]
    split <;> rfl

theorem listingFrom_eq (inside : id.index < m.size) : listingFrom m id = some (m.listingFrom id) := by
  simp [listingFrom, Model.listingFrom, listingLines_eq ranged _ _ inside]

end

end Strict

end Bindery
