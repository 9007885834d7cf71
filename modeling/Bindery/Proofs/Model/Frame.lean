import Bindery.Model.Lookup
import Bindery.Model.Resolution
import Mathlib.Data.List.Perm.Subperm

/-! What questions leave of a model. They remember answers with its nodes and put markers at the end
of its arena, and everything else that can be read from it stays: kinds, members, owners, and the
names of the nodes that were there before. -/

set_option autoImplicit false

namespace Bindery

/-- A node without the answers remembered with it. -/
def Node.face (node : Node) : Node := { node with resolution := .pending, bases := none }

namespace Model

/-- Every node but a marker has its owner in the arena, and so has every symbol its node. -/
structure Linked (m : Model) : Prop where
  owner : ∀ id owner, (m.node id).owner = some owner → owner.index < m.size
  symbol : ∀ usr id, m.byUsr? usr = some id → id.index < m.size

/-- A later model has the nodes of an earlier one, apart from remembered answers, and no others but
markers. -/
structure Extends (m n : Model) : Prop where
  size_le : m.size ≤ n.size
  symbols : n.symbols = m.symbols
  markers : ∀ spelling id, m.marker? spelling = some id → n.marker? spelling = some id
  kept : ∀ id, id.index < m.size → (n.node id).face = (m.node id).face
  added : ∀ id, m.size ≤ id.index → ∃ spelling, (n.node id).face = (Node.builtin spelling).face

theorem node_of_size_le {m : Model} {id : NodeId} (outside : m.size ≤ id.index) :
    m.node id = .builtin "" := by
  have missing : m.node? id = none := by
    rw [← Option.not_isSome_iff_eq_none, node?_isSome]
    omega
  simp [node, missing]

/-- Outside the arena there are only markers. -/
theorem index_lt_of_kind_ne {m : Model} {id : NodeId} (other : m.kind id ≠ .builtin) :
    id.index < m.size := by
  by_contra outside
  apply other
  simp [kind, node_of_size_le (Nat.le_of_not_lt outside), Node.builtin]

theorem node_add_size (m : Model) (node : Node) : (m.add node).1.node ⟨m.size⟩ = node := by
  simp [Model.node, node?_add]

theorem node_update (m : Model) (id other : NodeId) (change : Node → Node) :
    (m.update id change).node other =
      if other = id ∧ other.index < m.size then change (m.node other) else m.node other := by
  by_cases inside : other.index < m.size
  · obtain ⟨node, found⟩ := Option.isSome_iff_exists.mp (node?_isSome.mpr inside)
    by_cases same : other = id
    · subst same
      simp [Model.node, node?_update, found, inside]
    · simp [Model.node, node?_update, found, same]
  · rw [if_neg fun both => inside both.2, node_of_size_le (Nat.le_of_not_lt inside),
      node_of_size_le]
    rw [size_update]
    omega

namespace Extends

variable {m n : Model}

theorem refl (m : Model) : m.Extends m where
  size_le := Nat.le_refl _
  symbols := rfl
  markers _ _ found := found
  kept _ _ := rfl
  added id outside := ⟨"", by rw [node_of_size_le outside]⟩

theorem trans {k : Model} (first : m.Extends n) (second : n.Extends k) : m.Extends k where
  size_le := Nat.le_trans first.size_le second.size_le
  symbols := second.symbols.trans first.symbols
  markers spelling id found := second.markers spelling id (first.markers spelling id found)
  kept id inside :=
    (second.kept id (Nat.lt_of_lt_of_le inside first.size_le)).trans (first.kept id inside)
  added id outside := by
    by_cases between : id.index < n.size
    · rw [second.kept id between]
      exact first.added id outside
    · exact second.added id (Nat.le_of_not_lt between)

theorem update (m : Model) (id : NodeId) (change : Node → Node)
    (faithful : ∀ node, (change node).face = node.face) : m.Extends (m.update id change) := by
  have faces (other : NodeId) : ((m.update id change).node other).face = (m.node other).face := by
    rw [node_update]
    split
    · exact faithful _
    · rfl
  refine ⟨Nat.le_of_eq (size_update m id change).symm, rfl, fun _ _ found => found,
    fun other _ => faces other, fun other outside => ⟨"", ?_⟩⟩
  rw [faces other, node_of_size_le outside]

theorem node_add_of_lt {id : NodeId} (node : Node) (inside : id.index < m.size) :
    (m.add node).1.node id = m.node id := by
  have apart : id.index ≠ m.size := Nat.ne_of_lt inside
  simp [Model.node, node?_add, apart]

theorem mark {spelling : String} (absent : m.marker? spelling = none) :
    m.Extends { (m.add (.builtin spelling)).1 with
      markers := m.markers.put spelling (m.add (.builtin spelling)).2 } where
  size_le := by
    change m.size ≤ (m.add (.builtin spelling)).1.size
    simp
  symbols := rfl
  markers other id found := by
    change (m.markers.put spelling _).get? other = some id
    have apart : other ≠ spelling := fun same => by
      rw [same, absent] at found
      cases found
    rw [OrderedMap.get?_put, if_neg apart]
    exact found
  kept id inside := congrArg Node.face (node_add_of_lt (.builtin spelling) inside)
  added id outside := by
    change ∃ other, ((m.add (.builtin spelling)).1.node id).face = _
    by_cases last : id.index = m.size
    · exact ⟨spelling, by simp [Model.node, node?_add, last]⟩
    · refine ⟨"", ?_⟩
      rw [node_of_size_le]
      rw [size_add]
      omega

-- What is read from a node, and is the same for all markers, is the same in both models.
theorem same_read {β : Type} (grown : m.Extends n) (read : Node → β)
    (blind : ∀ node, read node.face = read node)
    (plain : ∀ spelling, read (.builtin spelling) = read (.builtin "")) (id : NodeId) :
    read (n.node id) = read (m.node id) := by
  by_cases inside : id.index < m.size
  · rw [← blind (n.node id), grown.kept id inside, blind]
  · have outside : m.size ≤ id.index := Nat.le_of_not_lt inside
    obtain ⟨spelling, same⟩ := grown.added id outside
    rw [← blind (n.node id), same, blind, plain, node_of_size_le outside]

theorem kept_read {β : Type} (grown : m.Extends n) (read : Node → β)
    (blind : ∀ node, read node.face = read node) {id : NodeId} (inside : id.index < m.size) :
    read (n.node id) = read (m.node id) := by
  rw [← blind (n.node id), grown.kept id inside, blind]

theorem kind_eq (grown : m.Extends n) (id : NodeId) : n.kind id = m.kind id :=
  grown.same_read Node.kind (fun _ => rfl) (fun _ => rfl) id

theorem occurrence_eq (grown : m.Extends n) (id : NodeId) :
    (n.node id).occurrence = (m.node id).occurrence :=
  grown.same_read Node.occurrence (fun _ => rfl) (fun _ => rfl) id

theorem owner_eq (grown : m.Extends n) (id : NodeId) : (n.node id).owner = (m.node id).owner :=
  grown.same_read Node.owner (fun _ => rfl) (fun _ => rfl) id

theorem isPublic_eq (grown : m.Extends n) (id : NodeId) :
    (n.node id).isPublic = (m.node id).isPublic :=
  grown.same_read Node.isPublic (fun _ => rfl) (fun _ => rfl) id

theorem membersOf_eq (grown : m.Extends n) (id : NodeId) : n.membersOf id = m.membersOf id :=
  grown.same_read (fun node => node.members.toList) (fun _ => rfl) (fun _ => rfl) id

theorem membersWhere_eq (grown : m.Extends n) (id : NodeId) (wanted : NodeKind → Bool) :
    n.membersWhere id wanted = m.membersWhere id wanted := by
  have kinds : n.kind = m.kind := funext grown.kind_eq
  rw [membersWhere, membersWhere, grown.membersOf_eq, kinds]

theorem byUsr?_eq (grown : m.Extends n) : n.byUsr? = m.byUsr? := by
  funext usr
  rw [byUsr?, byUsr?, grown.symbols]

theorem name_eq (grown : m.Extends n) {id : NodeId} (inside : id.index < m.size) :
    (n.node id).name = (m.node id).name :=
  grown.kept_read Node.name (fun _ => rfl) inside

theorem displayName_eq (grown : m.Extends n) {id : NodeId} (inside : id.index < m.size) :
    (n.node id).displayName = (m.node id).displayName :=
  grown.kept_read Node.displayName (fun _ => rfl) inside

theorem flags_eq (grown : m.Extends n) (id : NodeId) : (n.node id).flags = (m.node id).flags :=
  grown.same_read Node.flags (fun _ => rfl) (fun _ => rfl) id

theorem comment_eq (grown : m.Extends n) (id : NodeId) :
    (n.node id).comment = (m.node id).comment :=
  grown.same_read Node.comment (fun _ => rfl) (fun _ => rfl) id

theorem content_eq (grown : m.Extends n) (id : NodeId) :
    (n.node id).content = (m.node id).content :=
  grown.same_read Node.content (fun _ => rfl) (fun _ => rfl) id

-- Members of a kind that markers do not have keep their names.
theorem map_name_eq (grown : m.Extends n) (id : NodeId) {wanted : NodeKind → Bool}
    (real : wanted .builtin = false) :
    (n.membersWhere id wanted).map n.name = (m.membersWhere id wanted).map m.name := by
  rw [grown.membersWhere_eq]
  apply List.map_congr_left
  intro member present
  apply grown.name_eq
  apply index_lt_of_kind_ne
  intro builtin
  have kept := (List.mem_filter.mp present).2
  rw [builtin, real] at kept
  cases kept

theorem overloads_eq (grown : m.Extends n) {id : NodeId} (inside : id.index < m.size) :
    n.overloads id = m.overloads id := by
  simp only [overloads, grown.owner_eq, grown.content_eq, grown.name_eq inside, grown.kind_eq]

theorem isOverloaded_eq (grown : m.Extends n) {id : NodeId} (inside : id.index < m.size) :
    n.isOverloaded id = m.isOverloaded id := by
  rw [isOverloaded, isOverloaded, grown.overloads_eq inside]

/-- Paths lead to the same nodes, or nowhere for the same reason. -/
theorem lookup_eq (grown : m.Extends n) (scope : NodeId) (path : String) :
    n.lookup scope path = m.lookup scope path := by
  have named : n.named = m.named := by
    funext scope path segment
    rw [Model.named, Model.named, grown.content_eq]
  have followed (segments : List String) (scope : NodeId) :
      n.follow path scope segments = m.follow path scope segments := by
    induction segments generalizing scope with
    | nil => rfl
    | cons segment rest ih =>
      cases rest with
      | nil => rw [follow, follow, named]
      | cons next others => simp only [follow, namedOne, named, ih]
  simp only [lookup, followed]

theorem lookupOne_eq (grown : m.Extends n) (scope : NodeId) (path : String) :
    n.lookupOne scope path = m.lookupOne scope path := by
  rw [lookupOne, lookupOne, grown.lookup_eq]

theorem linked (grown : m.Extends n) (links : m.Linked) : n.Linked where
  owner id owner owned := by
    rw [grown.owner_eq] at owned
    exact Nat.lt_of_lt_of_le (links.owner id owner owned) grown.size_le
  symbol usr id found := by
    rw [grown.byUsr?_eq] at found
    exact Nat.lt_of_lt_of_le (links.symbol usr id found) grown.size_le

end Extends

/-! ## Qualified names -/

theorem mem_ids {m : Model} {id : NodeId} : id ∈ m.ids ↔ id.index < m.size := by
  cases id with
  | mk index => simp [ids]

theorem length_ids (m : Model) : m.ids.length = m.size := by simp [ids]

-- Nodes that are all in the arena and do not repeat are no more than its size.
theorem length_le_size {m : Model} {visited : List NodeId} (distinct : visited.Nodup)
    (inside : ∀ id ∈ visited, id.index < m.size) : visited.length ≤ m.size := by
  rw [← length_ids m]
  exact (distinct.subperm fun id member => mem_ids.mpr (inside id member)).length_le

-- Owners do not change, and no bound that the arena sets is ever used up: the owners met are
-- distinct nodes of the arena.
theorem ownerNames_eq {m n : Model} (grown : m.Extends n) (links : m.Linked) :
    ∀ (bound larger : Nat) (met : List NodeId) (owner? : Option NodeId), met.Nodup →
      (∀ id ∈ met, id.index < m.size) → (∀ owner, owner? = some owner → owner.index < m.size) →
      m.size < bound + met.length → m.size < larger + met.length →
      n.ownerNames larger met owner? = m.ownerNames bound met owner?
  | 0, _, met, _, distinct, inside, _, room, _ => by
    have full := length_le_size distinct inside
    omega
  | _, 0, met, _, distinct, inside, _, _, room => by
    have full := length_le_size distinct inside
    omega
  | _ + 1, _ + 1, _, none, _, _, _, _, _ => rfl
  | bound + 1, larger + 1, met, some owner, distinct, inside, owned, room, larger_room => by
    have here : owner.index < m.size := owned owner rfl
    have anonymous : (n.node owner).isAnonymous = (m.node owner).isAnonymous := by
      rw [Node.isAnonymous, Node.isAnonymous, grown.name_eq here]
    have kinds : (n.node owner).kind = (m.node owner).kind := grown.kind_eq owner
    rw [ownerNames, ownerNames, kinds, anonymous, grown.name_eq here, grown.owner_eq]
    split
    · rfl
    · next further =>
      have fresh : owner ∉ met := fun member => further (by simp [member])
      congr 1
      apply ownerNames_eq grown links bound larger (owner :: met)
      · exact List.nodup_cons.mpr ⟨fresh, distinct⟩
      · intro id member
        rcases List.mem_cons.mp member with rfl | earlier
        · exact here
        · exact inside id earlier
      · exact fun next found => links.owner owner next found
      · rw [List.length_cons]
        omega
      · rw [List.length_cons]
        omega

theorem Extends.fullName_eq {m n : Model} (grown : m.Extends n) (links : m.Linked) {id : NodeId}
    (inside : id.index < m.size) : n.fullName id = m.fullName id := by
  have larger := grown.size_le
  have owners : n.ownerNames (n.size + 1) [id] (m.node id).owner =
      m.ownerNames (m.size + 1) [id] (m.node id).owner := by
    apply ownerNames_eq grown links
    · simp
    · intro other member
      rw [List.mem_singleton.mp member]
      exact inside
    · exact fun owner owned => links.owner id owner owned
    · rw [List.length_singleton]
      omega
    · rw [List.length_singleton]
      omega
  rw [fullName, fullName, grown.name_eq inside, grown.owner_eq, owners]

theorem Extends.signature_eq {m n : Model} (grown : m.Extends n) {id : NodeId}
    (inside : id.index < m.size) : n.signature id = m.signature id := by
  rw [signature, signature, grown.displayName_eq inside]

theorem Extends.signatureKey_eq {m n : Model} (grown : m.Extends n) (links : m.Linked)
    {id : NodeId} (inside : id.index < m.size) : n.signatureKey id = m.signatureKey id := by
  rw [signatureKey, signatureKey, grown.fullName_eq links inside, grown.signature_eq inside]

end Model

end Bindery
