import Bindery.Proofs.Model.Walk

/-! The arena that visits fill. Every symbol reference has one node and every cursor without one has a
node to itself, in the order in which they are first met; what identifies a node stays with it for
good. -/

set_option autoImplicit false

namespace Bindery

open Ast (Cursor CursorId TranslationUnit)

/-- What a declaration is known by: its symbol reference, or the one cursor that it has. -/
inductive NodeKey where
  | symbol (usr : String)
  | cursor (id : CursorId)
  deriving DecidableEq, Repr

def Ast.TranslationUnit.usrOf? (u : TranslationUnit) (id : CursorId) : Option String :=
  (u.cursor? id).bind Cursor.usr?

/-- The key of the declaration that a cursor stands for. -/
def NodeKey.ofCursor (u : TranslationUnit) (id : CursorId) : NodeKey :=
  match u.usrOf? id with
  | some usr => .symbol usr
  | none => .cursor id

namespace Node

/-- Markers have no key. -/
def key? (node : Node) : Option NodeKey :=
  match node.usr with
  | some usr => some (.symbol usr)
  | none => node.occurrence.map .cursor

theorem usr_of_key? {node : Node} {u : TranslationUnit} {id : CursorId}
    (key : node.key? = some (.ofCursor u id)) : node.usr = u.usrOf? id := by
  unfold key? NodeKey.ofCursor at key
  cases own : node.usr <;> cases other : u.usrOf? id <;> simp_all

/-- A node is still what it was: the same declaration, of the same kind and name. -/
structure Lasts (earlier later : Node) : Prop where
  usr : later.usr = earlier.usr
  kind : later.kind = earlier.kind
  name : later.name = earlier.name
  key : later.key? = earlier.key?

theorem Lasts.refl (node : Node) : node.Lasts node := ⟨rfl, rfl, rfl, rfl⟩

theorem Lasts.trans {first second third : Node} (begins : first.Lasts second)
    (ends : second.Lasts third) : first.Lasts third where
  usr := ends.usr.trans begins.usr
  kind := ends.kind.trans begins.kind
  name := ends.name.trans begins.name
  key := ends.key.trans begins.key

end Node

namespace Model

/-- Every node of the arena is still what it was. -/
structure Lasts (m n : Model) : Prop where
  size_le : m.size ≤ n.size
  kept : ∀ id, id.index < m.size → (m.node id).Lasts (n.node id)

/-- A symbol reference finds the node that carries it, and no other node carries it. -/
def Indexed (m : Model) : Prop := ∀ usr id, m.byUsr? usr = some id ↔ (m.node id).usr = some usr

/-- The keys of the nodes in the order of the arena. -/
def keys (m : Model) : List (Option NodeKey) := m.ids.map fun id => (m.node id).key?

variable {m n : Model}

theorem Lasts.refl (m : Model) : m.Lasts m := ⟨Nat.le_refl _, fun _ _ => .refl _⟩

theorem Lasts.trans {k : Model} (first : m.Lasts n) (second : n.Lasts k) : m.Lasts k where
  size_le := Nat.le_trans first.size_le second.size_le
  kept id inside :=
    (first.kept id inside).trans (second.kept id (Nat.lt_of_lt_of_le inside first.size_le))

theorem Rearranges.lasts (rearranged : m.Rearranges n) : m.Lasts n where
  size_le := Nat.le_of_eq rearranged.size.symm
  kept id _ := {
    usr := rearranged.same_read Node.usr (fun _ => rfl) id
    kind := rearranged.same_read Node.kind (fun _ => rfl) id
    name := rearranged.same_read Node.name (fun _ => rfl) id
    key := rearranged.same_read Node.key? (fun _ => rfl) id }

theorem lasts_enroll (m : Model) (node : Node) : m.Lasts (m.enroll node) where
  size_le := by simp
  kept id inside := by
    rw [node_enroll, if_neg (Nat.ne_of_lt inside)]
    exact .refl _

theorem index_lt_of_usr {id : NodeId} {usr : String} (carried : (m.node id).usr = some usr) :
    id.index < m.size := by
  by_contra outside
  rw [node_of_size_le (Nat.le_of_not_lt outside)] at carried
  cases carried

/-! ## Symbols -/

theorem Indexed.congr (indexed : m.Indexed) (symbols : n.symbols = m.symbols)
    (usrs : ∀ id, (n.node id).usr = (m.node id).usr) : n.Indexed := by
  intro usr id
  rw [byUsr?, symbols, usrs]
  exact indexed usr id

theorem Indexed.enroll (indexed : m.Indexed) {node : Node}
    (unknown : ∀ usr, node.usr = some usr → m.byUsr? usr = none) : (m.enroll node).Indexed := by
  intro usr id
  rw [byUsr?_enroll, node_enroll]
  by_cases last : id.index = m.size
  · have same : id = ⟨m.size⟩ := by cases id; simpa using last
    by_cases carried : node.usr = some usr
    · simp [carried, same]
    · have elsewhere : m.byUsr? usr ≠ some id := by
        intro found
        have inside := index_lt_of_usr ((indexed usr id).mp found)
        omega
      simp [carried, last, elsewhere]
  · have apart : (⟨m.size⟩ : NodeId) ≠ id := by
      rintro rfl
      exact last rfl
    rw [if_neg last, ← indexed usr id]
    by_cases carried : node.usr = some usr
    · simp [carried, apart, unknown usr carried]
    · simp [carried]

theorem indexed_start (root : Node) : (Model.start root).Indexed := by
  have empty : Indexed { nodes := #[] } := by
    intro usr id
    have outside : ({ nodes := #[] } : Model).size ≤ id.index := Nat.zero_le id.index
    rw [node_of_size_le outside]
    exact ⟨nofun, nofun⟩
  rw [start_eq]
  exact empty.enroll fun _ _ => rfl

/-! ## Keys -/

theorem keys_of_lasts (lasts : m.Lasts n) (same : n.size = m.size) : n.keys = m.keys := by
  rw [keys, keys, ids, ids, same]
  apply List.map_congr_left
  intro id member
  exact (lasts.kept id (mem_ids.mp member)).key

theorem keys_enroll (m : Model) (node : Node) : (m.enroll node).keys = m.keys ++ [node.key?] := by
  have earlier : (m.ids.map fun id => ((m.enroll node).node id).key?) = m.keys := by
    apply List.map_congr_left
    intro id member
    rw [node_enroll, if_neg (Nat.ne_of_lt (mem_ids.mp member))]
  have grown : (m.enroll node).ids = m.ids ++ [⟨m.size⟩] := by
    simp [ids, List.range_succ]
  rw [keys, grown, List.map_append, earlier, List.map_singleton, node_enroll, if_pos rfl]

theorem symbol_mem_keys_iff {usr : String} :
    some (.symbol usr) ∈ m.keys ↔ ∃ id, (m.node id).usr = some usr := by
  constructor
  · intro member
    obtain ⟨id, _, told⟩ := List.mem_map.mp member
    refine ⟨id, ?_⟩
    unfold Node.key? at told
    split at told
    · next carried =>
      cases told
      exact carried
    · cases occurrence : (m.node id).occurrence <;> simp [occurrence] at told
  · rintro ⟨id, carried⟩
    refine List.mem_map.mpr ⟨id, mem_ids.mpr (index_lt_of_usr carried), ?_⟩
    simp [Node.key?, carried]

end Model

/-- The declarations that cursors stand for, in the order in which they are first met. -/
def declared (u : TranslationUnit) (ids : List CursorId) : OrderedSet NodeKey :=
  .ofList (ids.map (NodeKey.ofCursor u))

theorem ofCursor_eq {u : TranslationUnit} {id : CursorId} {c : Cursor}
    (cursor : u.cursor? id = some c) :
    NodeKey.ofCursor u id =
      match c.usr? with
      | some usr => .symbol usr
      | none => .cursor id := by
  simp [NodeKey.ofCursor, TranslationUnit.usrOf?, cursor]

theorem key?_ofCursor {u : TranslationUnit} {id : CursorId} {c : Cursor}
    (cursor : u.cursor? id = some c) (kind : NodeKind) :
    (Node.ofCursor kind id c).key? = some (.ofCursor u id) := by
  rw [ofCursor_eq cursor, Node.key?, Node.ofCursor]
  cases c.usr? <;> rfl

theorem eq_of_ofCursor {u : TranslationUnit} {id other : CursorId}
    (same : NodeKey.ofCursor u id = .cursor other) : id = other := by
  unfold NodeKey.ofCursor at same
  split at same
  · cases same
  · exact NodeKey.cursor.inj same

theorem declared_append (u : TranslationUnit) (ids : List CursorId) (id : CursorId) :
    declared u (ids ++ [id]) = (declared u ids).insert (NodeKey.ofCursor u id) := by
  simp [declared, OrderedSet.ofList, OrderedSet.insertAll]

namespace Draft

variable {u : TranslationUnit} {f : Factory} {d : Draft} {id : CursorId} {c : Cursor}
  {item : NodeId} {entered : Draft}

/-! ## Entering a cursor -/

theorem lasts_merge {usr : String} (carried : (d.model.node item).usr = some usr) :
    d.model.Lasts (d.merge item id c).model where
  size_le := Nat.le_of_eq (Model.size_update ..).symm
  kept other _ := by
    unfold merge
    rw [Model.node_update]
    split
    · next here =>
      rw [here.1]
      split
      · exact ⟨rfl, rfl, rfl, by simp [Node.key?, Node.adopt, Node.reset, carried]⟩
      · split
        · exact ⟨rfl, rfl, rfl, by simp [Node.key?, Node.adopt, carried]⟩
        · exact .refl _
    · exact .refl _

theorem lasts_of_enters (indexed : d.model.Indexed) (enters : Enters u f d id c item entered) :
    d.model.Lasts entered.model := by
  cases enters with
  | @known usr item symbol found => exact lasts_merge ((indexed usr item).mp found)
  | new modeled taken unknown => exact d.model.lasts_enroll _

theorem indexed_of_enters (indexed : d.model.Indexed) (enters : Enters u f d id c item entered) :
    entered.model.Indexed := by
  cases enters with
  | @known usr item symbol found =>
    refine indexed.congr rfl fun other => ?_
    by_cases inside : other.index < d.model.size
    · exact ((lasts_merge ((indexed usr item).mp found)).kept other inside).usr
    · have outside := Nat.le_of_not_lt inside
      rw [Model.node_of_size_le outside, Model.node_of_size_le]
      unfold merge
      simpa using outside
  | new modeled taken unknown => exact indexed.enroll unknown

/-- The node entered is that of the declaration. -/
theorem key_of_enters (indexed : d.model.Indexed) (cursor : u.cursor? id = some c)
    (enters : Enters u f d id c item entered) :
    item.index < entered.model.size ∧
      (entered.model.node item).key? = some (NodeKey.ofCursor u id) := by
  cases enters with
  | @known usr item symbol found =>
    have carried := (indexed usr item).mp found
    have inside := Model.index_lt_of_usr carried
    have lasts : d.model.Lasts (d.merge item id c).model := lasts_merge carried
    refine ⟨Nat.lt_of_lt_of_le inside lasts.size_le, ?_⟩
    rw [(lasts.kept item inside).key, ofCursor_eq cursor]
    simp [Node.key?, carried, symbol]
  | @new constructor kind modeled taken unknown =>
    refine ⟨by simp, ?_⟩
    rw [Model.node_enroll, if_pos rfl]
    exact key?_ofCursor cursor kind

/-- A cursor adds a node if it is the first of its declaration. -/
theorem keys_of_enters (indexed : d.model.Indexed) (cursor : u.cursor? id = some c)
    (enters : Enters u f d id c item entered) {ids : List CursorId} (first : id ∉ ids)
    (told : d.model.keys = (declared u ids).toList.map some) :
    entered.model.keys = (declared u (ids ++ [id])).toList.map some := by
  have mem_declared (key : NodeKey) : some key ∈ d.model.keys ↔ key ∈ declared u ids := by
    rw [told, OrderedSet.mem_def]
    simp
  rw [declared_append, OrderedSet.toList_insert, ofCursor_eq cursor]
  cases enters with
  | @known usr item symbol found =>
    have carried := (indexed usr item).mp found
    have present := (mem_declared (.symbol usr)).mp (Model.symbol_mem_keys_iff.mpr ⟨item, carried⟩)
    rw [symbol, if_pos present, ← told]
    apply Model.keys_of_lasts (lasts_merge carried)
    simp [merge]
  | @new constructor kind modeled taken unknown =>
    rw [Model.keys_enroll, told]
    cases symbol : c.usr? with
    | none =>
      have absent : NodeKey.cursor id ∉ declared u ids := by
        intro member
        obtain ⟨other, earlier, same⟩ := List.mem_map.mp (OrderedSet.mem_ofList.mp member)
        rw [eq_of_ofCursor same] at earlier
        exact first earlier
      simp [absent, Node.key?, Node.ofCursor, symbol]
    | some usr =>
      have absent : NodeKey.symbol usr ∉ declared u ids := by
        intro member
        obtain ⟨other, carried⟩ := Model.symbol_mem_keys_iff.mp ((mem_declared _).mpr member)
        have found := (indexed usr other).mpr carried
        rw [unknown usr symbol] at found
        cases found
      simp [absent, Node.key?, Node.ofCursor, symbol]

/-! ## Runs -/

section

variable {known : List NodeId} {e : Draft} {visits : List Visit}

theorem Runs.final_mem (runs : Runs u f known d visits e) : e ∈ d :: visits.map Visit.after := by
  induction runs with
  | done => exact List.mem_cons_self
  | visit _ _ _ _ ih => exact List.mem_cons_of_mem _ ih

theorem indexed_accept (indexed : d.model.Indexed) (container item : NodeId) (c : Cursor) :
    (d.accept u container item c).model.Indexed := by
  have rearranged := rearranges_accept (u := u) d container item c
  exact indexed.congr rearranged.symbols (rearranged.same_read Node.usr fun _ => rfl)

theorem Runs.indexed (runs : Runs u f known d visits e) (indexed : d.model.Indexed) :
    ∀ stage ∈ d :: visits.map Visit.after, stage.model.Indexed := by
  induction runs with
  | done =>
    intro stage only
    rw [List.mem_singleton.mp only]
    exact indexed
  | visit _ _ enters _ ih =>
    intro stage member
    rcases List.mem_cons.mp member with rfl | later
    · exact indexed
    · exact ih (indexed_accept (indexed_of_enters indexed enters) _ _ _) stage later

/-- At every stage of a run, each node is what it was at all earlier stages. -/
theorem Runs.lasting (runs : Runs u f known d visits e) (indexed : d.model.Indexed) :
    (d :: visits.map Visit.after).Pairwise fun earlier later =>
      earlier.model.Lasts later.model := by
  induction runs with
  | done => exact List.pairwise_singleton _ _
  | @visit known container item d entered e id c rest inside cursor enters later ih =>
    have rest := ih (indexed_accept (indexed_of_enters indexed enters) _ _ _)
    have once : d.model.Lasts (entered.accept u container item c).model :=
      (lasts_of_enters indexed enters).trans (rearranges_accept entered container item c).lasts
    refine List.Pairwise.cons ?_ rest
    intro stage member
    rcases List.mem_cons.mp member with rfl | further
    · exact once
    · exact once.trans ((List.pairwise_cons.mp rest).1 stage further)

theorem Runs.lasts (runs : Runs u f known d visits e) (indexed : d.model.Indexed) :
    d.model.Lasts e.model := by
  rcases List.mem_cons.mp runs.final_mem with rfl | later
  · exact .refl _
  · exact (List.pairwise_cons.mp (runs.lasting indexed)).1 e later

/-- Every visit ends at the node of its declaration. -/
theorem Runs.items (runs : Runs u f known d visits e) (indexed : d.model.Indexed) :
    ∀ visit ∈ visits, visit.item.index < e.model.size ∧
      (e.model.node visit.item).key? = some (NodeKey.ofCursor u visit.cursor) := by
  induction runs with
  | done => exact nofun
  | @visit known container item d entered e id c rest _ cursor enters later ih =>
    have accepted := indexed_accept (u := u) (indexed_of_enters indexed enters) container item c
    intro visit member
    rcases List.mem_cons.mp member with rfl | further
    · obtain ⟨inside, key⟩ := key_of_enters indexed cursor enters
      have lasts := (rearranges_accept entered container item c).lasts.trans (later.lasts accepted)
      exact ⟨Nat.lt_of_lt_of_le inside lasts.size_le, ((lasts.kept item inside).key).trans key⟩
    · exact ih accepted visit further

/-- A run that visits no cursor twice has a node for each declaration visited, and no others. -/
theorem Runs.keys (runs : Runs u f known d visits e) (indexed : d.model.Indexed)
    {ids : List CursorId} (told : d.model.keys = (declared u ids).toList.map some)
    (once : (ids ++ visits.map Visit.cursor).Nodup) :
    e.model.keys = (declared u (ids ++ visits.map Visit.cursor)).toList.map some := by
  induction runs generalizing ids with
  | done => simpa using told
  | @visit known container item d entered e id c rest _ cursor enters later ih =>
    have first : id ∉ ids := fun member =>
      (List.nodup_append.mp once).2.2 id member id List.mem_cons_self rfl
    have rearranged := rearranges_accept (u := u) entered container item c
    have next := Model.keys_of_lasts rearranged.lasts rearranged.size
    rw [keys_of_enters indexed cursor enters first told] at next
    rw [List.map_cons, List.append_cons] at once ⊢
    exact ih (indexed_accept (indexed_of_enters indexed enters) _ _ _) next once

end

end Draft

end Bindery
