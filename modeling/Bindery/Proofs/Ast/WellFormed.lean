import Bindery.Proofs.Ast.Tree
import Mathlib.Logic.Relation

/-! What it takes for a unit to be without faults, told without any search: references stay in their
tables, the root is a translation unit, and of the child lists that the root leads to none holds the
root and all of them together hold every other cursor once. A fault that is found is a fault of the
unit. -/

set_option autoImplicit false

namespace Bindery.Ast

open CursorTree (preorderAll)
open Relation (ReflTransGen)

/-- A cursor in the child list of another, at its place in the list. -/
structure Entry where
  parent : CursorId
  index : Nat
  child : CursorId
  deriving DecidableEq, Repr

def Cursor.RefersTo (c : Cursor) (id : CursorId) : Prop :=
  c.semanticParent = some id ∨ c.lexicalParent = some id ∨ c.definition = some id ∨ id ∈ c.children

def Cursor.HasType (c : Cursor) (id : TypeId) : Prop := c.type = some id ∨ c.resultType = some id

def TypeDescriptor.RefersTo (t : TypeDescriptor) (id : TypeId) : Prop :=
  t.pointee = some id ∨ t.canonical = some id

namespace TranslationUnit

variable (u : TranslationUnit)

def HasCursor (id : CursorId) : Prop := id.index < u.cursors.size

def HasType (id : TypeId) : Prop := id.index < u.types.size

/-- Child lists lead from the root to a cursor. -/
def Reachable (id : CursorId) : Prop :=
  ReflTransGen (fun parent child => child ∈ u.childrenOf parent) u.root id

/-- An entry of a child list that the root leads to. -/
def Lists (entry : Entry) : Prop :=
  u.Reachable entry.parent ∧ (u.childrenOf entry.parent)[entry.index]? = some entry.child

structure WellFormed : Prop where
  root : ∃ c, u.cursor? u.root = some c ∧ c.kind = .translationUnit
  cursors : ∀ c ∈ u.cursors,
    (∀ id, c.RefersTo id → u.HasCursor id) ∧ ∀ id, c.HasType id → u.HasType id
  types : ∀ t ∈ u.types,
    (∀ id, t.RefersTo id → u.HasType id) ∧ ∀ id, t.declaration = some id → u.HasCursor id
  root_unlisted : ∀ id, u.Reachable id → u.root ∉ u.childrenOf id
  listed_once : ∀ id, u.Reachable id → id ≠ u.root → ∃! entry, u.Lists entry ∧ entry.child = id

/-- The reference to a cursor that a fault blames is where the fault says. -/
def CursorStands (id : CursorId) : Site → Prop
  | .root => id = u.root
  | .cursor index kind spelling =>
    ∃ c, u.cursors[index]? = some c ∧ c.kind = kind ∧ c.spelling = spelling ∧ c.RefersTo id
  | .type index spelling =>
    ∃ t, u.types[index]? = some t ∧ t.spelling = spelling ∧ t.declaration = some id

def TypeStands (id : TypeId) : Site → Prop
  | .root => False
  | .cursor index kind spelling =>
    ∃ c, u.cursors[index]? = some c ∧ c.kind = kind ∧ c.spelling = spelling ∧ c.HasType id
  | .type index spelling => ∃ t, u.types[index]? = some t ∧ t.spelling = spelling ∧ t.RefersTo id

/-- What a fault says of a unit. -/
def Exhibits : Fault → Prop
  | .danglingCursor id site => u.cursors.size ≤ id.index ∧ u.CursorStands id site
  | .danglingType id site => u.types.size ≤ id.index ∧ u.TypeStands id site
  | .badRoot id kind =>
    id = u.root ∧ kind ≠ .translationUnit ∧ ∃ c, u.cursor? id = some c ∧ c.kind = kind
  | .cyclicCursor id parent =>
    ∃ entry, u.Lists entry ∧ entry.parent = parent ∧ entry.child = id ∧
      (id = u.root ∨ ∃ other, u.Lists other ∧ other ≠ entry ∧ other.child = id)

def entriesOf (id : CursorId) : List Entry :=
  (u.childrenOf id).zipIdx.map fun place => ⟨id, place.2, place.1⟩

variable {u}

/-! ## Links -/

theorem mem_linkedCursors_iff {c : Cursor} {id : CursorId} :
    id ∈ c.linkedCursors ↔ c.RefersTo id := by
  simp [Cursor.linkedCursors, Cursor.RefersTo]

theorem mem_cursor_linkedTypes_iff {c : Cursor} {id : TypeId} :
    id ∈ c.linkedTypes ↔ c.HasType id := by
  simp [Cursor.linkedTypes, Cursor.HasType]

theorem mem_type_linkedTypes_iff {t : TypeDescriptor} {id : TypeId} :
    id ∈ t.linkedTypes ↔ t.RefersTo id := by
  simp [TypeDescriptor.linkedTypes, TypeDescriptor.RefersTo]

theorem danglingCursor?_eq_some_iff {site : Site} {id : CursorId} {fault : Fault} :
    u.danglingCursor? site id = some fault ↔
      u.cursors.size ≤ id.index ∧ fault = .danglingCursor id site := by
  unfold danglingCursor?
  split
  · next inside => simp [Nat.not_le_of_lt inside]
  · next outside => simp [Nat.le_of_not_lt outside, eq_comm]

theorem danglingType?_eq_some_iff {site : Site} {id : TypeId} {fault : Fault} :
    u.danglingType? site id = some fault ↔
      u.types.size ≤ id.index ∧ fault = .danglingType id site := by
  unfold danglingType?
  split
  · next inside => simp [Nat.not_le_of_lt inside]
  · next outside => simp [Nat.le_of_not_lt outside, eq_comm]

theorem danglingCursor?_eq_none_iff {site : Site} {id : CursorId} :
    u.danglingCursor? site id = none ↔ u.HasCursor id := by
  simp [danglingCursor?, HasCursor]

theorem danglingType?_eq_none_iff {site : Site} {id : TypeId} :
    u.danglingType? site id = none ↔ u.HasType id := by
  simp [danglingType?, HasType]

theorem cursorFault?_eq_none_iff {c : Cursor} {index : Nat} :
    u.cursorFault? (c, index) = none ↔
      (∀ id, c.RefersTo id → u.HasCursor id) ∧ ∀ id, c.HasType id → u.HasType id := by
  simp only [cursorFault?, Option.orElse_eq_orElse, Option.orElse_eq_or, Option.or_eq_none_iff,
    List.findSome?_eq_none_iff, danglingCursor?_eq_none_iff, danglingType?_eq_none_iff,
    mem_linkedCursors_iff, mem_cursor_linkedTypes_iff]

theorem typeFault?_eq_none_iff {t : TypeDescriptor} {index : Nat} :
    u.typeFault? (t, index) = none ↔
      (∀ id, t.RefersTo id → u.HasType id) ∧ ∀ id, t.declaration = some id → u.HasCursor id := by
  simp only [typeFault?, Option.orElse_eq_orElse, Option.orElse_eq_or, Option.or_eq_none_iff,
    List.findSome?_eq_none_iff, Option.bind_eq_none_iff, danglingCursor?_eq_none_iff,
    danglingType?_eq_none_iff, mem_type_linkedTypes_iff]

theorem exhibits_of_rootFault? {fault : Fault} (found : u.rootFault? = some fault) :
    u.Exhibits fault := by
  unfold rootFault? at found
  cases known : u.cursor? u.root with
  | none =>
    rw [known] at found
    cases found
    exact ⟨Array.getElem?_eq_none_iff.mp known, rfl⟩
  | some c =>
    simp only [known] at found
    split at found
    · cases found
    · next other =>
      cases found
      exact ⟨rfl, other, c, known, rfl⟩

theorem exhibits_of_cursorFault? {c : Cursor} {index : Nat} {fault : Fault}
    (entry : (c, index) ∈ u.cursors.toList.zipIdx) (found : u.cursorFault? (c, index) = some fault) :
    u.Exhibits fault := by
  have known : u.cursors[index]? = some c := by
    rw [← Array.getElem?_toList]
    exact List.mem_zipIdx_iff_getElem?.mp entry
  simp only [cursorFault?, Option.orElse_eq_orElse, Option.orElse_eq_or, Option.or_eq_some_iff]
    at found
  rcases found with dangling | ⟨_, dangling⟩
  · obtain ⟨id, linked, blamed⟩ := List.exists_of_findSome?_eq_some dangling
    obtain ⟨outside, rfl⟩ := danglingCursor?_eq_some_iff.mp blamed
    exact ⟨outside, c, known, rfl, rfl, mem_linkedCursors_iff.mp linked⟩
  · obtain ⟨id, linked, blamed⟩ := List.exists_of_findSome?_eq_some dangling
    obtain ⟨outside, rfl⟩ := danglingType?_eq_some_iff.mp blamed
    exact ⟨outside, c, known, rfl, rfl, mem_cursor_linkedTypes_iff.mp linked⟩

theorem exhibits_of_typeFault? {t : TypeDescriptor} {index : Nat} {fault : Fault}
    (entry : (t, index) ∈ u.types.toList.zipIdx) (found : u.typeFault? (t, index) = some fault) :
    u.Exhibits fault := by
  have known : u.types[index]? = some t := by
    rw [← Array.getElem?_toList]
    exact List.mem_zipIdx_iff_getElem?.mp entry
  simp only [typeFault?, Option.orElse_eq_orElse, Option.orElse_eq_or, Option.or_eq_some_iff]
    at found
  rcases found with dangling | ⟨_, dangling⟩
  · obtain ⟨id, linked, blamed⟩ := List.exists_of_findSome?_eq_some dangling
    obtain ⟨outside, rfl⟩ := danglingType?_eq_some_iff.mp blamed
    exact ⟨outside, t, known, rfl, mem_type_linkedTypes_iff.mp linked⟩
  · obtain ⟨id, declared, blamed⟩ := Option.bind_eq_some_iff.mp dangling
    obtain ⟨outside, rfl⟩ := danglingCursor?_eq_some_iff.mp blamed
    exact ⟨outside, t, known, rfl, declared⟩

/-! ## A cursor met again -/

theorem mem_entriesOf_iff {id : CursorId} {entry : Entry} :
    entry ∈ u.entriesOf id ↔
      entry.parent = id ∧ (u.childrenOf id)[entry.index]? = some entry.child := by
  obtain ⟨parent, index, child⟩ := entry
  simp [entriesOf, List.mem_map, Prod.exists, List.mem_zipIdx_iff_getElem?]
  tauto

theorem map_child_entriesOf (id : CursorId) : (u.entriesOf id).map Entry.child = u.childrenOf id := by
  rw [entriesOf, List.map_map]
  exact List.zipIdx_map_fst 0 (u.childrenOf id)

theorem nodup_entriesOf (id : CursorId) : (u.entriesOf id).Nodup := by
  have places : ((u.entriesOf id).map Entry.index).Nodup := by
    rw [entriesOf, List.map_map]
    exact List.zipIdx_map_snd 0 (u.childrenOf id) ▸ List.nodup_range'
  exact places.of_map Entry.index

-- What a search puts in front when it sees a cursor.
theorem map_reverse_entriesOf (id : CursorId) :
    (u.entriesOf id).reverse.map (fun entry => (entry.child, entry.parent)) =
      (u.childrenOf id).reverse.map fun child => (child, id) := by
  rw [← map_child_entriesOf, ← List.map_reverse, List.map_map]
  apply List.map_congr_left
  intro entry member
  exact congrArg _ (mem_entriesOf_iff.mp (List.mem_reverse.mp member)).1

/-- What a search has seen, the entries that led there and those that are waiting. -/
structure Searching (u : TranslationUnit) (seen : List CursorId) (met waiting : List Entry) :
    Prop where
  reachable : ∀ id ∈ seen, u.Reachable id
  lists : ∀ entry ∈ met ++ waiting, u.Lists entry
  below : ∀ entry ∈ met ++ waiting, entry.parent ∈ seen
  distinct : (met ++ waiting).Nodup
  origin : ∀ id ∈ seen, id = u.root ∨ ∃ entry ∈ met, entry.child = id

namespace Searching

variable {seen : List CursorId} {met waiting : List Entry} {entry : Entry}

-- The entries of a cursor that has not been seen are all new.
theorem visit (searching : Searching u seen met (entry :: waiting)) (unseen : entry.child ∉ seen) :
    Searching u (entry.child :: seen) (entry :: met)
      ((u.entriesOf entry.child).reverse ++ waiting) := by
  have listed := searching.lists entry (by simp)
  have reachable : u.Reachable entry.child := listed.1.tail (List.mem_of_getElem? listed.2)
  have moved : ((entry :: met) ++ ((u.entriesOf entry.child).reverse ++ waiting)).Perm
      (u.entriesOf entry.child ++ (met ++ entry :: waiting)) :=
    (((List.reverse_perm _).append_right waiting).append_left (entry :: met)).trans
      ((List.perm_append_comm_assoc _ _ _).trans (List.perm_middle.symm.append_left _))
  have either {other : Entry}
      (member : other ∈ (entry :: met) ++ ((u.entriesOf entry.child).reverse ++ waiting)) :
      other ∈ u.entriesOf entry.child ∨ other ∈ met ++ entry :: waiting :=
    List.mem_append.mp (moved.mem_iff.mp member)
  refine ⟨?_, ?_, ?_, ?_, ?_⟩
  · intro id member
    rcases List.mem_cons.mp member with rfl | earlier
    · exact reachable
    · exact searching.reachable id earlier
  · intro other member
    rcases either member with new | old
    · obtain ⟨here, stands⟩ := mem_entriesOf_iff.mp new
      rw [← here] at reachable stands
      exact ⟨reachable, stands⟩
    · exact searching.lists other old
  · intro other member
    rcases either member with new | old
    · rw [(mem_entriesOf_iff.mp new).1]
      exact List.mem_cons_self
    · exact List.mem_cons_of_mem _ (searching.below other old)
  · refine moved.nodup_iff.mpr
      (List.nodup_append.mpr ⟨nodup_entriesOf _, searching.distinct, ?_⟩)
    rintro other new _ old rfl
    have seenParent := searching.below other old
    rw [(mem_entriesOf_iff.mp new).1] at seenParent
    exact unseen seenParent
  · intro id member
    rcases List.mem_cons.mp member with rfl | earlier
    · exact .inr ⟨entry, List.mem_cons_self, rfl⟩
    · exact (searching.origin id earlier).imp_right fun ⟨other, inside, same⟩ =>
        ⟨other, List.mem_cons_of_mem entry inside, same⟩

-- The entry that leads to a cursor again is another than the one that led there first.
theorem exhibits_cyclic (searching : Searching u seen met (entry :: waiting))
    (again : entry.child ∈ seen) : u.Exhibits (.cyclicCursor entry.child entry.parent) := by
  refine ⟨entry, searching.lists entry (by simp), rfl, rfl, ?_⟩
  refine (searching.origin entry.child again).imp_right fun ⟨other, inside, same⟩ => ?_
  refine ⟨other, searching.lists other (List.mem_append_left _ inside), ?_, same⟩
  rintro rfl
  exact (List.nodup_append.mp searching.distinct).2.2 other inside other List.mem_cons_self rfl

theorem exhibits (searching : Searching u seen met waiting) {bound : Nat} {fault : Fault}
    (found : u.repeatedChild? bound seen (waiting.map fun entry => (entry.child, entry.parent)) =
      some fault) : u.Exhibits fault := by
  induction bound generalizing seen met waiting with
  | zero => cases found
  | succ bound ih =>
    cases waiting with
    | nil => cases found
    | cons entry waiting =>
      rw [List.map_cons, repeatedChild?] at found
      split at found
      · next again =>
        cases found
        exact searching.exhibits_cyclic again
      · next unseen =>
        refine ih (searching.visit unseen) ?_
        rw [List.map_append, map_reverse_entriesOf]
        exact found

end Searching

theorem exhibits_of_treeFault? {fault : Fault} (found : u.treeFault? = some fault) :
    u.Exhibits fault := by
  -- The root is seen first, and only what it lists is met through an entry.
  rw [treeFault?, repeatedChild?, if_neg List.not_mem_nil, List.append_nil] at found
  have root : u.Reachable u.root := .refl
  have start : Searching u [u.root] [] (u.entriesOf u.root).reverse := by
    refine ⟨?_, ?_, ?_, ?_, ?_⟩
    · simpa using root
    · intro entry member
      obtain ⟨here, stands⟩ := mem_entriesOf_iff.mp (by simpa using member)
      rw [← here] at root stands
      exact ⟨root, stands⟩
    · intro entry member
      exact List.mem_singleton.mpr (mem_entriesOf_iff.mp (by simpa using member)).1
    · simpa using nodup_entriesOf u.root
    · exact fun id member => .inl (List.mem_singleton.mp member)
  rw [← map_reverse_entriesOf] at found
  exact start.exhibits found

/-- A fault that is found is a fault of the unit. -/
theorem exhibits_of_firstFault? {fault : Fault} (found : u.firstFault? = some fault) :
    u.Exhibits fault := by
  simp only [firstFault?, Option.orElse_eq_orElse, Option.orElse_eq_or, Option.or_eq_some_iff]
    at found
  rcases found with root | ⟨_, cursor | ⟨_, type | ⟨_, tree⟩⟩⟩
  · exact exhibits_of_rootFault? root
  · obtain ⟨⟨c, index⟩, entry, blamed⟩ := List.exists_of_findSome?_eq_some cursor
    exact exhibits_of_cursorFault? entry blamed
  · obtain ⟨⟨t, index⟩, entry, blamed⟩ := List.exists_of_findSome?_eq_some type
    exact exhibits_of_typeFault? entry blamed
  · exact exhibits_of_treeFault? tree

/-! ## Units without faults -/

theorem WellFormed.not_exhibits (wellFormed : u.WellFormed) (fault : Fault) :
    ¬ u.Exhibits fault := by
  have cursor {index : Nat} {c : Cursor} (known : u.cursors[index]? = some c) :=
    wellFormed.cursors c (Array.mem_of_getElem? known)
  have type {index : Nat} {t : TypeDescriptor} (known : u.types[index]? = some t) :=
    wellFormed.types t (Array.mem_of_getElem? known)
  cases fault with
  | danglingCursor id site =>
    rintro ⟨outside, stands⟩
    have inside : u.HasCursor id := by
      cases site with
      | root =>
        obtain ⟨c, known, _⟩ := wellFormed.root
        have same : id = u.root := stands
        exact same ▸ index_lt_of_cursor? known
      | cursor =>
        obtain ⟨c, known, _, _, refers⟩ := stands
        exact (cursor known).1 id refers
      | type =>
        obtain ⟨t, known, _, declared⟩ := stands
        exact (type known).2 id declared
    exact absurd inside (Nat.not_lt_of_le outside)
  | danglingType id site =>
    rintro ⟨outside, stands⟩
    have inside : u.HasType id := by
      cases site with
      | root => exact stands.elim
      | cursor =>
        obtain ⟨c, known, _, _, has⟩ := stands
        exact (cursor known).2 id has
      | type =>
        obtain ⟨t, known, _, refers⟩ := stands
        exact (type known).1 id refers
    exact absurd inside (Nat.not_lt_of_le outside)
  | badRoot id kind =>
    rintro ⟨rfl, other, c, known, rfl⟩
    obtain ⟨root, known', kind⟩ := wellFormed.root
    cases known.symm.trans known'
    exact other kind
  | cyclicCursor id parent =>
    rintro ⟨entry, lists, rfl, rfl, again⟩
    have listed := List.mem_of_getElem? lists.2
    have apart : entry.child ≠ u.root := fun same =>
      wellFormed.root_unlisted entry.parent lists.1 (same ▸ listed)
    rcases again with root | ⟨other, lists', differs, same⟩
    · exact apart root
    · have once := wellFormed.listed_once entry.child (lists.1.tail listed) apart
      exact differs (once.unique ⟨lists', same⟩ ⟨lists, rfl⟩)

/-- All the child lists of a tree together hold what stands below its top, each cursor as often as it
stands there. -/
theorem flatMap_childrenOf_perm {tree : CursorTree} (spans : Spans u tree) :
    (tree.preorder.flatMap u.childrenOf).Perm (preorderAll tree.children) := by
  induction spans with
  | @node id children listed _ ih =>
    have below : ((children.flatMap CursorTree.preorder).flatMap u.childrenOf).Perm
        (children.flatMap fun tree => preorderAll tree.children) := by
      rw [List.flatMap_assoc]
      exact List.Perm.flatMap_left children ih
    have tops : children.flatMap CursorTree.preorder =
        children.flatMap fun tree => tree.id :: preorderAll tree.children :=
      List.flatMap_congr fun tree _ => tree.preorder_eq
    rw [CursorTree.preorder, List.flatMap_cons, ← listed, CursorTree.children,
      CursorTree.preorderAll_eq_flatMap children]
    refine (below.append_left _).trans ?_
    rw [tops]
    exact List.map_append_flatMap_perm children _ _

theorem mem_preorder_of_reachable {tree : CursorTree} (spans : Spans u tree)
    (root : tree.id = u.root) {id : CursorId} (reachable : u.Reachable id) : id ∈ tree.preorder := by
  induction reachable with
  | refl =>
    rw [← root, CursorTree.preorder_eq]
    exact List.mem_cons_self
  | @tail parent child _ listed ih =>
    have inside : child ∈ tree.preorder.flatMap u.childrenOf :=
      List.mem_flatMap.mpr ⟨parent, ih, listed⟩
    rw [CursorTree.preorder_eq]
    exact List.mem_cons_of_mem _ ((flatMap_childrenOf_perm spans).mem_iff.mp inside)

theorem reachable_of_mem_preorder {tree : CursorTree} (spans : Spans u tree) {id : CursorId}
    (top : u.Reachable tree.id) (member : id ∈ tree.preorder) : u.Reachable id := by
  induction spans with
  | @node here children listed _ ih =>
    rcases List.mem_cons.mp member with rfl | below
    · exact top
    · rw [CursorTree.preorderAll_eq_flatMap] at below
      obtain ⟨tree, inside, further⟩ := List.mem_flatMap.mp below
      have child : tree.id ∈ u.childrenOf here := listed ▸ List.mem_map_of_mem inside
      exact ih tree inside (top.tail child) further

theorem wellFormed_of_valid (valid : u.firstFault? = none) : u.WellFormed := by
  obtain ⟨_, cursorFaults, typeFaults, _⟩ := firstFault?_eq_none_iff.mp valid
  obtain ⟨spans, top, distinct⟩ := tree_of_valid valid
  have lists := flatMap_childrenOf_perm spans
  rw [CursorTree.preorder_eq, List.nodup_cons, top] at distinct
  have listed {entry : Entry} (stands : u.Lists entry) :
      entry ∈ u.tree.preorder.flatMap u.entriesOf :=
    List.mem_flatMap.mpr ⟨entry.parent, mem_preorder_of_reachable spans top stands.1,
      mem_entriesOf_iff.mpr ⟨rfl, stands.2⟩⟩
  have once : ((u.tree.preorder.flatMap u.entriesOf).map Entry.child).Nodup := by
    simp only [List.map_flatMap, map_child_entriesOf]
    exact lists.nodup_iff.mpr distinct.2
  refine ⟨kind_root_of_valid valid, ?_, ?_, ?_, ?_⟩
  · intro c member
    obtain ⟨index, known⟩ := Array.mem_iff_getElem?.mp member
    have entry : (c, index) ∈ u.cursors.toList.zipIdx :=
      List.mem_zipIdx_iff_getElem?.mpr (Array.getElem?_toList.trans known)
    exact cursorFault?_eq_none_iff.mp (List.findSome?_eq_none_iff.mp cursorFaults _ entry)
  · intro t member
    obtain ⟨index, known⟩ := Array.mem_iff_getElem?.mp member
    have entry : (t, index) ∈ u.types.toList.zipIdx :=
      List.mem_zipIdx_iff_getElem?.mpr (Array.getElem?_toList.trans known)
    exact typeFault?_eq_none_iff.mp (List.findSome?_eq_none_iff.mp typeFaults _ entry)
  · intro id reachable member
    have inside := mem_preorder_of_reachable spans top reachable
    exact distinct.1 (lists.mem_iff.mp (List.mem_flatMap.mpr ⟨id, inside, member⟩))
  · intro id reachable apart
    have inside := mem_preorder_of_reachable spans top reachable
    rw [CursorTree.preorder_eq, List.mem_cons, top] at inside
    have below := lists.mem_iff.mpr (inside.resolve_left apart)
    obtain ⟨parent, above, member⟩ := List.mem_flatMap.mp below
    obtain ⟨index, stands⟩ := List.mem_iff_getElem?.mp member
    have reached : u.Reachable parent :=
      reachable_of_mem_preorder spans (top ▸ .refl) above
    refine ⟨⟨parent, index, id⟩, ⟨⟨reached, stands⟩, rfl⟩, ?_⟩
    rintro other ⟨lists', same⟩
    exact List.inj_on_of_nodup_map once (listed lists') (listed ⟨reached, stands⟩) same

/-- A unit passes the check if and only if it is well formed, and the fault found in any other unit is
one that the unit has. -/
theorem firstFault?_decides (u : TranslationUnit) :
    (u.firstFault? = none ↔ u.WellFormed) ∧
      ∀ fault, u.firstFault? = some fault → u.Exhibits fault := by
  refine ⟨⟨wellFormed_of_valid, fun wellFormed => ?_⟩, fun _ => exhibits_of_firstFault?⟩
  cases found : u.firstFault? with
  | none => rfl
  | some fault => exact absurd (exhibits_of_firstFault? found) (wellFormed.not_exhibits fault)

/-- The root lists a namespace that lists another one twice, which lists the first. A union that nothing
lists may list what it likes. -/
def loop : TranslationUnit where
  path := "loop.h"
  root := ⟨0⟩
  cursors := #[
    { kind := .translationUnit, children := [⟨1⟩] },
    { kind := .namespaceDecl, spelling := "outer", children := [⟨2⟩, ⟨2⟩] },
    { kind := .namespaceDecl, spelling := "inner", children := [⟨1⟩] },
    { kind := .unionDecl, spelling := "stray", children := [⟨0⟩, ⟨0⟩, ⟨3⟩] }]

/-- The list that leads back to the first namespace is blamed before the one that repeats the
second. -/
theorem firstFault?_decides_loop :
    loop.firstFault? = some (.cyclicCursor ⟨1⟩ ⟨2⟩) ∧ loop.Exhibits (.cyclicCursor ⟨1⟩ ⟨2⟩) ∧
      ¬ loop.WellFormed := by
  have found : loop.firstFault? = some (.cyclicCursor ⟨1⟩ ⟨2⟩) := by decide +kernel
  obtain ⟨decides, exhibited⟩ := firstFault?_decides loop
  refine ⟨found, exhibited _ found, fun wellFormed => ?_⟩
  rw [decides.mpr wellFormed] at found
  cases found

end TranslationUnit

end Bindery.Ast
