import Bindery.Ast.Tree
import Bindery.Ast.WellFormed
import Mathlib.Data.List.Nodup
import Mathlib.Data.List.Perm.Subperm

/-! The child lists of a unit without faults form a tree. The search that looks for a cursor listed
twice goes through all that the root leads to, and where it finds none the trees it went through are
the tree below the root, with nothing cut and no cursor twice. -/

set_option autoImplicit false

namespace Bindery.Ast

/-- Every cursor of a tree stands above the cursors that it lists, in their order. -/
inductive Spans (u : TranslationUnit) : CursorTree → Prop
  | node {id : CursorId} {children : List CursorTree}
    (listed : children.map CursorTree.id = u.childrenOf id)
    (below : ∀ tree ∈ children, Spans u tree) : Spans u (.node id children)

namespace CursorTree

theorem preorder_eq (tree : CursorTree) : tree.preorder = tree.id :: preorderAll tree.children := by
  cases tree
  rfl

theorem preorderAll_eq_flatMap (trees : List CursorTree) :
    preorderAll trees = trees.flatMap preorder := by
  induction trees with
  | nil => rfl
  | cons tree rest ih => rw [preorderAll, ih, List.flatMap_cons]

theorem preorderAll_append (front back : List CursorTree) :
    preorderAll (front ++ back) = preorderAll front ++ preorderAll back := by
  simp only [preorderAll_eq_flatMap, List.flatMap_append]

theorem preorderAll_reverse_perm (trees : List CursorTree) :
    (preorderAll trees.reverse).Perm (preorderAll trees) := by
  simp only [preorderAll_eq_flatMap]
  exact (List.reverse_perm trees).flatMap_right preorder

theorem length_preorder_le {tree : CursorTree} {trees : List CursorTree} (member : tree ∈ trees) :
    tree.preorder.length ≤ (preorderAll trees).length := by
  obtain ⟨front, back, rfl⟩ := List.append_of_mem member
  simp only [preorderAll_append, preorderAll, List.length_append]
  omega

theorem length_preorder_pos (tree : CursorTree) : 0 < tree.preorder.length := by
  simp [preorder_eq]

end CursorTree

namespace TranslationUnit

open CursorTree (preorderAll)

variable {u : TranslationUnit}

/-! ## References stay in their tables -/

theorem firstFault?_eq_none_iff :
    u.firstFault? = none ↔ u.rootFault? = none ∧
      u.cursors.toList.zipIdx.findSome? u.cursorFault? = none ∧
      u.types.toList.zipIdx.findSome? u.typeFault? = none ∧ u.treeFault? = none := by
  simp [firstFault?]

theorem kind_root_of_valid (valid : u.firstFault? = none) :
    ∃ c, u.cursor? u.root = some c ∧ c.kind = .translationUnit := by
  have rootFault := (firstFault?_eq_none_iff.mp valid).1
  unfold rootFault? at rootFault
  cases known : u.cursor? u.root with
  | none => simp [known] at rootFault
  | some c => exact ⟨c, rfl, by simpa [known] using rootFault⟩

theorem index_lt_of_cursor? {id : CursorId} {c : Cursor} (known : u.cursor? id = some c) :
    id.index < u.cursors.size := by
  by_contra outside
  rw [cursor?, Array.getElem?_eq_none (Nat.le_of_not_lt outside)] at known
  cases known

theorem index_lt_of_mem_childrenOf (valid : u.firstFault? = none) {id child : CursorId}
    (member : child ∈ u.childrenOf id) : child.index < u.cursors.size := by
  unfold childrenOf at member
  cases known : u.cursor? id with
  | none => simp [known] at member
  | some c =>
    have entry : (c, id.index) ∈ u.cursors.toList.zipIdx := by
      rw [List.mem_zipIdx_iff_getElem?, Array.getElem?_toList]
      exact known
    have faultless := List.findSome?_eq_none_iff.mp (firstFault?_eq_none_iff.mp valid).2.1 _ entry
    simp only [cursorFault?, Option.orElse_eq_orElse, Option.orElse_eq_or, Option.or_eq_none_iff]
      at faultless
    have linked : child ∈ c.linkedCursors := by
      simp only [known, Option.map_some, Option.getD_some] at member
      exact List.mem_append_right _ member
    have inside := List.findSome?_eq_none_iff.mp faultless.1 child linked
    by_contra outside
    simp [danglingCursor?, outside] at inside

/-! ## The search for a cursor listed twice -/

theorem index_injective : Function.Injective CursorId.index := by
  intro first second same
  cases first
  cases second
  exact congrArg CursorId.mk (UInt32.toNat_inj.mp same)

-- Cursors of the table that do not repeat are no more than its size.
theorem length_le_size_of_nodup {ids : List CursorId} (distinct : ids.Nodup)
    (inside : ∀ id ∈ ids, id.index < u.cursors.size) : ids.length ≤ u.cursors.size := by
  have indices : (ids.map CursorId.index).Nodup := List.Nodup.map index_injective distinct
  have fits : ids.map CursorId.index ⊆ List.range u.cursors.size := by
    intro index member
    obtain ⟨id, present, rfl⟩ := List.mem_map.mp member
    exact List.mem_range.mpr (inside id present)
  simpa using (indices.subperm fits).length_le

/-- A search that finds nothing twice goes through a forest, and through nothing it has seen. -/
theorem exists_forest
    (children : ∀ id child, child ∈ u.childrenOf id → child.index < u.cursors.size) {bound : Nat}
    {seen : List CursorId} {pending : List (CursorId × CursorId)}
    (silent : u.repeatedChild? bound seen pending = none) (distinct : seen.Nodup)
    (known : ∀ id ∈ seen, id.index < u.cursors.size)
    (waiting : ∀ entry ∈ pending, entry.1.index < u.cursors.size)
    (enough : u.cursors.size < bound + seen.length) :
    ∃ forest : List CursorTree, forest.map CursorTree.id = pending.map Prod.fst ∧
      (∀ tree ∈ forest, Spans u tree) ∧ (preorderAll forest).Nodup ∧
      ∀ id ∈ preorderAll forest, id ∉ seen ∧ id.index < u.cursors.size := by
  induction bound generalizing seen pending with
  | zero =>
    have few := length_le_size_of_nodup distinct known
    omega
  | succ bound ih =>
    match pending, waiting with
    | [], _ => exact ⟨[], rfl, nofun, List.nodup_nil, nofun⟩
    | (id, parent) :: pending, waiting =>
      unfold repeatedChild? at silent
      split at silent
      · cases silent
      · next unseen =>
        have here : id.index < u.cursors.size := waiting _ List.mem_cons_self
        obtain ⟨forest, ids, spans, apart, fresh⟩ := ih silent (List.nodup_cons.mpr ⟨unseen, distinct⟩)
          (by simpa [here] using known)
          (by
            intro entry member
            rcases List.mem_append.mp member with child | later
            · obtain ⟨listed, inside, rfl⟩ := List.mem_map.mp child
              exact children id listed (List.mem_reverse.mp inside)
            · exact waiting entry (List.mem_cons_of_mem _ later))
          (by rw [List.length_cons]; omega)
        -- The first of the forest stand below the cursor just seen, in opposite order.
        rw [List.map_append, List.map_map] at ids
        obtain ⟨front, back, rfl, below, rest⟩ := List.map_eq_append_iff.mp ids
        have listed : front.reverse.map CursorTree.id = u.childrenOf id := by
          rw [List.map_reverse, below]
          simp [Function.comp_def]
        have whole : (preorderAll (.node id front.reverse :: back)).Perm
            (id :: preorderAll (front ++ back)) := by
          rw [preorderAll, CursorTree.preorder, CursorTree.preorderAll_append, List.cons_append]
          exact ((CursorTree.preorderAll_reverse_perm front).append_right _).cons id
        refine ⟨.node id front.reverse :: back, ?_, ?_, ?_, ?_⟩
        · rw [List.map_cons, List.map_cons, rest]
          rfl
        · intro tree member
          rcases List.mem_cons.mp member with rfl | later
          · exact .node listed fun tree inside =>
              spans tree (List.mem_append_left back (List.mem_reverse.mp inside))
          · exact spans tree (List.mem_append_right front later)
        · refine whole.nodup_iff.mpr (List.nodup_cons.mpr ⟨fun again => ?_, apart⟩)
          exact (fresh id again).1 List.mem_cons_self
        · intro other member
          rcases List.mem_cons.mp (whole.mem_iff.mp member) with rfl | inside
          · exact ⟨unseen, here⟩
          · exact ⟨fun old => (fresh other inside).1 (List.mem_cons_of_mem id old),
              (fresh other inside).2⟩

/-! ## Nothing is cut -/

theorem treeBelow_eq {tree : CursorTree} (spans : Spans u tree) {depth : Nat}
    (deep : tree.preorder.length ≤ depth + 1) : u.treeBelow depth tree.id = tree := by
  induction depth generalizing tree with
  | zero =>
    obtain ⟨listed, below⟩ := spans
    next id children =>
    cases children with
    | nil => rfl
    | cons child rest =>
      have positive := child.length_preorder_pos
      simp only [CursorTree.preorder, preorderAll, List.length_cons, List.length_append] at deep
      omega
  | succ depth ih =>
    obtain ⟨listed, below⟩ := spans
    next id children =>
    have trees : children.map (fun tree => u.treeBelow depth tree.id) = children := by
      refine (List.map_congr_left fun tree member => ?_).trans (List.map_id children)
      have short := CursorTree.length_preorder_le member
      rw [CursorTree.preorder, List.length_cons] at deep
      exact ih (below tree member) (by omega)
    have same : (u.childrenOf id).map (u.treeBelow depth) = children := by
      rw [← listed, List.map_map]
      exact trees
    exact congrArg (CursorTree.node id) same

/-- In a unit without faults the tree below the root is all that the root leads to, and it holds no
cursor twice. -/
theorem tree_of_valid (valid : u.firstFault? = none) :
    Spans u u.tree ∧ u.tree.id = u.root ∧ u.tree.preorder.Nodup := by
  obtain ⟨c, known, _⟩ := kind_root_of_valid valid
  obtain ⟨forest, ids, spans, distinct, fresh⟩ := exists_forest
    (fun id child => index_lt_of_mem_childrenOf valid) (firstFault?_eq_none_iff.mp valid).2.2.2
    List.nodup_nil nofun (by simpa using index_lt_of_cursor? known) (by simp)
  obtain ⟨tree, rfl, root⟩ := List.map_eq_singleton_iff.mp ids
  rw [preorderAll, preorderAll, List.append_nil] at distinct fresh
  have spanning := spans tree List.mem_cons_self
  have few := length_le_size_of_nodup distinct fun id member => (fresh id member).2
  have whole : u.tree = tree := by
    have cut := treeBelow_eq spanning (Nat.le_add_right_of_le few)
    rwa [root] at cut
  rw [whole]
  exact ⟨spanning, root, distinct⟩

end TranslationUnit

end Bindery.Ast
