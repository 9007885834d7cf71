import Bindery.Proofs.Offer
import Bindery.Proofs.Refusal

/-! Where a build stands among its offers. When it comes to a tree it has offered what stands before the
tree in the order of the unit, the way down to the tree among it. What it goes on with behind the tree
is offered on that way, or below an item yet to come. -/

set_option autoImplicit false

namespace Bindery

open Ast (CursorId CursorTree Spans TranslationUnit)

variable {u : TranslationUnit} {f : Factory}

theorem Ast.TranslationUnit.Leads.snoc {a b last : CursorId} {way : List CursorId}
    (leads : u.Leads a way b) (listed : last ∈ u.childrenOf b) : u.Leads a (way ++ [b]) last := by
  induction leads with
  | here => exact .down listed .here
  | down first _ ih => exact .down first (ih listed)

namespace Draft

variable {d : Draft} {container : NodeId} {way : List NodeId} {tree : CursorTree}
  {trees rest : List CursorTree} {earlier later : List Offer}

/-- A build that has trees ahead has made some offers, and others come after those of the trees. -/
structure Standing (u : TranslationUnit) (f : Factory) (container : NodeId) (way : List NodeId)
    (trees : List CursorTree) (d : Draft) (earlier later : List Offer) : Prop where
  begun : Hands u f (opening u f) earlier d
  offers : buildOffers u f = earlier ++ offersAll u f container way trees d ++ later
  inside : container ∈ way
  spans : ∀ tree ∈ trees, Spans u tree
  /-- The way down has been offered, and its cursors lead to the trees. -/
  above : ∀ item ∈ way, item = Model.root ∨ ∃ offer ∈ earlier, offer.item = item ∧
    ∀ tree ∈ trees, ∃ path, path ≠ [] ∧ u.Leads offer.id path tree.id
  behind : ∀ offer ∈ later, offer.container ∈ way ∨ offer.container ∈ later.map Offer.item
  unmet : ∃ before after, CursorTree.preorderAll u.tree.children =
    before ++ CursorTree.preorderAll trees ++ after ∧ (earlier.map Offer.id).Sublist before

theorem Ahead.exists_standing (valid : u.firstFault? = none)
    (ahead : Ahead u f container way trees d) :
    ∃ earlier later, Standing u f container way trees d earlier later := by
  induction ahead with
  | root =>
    refine ⟨[], [], .done, by simp [buildOffers], List.mem_cons_self, ?_, ?_, List.forall_mem_nil _,
      [], [], by simp, List.nil_sublist _⟩
    · obtain ⟨spans, _⟩ := Ast.TranslationUnit.tree_of_valid valid
      cases whole : u.tree with
      | node id children =>
        rw [whole] at spans
        cases spans with
        | node _ below => exact below
    · exact fun item only => .inl (List.mem_singleton.mp only)
  | @next container way tree rest d ahead ih =>
    obtain ⟨earlier, later, begun, offers, inside, spans, above, behind, before, after, order, met⟩ :=
      ih
    obtain ⟨_, _, stage, within, _⟩ := ahead.exists_stage
    have onward : Hands u f d _ _ :=
      hands_offers tree container way d stage.fresh stage.indexed within
    refine ⟨earlier ++ Draft.offers u f container way tree d, later, begun.append onward, ?_, inside,
      fun other member => spans other (List.mem_cons_of_mem tree member), ?_, behind,
      before ++ tree.preorder, after, ?_, ?_⟩
    · rw [offers, offersAll]
      simp only [List.append_assoc]
    · intro item member
      refine (above item member).imp_right ?_
      rintro ⟨offer, present, same, leads⟩
      exact ⟨offer, List.mem_append_left _ present, same,
        fun other listed => leads other (List.mem_cons_of_mem tree listed)⟩
    · rw [order, CursorTree.preorderAll]
      simp only [List.append_assoc]
    · rw [List.map_append]
      exact met.append (offers_sublist tree container way d)
  | @down container item way id c children rest d entered ahead cursor found clear ih =>
    obtain ⟨earlier, later, begun, offers, inside, spans, above, behind, before, after, order, met⟩ :=
      ih
    obtain ⟨_, _, stage, within, _⟩ := ahead.exists_stage
    have calls : CallsAt u f d container id c item entered :=
      ⟨stage.fresh, stage.indexed, within, cursor, enters_of_enter? found⟩
    have tree : Spans u (.node id children) := spans _ List.mem_cons_self
    obtain ⟨listed, below⟩ := tree
    have child {tree : CursorTree} (member : tree ∈ children) : tree.id ∈ u.childrenOf id :=
      listed ▸ List.mem_map_of_mem member
    refine ⟨earlier ++ [⟨container, id, c, item, entered⟩],
      offersAll u f container way rest (d.visit u f container way (.node id children)) ++ later,
      begun.append (.offer calls .done), ?_, List.mem_cons_self, below, ?_, ?_,
      before ++ [id], CursorTree.preorderAll rest ++ after, ?_, ?_⟩
    · rw [offers, offersAll, Draft.offers]
      simp only [cursor, found, if_neg clear, List.append_assoc, List.cons_append, List.nil_append]
    · intro other member
      rcases List.mem_cons.mp member with rfl | higher
      · exact .inr ⟨_, List.mem_append_right _ List.mem_cons_self, rfl, fun tree present =>
          ⟨[id], List.cons_ne_nil _ _, .down (child present) .here⟩⟩
      · refine (above other higher).imp_right ?_
        rintro ⟨offer, present, same, leads⟩
        obtain ⟨path, _, onward⟩ := leads _ List.mem_cons_self
        exact ⟨offer, List.mem_append_left _ present, same, fun tree listed =>
          ⟨path ++ [id], by simp, onward.snoc (child listed)⟩⟩
    · intro offer member
      rw [List.map_append, List.mem_append]
      rcases List.mem_append.mp member with sibling | further
      · rcases container_of_offersAll rest container way _ offer sibling with ⟨here, _⟩ | within
        · exact .inl (List.mem_cons_of_mem item (here ▸ inside))
        · exact .inr (.inl within)
      · exact (behind offer further).imp (List.mem_cons_of_mem item) .inr
    · rw [order, CursorTree.preorderAll, CursorTree.preorder]
      simp only [List.append_assoc, List.cons_append, List.nil_append]
    · rw [List.map_append]
      exact met.append (List.Sublist.refl _)

theorem map_id_sublist_preorderAll (trees : List CursorTree) :
    (trees.map CursorTree.id).Sublist (CursorTree.preorderAll trees) := by
  induction trees with
  | nil => exact List.nil_sublist _
  | cons tree rest ih =>
    rw [List.map_cons, CursorTree.preorderAll, CursorTree.preorder_eq, List.cons_append]
    exact (ih.trans (List.sublist_append_right _ _)).cons_cons _

/-- The children of a cursor that a build has come to are different cursors, and have not been offered
before. -/
theorem Standing.unmet_children (valid : u.firstFault? = none)
    {last : CursorId}
    {children : List CursorTree}
    (standing : Standing u f container way (.node last children :: rest) d earlier later) :
    children.map CursorTree.id = u.childrenOf last ∧ (u.childrenOf last).Nodup ∧
      ∀ child ∈ u.childrenOf last, child ≠ last ∧ child ∉ earlier.map Offer.id := by
  obtain ⟨_, _, _, spans, _, _, before, after, order, met⟩ := standing
  obtain ⟨listed, _⟩ := spans (.node last children) List.mem_cons_self
  obtain ⟨_, _, distinct⟩ := Ast.TranslationUnit.tree_of_valid valid
  rw [CursorTree.preorder_eq, order, CursorTree.preorderAll, CursorTree.preorder, List.append_assoc,
    List.append_assoc] at distinct
  obtain ⟨_, distinct, unmet⟩ := List.nodup_append.mp (List.nodup_cons.mp distinct).2
  obtain ⟨alone, distinct⟩ := List.nodup_cons.mp distinct
  have below := map_id_sublist_preorderAll children
  rw [listed] at below
  refine ⟨listed, (List.nodup_append.mp distinct).1.sublist below, fun child member => ⟨?_, ?_⟩⟩
  · rintro rfl
    exact alone (List.mem_append_left _ (below.subset member))
  · intro earlier
    have inside := List.mem_append_left (CursorTree.preorderAll rest ++ after) (below.subset member)
    exact unmet child (met.subset earlier) child (List.mem_cons_of_mem last inside) rfl

/-- What a build goes on with behind a tree is offered on the way to the tree, or below an item that
comes behind the tree. -/
theorem Standing.container_behind
    (standing : Standing u f container way (tree :: rest) d earlier later) :
    ∀ offer ∈ offersAll u f container way rest (d.visit u f container way tree) ++ later,
      offer.container ∈ way ∨ offer.container ∈
        (offersAll u f container way rest (d.visit u f container way tree) ++ later).map
          Offer.item := by
  intro offer member
  rw [List.map_append, List.mem_append]
  rcases List.mem_append.mp member with sibling | further
  · rcases container_of_offersAll rest container way _ offer sibling with ⟨here, _⟩ | within
    · exact .inl (here ▸ standing.inside)
    · exact .inr (.inl within)
  · exact (standing.behind offer further).imp_right .inr

end Draft

end Bindery
