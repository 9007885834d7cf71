import Bindery.Proofs.Ast.Tree
import Bindery.Proofs.Model.Arena
import Bindery.Proofs.Model.Triple

/-! Which cursors a walk visits, told by the unit alone. The way down to a cursor must be modeled all
along, and ends below a declaration that is met inside itself. -/

set_option autoImplicit false

namespace Bindery

open Ast (Cursor CursorId CursorTree Spans TranslationUnit)

namespace Ast.TranslationUnit

variable (u : TranslationUnit)

def isModeled (id : CursorId) : Bool :=
  ((u.cursor? id).map fun c => Factory.standard.isModeled c.kind).getD false

/-- Two cursors of one symbol. -/
def Twins (a b : CursorId) : Prop := (u.usrOf? a).isSome ∧ u.usrOf? b = u.usrOf? a

instance (a b : CursorId) : Decidable (u.Twins a b) :=
  inferInstanceAs (Decidable ((u.usrOf? a).isSome ∧ u.usrOf? b = u.usrOf? a))

/-- Child lists lead down from a cursor to another. The way holds the first cursor and all between
them, the first one first. -/
inductive Leads : CursorId → List CursorId → CursorId → Prop where
  | here {id : CursorId} : Leads id [] id
  | down {id child last : CursorId} {way : List CursorId} (listed : child ∈ u.childrenOf id)
    (onward : Leads child way last) : Leads id (id :: way) last

/-- A way on which no cursor stands below a twin, neither on the way nor above it. -/
def Open (above way : List CursorId) : Prop :=
  (∀ a ∈ above, ∀ b ∈ way, ¬ u.Twins a b) ∧ way.Pairwise fun a b => ¬ u.Twins a b

mutual

/-- The cursors of a tree that stand in the open and are modeled, in the order of the tree. -/
def exposed (above : List CursorId) : CursorTree → List CursorId
  | .node id children =>
    if u.isModeled id then
      id :: if ∃ a ∈ above, u.Twins a id then [] else exposedAll (id :: above) children
    else []

def exposedAll (above : List CursorId) : List CursorTree → List CursorId
  | [] => []
  | tree :: rest => exposed above tree ++ exposedAll above rest

end

variable {u}

theorem open_cons_iff {above way : List CursorId} {id : CursorId} :
    u.Open above (id :: way) ↔ (¬ ∃ a ∈ above, u.Twins a id) ∧ u.Open (id :: above) way := by
  simp only [Open, List.pairwise_cons, List.mem_cons, forall_eq_or_imp, not_exists, not_and]
  constructor
  · rintro ⟨clear, first, rest⟩
    exact ⟨fun a member => (clear a member).1, ⟨first, fun a member => (clear a member).2⟩, rest⟩
  · rintro ⟨clear, ⟨first, further⟩, rest⟩
    exact ⟨fun a member => ⟨clear a member, further a member⟩, first, rest⟩

/-- A way that goes on below a cursor goes on from one of its children. -/
theorem exists_way_below_iff (above : List CursorId) {id : CursorId} (last : CursorId)
    {children : List CursorTree} (listed : children.map CursorTree.id = u.childrenOf id) :
    (∃ way, u.Leads id (id :: way) last ∧ (∀ a ∈ last :: id :: way, u.isModeled a) ∧
        u.Open above (id :: way)) ↔
      u.isModeled id ∧ (¬ ∃ a ∈ above, u.Twins a id) ∧ ∃ tree ∈ children, ∃ way,
        u.Leads tree.id way last ∧ (∀ a ∈ last :: way, u.isModeled a) ∧ u.Open (id :: above) way := by
  constructor
  · rintro ⟨way, leads, all, unbarred⟩
    obtain ⟨clear, unbarred⟩ := open_cons_iff.mp unbarred
    cases leads with
    | @down _ child _ _ below onward =>
      obtain ⟨tree, inside, rfl⟩ := List.mem_map.mp (listed ▸ below)
      exact ⟨all id (by simp), clear, tree, inside, way, onward, by simp_all, unbarred⟩
  · rintro ⟨modeled, clear, tree, inside, way, onward, all, unbarred⟩
    have below : tree.id ∈ u.childrenOf id := listed ▸ List.mem_map_of_mem inside
    exact ⟨way, .down below onward, by simp_all, open_cons_iff.mpr ⟨clear, unbarred⟩⟩

mutual

theorem mem_exposed_iff : ∀ (tree : CursorTree) (above : List CursorId) (last : CursorId),
    Spans u tree → (last ∈ u.exposed above tree ↔
      ∃ way, u.Leads tree.id way last ∧ (∀ a ∈ last :: way, u.isModeled a) ∧ u.Open above way)
  | .node id children, above, last, .node listed spans => by
    have further : last ∈ u.exposedAll (id :: above) children ↔ _ :=
      mem_exposedAll_iff children (id :: above) last spans
    rw [exposed, CursorTree.id]
    constructor
    · intro member
      split at member
      · next modeled =>
        rcases List.mem_cons.mp member with rfl | member
        · exact ⟨[], .here, by simpa using modeled, nofun, .nil⟩
        · split at member
          · cases member
          · next clear =>
            obtain ⟨way, below⟩ :=
              (exists_way_below_iff above last listed).mpr ⟨modeled, clear, further.mp member⟩
            exact ⟨id :: way, below⟩
      · cases member
    · rintro ⟨way, leads, all, unbarred⟩
      cases leads with
      | here => simp [all id List.mem_cons_self]
      | @down _ _ _ way below onward =>
        obtain ⟨modeled, clear, inside⟩ :=
          (exists_way_below_iff above last listed).mp ⟨way, .down below onward, all, unbarred⟩
        rw [if_pos modeled, if_neg clear]
        exact List.mem_cons_of_mem id (further.mpr inside)

theorem mem_exposedAll_iff : ∀ (trees : List CursorTree) (above : List CursorId) (last : CursorId),
    (∀ tree ∈ trees, Spans u tree) → (last ∈ u.exposedAll above trees ↔
      ∃ tree ∈ trees, ∃ way, u.Leads tree.id way last ∧ (∀ a ∈ last :: way, u.isModeled a) ∧
        u.Open above way)
  | [], _, _, _ => by simp [exposedAll]
  | tree :: rest, above, last, spans => by
    rw [exposedAll, List.mem_append, mem_exposed_iff tree above last (spans tree List.mem_cons_self),
      mem_exposedAll_iff rest above last fun other member =>
        spans other (List.mem_cons_of_mem tree member), List.exists_mem_cons_iff]

end

variable (u)

mutual

theorem exposed_sublist : ∀ (tree : CursorTree) (above : List CursorId),
    (u.exposed above tree).Sublist tree.preorder
  | .node id children, above => by
    rw [exposed, CursorTree.preorder]
    split
    · apply List.Sublist.cons_cons
      split
      · exact List.nil_sublist _
      · exact exposedAll_sublist children (id :: above)
    · exact List.nil_sublist _

theorem exposedAll_sublist : ∀ (trees : List CursorTree) (above : List CursorId),
    (u.exposedAll above trees).Sublist (CursorTree.preorderAll trees)
  | [], _ => List.nil_sublist _
  | tree :: rest, above => by
    rw [exposedAll, CursorTree.preorderAll]
    exact (exposed_sublist tree above).append (exposedAll_sublist rest above)

end

end Ast.TranslationUnit

namespace Draft

variable {u : TranslationUnit} {f : Factory} {d : Draft}

/-- The nodes entered on the way down are those of the cursors on the way. -/
def Follows (u : TranslationUnit) (m : Model) (way : List NodeId) (above : List CursorId) : Prop :=
  List.Forall₂ (fun item a => item.index < m.size ∧ (m.node item).usr = u.usrOf? a) way above

theorem Follows.lasts {m n : Model} {way : List NodeId} {above : List CursorId}
    (follows : Follows u m way above) (lasts : m.Lasts n) : Follows u n way above := by
  refine List.Forall₂.imp (fun item a told => ?_) follows
  exact ⟨Nat.lt_of_lt_of_le told.1 lasts.size_le, ((lasts.kept item told.1).usr).trans told.2⟩

/-- A node is met inside itself if and only if the cursor has a twin above. -/
theorem mem_way_iff {way : List NodeId} {above : List CursorId} {id : CursorId} {c : Cursor}
    {item : NodeId} {entered : Draft} (indexed : d.model.Indexed)
    (follows : Follows u d.model way above) (cursor : u.cursor? id = some c)
    (enters : Enters u f d id c item entered) : item ∈ way ↔ ∃ a ∈ above, u.Twins a id := by
  have symbolOf : u.usrOf? id = c.usr? := by simp [TranslationUnit.usrOf?, cursor]
  have above_of_way {usr : String} (symbol : c.usr? = some usr) {item : NodeId}
      (member : item ∈ way) (carried : (d.model.node item).usr = some usr) :
      ∃ a ∈ above, u.Twins a id := by
    obtain ⟨a, there, _, told⟩ := exists_left_of_mem follows.flip member
    rw [carried] at told
    exact ⟨a, there, by simp [← told], by rw [symbolOf, symbol, told]⟩
  have way_of_above (twin : ∃ a ∈ above, u.Twins a id) :
      ∃ usr, c.usr? = some usr ∧ ∃ item ∈ way, d.model.byUsr? usr = some item := by
    obtain ⟨a, there, named, same⟩ := twin
    obtain ⟨usr, symbol⟩ := Option.isSome_iff_exists.mp named
    obtain ⟨item, member, _, told⟩ := exists_left_of_mem follows there
    rw [symbol] at told same
    exact ⟨usr, symbolOf ▸ same, item, member, (indexed usr item).mpr told⟩
  cases enters with
  | @known usr item symbol found =>
    constructor
    · intro member
      exact above_of_way symbol member ((indexed usr item).mp found)
    · intro twin
      obtain ⟨other, symbol', item', member, found'⟩ := way_of_above twin
      cases symbol.symm.trans symbol'
      cases found.symm.trans found'
      exact member
  | new modeled taken unknown =>
    constructor
    · intro member
      obtain ⟨a, _, inside, _⟩ := exists_left_of_mem follows.flip member
      exact absurd inside (Nat.lt_irrefl d.model.size)
    · intro twin
      obtain ⟨usr, symbol, item, _, found⟩ := way_of_above twin
      rw [unknown usr symbol] at found
      cases found

-- The standard constructors decline nothing.
theorem isSome_enter? (d : Draft) (id : CursorId) (c : Cursor) :
    (d.enter? u .standard id c).isSome = Factory.standard.isModeled c.kind := by
  have constructors : Factory.standard.constructor? c.kind =
      (Factory.standardKind? c.kind).map Factory.always := rfl
  unfold enter? Factory.isModeled
  rw [constructors]
  cases Factory.standardKind? c.kind with
  | none => rfl
  | some kind =>
    cases c.usr?.bind d.model.byUsr? <;> rfl

mutual

theorem map_cursor_visits : ∀ (tree : CursorTree) (container : NodeId) (way : List NodeId)
    (above : List CursorId) (d : Draft), d.model.Indexed → Follows u d.model way above →
      (visits u .standard container way tree d).map Visit.cursor = u.exposed above tree
  | .node id children, container, way, above, d, indexed, follows => by
    rw [visits, TranslationUnit.exposed, TranslationUnit.isModeled]
    cases cursor : u.cursor? id with
    | none => rfl
    | some c =>
      rw [Option.map_some, Option.getD_some, ← isSome_enter? (u := u) d id c]
      dsimp only
      cases found : d.enter? u .standard id c with
      | none => rfl
      | some result =>
        obtain ⟨item, entered⟩ := result
        have enters := enters_of_enter? found
        have stopped := mem_way_iff indexed follows cursor enters
        have rearranged := rearranges_accept (u := u) entered container item c
        have lasts := (lasts_of_enters indexed enters).trans rearranged.lasts
        have accepted := indexed_accept (u := u) (indexed_of_enters indexed enters) container item c
        simp only [Option.isSome_some, if_true, List.map_cons, List.cons.injEq, true_and, stopped]
        split
        · rfl
        · apply map_cursor_visitsAll children item (item :: way) (id :: above) _ accepted
          obtain ⟨inside, key⟩ := key_of_enters indexed cursor enters
          refine .cons ⟨?_, ?_⟩ (follows.lasts lasts)
          · rw [rearranged.size]
            exact inside
          · rw [rearranged.same_read Node.usr (fun _ => rfl)]
            exact Node.usr_of_key? key

theorem map_cursor_visitsAll : ∀ (trees : List CursorTree) (container : NodeId) (way : List NodeId)
    (above : List CursorId) (d : Draft), d.model.Indexed → Follows u d.model way above →
      (visitsAll u .standard container way trees d).map Visit.cursor = u.exposedAll above trees
  | [], _, _, _, _, _, _ => rfl
  | tree :: rest, container, way, above, d, indexed, follows => by
    have runs := runs_visit u .standard tree container way [container] d List.mem_cons_self
    rw [visitsAll, TranslationUnit.exposedAll, List.map_append,
      map_cursor_visits tree container way above d indexed follows,
      map_cursor_visitsAll rest container way above _ (runs.indexed indexed _ runs.final_mem)
        (follows.lasts (runs.lasts indexed))]

end

end Draft

end Bindery
