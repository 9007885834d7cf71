import Bindery.Proofs.Build
import Bindery.Proofs.Model.Placement

/-! What a walk offers to owners, one offer for each cursor that it enters. An offer tells where the
item is written and in which draft its owner is found, so that the verdict can be read off it. -/

set_option autoImplicit false

namespace Bindery

open Ast (Cursor CursorId CursorTree TranslationUnit)

/-- A node on its way to an owner: the node it is written in, the cursor it was entered for, and the
draft in which its owner is found. -/
structure Offer where
  container : NodeId
  id : CursorId
  cursor : Cursor
  item : NodeId
  entered : Draft

namespace Offer

variable (u : TranslationUnit) (offer : Offer)

def verdict : Verdict :=
  offer.entered.model.judge u offer.container offer.item offer.cursor

/-- The draft once the item has gone to its owner. -/
def after : Draft := offer.entered.accept u offer.container offer.item offer.cursor

def visit : Visit := ⟨offer.id, offer.item, offer.after u⟩

def refusal? : Option Diagnostic :=
  match offer.verdict u with
  | .accepted _ | .elaborated _ => none
  | .rejected owner =>
    some (.rejectedChild (offer.entered.model.name offer.item)
      (offer.entered.model.kind offer.item).label (offer.entered.model.ownerLabel owner)
      offer.cursor.location)
  | .ownerless =>
    some (.unresolvedOwner (offer.entered.model.fullName offer.item)
      (((offer.cursor.semanticParent.bind u.cursor?).map (·.shownName)).getD "")
      offer.cursor.location)

variable {u offer}

theorem refusal?_eq_none_iff : offer.refusal? u = none ↔ ((offer.verdict u).owner?).isSome := by
  unfold refusal?
  cases offer.verdict u <;> simp [Verdict.owner?]

theorem refusal?_isSome_iff : (offer.refusal? u).isSome ↔ (offer.verdict u).owner? = none := by
  unfold refusal?
  cases offer.verdict u <;> simp [Verdict.owner?]

theorem rearranges_after (offer : Offer) : offer.entered.model.Rearranges (offer.after u).model :=
  Draft.rearranges_accept offer.entered offer.container offer.item offer.cursor

theorem diagnostics_after :
    (offer.after u).diagnostics = offer.entered.diagnostics ++ (offer.refusal? u).toList := by
  unfold after Draft.accept refusal? verdict
  cases offer.entered.model.judge u offer.container offer.item offer.cursor <;>
    simp [Draft.carryOut, Draft.report]

end Offer

namespace Draft

variable (u : TranslationUnit) (f : Factory)

mutual

def offers (container : NodeId) (way : List NodeId) : CursorTree → Draft → List Offer
  | .node id children, d =>
    match u.cursor? id with
    | none => []
    | some c =>
      match d.enter? u f id c with
      | none => []
      | some (item, entered) =>
        ⟨container, id, c, item, entered⟩ ::
          if item ∈ way then []
          else offersAll item (item :: way) children (entered.accept u container item c)

def offersAll (container : NodeId) (way : List NodeId) : List CursorTree → Draft → List Offer
  | [], _ => []
  | tree :: rest, d =>
    offers container way tree d ++ offersAll container way rest (visit u f container way tree d)

end

/-- Offers that lead from one draft to another, each made of a call at a cursor. -/
inductive Hands : Draft → List Offer → Draft → Prop where
  | done {d : Draft} : Hands d [] d
  | offer {d e : Draft} {offer : Offer} {rest : List Offer}
    (calls : CallsAt u f d offer.container offer.id offer.cursor offer.item offer.entered)
    (later : Hands (offer.after u) rest e) : Hands d (offer :: rest) e

variable {u f} {d e e' : Draft}

namespace Hands

theorem append {first second : List Offer} (begins : Hands u f d first e)
    (ends : Hands u f e second e') : Hands u f d (first ++ second) e' := by
  induction begins with
  | done => exact ends
  | offer calls _ ih => exact .offer calls (ih ends)

theorem split {first second : List Offer} (hands : Hands u f d (first ++ second) e') :
    ∃ e, Hands u f d first e ∧ Hands u f e second e' := by
  induction first generalizing d with
  | nil => exact ⟨d, .done, hands⟩
  | cons offer rest ih =>
    cases hands with
    | offer calls later =>
      obtain ⟨e, begins, ends⟩ := ih later
      exact ⟨e, .offer calls begins, ends⟩

theorem exists_calls {made : List Offer} (hands : Hands u f d made e) :
    ∀ offer ∈ made, ∃ begun : Draft,
      CallsAt u f begun offer.container offer.id offer.cursor offer.item offer.entered := by
  induction hands with
  | done =>
    intro offer member
    cases member
  | offer calls _ ih =>
    intro other member
    rcases List.mem_cons.mp member with rfl | later
    · exact ⟨_, calls⟩
    · exact ih other later

theorem lasts {made : List Offer} (hands : Hands u f d made e) : d.model.Lasts e.model := by
  induction hands with
  | done => exact .refl _
  | offer calls _ ih =>
    exact (calls.lasts.trans (Offer.rearranges_after _).lasts).trans ih

theorem item_lt {made : List Offer} (hands : Hands u f d made e) :
    ∀ offer ∈ made, offer.item.index < e.model.size := by
  induction hands with
  | done => exact List.forall_mem_nil _
  | @offer d e offer rest calls later ih =>
    refine List.forall_mem_cons.mpr ⟨?_, ih⟩
    exact Nat.lt_of_lt_of_le calls.item_lt
      ((Offer.rearranges_after offer).lasts.trans later.lasts).size_le

theorem usr_item {made : List Offer} (hands : Hands u f d made e) :
    ∀ offer ∈ made, (e.model.node offer.item).usr = u.usrOf? offer.id := by
  induction hands with
  | done => exact List.forall_mem_nil _
  | @offer d e offer rest calls later ih =>
    refine List.forall_mem_cons.mpr ⟨?_, ih⟩
    obtain ⟨inside, key⟩ := key_of_enters calls.indexed calls.cursor calls.enters
    have lasts := (Offer.rearranges_after offer).lasts.trans later.lasts
    exact ((lasts.kept offer.item inside).usr).trans (Node.usr_of_key? key)

theorem persist {made : List Offer} (hands : Hands u f d made e) {Q : Node → Prop}
    (persists : Persists u f Q) (first : ∀ id, id.index < d.model.size → Q (d.model.node id)) :
    ∀ id, id.index < e.model.size → Q (e.model.node id) := by
  induction hands with
  | done => exact first
  | offer calls _ ih => exact ih (persist_accept persists (calls.persist persists first) _ _ _)

theorem lasts_entered {made : List Offer} (hands : Hands u f d made e) :
    ∀ offer ∈ made, d.model.Lasts offer.entered.model := by
  induction hands with
  | done => exact List.forall_mem_nil _
  | @offer d e offer rest calls later ih =>
    refine List.forall_mem_cons.mpr ⟨calls.lasts, fun other member => ?_⟩
    exact (calls.lasts.trans (Offer.rearranges_after offer).lasts).trans (ih other member)

theorem exists_offer {made : List Offer} (hands : Hands u f d made e) {n : NodeId}
    (inside : n.index < e.model.size) :
    n.index < d.model.size ∨ ∃ offer ∈ made, offer.item = n := by
  induction hands with
  | done => exact .inl inside
  | @offer d e offer rest calls later ih =>
    rcases ih inside with earlier | ⟨other, member, same⟩
    · rw [(Offer.rearranges_after offer).size] at earlier
      by_cases here : offer.item = n
      · exact .inr ⟨offer, List.mem_cons_self, here⟩
      · exact .inl (calls.lt_of_ne earlier (Ne.symm here))
    · exact .inr ⟨other, List.mem_cons_of_mem _ member, same⟩

end Hands

mutual

theorem hands_offers : ∀ (tree : CursorTree) (container : NodeId) (way : List NodeId) (d : Draft),
    d.model.Fresh → d.model.Indexed → container.index < d.model.size →
      Hands u f d (offers u f container way tree d) (visit u f container way tree d)
  | .node id children, container, way, d, fresh, indexed, inside => by
    rw [offers, visit]
    cases cursor : u.cursor? id with
    | none => exact .done
    | some c =>
      dsimp only
      cases found : d.enter? u f id c with
      | none => exact .done
      | some result =>
        obtain ⟨item, entered⟩ := result
        have calls : CallsAt u f d container id c item entered :=
          ⟨fresh, indexed, inside, cursor, enters_of_enter? found⟩
        refine Hands.offer calls ?_
        dsimp only
        split
        · exact .done
        · apply hands_offersAll children item (item :: way)
          · exact fresh_accept calls.fresh_entered c calls.container_lt
          · exact indexed_accept (indexed_of_enters indexed calls.enters) container item c
          · exact calls.item_lt.trans_eq (rearranges_accept entered container item c).size.symm

/-- A walk is the run of its offers. -/
theorem hands_offersAll : ∀ (trees : List CursorTree) (container : NodeId) (way : List NodeId)
    (d : Draft), d.model.Fresh → d.model.Indexed → container.index < d.model.size →
      Hands u f d (offersAll u f container way trees d) (visitAll u f container way trees d)
  | [], _, _, _, _, _, _ => .done
  | tree :: rest, container, way, d, fresh, indexed, inside => by
    have runs := runs_visit u f tree container way [container] d List.mem_cons_self
    have only : ∀ id ∈ [container], id.index < d.model.size := by simpa using inside
    rw [offersAll, visitAll]
    refine (hands_offers tree container way d fresh indexed inside).append ?_
    exact hands_offersAll rest container way _ (runs.fresh fresh only)
      (runs.indexed indexed _ runs.final_mem)
      (Nat.lt_of_lt_of_le inside (runs.lasts indexed).size_le)

end

mutual

theorem map_visit_offers : ∀ (tree : CursorTree) (container : NodeId) (way : List NodeId)
    (d : Draft), (offers u f container way tree d).map (Offer.visit u) =
      visits u f container way tree d
  | .node id children, container, way, d => by
    rw [offers, visits]
    cases u.cursor? id with
    | none => rfl
    | some c =>
      dsimp only
      cases d.enter? u f id c with
      | none => rfl
      | some result =>
        obtain ⟨item, entered⟩ := result
        dsimp only
        rw [List.map_cons]
        congr 1
        split
        · rfl
        · exact map_visit_offersAll children item (item :: way) _

/-- Every visit makes one offer. -/
theorem map_visit_offersAll : ∀ (trees : List CursorTree) (container : NodeId) (way : List NodeId)
    (d : Draft), (offersAll u f container way trees d).map (Offer.visit u) =
      visitsAll u f container way trees d
  | [], _, _, _ => rfl
  | tree :: rest, container, way, d => by
    rw [offersAll, visitsAll, List.map_append, map_visit_offers tree container way d,
      map_visit_offersAll rest container way]

end

mutual

theorem offers_sublist : ∀ (tree : CursorTree) (container : NodeId) (way : List NodeId) (d : Draft),
    ((offers u f container way tree d).map Offer.id).Sublist tree.preorder
  | .node id children, container, way, d => by
    rw [offers, CursorTree.preorder]
    cases u.cursor? id with
    | none => exact List.nil_sublist _
    | some c =>
      dsimp only
      cases d.enter? u f id c with
      | none => exact List.nil_sublist _
      | some result =>
        obtain ⟨item, entered⟩ := result
        apply List.Sublist.cons_cons
        split
        · exact List.nil_sublist _
        · exact offersAll_sublist children item (item :: way) _

theorem offersAll_sublist : ∀ (trees : List CursorTree) (container : NodeId) (way : List NodeId)
    (d : Draft),
    ((offersAll u f container way trees d).map Offer.id).Sublist (CursorTree.preorderAll trees)
  | [], _, _, _ => List.nil_sublist _
  | tree :: rest, container, way, d => by
    rw [offersAll, CursorTree.preorderAll, List.map_append]
    exact (offers_sublist tree container way d).append (offersAll_sublist rest container way _)

end

mutual

theorem offers_cases : ∀ (tree : CursorTree) (container : NodeId) (way : List NodeId) (d : Draft),
    offers u f container way tree d = [] ∨ ∃ first below,
      offers u f container way tree d = first :: below ∧ first.container = container ∧
        first.id = tree.id ∧ ∀ offer ∈ below, offer.container ∈ (first :: below).map Offer.item
  | .node id children, container, way, d => by
    rw [offers]
    cases u.cursor? id with
    | none => exact .inl rfl
    | some c =>
      dsimp only
      cases d.enter? u f id c with
      | none => exact .inl rfl
      | some result =>
        obtain ⟨item, entered⟩ := result
        refine .inr ⟨_, _, rfl, rfl, rfl, ?_⟩
        split
        · exact List.forall_mem_nil _
        · intro offer member
          rcases container_of_offersAll children item (item :: way) _ offer member with
            ⟨here, _⟩ | below
          · exact List.mem_cons.mpr (.inl here)
          · exact List.mem_cons_of_mem _ below

/-- What trees offer is offered where they stand, or below an item that they offer. -/
theorem container_of_offersAll : ∀ (trees : List CursorTree) (container : NodeId)
    (way : List NodeId) (d : Draft), ∀ offer ∈ offersAll u f container way trees d,
      offer.container = container ∧ offer.id ∈ trees.map CursorTree.id ∨
        offer.container ∈ (offersAll u f container way trees d).map Offer.item
  | [], _, _, _ => List.forall_mem_nil _
  | tree :: rest, container, way, d => by
    intro offer member
    rw [offersAll] at member ⊢
    rw [List.map_append, List.mem_append, List.map_cons, List.mem_cons]
    rcases List.mem_append.mp member with here | later
    · rcases offers_cases tree container way d with none | ⟨first, below, made, place, same, inside⟩
      · rw [none] at here
        cases here
      · rw [made] at here ⊢
        rcases List.mem_cons.mp here with rfl | deeper
        · exact .inl ⟨place, .inl same⟩
        · exact .inr (.inl (inside offer deeper))
    · rcases container_of_offersAll rest container way _ offer later with ⟨place, listed⟩ | inside
      · exact .inl ⟨place, .inr listed⟩
      · exact .inr (.inr inside)

end

theorem map_id_filter_container_sublist (trees : List CursorTree) {container : NodeId}
    (way : List NodeId) (d : Draft)
    (apart : ∀ offer ∈ offersAll u f container way trees d, offer.item ≠ container) :
    (((offersAll u f container way trees d).filter fun offer => offer.container = container).map
      Offer.id).Sublist (trees.map CursorTree.id) := by
  induction trees generalizing d with
  | nil => exact List.nil_sublist _
  | cons tree rest ih =>
    rw [offersAll, List.forall_mem_append] at apart
    rw [offersAll, List.filter_append, List.map_append, List.map_cons]
    have further := ih _ apart.2
    rcases offers_cases tree container way d with none | ⟨first, below, made, place, same, inside⟩
    · rw [none, List.filter_nil, List.map_nil, List.nil_append]
      exact further.cons _
    · rw [made] at apart ⊢
      have deeper : below.filter (fun offer => offer.container = container) = [] := by
        refine List.filter_eq_nil_iff.mpr fun offer member here => ?_
        obtain ⟨above, offered, item⟩ := List.mem_map.mp (inside offer member)
        exact apart.1 above offered (item.trans (of_decide_eq_true here))
      rw [List.filter_cons_of_pos (by simpa using place), deeper, List.map_singleton, same]
      exact further.cons_cons _

end Draft

/-! ## The build of a session -/

def buildOffers (u : TranslationUnit) (f : Factory := .standard) : List Offer :=
  Draft.offersAll u f Model.root [Model.root] u.tree.children (opening u f)

variable {u : TranslationUnit} {f : Factory}

theorem hands_build (u : TranslationUnit) (f : Factory) :
    Draft.Hands u f (opening u f) (buildOffers u f) (Session.start u f).build.draft :=
  Draft.hands_offersAll u.tree.children Model.root [Model.root] (opening u f) (fresh_opening u f)
    (indexed_opening u f) Nat.zero_lt_one

theorem map_visit_buildOffers (u : TranslationUnit) (f : Factory) :
    (buildOffers u f).map (Offer.visit u) = buildVisits u f :=
  Draft.map_visit_offersAll u.tree.children Model.root [Model.root] (opening u f)

theorem map_id_buildOffers (u : TranslationUnit) (f : Factory) :
    (buildOffers u f).map Offer.id = (buildVisits u f).map Visit.cursor := by
  rw [← map_visit_buildOffers, List.map_map]
  rfl

theorem buildOffers_sublist (u : TranslationUnit) (f : Factory) :
    ((buildOffers u f).map Offer.id).Sublist (CursorTree.preorderAll u.tree.children) :=
  Draft.offersAll_sublist u.tree.children Model.root [Model.root] (opening u f)

end Bindery
