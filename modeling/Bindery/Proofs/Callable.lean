import Bindery.Proofs.Acceptance
import Bindery.Proofs.Standing

/-! What a build leaves of a callable. Every occurrence empties the node and takes it over, so that the
last one decides what the callable says of itself. Whatever is accepted into a callable is written
directly in it; where no occurrence stands below another, the members are therefore those of the last
occurrence, all of them and no others. -/

set_option autoImplicit false

namespace Bindery

open Ast (Cursor CursorId CursorTree TranslationUnit)

variable {u : TranslationUnit} {f : Factory}

namespace Draft

variable {d entered : Draft} {container item : NodeId} {id : CursorId} {c : Cursor}

/-- A callable that has just been entered has no members yet and says what its cursor says. -/
structure Renewed (earlier : Node) (known : Bool) (id : CursorId) (c : Cursor) (node : Node) :
    Prop where
  members : node.members = ∅
  reflects : node.Reflects id c
  comment : node.comment = c.comment?.or earlier.comment
  isInline : node.isInline = known

theorem CallsAt.renewed (calls : CallsAt u f d container id c item entered)
    (callable : (entered.model.kind item).isCallable) :
    Renewed (d.model.node item) (item.index < d.model.size) id c (entered.model.node item) := by
  obtain ⟨fresh, indexed, _, _, enters⟩ := calls
  cases enters with
  | @known usr item symbol found =>
    have inside := fresh.linked.symbol usr item found
    have folds : (d.model.node item).Folds id c _ := folds_merge inside
    rw [Model.kind, folds.kind] at callable
    rw [decide_eq_true inside]
    generalize (d.merge item id c).model.node item = later at folds
    cases folds with
    | rebuilt _ => exact ⟨rfl, ⟨rfl, rfl, rfl, rfl, rfl⟩, by simp [Node.adopt, Node.reset], rfl⟩
    | adopted plain _ | kept plain _ =>
      rw [plain] at callable
      cases callable
  | @new constructor kind modeled taken unknown =>
    have outside : d.model.node ⟨d.model.size⟩ = .builtin "" :=
      Model.node_of_size_le (Nat.le_refl d.model.size)
    rw [Model.node_enroll, if_pos rfl, outside]
    exact ⟨rfl, ⟨rfl, rfl, rfl, rfl, rfl⟩, by simp [Node.ofCursor, Node.builtin], by
      simp [Node.ofCursor]⟩

end Draft

theorem NodeKind.closed_of_isCallable {owner : NodeKind} (callable : owner.isCallable) :
    allows owner .enumDecl = false ∧ allows owner .structDecl = false ∧
      ∀ container item, mayRelocate container item owner = false := by
  cases owner with
  | callable kind =>
    cases kind <;> exact ⟨rfl, rfl, fun _ _ => by simp [mayRelocate, NodeKind.isRecord]⟩
  | _ => cases callable

theorem Offer.accepted_of_takes {offer : Offer} {n : NodeId}
    (stands : Factory.standardKind? offer.cursor.kind =
      some (offer.entered.model.kind offer.item))
    (callable : (offer.entered.model.kind n).isCallable)
    (takes : n ∈ (offer.verdict u).takers offer.container) :
    offer.verdict u = .accepted n ∧ offer.container = n := by
  have judged := offer.entered.model.judges u offer.container offer.item offer.cursor
  change Model.Judges _ _ _ _ _ (offer.verdict u) at judged
  generalize offer.verdict u = verdict at judged takes
  cases judged with
  | @accepted owner found allowed near =>
    obtain rfl := List.mem_singleton.mp takes
    refine ⟨rfl, ?_⟩
    rcases near with here | relocated
    · exact here.symm
    · rw [(NodeKind.closed_of_isCallable callable).2.2] at relocated
      cases relocated
  | @elaborated owner found allowed spelled =>
    simp only [isElaboration, Bool.and_eq_true, Bool.or_eq_true, decide_eq_true_eq] at spelled
    obtain ⟨types, place⟩ := spelled
    rcases List.mem_cons.mp takes with rfl | last
    · rcases place with typeDef | ⟨field, _⟩
      · rw [typeDef] at callable
        cases callable
      · rw [field] at callable
        cases callable
    · obtain rfl := List.mem_singleton.mp last
      have taken := (Model.ownerAllows_iff.mp allowed).1
      obtain ⟨noEnum, noStruct, _⟩ := NodeKind.closed_of_isCallable callable
      rcases types with spelled | spelled <;> rw [spelled] at stands
      · have kind : offer.cursor.kind = .enumDecl := standardKind?_injective stands rfl
        rw [kind, noEnum] at taken
        cases taken
      · have kind : offer.cursor.kind = .structDecl := standardKind?_injective stands rfl
        rw [kind, noStruct] at taken
        cases taken
  | rejected _ | ownerless => cases takes

namespace Draft.Hands

variable {d e : Draft} {n : NodeId} {made : List Offer}

theorem standardKind? (hands : Hands u .standard d made e) (uniform : u.OneKindPerSymbol)
    (stands : ∀ id, id.index < d.model.size → (d.model.node id).Stands u) :
    ∀ offer ∈ made, Factory.standardKind? offer.cursor.kind =
      some (offer.entered.model.kind offer.item) := by
  have persists := persists_stands uniform
  induction hands with
  | done => exact List.forall_mem_nil _
  | @offer d e offer rest calls later ih =>
    refine List.forall_mem_cons.mpr ⟨calls.standardKind? uniform stands, ih ?_⟩
    exact persist_accept persists (calls.persist persists stands) _ _ _

theorem unplaced (hands : Hands u f d made e) (absent : ∀ offer ∈ made, offer.item ≠ n) :
    (e.model.node n).unplaced = (d.model.node n).unplaced := by
  induction hands with
  | done => rfl
  | @offer d e offer rest calls later ih =>
    obtain ⟨apart, further⟩ := List.forall_mem_cons.mp absent
    rw [ih further, (Offer.rearranges_after offer).unplaced,
      node_of_enters_ne calls.enters (Ne.symm apart)]

/-- A callable that is not offered gets the items that are accepted into it, one after the other. -/
theorem members (hands : Hands u f d made e) (callable : (d.model.kind n).isCallable)
    (stands : ∀ offer ∈ made, Factory.standardKind? offer.cursor.kind =
      some (offer.entered.model.kind offer.item))
    (absent : ∀ offer ∈ made, offer.item ≠ n) :
    (e.model.node n).members = (d.model.node n).members.insertAll
      ((made.filter fun offer => offer.verdict u = .accepted n).map Offer.item) := by
  induction hands with
  | done => rfl
  | @offer d e offer rest calls later ih =>
    obtain ⟨apart, further⟩ := List.forall_mem_cons.mp absent
    obtain ⟨kind, kinds⟩ := List.forall_mem_cons.mp stands
    have same : offer.entered.model.node n = d.model.node n :=
      node_of_enters_ne calls.enters (Ne.symm apart)
    have entered : (offer.entered.model.kind n).isCallable := by rwa [Model.kind, same]
    have after : ((offer.after u).model.kind n).isCallable := by
      rwa [Model.kind, (Offer.rearranges_after offer).same_read Node.kind fun _ => rfl]
    have step : ((offer.after u).model.node n).members =
        if offer.verdict u = .accepted n then (d.model.node n).members.insert offer.item
        else (d.model.node n).members := by
      have takes_iff : n ∈ (offer.verdict u).takers offer.container ↔
          offer.verdict u = .accepted n := by
        refine ⟨fun takes => (Offer.accepted_of_takes kind entered takes).1, fun accepted => ?_⟩
        rw [accepted]
        exact List.mem_cons_self
      rw [← same, ← if_congr takes_iff rfl rfl]
      exact members_accept calls.takers_lt
    rw [ih after kinds further, step, List.filter_cons]
    split <;> simp_all [OrderedSet.insertAll]

theorem comment (hands : Hands u f d made e) (callable : (e.model.kind n).isCallable) :
    (e.model.node n).comment =
      ((made.filter fun offer => offer.item = n).filterMap (·.cursor.comment?)).getLast?.or
        (d.model.node n).comment := by
  induction hands with
  | done => rfl
  | @offer d e offer rest calls later ih =>
    rw [ih callable, (Offer.rearranges_after offer).same_read Node.comment (fun _ => rfl),
      List.filter_cons]
    by_cases here : offer.item = n
    · subst here
      have lasts := (Offer.rearranges_after offer).lasts.trans later.lasts
      rw [Model.kind, (lasts.kept offer.item calls.item_lt).kind] at callable
      rw [(calls.renewed callable).comment, if_pos (decide_eq_true rfl), List.filterMap_cons]
      cases offer.cursor.comment? with
      | none => rfl
      | some text =>
        rw [List.getLast?_cons]
        cases (List.filterMap _ _).getLast? <;> rfl
    · rw [if_neg (by simpa using here), node_of_enters_ne calls.enters (Ne.symm here)]

section

variable {begun : Draft} {offer : Offer}
  (calls : CallsAt u f begun offer.container offer.id offer.cursor offer.item offer.entered)
  (onward : Hands u f (offer.after u) made e)
  (callable : (offer.entered.model.kind offer.item).isCallable)
  (absent : ∀ other ∈ made, other.item ≠ offer.item)

include calls onward callable absent

theorem reflects_last : (e.model.node offer.item).Reflects offer.id offer.cursor ∧
    ((e.model.node offer.item).isInline ↔ offer.item.index < begun.model.size) := by
  have renewed := calls.renewed callable
  have same : (e.model.node offer.item).unplaced = (offer.entered.model.node offer.item).unplaced :=
    (onward.unplaced absent).trans ((Offer.rearranges_after offer).unplaced offer.item)
  have inline : (e.model.node offer.item).isInline =
      (offer.entered.model.node offer.item).isInline := (congrArg Node.isInline same :)
  rw [← Node.reflects_unplaced, same, Node.reflects_unplaced, inline, renewed.isInline,
    decide_eq_true_iff]
  exact ⟨renewed.reflects, Iff.rfl⟩

theorem members_last
    (stands : ∀ other ∈ offer :: made, Factory.standardKind? other.cursor.kind =
      some (other.entered.model.kind other.item))
    (apart : offer.container ≠ offer.item) :
    (∀ other ∈ made, other.verdict u = .accepted offer.item → other.container = offer.item) ∧
      (e.model.node offer.item).members = .ofList
        ((made.filter fun other => other.verdict u = .accepted offer.item).map Offer.item) := by
  obtain ⟨stand, later⟩ := List.forall_mem_cons.mp stands
  have rearranged := Offer.rearranges_after (u := u) offer
  have kind : (offer.after u).model.kind offer.item = offer.entered.model.kind offer.item :=
    rearranged.same_read Node.kind (fun _ => rfl) offer.item
  constructor
  · intro other member accepted
    have lasts := (onward.lasts_entered other member).kept offer.item
      (calls.item_lt.trans_eq rearranged.size.symm)
    have callable' : (other.entered.model.kind offer.item).isCallable := by
      rwa [Model.kind, lasts.kind, ← Model.kind, kind]
    have takes : offer.item ∈ (other.verdict u).takers other.container :=
      accepted ▸ List.mem_cons_self
    exact (Offer.accepted_of_takes (later other member) callable' takes).2
  · have empty : ((offer.after u).model.node offer.item).members = ∅ := by
      have untaken : offer.item ∉ (offer.verdict u).takers offer.container :=
        fun takes => apart (Offer.accepted_of_takes stand callable takes).2
      exact ((members_accept calls.takers_lt).trans (if_neg untaken)).trans
        (calls.renewed callable).members
    rw [onward.members (kind ▸ callable) later absent, empty]
    rfl

end

end Draft.Hands

/-! ## The last occurrence -/

/-- The offer that a build makes of a cursor. -/
def offer? (u : TranslationUnit) (id : CursorId) : Option Offer :=
  (buildOffers u).find? fun offer => offer.id = id

/-- The node that a build accepts into another for a cursor. -/
def admitted? (u : TranslationUnit) (n : NodeId) (id : CursorId) : Option NodeId :=
  (offer? u id).bind fun offer => if offer.verdict u = .accepted n then some offer.item else none

theorem nodup_offered (valid : u.firstFault? = none) : ((buildOffers u).map Offer.id).Nodup := by
  rw [map_id_buildOffers]
  exact (List.nodup_cons.mp (nodup_visited valid)).2

theorem offer?_eq_some_iff (valid : u.firstFault? = none) {id : CursorId} {offer : Offer} :
    offer? u id = some offer ↔ offer ∈ buildOffers u ∧ offer.id = id := by
  constructor
  · intro found
    have same := List.find?_some found
    exact ⟨List.mem_of_find?_eq_some found, by simpa using same⟩
  · rintro ⟨member, rfl⟩
    cases found : offer? u offer.id with
    | none =>
      have missed := List.find?_eq_none.mp found offer member
      simp at missed
    | some other =>
      have same := List.find?_some found
      rw [decide_eq_true_iff] at same
      rw [List.inj_on_of_nodup_map (nodup_offered valid) (List.mem_of_find?_eq_some found) member same]

theorem admitted?_eq_some_iff (valid : u.firstFault? = none) {n item : NodeId} {id : CursorId} :
    admitted? u n id = some item ↔ ∃ offer ∈ buildOffers u,
      offer.id = id ∧ offer.verdict u = .accepted n ∧ offer.item = item := by
  simp only [admitted?, Option.bind_eq_some_iff, offer?_eq_some_iff valid, Option.ite_none_right_eq_some,
    Option.some.injEq, and_assoc]

theorem filterMap_eq_of_sublist {α β : Type} {read : α → Option β} {some' all : List α}
    (listed : some'.Sublist all) (distinct : all.Nodup)
    (silent : ∀ a ∈ all, a ∉ some' → read a = none) : all.filterMap read = some'.filterMap read := by
  induction listed with
  | slnil => rfl
  | @cons some' rest a listed ih =>
    obtain ⟨fresh, distinct⟩ := List.nodup_cons.mp distinct
    have none : read a = none := silent a List.mem_cons_self fun member => fresh (listed.subset member)
    rw [List.filterMap_cons_none none]
    exact ih distinct fun b member => silent b (List.mem_cons_of_mem a member)
  | @cons_cons some' rest a listed ih =>
    obtain ⟨fresh, distinct⟩ := List.nodup_cons.mp distinct
    have further : rest.filterMap read = some'.filterMap read := by
      refine ih distinct fun b member absent => silent b (List.mem_cons_of_mem a member) ?_
      rintro (_ | _) <;> contradiction
    rw [List.filterMap_cons, List.filterMap_cons, further]

section

variable {usr : String} {n : NodeId}

theorem item_eq_iff (memoized : (Session.start u).build.model.byUsr? usr = some n) {offer : Offer}
    (member : offer ∈ buildOffers u) : offer.item = n ↔ u.usrOf? offer.id = some usr := by
  have visited : offer.visit u ∈ buildVisits u :=
    map_visit_buildOffers u .standard ▸ List.mem_map_of_mem member
  exact (runs_build u .standard).item_eq_iff (indexed_opening u .standard) memoized visited

theorem occurrences_eq (memoized : (Session.start u).build.model.byUsr? usr = some n) :
    occurrences u usr = ((buildOffers u).filter fun offer => offer.item = n).map Offer.id := by
  rw [occurrences, ← map_id_buildOffers, List.filter_map]
  congr 1
  refine List.filter_congr fun offer member => ?_
  simp only [Function.comp_apply, decide_eq_decide]
  exact (item_eq_iff memoized member).symm

theorem exists_node_of_mem_occurrences {id : CursorId} (member : id ∈ occurrences u usr) :
    ∃ n, (Session.start u).build.model.byUsr? usr = some n := by
  have runs := runs_build u .standard
  have indexed := indexed_opening u .standard
  obtain ⟨visited, bears⟩ := List.mem_filter.mp member
  obtain ⟨visit, present, rfl⟩ := List.mem_map.mp visited
  refine ⟨visit.item, (runs.indexed indexed _ runs.final_mem usr visit.item).mpr ?_⟩
  rw [Node.usr_of_key? (runs.items indexed visit present).2]
  exact of_decide_eq_true bears

end

/-- A build that comes to the last occurrence of a symbol: what it has offered before, what it goes on
with, and nothing more of the symbol. -/
theorem exists_last_offer (valid : u.firstFault? = none) {usr : String} {n : NodeId}
    (memoized : (Session.start u).build.model.byUsr? usr = some n) {front : List CursorId}
    {last : CursorId} (visited : occurrences u usr = front ++ [last]) :
    ∃ container way children rest d c entered earlier later,
      Draft.Standing u .standard container way (.node last children :: rest) d earlier later ∧
      d.enter? u .standard last c = some (n, entered) ∧ u.cursor? last = some c := by
  have member : last ∈ occurrences u usr := visited ▸ List.mem_append_right _ List.mem_cons_self
  rw [occurrences_eq memoized] at member
  obtain ⟨offer, present, rfl⟩ := List.mem_map.mp member
  obtain ⟨made, same⟩ := List.mem_filter.mp present
  rw [decide_eq_true_iff] at same
  subst same
  have visit : offer.visit u ∈ buildVisits u :=
    map_visit_buildOffers u .standard ▸ List.mem_map_of_mem made
  obtain ⟨container, way, children, rest, d, ahead, c, entered, cursor, found, _⟩ :=
    Draft.Ahead.awaits_all u.tree.children .root _ visit
  obtain ⟨earlier, later, standing⟩ := ahead.exists_standing valid
  exact ⟨container, way, children, rest, d, c, entered, earlier, later, standing, found, cursor⟩

section

variable {container n : NodeId} {way : List NodeId} {last : CursorId}
  {children rest : List CursorTree} {d : Draft} {earlier later : List Offer}

/-- What is offered behind the offers below a cursor goes elsewhere than into the node of the cursor, if
that is not offered again. -/
theorem Draft.Standing.not_accepted_behind {behind : List Offer}
    (standing : Standing u .standard container way (.node last children :: rest) d earlier later)
    (outer : behind = offersAll u .standard container way rest
      (d.visit u .standard container way (.node last children)) ++ later)
    (clear : n ∉ way) (absent : ∀ offer ∈ behind, offer.item ≠ n)
    (direct : ∀ offer ∈ behind, offer.verdict u = .accepted n → offer.container = n) :
    ∀ offer ∈ behind, offer.verdict u ≠ .accepted n := by
  intro offer member accepted
  have here := direct offer member accepted
  rw [outer] at member absent
  rcases standing.container_behind offer member with higher | within
  · exact clear (here ▸ higher)
  · obtain ⟨other, present, same⟩ := List.mem_map.mp within
    exact absent other present (same.trans here)

/-- What goes into the node of a cursor from there on comes from the children of the cursor, where the
node is not offered again and nothing moves into it. -/
theorem Draft.Standing.map_item_accepted {entered : Draft} {c : Cursor} {below behind : List Offer}
    (valid : u.firstFault? = none)
    (standing : Standing u .standard container way (.node last children :: rest) d earlier later)
    (split : buildOffers u = earlier ++ ⟨container, last, c, n, entered⟩ :: (below ++ behind))
    (inner : below = offersAll u .standard n (n :: way) children (entered.accept u container n c))
    (outer : behind = offersAll u .standard container way rest
      (d.visit u .standard container way (.node last children)) ++ later)
    (clear : n ∉ way) (absent : ∀ offer ∈ below ++ behind, offer.item ≠ n)
    (direct : ∀ offer ∈ below ++ behind, offer.verdict u = .accepted n → offer.container = n) :
    ((below ++ behind).filter fun offer => offer.verdict u = .accepted n).map Offer.item =
      (u.childrenOf last).filterMap (admitted? u n) := by
  obtain ⟨listed, distinct, unmet⟩ := standing.unmet_children valid
  obtain ⟨absentBelow, absentBehind⟩ := List.forall_mem_append.mp absent
  obtain ⟨directBelow, directBehind⟩ := List.forall_mem_append.mp direct
  have elsewhere := standing.not_accepted_behind outer clear absentBehind directBehind
  let taken := below.filter fun offer => offer.verdict u = .accepted n
  have whole : (below ++ behind).filter (fun offer => offer.verdict u = .accepted n) = taken := by
    have none : behind.filter (fun offer => offer.verdict u = .accepted n) = [] :=
      List.filter_eq_nil_iff.mpr fun offer member => by simpa using elsewhere offer member
    rw [List.filter_append, none, List.append_nil]
  have mem_taken {offer : Offer} : offer ∈ taken ↔ offer ∈ below ∧ offer.verdict u = .accepted n := by
    rw [List.mem_filter, decide_eq_true_iff]
  have made : ∀ offer ∈ below, offer ∈ buildOffers u := fun offer member =>
    split ▸ List.mem_append_right _ (List.mem_cons_of_mem _ (List.mem_append_left _ member))
  have ordered : (taken.map Offer.id).Sublist (u.childrenOf last) := by
    have placed : taken = (below.filter fun offer => offer.container = n).filter
        fun offer => offer.verdict u = .accepted n := by
      rw [List.filter_filter]
      refine List.filter_congr fun offer member => ?_
      have direct := directBelow offer member
      simp_all
    have heads := Draft.map_id_filter_container_sublist children (n :: way)
      (entered.accept u container n c) (inner ▸ absentBelow)
    rw [← inner, listed] at heads
    rw [placed]
    exact (List.filter_sublist.map Offer.id).trans heads
  have silent : ∀ child ∈ u.childrenOf last, child ∉ taken.map Offer.id →
      admitted? u n child = none := by
    intro child member missing
    by_contra found
    obtain ⟨item, found⟩ := Option.ne_none_iff_exists'.mp found
    obtain ⟨offer, present, rfl, accepted, _⟩ := (admitted?_eq_some_iff valid).mp found
    rw [split] at present
    rcases List.mem_append.mp present with before | at'
    · exact (unmet offer.id member).2 (List.mem_map_of_mem before)
    · rcases List.mem_cons.mp at' with rfl | later
      · exact (unmet _ member).1 rfl
      · rcases List.mem_append.mp later with inside | outside
        · exact missing (List.mem_map_of_mem (mem_taken.mpr ⟨inside, accepted⟩))
        · exact elsewhere offer outside accepted
  rw [whole, filterMap_eq_of_sublist ordered distinct silent, List.filterMap_map,
    ← List.filterMap_eq_map]
  refine List.filterMap_congr fun offer member => ?_
  obtain ⟨inside, accepted⟩ := mem_taken.mp member
  exact ((admitted?_eq_some_iff valid).mpr ⟨offer, made offer inside, rfl, accepted, rfl⟩).symm

end

section

variable {usr : String} {n : NodeId} {front : List CursorId} {earlier behind : List Offer}
  {offer : Offer}

theorem offers_around_last (valid : u.firstFault? = none)
    (memoized : (Session.start u).build.model.byUsr? usr = some n)
    (split : buildOffers u = earlier ++ offer :: behind) (item : offer.item = n)
    (visited : occurrences u usr = front ++ [offer.id]) :
    front = (earlier.filter fun other => other.item = n).map Offer.id ∧
      ∀ other ∈ behind, other.item ≠ n := by
  have distinct := nodup_offered valid
  have occurs := occurrences_eq memoized
  rw [split, List.filter_append, List.filter_cons_of_pos (by simpa using item), List.map_append,
    List.map_cons, visited] at occurs
  rw [split, List.map_append, List.map_cons, List.nodup_append, List.nodup_cons] at distinct
  obtain ⟨_, ⟨later, _⟩, before⟩ := distinct
  have unmet : offer.id ∉ (earlier.filter fun other => other.item = n).map Offer.id := by
    intro member
    exact before _ ((List.filter_sublist.map Offer.id).subset member) _ List.mem_cons_self rfl
  have unmetLater : offer.id ∉ (behind.filter fun other => other.item = n).map Offer.id :=
    fun member => later ((List.filter_sublist.map Offer.id).subset member)
  obtain ⟨same, _, none⟩ := (List.append_cons_inj_of_notMem unmet unmetLater).mp occurs.symm
  refine ⟨same.symm, fun other member here => ?_⟩
  exact List.filter_eq_nil_iff.mp (List.map_eq_nil_iff.mp none) other member (by simpa using here)

theorem ne_root_of_isCallable {m : Model}
    (lasts : (opening u f).model.Lasts m) (callable : (m.kind n).isCallable) : n ≠ Model.root := by
  rintro rfl
  have kind := (lasts.kept Model.root Nat.zero_lt_one).kind
  rw [node_opening, if_pos (show Model.root.index = 0 from rfl)] at kind
  rw [Model.kind, kind] at callable
  cases callable

end

theorem Draft.Hands.known_iff {n : NodeId} {d : Draft} {made : List Offer}
    (hands : Hands u f (opening u f) made d) (proper : n ≠ Model.root) :
    n.index < d.model.size ↔ ∃ offer ∈ made, offer.item = n := by
  constructor
  · intro inside
    refine (hands.exists_offer inside).resolve_left fun only => proper ?_
    exact congrArg NodeId.mk (Nat.lt_one_iff.mp only)
  · rintro ⟨offer, member, rfl⟩
    exact hands.item_lt offer member

theorem comment_build {usr : String} {n : NodeId}
    (memoized : (Session.start u).build.model.byUsr? usr = some n)
    (callable : ((Session.start u).build.model.kind n).isCallable) :
    ((Session.start u).build.model.node n).comment =
      ((occurrences u usr).filterMap fun id => (u.cursor? id).bind Cursor.comment?).getLast? := by
  have walk := hands_build u .standard
  have outside : n.index ≠ 0 := fun first =>
    ne_root_of_isCallable walk.lasts callable (congrArg NodeId.mk first)
  have told : ((buildOffers u).filter fun offer => offer.item = n).filterMap (·.cursor.comment?) =
      (occurrences u usr).filterMap fun id => (u.cursor? id).bind Cursor.comment? := by
    rw [occurrences_eq memoized, List.filterMap_map]
    refine List.filterMap_congr fun offer member => ?_
    obtain ⟨_, calls⟩ := walk.exists_calls offer (List.mem_filter.mp member).1
    exact (congrArg (Option.bind · Cursor.comment?) calls.cursor).symm
  have comment := walk.comment callable
  rw [told, node_opening, if_neg outside] at comment
  exact comment.trans Option.or_none

/-- What a callable is after a build, told by its last occurrence. -/
structure SettlesAt (u : TranslationUnit) (usr : String) (n : NodeId) (last : CursorId) (c : Cursor) :
    Prop where
  reflects : ((Session.start u).build.model.node n).Reflects last c
  isInline : ((Session.start u).build.model.node n).isInline ↔ 2 ≤ (occurrences u usr).length
  comment : ((Session.start u).build.model.node n).comment =
    ((occurrences u usr).filterMap fun id => (u.cursor? id).bind Cursor.comment?).getLast?
  /-- What was accepted into it for the children of the last occurrence, in their order. -/
  members : ((Session.start u).build.model.node n).members =
    .ofList ((u.childrenOf last).filterMap (admitted? u n))

/-- In a unit without faults in which the occurrences of a symbol are of one kind, a callable none of
whose occurrences stands below another ends up as the last of them. It is marked as inline if there
are others, has the last comment that any of them has, and has the members that the last one brings,
all of them and nothing else. -/
theorem callable_settles_at_last (valid : u.firstFault? = none) (uniform : u.OneKindPerSymbol)
    {usr : String} {front : List CursorId} {last : CursorId}
    (visited : occurrences u usr = front ++ [last]) {c : Cursor} (cursor : u.cursor? last = some c)
    {kind : CallableKind} (callable : Factory.standardKind? c.kind = some (.callable kind))
    (apart : ∀ a ∈ occurrences u usr, ∀ b ∈ occurrences u usr, ∀ way, u.Leads a way b → way = []) :
    ∃ n, (Session.start u).build.model.byUsr? usr = some n ∧
      (Session.start u).build.model.kind n = .callable kind ∧ SettlesAt u usr n last c := by
  have present : last ∈ occurrences u usr := visited ▸ List.mem_append_right _ List.mem_cons_self
  obtain ⟨n, memoized⟩ := exists_node_of_mem_occurrences present
  obtain ⟨container, way, children, rest, d, c', entered, earlier, later, standing, found, cursor'⟩ :=
    exists_last_offer valid memoized visited
  cases cursor.symm.trans cursor'
  have walk := hands_build u .standard
  have stands := walk.standardKind? uniform (persist_opening (stands_root valid))
  have occurs := occurrences_eq memoized
  -- The offer for the last occurrence parts the offers of the build.
  have split := standing.offers
  rw [Draft.offersAll, Draft.offers, cursor] at split
  simp only [found] at split
  rw [List.append_assoc, List.append_assoc, List.cons_append] at split
  obtain ⟨begun, before, ends⟩ := (split ▸ walk).split
  cases ends with
  | offer calls onward =>
    have own : Factory.standardKind? c.kind = some (entered.model.kind n) :=
      stands _ (split ▸ List.mem_append_right _ List.mem_cons_self)
    have kindEntered : entered.model.kind n = .callable kind :=
      (Option.some.inj (own.symm.trans callable) :)
    have isCallable : (entered.model.kind n).isCallable := by rw [kindEntered]; rfl
    have proper : n ≠ Model.root := ne_root_of_isCallable (before.lasts.trans calls.lasts) isCallable
    have clear : n ∉ way := by
      intro higher
      rcases standing.above n higher with rfl | ⟨offer, member, same, leads⟩
      · exact proper rfl
      · obtain ⟨path, nonempty, onward⟩ := leads _ List.mem_cons_self
        have other : offer.id ∈ occurrences u usr := by
          rw [occurs]
          refine List.mem_map_of_mem (List.mem_filter.mpr ⟨?_, decide_eq_true same⟩)
          exact split ▸ List.mem_append_left _ member
        exact nonempty (apart offer.id other last present path onward)
    rw [if_neg clear] at split onward
    obtain ⟨others, absent⟩ := offers_around_last valid memoized split rfl visited
    obtain ⟨reflects, known⟩ := Draft.Hands.reflects_last calls onward isCallable absent
    obtain ⟨direct, members⟩ := Draft.Hands.members_last calls onward isCallable absent
      (fun offer member => stands offer (split ▸ List.mem_append_right _ member))
      (fun same => clear ((show container = n from same) ▸ standing.inside))
    have lasts := (Offer.rearranges_after ⟨container, last, c, n, entered⟩).lasts.trans onward.lasts
    have kindFinal : (Session.start u).build.model.kind n = .callable kind :=
      ((lasts.kept n calls.item_lt).kind).trans kindEntered
    refine ⟨n, memoized, kindFinal, reflects, ?_, ?_, ?_⟩
    · have met := before.known_iff proper
      refine (known.trans met).trans ?_
      rw [visited, others, List.length_append, List.length_map, List.length_singleton]
      simp [Nat.succ_le_iff, List.length_pos_iff_exists_mem]
    · exact comment_build memoized (by rw [kindFinal]; rfl)
    · rw [← standing.map_item_accepted valid split rfl rfl clear absent direct]
      exact members

/-- `/** Strikes once. */ void strike(int force);`, which is met again as a friend of `struct Tower`, and
once more with other parameters. The last of these has the symbol of the first. -/
def gong : TranslationUnit where
  path := "gong.h"
  root := ⟨0⟩
  cursors := #[
    { kind := .translationUnit, children := [⟨1⟩, ⟨3⟩, ⟨5⟩] },
    { kind := .functionDecl, spelling := "strike", usr := some "c:strike", semanticParent := some ⟨0⟩,
      briefComment := some "Strikes once.", children := [⟨2⟩] },
    { kind := .parmDecl, spelling := "force", usr := some "c:force", semanticParent := some ⟨1⟩ },
    { kind := .structDecl, spelling := "Tower", usr := some "c:Tower", semanticParent := some ⟨0⟩,
      children := [⟨4⟩] },
    { kind := .functionDecl, spelling := "strike", usr := some "c:strike", semanticParent := some ⟨0⟩,
      briefComment := some " " },
    { kind := .functionDecl, spelling := "strike", displayName := some "strike(int, int)",
      usr := some "c:strike", semanticParent := some ⟨0⟩, location := ⟨some "gong.h", 4, 6⟩,
      flags := { isDefinition := true }, children := [⟨6⟩, ⟨7⟩, ⟨8⟩] },
    { kind := .parmDecl, spelling := "count", usr := some "c:count", semanticParent := some ⟨5⟩ },
    { kind := .parmDecl, spelling := "force", usr := some "c:force", semanticParent := some ⟨5⟩ },
    { kind := .parmDecl, spelling := "count", usr := some "c:count", semanticParent := some ⟨5⟩ }]
  types := #[]

/-- The function has the parameters of its last occurrence, and the comment of its first. -/
theorem callable_settles_at_last_gong :
    gong.firstFault? = none ∧ gong.OneKindPerSymbol ∧
      occurrences gong "c:strike" = [⟨1⟩, ⟨4⟩, ⟨5⟩] ∧
      (Session.start gong).build.model.byUsr? "c:strike" = some ⟨1⟩ ∧
      SettlesAt gong "c:strike" ⟨1⟩ ⟨5⟩ gong.cursors[5] ∧
      (Session.start gong).build.model.membersOf ⟨1⟩ = [⟨4⟩, ⟨2⟩] ∧
      ((Session.start gong).build.model.node ⟨1⟩).comment = some "Strikes once." := by
  have valid : gong.firstFault? = none := by decide +kernel
  have uniform : gong.OneKindPerSymbol := by decide +kernel
  have visited : occurrences gong "c:strike" = [⟨1⟩, ⟨4⟩, ⟨5⟩] := by decide +kernel
  have memoized : (Session.start gong).build.model.byUsr? "c:strike" = some ⟨1⟩ := by decide +kernel
  have leaves : ∀ a ∈ ([⟨1⟩, ⟨4⟩, ⟨5⟩] : List CursorId), ∀ child ∈ gong.childrenOf a,
      gong.childrenOf child = [] ∧ child ∉ ([⟨1⟩, ⟨4⟩, ⟨5⟩] : List CursorId) := by decide
  have apart : ∀ a ∈ occurrences gong "c:strike", ∀ b ∈ occurrences gong "c:strike", ∀ way,
      gong.Leads a way b → way = [] := by
    rw [visited]
    intro a first b second way leads
    cases leads with
    | here => rfl
    | down listed onward =>
      obtain ⟨childless, other⟩ := leaves a first _ listed
      cases onward with
      | here => exact absurd second other
      | down further _ =>
        rw [childless] at further
        cases further
  have split : occurrences gong "c:strike" = [⟨1⟩, ⟨4⟩] ++ [⟨5⟩] := visited
  have cursor : gong.cursor? ⟨5⟩ = some gong.cursors[5] := rfl
  have callable : Factory.standardKind? gong.cursors[5].kind = some (.callable .function) := rfl
  obtain ⟨n, found, _, settles⟩ := callable_settles_at_last valid uniform split cursor callable apart
  cases found.symm.trans memoized
  exact ⟨valid, uniform, visited, memoized, settles, by decide +kernel, by decide +kernel⟩

end Bindery
