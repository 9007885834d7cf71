import Bindery.Proofs.Binding.Closure
import Bindery.Proofs.Binding.Order

/-! A plan is made in three passes, and they agree. Each of them asks for needs and looks at
visibility and exclusion by itself; what the first settles, the second sorts and the third plans,
and what the third misses the first has left out. -/

set_option autoImplicit false

namespace Bindery.Binding

open Ast (TranslationUnit)
open Project (EmitConfig)

def Item.members : Item → List Member
  | .record item => item.constructors ++ item.fields ++ item.methods
  | .enumeration _ => []
  | .function member => [member]

def Item.bases : Item → List NodeId
  | .record item => item.bases
  | _ => []

variable {u : TranslationUnit} {p : Policy} {emit : EmitConfig} {d e : Draft} {bound : List NodeId}

/-! ## What is planned for one entity -/

section

variable (u p d bound)

structure PlansMember (id : NodeId) (member : Member) : Prop where
  node : member.node = id
  missing : ∀ other ∈ member.missing, Needs u d id other ∧ other ∉ bound ∧
    (other.index < d.model.size → ¬ p.isCaster d.model other)

structure PlansRecord (id : NodeId) (item : RecordItem) : Prop where
  bases : ∃ found, Meaning.bases? u d.model id = some found ∧
    item.bases = found.resolved.toList.filter bound.contains
  members : ∀ member ∈ (Item.record item).members,
    ∃ which, PlannedMember p d id which ∧ PlansMember u p d bound which member

inductive PlansItem (id : NodeId) : Item → Prop where
  | record {item : RecordItem} (isRecord : (d.model.kind id).isRecord)
      (plans : PlansRecord u p d bound id item) : PlansItem id (.record item)
  | enumeration (isEnum : d.model.kind id = .enumeration) (item : EnumItem) :
      PlansItem id (.enumeration item)
  | function {member : Member} (isFunction : d.model.kind id = .callable .function)
      (plans : PlansMember u p d bound id member) : PlansItem id (.function member)

structure PlansEntry (id : NodeId) (entry : Entry) : Prop where
  node : entry.node = id
  item : PlansItem u p d bound id entry.item

end

theorem map_node_eq {ids : List NodeId} {entries : List Entry}
    (planned : List.Forall₂ (PlansEntry u p d bound) ids entries) :
    entries.map (·.node) = ids := by
  induction planned with
  | nil => rfl
  | cons plans _ ih => rw [List.map_cons, plans.node, ih]

theorem forall₂_filterMap {α β : Type} {related : α → β → Prop} {items : List α}
    {found : List (Option β)}
    (matched : List.Forall₂ (fun item answer => ∃ b, answer = some b ∧ related item b) items
      found) :
    List.Forall₂ related items (found.filterMap id) := by
  induction matched with
  | nil => exact .nil
  | cons right _ ih =>
    obtain ⟨b, rfl, right⟩ := right
    exact .cons right ih

section

variable (reached : Reached u d) (coherent : Coherent u d.model [] e.model)

include reached coherent

theorem meets_planMember (id : NodeId) :
    Meets u d.model e (Plan.planMember u p bound id) (PlansMember u p d bound id) := by
  unfold Plan.planMember
  refine (meets_dependencies coherent id).bind ?_
  intro needed e' coherent' _ means
  apply Meets.model
  refine .pure coherent' ⟨rfl, fun other missing => ?_⟩
  simp only [List.mem_filter, Bool.not_eq_true', Bool.or_eq_false_iff] at missing
  obtain ⟨member, ⟨unbound, uncast⟩, _⟩ := missing
  refine ⟨(needs_iff reached id other).mpr ⟨needed, means, member⟩, by simpa using unbound, ?_⟩
  intro inside
  rw [← isCaster_eq reached coherent'.grown inside, uncast]
  exact Bool.false_ne_true

theorem meets_planMembers (ids : List NodeId) :
    Meets u d.model e (ids.mapM (Plan.planMember u p bound)) fun members =>
      ∀ member ∈ members, ∃ id ∈ ids, PlansMember u p d bound id member :=
  (Meets.mapM ids coherent fun id _ _ coherent' _ => meets_planMember reached coherent' id).weaken
    fun _ planned _ member => exists_left_of_mem planned member

theorem meets_planRecord {id : NodeId} (isRecord : (d.model.kind id).isRecord) :
    Meets u d.model e (Plan.planRecord u p emit bound id) (PlansRecord u p d bound id) := by
  unfold Plan.planRecord
  refine (meets_bases coherent isRecord).bind ?_
  intro bases e₀ coherent₀ _ listed
  apply Meets.model
  have shown {wanted : Bool} {ids : List NodeId} {which : NodeId}
      (member : which ∈ if wanted then ids.filter (p.shows e₀.model) else []) :
      which ∈ ids.filter (p.shows e₀.model) := by
    split at member
    · exact member
    · cases member
  -- All three lists are taken from the model as it was before the first member was planned.
  refine (meets_planMembers reached coherent₀ _).bind fun constructors e₁ coherent₁ _ first => ?_
  refine (meets_planMembers reached coherent₁ _).bind fun fields e₂ coherent₂ _ second => ?_
  refine (meets_planMembers reached coherent₂ _).bind fun methods e₃ coherent₃ _ third => ?_
  refine .pure coherent₃ ⟨?_, ?_⟩
  · obtain ⟨found, means, rfl⟩ := Option.map_eq_some_iff.mp listed
    exact ⟨found, means, rfl⟩
  · intro member present
    have planned : ∃ which,
        which ∈ (e₀.model.fields id ++ e₀.model.methods id ++ e₀.model.constructors id).filter
          (p.shows e₀.model) ∧ PlansMember u p d bound which member := by
      simp only [List.filter_append, List.mem_append]
      rcases List.mem_append.mp present with early | last
      · rcases List.mem_append.mp early with constructor_ | field
        · obtain ⟨which, inside, plans⟩ := first member constructor_
          exact ⟨which, .inr (shown inside), plans⟩
        · obtain ⟨which, inside, plans⟩ := second member field
          exact ⟨which, .inl (.inl (shown inside)), plans⟩
      · obtain ⟨which, inside, plans⟩ := third member last
        exact ⟨which, .inl (.inr (shown inside)), plans⟩
    obtain ⟨which, inside, plans⟩ := planned
    exact ⟨which, (mem_plannedMembers_iff reached coherent₀.grown id which).mp inside, plans⟩

-- Every bindable entity has an item.
theorem meets_planItem {id : NodeId} (bindable : (d.model.kind id).isBindable) :
    Meets u d.model e (Plan.planItem u p emit bound id) fun found =>
      ∃ item, found = some item ∧ PlansItem u p d bound id item := by
  unfold Plan.planItem
  apply Meets.model
  rw [coherent.grown.kind_eq]
  split
  · next kind =>
    have isRecord : (d.model.kind id).isRecord := by rw [kind]; rfl
    refine (meets_planRecord reached coherent isRecord).bind ?_
    exact fun item _ coherent' _ plans => .pure coherent' ⟨_, rfl, .record isRecord plans⟩
  · next kind => exact .pure coherent ⟨_, rfl, .enumeration kind _⟩
  · next kind =>
    refine (meets_planMember reached coherent id).bind ?_
    exact fun member _ coherent' _ plans => .pure coherent' ⟨_, rfl, .function kind plans⟩
  · next noRecord noEnum noFunction =>
    unfold NodeKind.isBindable at bindable
    split at bindable
    · next kind => exact absurd kind (noRecord _)
    · next kind => exact absurd kind (noRecord _)
    · next kind => exact absurd kind noEnum
    · next kind => exact absurd kind noFunction
    · cases bindable

theorem meets_planEntry {id : NodeId} (bindable : (d.model.kind id).isBindable) :
    Meets u d.model e (Plan.planEntry u p emit bound id) fun found =>
      ∃ entry, found = some entry ∧ PlansEntry u p d bound id entry := by
  unfold Plan.planEntry
  refine (meets_planItem reached coherent bindable).bind ?_
  rintro _ e' coherent' _ ⟨item, rfl, plans⟩
  refine (meets_dependencies coherent' id).bind ?_
  intro needed e'' coherent'' _ _
  apply Meets.model
  exact .pure coherent'' ⟨_, rfl, rfl, plans⟩

theorem meets_ofOrder {sorted : List NodeId}
    (bindable : ∀ id ∈ sorted, (d.model.kind id).isBindable) :
    Meets u d.model e (Plan.ofOrder u p emit sorted) fun plan =>
      List.Forall₂ (PlansEntry u p d (sorted.filter fun id => (d.model.node id).isPublic))
        (sorted.filter fun id => (d.model.node id).isPublic) plan.entries := by
  unfold Plan.ofOrder
  apply Meets.model
  have same : (sorted.filter fun id => (e.model.node id).isPublic) =
      sorted.filter fun id => (d.model.node id).isPublic :=
    List.filter_congr fun id _ => coherent.grown.isPublic_eq id
  dsimp only
  rw [same]
  generalize shown : (sorted.filter fun id => (d.model.node id).isPublic) = bound
  refine (Meets.mapM bound coherent fun id member e' coherent' _ =>
    meets_planEntry reached coherent' (bindable id ?_)).bind ?_
  · rw [← shown] at member
    exact (List.mem_filter.mp member).1
  · exact fun found e' coherent' _ planned => .pure coherent' (forall₂_filterMap planned)

end

/-! ## The three passes -/

/-- Leaving elements out of a list does not change which of two others comes first. -/
theorem idxOf_filter_lt {α : Type} [DecidableEq α] {items : List α} {keep : α → Bool} {a b : α}
    (first : keep a) (second : keep b) (before : items.idxOf b < items.idxOf a) :
    (items.filter keep).idxOf b < (items.filter keep).idxOf a := by
  induction items with
  | nil => cases before
  | cons c rest ih =>
    by_cases here : c = b
    · subst here
      have apart : c ≠ a := by
        rintro rfl
        exact Nat.lt_irrefl _ before
      rw [List.filter_cons_of_pos second, List.idxOf_cons_self, List.idxOf_cons_ne _ apart]
      exact Nat.zero_lt_succ _
    · have apart : c ≠ a := by
        rintro rfl
        rw [List.idxOf_cons_self] at before
        exact Nat.not_lt_zero _ before
      rw [List.idxOf_cons_ne _ here, List.idxOf_cons_ne _ apart] at before
      have later := ih (Nat.lt_of_succ_lt_succ before)
      by_cases kept : keep c
      · rw [List.filter_cons_of_pos kept, List.idxOf_cons_ne _ here, List.idxOf_cons_ne _ apart]
        exact Nat.succ_lt_succ later
      · rw [List.filter_cons_of_neg kept]
        exact later

/-- What each pass hands on: a closure, an order of what it settles, and a plan of what shows. -/
structure Passes (u : TranslationUnit) (p : Policy) (d : Draft) (roots : List NodeId) (c : Closure)
    (sorted : List NodeId) (plan : Plan) : Prop where
  closure : IsClosure u p d roots c
  perm : sorted.Perm c.settled.toList
  ordered : Ordered (Edge u d c) sorted
  nodes : plan.nodes = sorted.filter fun id => (d.model.node id).isPublic
  entries : ∀ entry ∈ plan.entries, PlansEntry u p d plan.nodes entry.node entry

variable {roots : List NodeId} {plan : Plan}

/-- A plan that is made was made in three passes. -/
theorem exists_passes (reached : Reached u d)
    (bindable : ∀ id ∈ roots, (d.model.kind id).isBindable)
    (planned : Plan.ofRoots u p emit roots d = .ok (.ok plan, e)) :
    ∃ c e₁ sorted e₂, closure u p roots d = .ok (c, e₁) ∧ order u c e₁ = .ok (.ok sorted, e₂) ∧
      Passes u p d roots c sorted plan := by
  obtain ⟨c, e₁, closes, planned⟩ := Query.exists_of_bind_eq_ok planned
  obtain ⟨outcome, e₂, orders, planned⟩ := Query.exists_of_bind_eq_ok planned
  have known (id : NodeId) (member : id ∈ roots) : id.index < d.model.size :=
    index_lt_of_isBindable (bindable id member)
  obtain ⟨coherent₁, _, spec⟩ := (meets_closure reached known).of_ok closes
  obtain ⟨coherent₂, _, outcome⟩ := (meets_order reached coherent₁).of_ok orders
  cases outcome with
  | ring _ _ => cases planned
  | @sorted sorted perm ordered =>
    obtain ⟨made, e₃, plans, planned⟩ := Query.exists_of_bind_eq_ok planned
    cases planned
    have settles : ∀ id ∈ sorted, (d.model.kind id).isBindable := fun id member =>
      (spec.mem_settled_iff.mp (perm.mem_iff.mp member)).isBindable bindable
    obtain ⟨_, _, entries⟩ := (meets_ofOrder reached coherent₂ settles).of_ok plans
    generalize shown : (sorted.filter fun id => (d.model.node id).isPublic) = bound at entries
    have nodes : plan.nodes = bound := map_node_eq entries
    refine ⟨c, e₁, sorted, e₂, closes, orders, spec, perm, ordered, nodes.trans shown.symm, ?_⟩
    intro entry member
    obtain ⟨id, _, plans⟩ := exists_left_of_mem entries member
    rw [plans.node, nodes]
    exact plans

namespace Passes

variable {c : Closure} {sorted : List NodeId}

theorem mem_nodes_iff (passes : Passes u p d roots c sorted plan) {id : NodeId} :
    id ∈ plan.nodes ↔ id ∈ c.settled ∧ (d.model.node id).isPublic := by
  rw [passes.nodes, List.mem_filter, passes.perm.mem_iff]
  rfl

theorem nodup_nodes (passes : Passes u p d roots c sorted plan) : plan.nodes.Nodup := by
  rw [passes.nodes]
  exact (passes.perm.nodup_iff.mpr c.settled.nodup).filter _

theorem settled_of_entry (passes : Passes u p d roots c sorted plan) {entry : Entry}
    (member : entry ∈ plan.entries) : entry.node ∈ c.settled :=
  (passes.mem_nodes_iff.mp (List.mem_map_of_mem member)).1

-- A planned member is described, and what it needs is brought in by its entry.
theorem of_member (passes : Passes u p d roots c sorted plan) {entry : Entry}
    (present : entry ∈ plan.entries) {member : Member} (listed : member ∈ entry.item.members) :
    PlansMember u p d plan.nodes member.node member ∧
      ∀ other, (d.model.kind other).isBindable → Needs u d member.node other →
        Successor u p d entry.node other := by
  obtain ⟨_, item⟩ := passes.entries entry present
  generalize entry.item = planned at item listed
  cases item with
  | record isRecord plans =>
    obtain ⟨which, owned, described⟩ := plans.members member listed
    rw [described.node]
    exact ⟨described, fun other bindable needs =>
      ⟨bindable, .inr ⟨isRecord, .inr ⟨which, owned, needs⟩⟩⟩⟩
  | enumeration _ _ => cases listed
  | function _ plans =>
    cases List.mem_singleton.mp listed
    rw [plans.node]
    exact ⟨plans, fun other bindable needs => ⟨bindable, .inl needs⟩⟩

/-- A listed base is a base of its record and has an entry. -/
theorem of_base (passes : Passes u p d roots c sorted plan) {entry : Entry}
    (present : entry ∈ plan.entries) {base : NodeId} (listed : base ∈ entry.item.bases) :
    base ∈ plan.nodes ∧ (d.model.kind entry.node).isRecord ∧
      ∃ found, Meaning.bases? u d.model entry.node = some found ∧ base ∈ found.resolved := by
  obtain ⟨_, item⟩ := passes.entries entry present
  generalize entry.item = planned at item listed
  cases item with
  | record isRecord plans =>
    obtain ⟨found, means, same⟩ := plans.bases
    rw [Item.bases, same, List.mem_filter] at listed
    exact ⟨by simpa using listed.2, isRecord, found, means, listed.1⟩
  | enumeration _ _ => cases listed
  | function _ _ => cases listed

-- The closure goes on to everything that an entry brings in, unless it leaves it out.
theorem settled_of_successor (passes : Passes u p d roots c sorted plan) {entry : Entry}
    (present : entry ∈ plan.entries) {other : NodeId} (edge : Successor u p d entry.node other)
    (kept : c.veto? other = none) : other ∈ c.settled := by
  -- Nothing blocks it, for a blocked entity that is brought in has a veto.
  apply passes.closure.least.1.next entry.node (passes.settled_of_entry present) other edge
  intro veto blocked
  have known := (passes.closure.vetoed other veto).mpr
    ⟨blocked, .inr ⟨entry.node, passes.settled_of_entry present, edge⟩⟩
  rw [kept] at known
  cases known

theorem base_before (passes : Passes u p d roots c sorted plan) (reached : Reached u d)
    {entry : Entry} (present : entry ∈ plan.entries) {base : NodeId}
    (listed : base ∈ entry.item.bases) :
    plan.nodes.idxOf base < plan.nodes.idxOf entry.node := by
  obtain ⟨bound, isRecord, found, means, member⟩ := passes.of_base present listed
  have needed := Meaning.mem_needs?_of_base isRecord means member
  -- A base is settled and needed, and so among what the order puts before its record.
  have edge : Edge u d c entry.node base :=
    ⟨passes.settled_of_entry present, (needs_iff reached _ _).mpr needed,
      (passes.mem_nodes_iff.mp bound).1,
      fun same => Meaning.not_mem_bases? means (same ▸ member)⟩
  rw [passes.nodes]
  apply idxOf_filter_lt _ _ (passes.ordered _ _ edge)
  · exact (passes.mem_nodes_iff.mp (List.mem_map_of_mem present)).2
  · exact (passes.mem_nodes_iff.mp bound).2

-- What a member misses was met by the closure through the entry. That it has no entry of its own
-- has its reason there, or in its kind or access.
theorem reason_of_missing (passes : Passes u p d roots c sorted plan) {entry : Entry}
    (present : entry ∈ plan.entries) {member : Member} (listed : member ∈ entry.item.members)
    {other : NodeId} (missing : other ∈ member.missing) :
    ¬ (d.model.kind other).isBindable ∨ ¬ (d.model.node other).isPublic ∨
      c.veto? other = some .excluded ∨ c.veto? other = some .unresolvedBase := by
  by_contra none
  simp only [not_or, not_not] at none
  obtain ⟨bindable, isPublic, included, resolved⟩ := none
  obtain ⟨described, brings⟩ := passes.of_member present listed
  obtain ⟨needs, unbound, uncast⟩ := described.missing other missing
  cases known : c.veto? other with
  | none =>
    have settled := passes.settled_of_successor present (brings other bindable needs) known
    exact unbound (passes.mem_nodes_iff.mpr ⟨settled, isPublic⟩)
  | some veto =>
    cases veto with
    | caster =>
      have blocked := ((passes.closure.vetoed other .caster).mp known).1
      exact uncast (index_lt_of_isBindable bindable) blocked
    | excluded => exact included known
    | unresolvedBase => exact resolved known

end Passes

/-- Closure, order and plan agree on what is bound. The entries are what the closure settles and
what shows of it, in the order of binding; a listed base has an entry before that of its record; and
a planned member misses what cannot be bound, does not show or was left out, and nothing else. -/
theorem plan_agrees (reached : Reached u d) (p : Policy) (emit : EmitConfig) (roots : List NodeId)
    (bindable : ∀ id ∈ roots, (d.model.kind id).isBindable) (plan : Plan) (e : Draft)
    (planned : Plan.ofRoots u p emit roots d = .ok (.ok plan, e)) :
    ∃ c e₁ sorted e₂, closure u p roots d = .ok (c, e₁) ∧ order u c e₁ = .ok (.ok sorted, e₂) ∧
      plan.nodes = sorted.filter (fun id => (d.model.node id).isPublic) ∧ plan.nodes.Nodup ∧
      (∀ id, id ∈ plan.nodes ↔ id ∈ c.settled ∧ (d.model.node id).isPublic) ∧
      ∀ entry ∈ plan.entries,
        (∀ base ∈ entry.item.bases,
          base ∈ plan.nodes ∧ plan.nodes.idxOf base < plan.nodes.idxOf entry.node) ∧
        ∀ member ∈ entry.item.members,
          (∀ other ∈ member.missing, ¬ (d.model.kind other).isBindable ∨
            ¬ (d.model.node other).isPublic ∨ c.veto? other = some .excluded ∨
            c.veto? other = some .unresolvedBase) ∧
          ∀ other, Needs u d member.node other → (d.model.kind other).isBindable →
            (d.model.node other).isPublic → c.veto? other = none → other ∈ plan.nodes := by
  obtain ⟨c, e₁, sorted, e₂, closes, orders, passes⟩ := exists_passes reached bindable planned
  refine ⟨c, e₁, sorted, e₂, closes, orders, passes.nodes, passes.nodup_nodes,
    fun _ => passes.mem_nodes_iff, fun entry present => ⟨?_, fun member listed => ⟨?_, ?_⟩⟩⟩
  · exact fun base listed =>
      ⟨(passes.of_base present listed).1, passes.base_before reached present listed⟩
  · exact fun other missing => passes.reason_of_missing present listed missing
  · intro other needs bindable isPublic kept
    obtain ⟨_, brings⟩ := passes.of_member present listed
    exact passes.mem_nodes_iff.mpr
      ⟨passes.settled_of_successor present (brings other bindable needs) kept, isPublic⟩

/-- A record is planned after its base. -/
theorem plan_agrees_shapes :
    (∀ id ∈ [(⟨2⟩ : NodeId)], (shapesDraft.model.kind id).isBindable) ∧
      ∃ plan e, Plan.ofRoots shapes {} {} [⟨2⟩] shapesDraft = .ok (.ok plan, e) ∧
        plan.nodes = [⟨1⟩, ⟨2⟩] ∧
        ∀ entry ∈ plan.entries, ∀ base ∈ entry.item.bases,
          plan.nodes.idxOf base < plan.nodes.idxOf entry.node := by
  have bindable : ∀ id ∈ [(⟨2⟩ : NodeId)], (shapesDraft.model.kind id).isBindable := by
    decide +kernel
  have computed : (Plan.ofRoots shapes {} {} [⟨2⟩] shapesDraft).toOption.bind
      (fun ended => ended.1.toOption.map Plan.nodes) = some [⟨1⟩, ⟨2⟩] := by decide +kernel
  match planned : Plan.ofRoots shapes {} {} [⟨2⟩] shapesDraft with
  | .ok (.ok plan, e) =>
    rw [planned] at computed
    obtain ⟨_, _, _, _, _, _, _, _, _, entries⟩ :=
      plan_agrees reached_shapes {} {} [⟨2⟩] bindable plan e planned
    exact ⟨bindable, plan, e, rfl, Option.some.inj computed, fun entry present base listed =>
      ((entries entry present).1 base listed).2⟩
  | .ok (.error _, _) | .error _ =>
    rw [planned] at computed
    cases computed

/-! ## What never comes into a plan -/

/-- Public, and excluded neither by name nor, for a callable, by the key of the overload. -/
structure Allowed (p : Policy) (m : Model) (id : NodeId) : Prop where
  isPublic : (m.node id).isPublic
  name : m.fullName id ∉ p.excluded
  overload : (m.kind id).isCallable → m.signatureKey id ∉ p.excluded

theorem allowed_iff {m : Model} {id : NodeId} :
    Allowed p m id ↔ (m.node id).isPublic ∧ ¬ p.excludes m id := by
  constructor
  · rintro ⟨isPublic, name, overload⟩
    refine ⟨isPublic, ?_⟩
    simpa [Policy.excludes, Policy.excludesKey, name] using overload
  · rintro ⟨isPublic, included⟩
    simp only [Policy.excludes, Policy.excludesKey, Bool.or_eq_true, Bool.and_eq_true,
      decide_eq_true_eq, not_or, not_and] at included
    exact ⟨isPublic, included.1, included.2⟩

namespace Passes

variable {c : Closure} {sorted : List NodeId}

theorem of_mem_nodes (passes : Passes u p d roots c sorted plan) {id : NodeId}
    (member : id ∈ plan.nodes) :
    Allowed p d.model id ∧ ¬ p.isCaster d.model id ∧ ¬ Blocked u p d id .unresolvedBase := by
  obtain ⟨settled, isPublic⟩ := passes.mem_nodes_iff.mp member
  have free := (passes.closure.mem_settled_iff.mp settled).free
  have uncast : ¬ p.isCaster d.model id := free .caster
  exact ⟨allowed_iff.mpr ⟨isPublic, fun excluded => free .excluded ⟨uncast, excluded⟩⟩, uncast,
    free .unresolvedBase⟩

theorem allowed_of_member (passes : Passes u p d roots c sorted plan) {entry : Entry}
    (present : entry ∈ plan.entries) {member : Member} (listed : member ∈ entry.item.members) :
    Allowed p d.model member.node := by
  have allowed := (passes.of_mem_nodes (List.mem_map_of_mem present)).1
  obtain ⟨_, item⟩ := passes.entries entry present
  generalize entry.item = planned at item listed
  cases item with
  | record _ plans =>
    obtain ⟨which, ⟨_, shows⟩, described⟩ := plans.members member listed
    simp only [Policy.shows, Bool.and_eq_true, Bool.not_eq_true', ← Bool.not_eq_true] at shows
    rw [described.node]
    exact allowed_iff.mpr shows
  | enumeration _ _ => cases listed
  | function _ plans =>
    cases List.mem_singleton.mp listed
    rw [plans.node]
    exact allowed

theorem exists_bases (passes : Passes u p d roots c sorted plan) {entry : Entry}
    (present : entry ∈ plan.entries) (isRecord : (d.model.kind entry.node).isRecord) :
    ∃ found, Meaning.bases? u d.model entry.node = some found := by
  obtain ⟨_, item⟩ := passes.entries entry present
  generalize entry.item = planned at item
  cases item with
  | record _ plans =>
    obtain ⟨found, means, _⟩ := plans.bases
    exact ⟨found, means⟩
  | enumeration isEnum _ => simp [isEnum, NodeKind.isRecord] at isRecord
  | function isFunction _ => simp [isFunction, NodeKind.isRecord] at isRecord

end Passes

/-- Whatever the way by which an entity is met, exclusion wins: no entry, listed base or planned
member is hidden or excluded, no entry or base is converted by the runtime, and where records with
unresolved bases are dropped, no entry is one. -/
theorem plan_allows (reached : Reached u d) (p : Policy) (emit : EmitConfig) (roots : List NodeId)
    (bindable : ∀ id ∈ roots, (d.model.kind id).isBindable) (plan : Plan) (e : Draft)
    (planned : Plan.ofRoots u p emit roots d = .ok (.ok plan, e)) :
    ∀ entry ∈ plan.entries,
      (Allowed p d.model entry.node ∧ ¬ p.isCaster d.model entry.node) ∧
      (∀ base ∈ entry.item.bases, Allowed p d.model base ∧ ¬ p.isCaster d.model base) ∧
      (∀ member ∈ entry.item.members, Allowed p d.model member.node) ∧
      (p.dropsUnresolvedBases → (d.model.kind entry.node).isRecord →
        ∃ e', Query.hasUnresolvedBases u entry.node d = .ok (false, e')) := by
  obtain ⟨c, _, sorted, _, _, _, passes⟩ := exists_passes reached bindable planned
  intro entry present
  obtain ⟨allowed, uncast, whole⟩ := passes.of_mem_nodes (List.mem_map_of_mem present)
  refine ⟨⟨allowed, uncast⟩, ?_, ?_, ?_⟩
  · intro base listed
    obtain ⟨allowed', uncast', _⟩ := passes.of_mem_nodes (passes.of_base present listed).1
    exact ⟨allowed', uncast'⟩
  · exact fun member listed => passes.allowed_of_member present listed
  · intro drops isRecord
    obtain ⟨found, means⟩ := passes.exists_bases present isRecord
    have resolved : ¬ LacksBase u d entry.node := fun lacks =>
      whole ⟨⟨uncast, (allowed_iff.mp allowed).2⟩, drops, isRecord, lacks⟩
    rw [lacksBase_iff reached, means] at resolved
    rw [answered_iff (answers_hasUnresolvedBases reached.coherent.1 entry.node), means]
    simpa using resolved

/-- What derives from an excluded record is planned without its base. -/
theorem plan_allows_shapes :
    (∀ id ∈ [(⟨2⟩ : NodeId)], (shapesDraft.model.kind id).isBindable) ∧
      ∃ plan e,
        Plan.ofRoots shapes { excluded := ["Base"] } {} [⟨2⟩] shapesDraft = .ok (.ok plan, e) ∧
        plan.nodes = [⟨2⟩] ∧
        ∀ entry ∈ plan.entries, ∀ member ∈ entry.item.members,
          Allowed { excluded := ["Base"] } shapesDraft.model member.node := by
  have bindable : ∀ id ∈ [(⟨2⟩ : NodeId)], (shapesDraft.model.kind id).isBindable := by
    decide +kernel
  have computed : (Plan.ofRoots shapes { excluded := ["Base"] } {} [⟨2⟩] shapesDraft).toOption.bind
      (fun ended => ended.1.toOption.map Plan.nodes) = some [⟨2⟩] := by decide +kernel
  match planned : Plan.ofRoots shapes { excluded := ["Base"] } {} [⟨2⟩] shapesDraft with
  | .ok (.ok plan, e) =>
    rw [planned] at computed
    have entries :=
      plan_allows reached_shapes { excluded := ["Base"] } {} [⟨2⟩] bindable plan e planned
    exact ⟨bindable, plan, e, rfl, Option.some.inj computed, fun entry present =>
      (entries entry present).2.2.1⟩
  | .ok (.error _, _) | .error _ =>
    rw [planned] at computed
    cases computed

end Bindery.Binding
