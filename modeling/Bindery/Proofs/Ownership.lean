import Bindery.Proofs.History
import Bindery.Proofs.Model.Placement

/-! Who belongs to whom. The table of names of a node says the same as the list of its members, and a
node with an owner is a member of it, unless the owner is a callable that has been met again. This
holds at every stage of a build and whatever is asked afterwards. -/

set_option autoImplicit false

namespace Bindery

open Ast (Cursor CursorId TranslationUnit)

namespace Node

/-- The members of a node are listed under their names, in the order of the members. -/
structure Keyed (node : Node) (name : NodeId → String) : Prop where
  /-- The keys are the names that members have, each in the place of its first member. -/
  keys : node.content.keys =
    (OrderedSet.ofList ((node.members.toList.map name).filter fun own => !own.isEmpty)).toList
  listed : ∀ key named, node.content.get? key = some named →
    named = node.members.filter fun member => name member = key

namespace Keyed

variable {node : Node} {name other : NodeId → String}

theorem mem_keys_iff (keyed : node.Keyed name) {key : String} :
    key ∈ node.content.keys ↔ key.isEmpty = false ∧ ∃ member ∈ node.members, name member = key := by
  rw [keyed.keys, ← OrderedSet.mem_def, OrderedSet.mem_ofList, List.mem_filter, List.mem_map,
    Bool.not_eq_true', and_comm]
  rfl

theorem of_blank (none : node.members = ∅) (blank : node.content = ∅) : node.Keyed name where
  keys := by
    rw [none, blank]
    rfl
  listed key named found := by
    rw [blank] at found
    cases found

theorem of_eq {later : Node} (keyed : node.Keyed name) (members : later.members = node.members)
    (content : later.content = node.content) : later.Keyed name where
  keys := by rw [content, members, keyed.keys]
  listed key named found := by
    rw [content] at found
    rw [members, keyed.listed key named found]

theorem congr (keyed : node.Keyed name) (same : ∀ member ∈ node.members, other member = name member) :
    node.Keyed other where
  keys := by rw [keyed.keys, List.map_congr_left same]
  listed key named found := by
    rw [keyed.listed key named found]
    apply OrderedSet.ext
    exact List.filter_congr fun member present => by rw [same member present]

theorem getD_eq (keyed : node.Keyed name) {key : String} (proper : key.isEmpty = false) :
    (node.content.get? key).getD ∅ = node.members.filter fun member => name member = key := by
  cases found : node.content.get? key with
  | some named => exact keyed.listed key named found
  | none =>
    have absent : ¬ ∃ member ∈ node.members, name member = key := by
      intro present
      obtain ⟨named, here⟩ := OrderedMap.mem_keys_iff.mp (keyed.mem_keys_iff.mpr ⟨proper, present⟩)
      rw [found] at here
      cases here
    ext1
    symm
    apply List.filter_eq_nil_iff.mpr
    intro member present own
    exact absent ⟨member, present, by simpa using own⟩

/-- No key is there for nothing, and no anonymous member has one. -/
theorem ne_empty (keyed : node.Keyed name) {key : String} {named : OrderedSet NodeId}
    (found : node.content.get? key = some named) : key.isEmpty = false ∧ named ≠ ∅ := by
  obtain ⟨proper, member, present, own⟩ :=
    keyed.mem_keys_iff.mp (OrderedMap.mem_keys_iff.mpr ⟨named, found⟩)
  refine ⟨proper, fun none => ?_⟩
  have inside : member ∈ named.toList := by
    rw [keyed.listed key named found]
    exact List.mem_filter.mpr ⟨present, by simpa using own⟩
  rw [none] at inside
  cases inside

theorem insert (keyed : node.Keyed name) (item : NodeId) :
    Keyed { node with
      members := node.members.insert item
      content :=
        if (name item).isEmpty then node.content
        else node.content.put (name item)
          (((node.content.get? (name item)).getD ∅).insert item) } name := by
  cases blank : (name item).isEmpty with
  | true =>
    have names : ((node.members.insert item).toList.map name).filter (fun own => !own.isEmpty) =
        (node.members.toList.map name).filter fun own => !own.isEmpty := by
      rw [OrderedSet.toList_insert]
      split <;> simp [blank]
    refine ⟨?_, fun key named found => ?_⟩
    · rw [names]
      exact keyed.keys
    · have found : node.content.get? key = some named := found
      have apart : ¬ name item = key := fun same => by
        rw [same, (keyed.ne_empty found).1] at blank
        cases blank
      simpa [OrderedSet.filter_insert, apart] using keyed.listed key named found
  | false =>
    have names : OrderedSet.ofList
          (((node.members.insert item).toList.map name).filter fun own => !own.isEmpty) =
        (OrderedSet.ofList ((node.members.toList.map name).filter fun own => !own.isEmpty)).insert
          (name item) := by
      rw [OrderedSet.toList_insert]
      split
      · next present =>
        have known : name item ∈
            OrderedSet.ofList ((node.members.toList.map name).filter fun own => !own.isEmpty) := by
          rw [OrderedSet.mem_ofList]
          exact List.mem_filter.mpr ⟨List.mem_map_of_mem present, by simp [blank]⟩
        rw [OrderedSet.insert_of_mem known]
      · simp [blank, OrderedSet.ofList_append_singleton]
    refine ⟨?_, fun key named found => ?_⟩
    · change (node.content.put (name item) _).keys = _
      rw [OrderedMap.keys_put, names, OrderedSet.toList_insert, keyed.keys]
      rfl
    · have found : (node.content.put (name item)
          (((node.content.get? (name item)).getD ∅).insert item)).get? key = some named := found
      rw [OrderedMap.get?_put, keyed.getD_eq blank] at found
      by_cases same : key = name item
      · subst same
        simpa [OrderedSet.filter_insert] using found.symm
      · have apart : ¬ name item = key := fun equal => same equal.symm
        rw [if_neg same] at found
        simpa [OrderedSet.filter_insert, apart] using keyed.listed key named found

end Keyed

end Node

namespace Model

/-- Members and owners fit together. -/
structure Placed (m : Model) : Prop where
  keyed : ∀ id, (m.node id).Keyed m.name
  owned : ∀ id, ∀ member ∈ (m.node id).members, ∃ owner, (m.node member).owner = some owner
  /-- A member is lost only to a callable that is met again. -/
  belongs : ∀ id owner, (m.node id).owner = some owner →
    id ∈ (m.node owner).members ∨ (m.kind owner).isCallable ∧ (m.node owner).isInline

/-- Members and owners fit together, and markers have no part in that. -/
structure Housed (m : Model) : Prop extends m.Placed where
  markers : ∀ id, m.kind id = .builtin →
    (m.node id).owner = none ∧ (m.node id).members = ∅ ∧ ∀ other, id ∉ (m.node other).members

variable {m n : Model} {owner item : NodeId}

theorem index_lt_of_owner {id : NodeId} (owned : (m.node id).owner = some owner) :
    id.index < m.size := by
  by_contra outside
  rw [node_of_size_le (Nat.le_of_not_lt outside)] at owned
  cases owned

theorem Placed.index_lt (placed : m.Placed) {id member : NodeId}
    (present : member ∈ (m.node id).members) : member.index < m.size := by
  obtain ⟨owner, owned⟩ := placed.owned id member present
  exact index_lt_of_owner owned

theorem Rearranges.name_eq (rearranged : m.Rearranges n) : n.name = m.name :=
  funext fun id => rearranged.same_read Node.name (fun _ => rfl) id

theorem keyed_update (keyed : ∀ id, (m.node id).Keyed m.name) (which : NodeId)
    {change : Node → Node} (names : (m.update which change).name = m.name)
    (right : (m.node which).Keyed m.name → (change (m.node which)).Keyed m.name) (id : NodeId) :
    ((m.update which change).node id).Keyed (m.update which change).name := by
  rw [names, node_update]
  split
  · next here =>
    rw [here.1]
    exact right (keyed which)
  · exact keyed id

theorem keyed_attach (keyed : ∀ id, (m.node id).Keyed m.name) (owner item id : NodeId) :
    ((m.attach owner item).node id).Keyed (m.attach owner item).name :=
  keyed_update keyed owner (Rearranges.attach m owner item).name_eq (fun own => own.insert item) id

theorem keyed_setOwner (keyed : ∀ id, (m.node id).Keyed m.name) (owner item id : NodeId) :
    ((m.setOwner owner item).node id).Keyed (m.setOwner owner item).name :=
  keyed_update keyed item (Rearranges.setOwner m owner item).name_eq (fun own => own.of_eq rfl rfl) id

theorem keyed_setRefType (keyed : ∀ id, (m.node id).Keyed m.name) (owner item id : NodeId) :
    ((m.setRefType owner item).node id).Keyed (m.setRefType owner item).name :=
  keyed_update keyed owner (Rearranges.setRefType m owner item).name_eq
    (fun own => own.of_eq rfl rfl) id

end Model

/-! ## Visits -/

namespace Draft

variable {u : TranslationUnit} {f : Factory} {d entered : Draft} {container item : NodeId}
  {id : CursorId} {c : Cursor}

theorem CallsAt.placed (calls : CallsAt u f d container id c item entered)
    (placed : d.model.Placed) : entered.model.Placed := by
  -- Members of a node are members of it before, and are called what they were called.
  have earlier {other member : NodeId} (present : member ∈ (entered.model.node other).members) :
      member ∈ (d.model.node other).members := by
    rcases calls.household other with same | ⟨_, cleared⟩
    · rwa [same.members] at present
    · rw [cleared.members] at present
      cases present
  refine ⟨fun other => ?_, fun other member present => ?_, fun member owner owned => ?_⟩
  · rcases calls.household other with same | ⟨_, cleared⟩
    · have keyed := (placed.keyed other).of_eq same.members same.content
      refine keyed.congr fun member present => ?_
      exact (calls.lasts.kept member (placed.index_lt (earlier present))).name
    · exact .of_blank cleared.members cleared.content
  · rw [calls.owner]
    exact placed.owned other member (earlier present)
  · rw [calls.owner] at owned
    have inside := calls.fresh.linked.owner member owner owned
    have kinds : entered.model.kind owner = d.model.kind owner := (calls.lasts.kept owner inside).kind
    rw [kinds]
    rcases calls.household owner with same | ⟨callable, cleared⟩
    · rw [same.members, same.isInline]
      exact placed.belongs member owner owned
    · exact .inr ⟨callable, cleared.isInline⟩

theorem keyed_accept (keyed : ∀ id, (d.model.node id).Keyed d.model.name)
    (container item : NodeId) (c : Cursor) (other : NodeId) :
    ((d.accept u container item c).model.node other).Keyed
      (d.accept u container item c).model.name := by
  unfold accept
  cases d.model.judge u container item c with
  | accepted owner =>
    have owned := Model.keyed_setOwner (Model.keyed_attach keyed owner item) owner item
    simp only [carryOut]
    split
    · exact Model.keyed_setRefType owned owner item other
    · exact owned other
  | elaborated owner =>
    exact Model.keyed_setOwner
      (Model.keyed_attach (Model.keyed_attach keyed container item) owner item) owner item other
  | rejected owner | ownerless => exact keyed other

theorem placed_accept (placed : d.model.Placed) (inside : item.index < d.model.size)
    (takers : ∀ taker ∈ (d.model.judge u container item c).takers container,
      taker.index < d.model.size) : (d.accept u container item c).model.Placed := by
  have rearranged := rearranges_accept (u := u) d container item c
  refine ⟨keyed_accept placed.keyed container item c, fun other member present => ?_,
    fun member owner owned => ?_⟩
  · rw [owner_accept inside]
    rcases (mem_members_accept takers).mp present with earlier | ⟨rfl, takes⟩
    · obtain ⟨owner, owned⟩ := placed.owned other member earlier
      simp [owned]
    · obtain ⟨owner, taken⟩ := Verdict.exists_owner_of_takers takes
      exact ⟨owner, by simp [taken]⟩
  · rw [mem_members_accept takers, Model.kind, rearranged.same_read Node.kind fun _ => rfl,
      rearranged.same_read Node.isInline fun _ => rfl]
    rw [owner_accept inside, Option.or_eq_some_iff] at owned
    rcases owned with taken | ⟨_, before⟩
    · split at taken
      · next here => exact .inl (.inr ⟨here, Verdict.mem_takers_of_owner? taken⟩)
      · cases taken
    · exact (placed.belongs member owner before).imp_left .inl

end Draft

/-- Members and owners fit together at every stage of a build. -/
theorem placed_build (u : TranslationUnit) (f : Factory) :
    ∀ stage ∈ opening u f :: (buildVisits u f).map Visit.after, stage.model.Placed := by
  refine holds_build u f (fun calls placed => ?_) ?_
  · exact Draft.placed_accept (calls.placed placed) calls.item_lt calls.takers_lt
  · refine ⟨fun id => ?_, fun id member present => ?_, fun id owner owned => ?_⟩
    · have blank : (Node.builtin "").Keyed (opening u f).model.name := .of_blank rfl rfl
      exact blank.of_eq (household_opening u f id).1.members (household_opening u f id).1.content
    · rw [(household_opening u f id).1.members] at present
      cases present
    · rw [(household_opening u f id).2] at owned
      cases owned

/-! ## Markers -/

/-- Of no cursor do the constructors make a node of the kind that markers have. -/
def Factory.MakesNoMarkers (f : Factory) : Prop :=
  ∀ child constructor, f.constructor? child = some constructor →
    ∀ u id, constructor u id ≠ some .builtin

theorem standardKind?_ne_builtin (kind : Ast.CursorKind) :
    Factory.standardKind? kind ≠ some .builtin := by
  cases kind <;> decide

theorem Factory.makesNoMarkers_standard : standard.MakesNoMarkers :=
  fun child _ modeled _ _ taken =>
    standardKind?_ne_builtin child (standardKind?_of_made modeled taken)

theorem real_build {f : Factory} (plain : f.MakesNoMarkers) (u : TranslationUnit) :
    ∀ stage ∈ opening u f :: (buildVisits u f).map Visit.after,
      ∀ id, id.index < stage.model.size → stage.model.kind id ≠ .builtin := by
  refine nodes_build (Q := fun node => node.kind ≠ .builtin) ⟨fun _ => Iff.rfl, ?_, ?_⟩ nofun
  · intro id c constructor kind _ modeled taken marker
    exact plain c.kind constructor modeled u id (marker ▸ taken)
  · intro node later id c usr real _ _ _ folds
    rw [folds.kind]
    exact real

namespace Model

variable {m n : Model}

theorem Placed.housed (placed : m.Placed)
    (real : ∀ id, id.index < m.size → m.kind id ≠ .builtin) : m.Housed where
  toPlaced := placed
  markers id marker := by
    have outside : m.size ≤ id.index := Nat.le_of_not_lt fun inside => real id inside marker
    rw [node_of_size_le outside]
    exact ⟨rfl, rfl, fun other member => Nat.not_lt_of_le outside (placed.index_lt member)⟩

theorem Extends.members_eq (grown : m.Extends n) (id : NodeId) :
    (n.node id).members = (m.node id).members :=
  grown.same_read Node.members (fun _ => rfl) (fun _ => rfl) id

theorem Placed.extends (placed : m.Placed) (grown : m.Extends n) : n.Placed where
  keyed id := by
    have same := (placed.keyed id).of_eq (grown.members_eq id) (grown.content_eq id)
    refine same.congr fun member present => ?_
    rw [grown.members_eq] at present
    exact grown.name_eq (placed.index_lt present)
  owned id member present := by
    rw [grown.members_eq] at present
    rw [grown.owner_eq]
    exact placed.owned id member present
  belongs id owner owned := by
    rw [grown.owner_eq] at owned
    rw [grown.members_eq, grown.kind_eq,
      grown.same_read Node.isInline (fun _ => rfl) (fun _ => rfl)]
    exact placed.belongs id owner owned

theorem Housed.extends (housed : m.Housed) (grown : m.Extends n) : n.Housed where
  toPlaced := housed.toPlaced.extends grown
  markers id marker := by
    rw [grown.kind_eq] at marker
    simp only [grown.owner_eq, grown.members_eq]
    exact housed.markers id marker

end Model

namespace Reached

variable {u : TranslationUnit} {d : Draft}

theorem placed (reached : Reached u d) : d.model.Placed := by
  induction reached with
  | built f => exact placed_build u f _ (runs_build u f).final_mem
  | asked earlier question ended ih => exact ih.extends (earlier.extends ended)

theorem kind_root (reached : Reached u d) : d.model.kind Model.root = .translationUnit := by
  induction reached with
  | built f =>
    have first : (opening u f).model.kind Model.root = .translationUnit := by
      rw [Model.kind, node_opening]
      rfl
    have lasts := (runs_build u f).lasts (Model.indexed_start _)
    exact (lasts.kept Model.root (root_lt_opening u f _ List.mem_cons_self)).kind.trans first
  | asked earlier question ended ih => rw [(earlier.extends ended).kind_eq, ih]

end Reached

/-- Members and owners fit together at every stage of a build with the standard constructors, and
whatever is asked after it. -/
theorem build_housed (u : TranslationUnit) :
    (∀ stage ∈ opening u :: (buildVisits u).map Visit.after, stage.model.Housed) ∧
      ∀ (asked : List Question) (d : Draft),
        Question.askAll u asked (freshDraft u .standard) = .ok ((), d) → d.model.Housed := by
  have stages : ∀ stage ∈ opening u :: (buildVisits u).map Visit.after, stage.model.Housed :=
    fun stage member => (placed_build u .standard stage member).housed
      (real_build Factory.makesNoMarkers_standard u stage member)
  refine ⟨stages, fun asked d ran => ?_⟩
  have fresh : (freshDraft u .standard).model.Housed :=
    stages _ (runs_build u .standard).final_mem
  have coherent := (Reached.built (u := u) .standard).coherent.1
  exact fresh.extends (keeps_askAll asked _ coherent () d ran).2

/-- `struct Bell { void ring(int times); void ring(double loud); enum { high }; };` and
`void Bell::ring(int count) {}` after it. -/
def bell : TranslationUnit where
  path := "bell.h"
  root := ⟨0⟩
  cursors := #[
    { kind := .translationUnit, children := [⟨1⟩, ⟨7⟩] },
    { kind := .structDecl, spelling := "Bell", usr := some "c:Bell", semanticParent := some ⟨0⟩,
      children := [⟨2⟩, ⟨4⟩, ⟨5⟩] },
    { kind := .cxxMethod, spelling := "ring", displayName := some "ring(int)",
      usr := some "c:ring#I", semanticParent := some ⟨1⟩, children := [⟨3⟩] },
    { kind := .parmDecl, spelling := "times", semanticParent := some ⟨2⟩, type := some ⟨0⟩ },
    { kind := .cxxMethod, spelling := "ring", displayName := some "ring(double)",
      usr := some "c:ring#d", semanticParent := some ⟨1⟩ },
    { kind := .enumDecl, usr := some "c:Bell@E", semanticParent := some ⟨1⟩, children := [⟨6⟩] },
    { kind := .enumConstantDecl, spelling := "high", semanticParent := some ⟨5⟩ },
    { kind := .cxxMethod, spelling := "ring", displayName := some "ring(int)",
      usr := some "c:ring#I", semanticParent := some ⟨1⟩, children := [⟨8⟩] },
    { kind := .parmDecl, spelling := "count", semanticParent := some ⟨7⟩, type := some ⟨0⟩ }]
  types := #[{ kind := .builtin, spelling := "int" }]

/-- The overloads share a key, the enum has none, and the first parameter has an owner that it is no
member of. The type of the second one makes a marker. -/
theorem build_housed_bell :
    ∃ d, Question.askAll bell [.type ⟨7⟩] (freshDraft bell .standard) = .ok ((), d) ∧
      d.model.Housed ∧ d.model.kind ⟨8⟩ = .builtin ∧ d.model.membersOf ⟨1⟩ = [⟨2⟩, ⟨4⟩, ⟨5⟩] ∧
      (d.model.node ⟨1⟩).content.entries.map (fun entry => (entry.1, entry.2.toList)) =
        [("ring", [⟨2⟩, ⟨4⟩])] ∧
      (d.model.node ⟨3⟩).owner = some ⟨2⟩ ∧ d.model.membersOf ⟨2⟩ = [⟨7⟩] := by
  have computed : (Question.askAll bell [.type ⟨7⟩] (freshDraft bell .standard)).toOption.any
      fun ended => ended.2.model.kind ⟨8⟩ = .builtin ∧
        ended.2.model.membersOf ⟨1⟩ = [⟨2⟩, ⟨4⟩, ⟨5⟩] ∧
        (ended.2.model.node ⟨1⟩).content.entries.map (fun entry => (entry.1, entry.2.toList)) =
          [("ring", [⟨2⟩, ⟨4⟩])] ∧
        (ended.2.model.node ⟨3⟩).owner = some ⟨2⟩ ∧ ended.2.model.membersOf ⟨2⟩ = [⟨7⟩] := by
    decide +kernel
  match ran : Question.askAll bell [.type ⟨7⟩] (freshDraft bell .standard) with
  | .ok ((), d) =>
    rw [ran] at computed
    exact ⟨d, rfl, (build_housed bell).2 _ d ran, of_decide_eq_true computed⟩
  | .error _ =>
    rw [ran] at computed
    cases computed

end Bindery
