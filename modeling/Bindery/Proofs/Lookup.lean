import Bindery.Model.Lookup
import Bindery.Proofs.Ownership
import Bindery.Proofs.Text.Qualified

/-! Qualified names against paths. A qualified name is read off the owners of a node from the inside
out, and a path is followed through the tables of names from the outside in. Where every scope on
the way is the only one of its name, the path leads back to the node. -/

set_option autoImplicit false

namespace Bindery

open Ast (TranslationUnit)

/-- A name that can stand in a path. -/
structure Text.Segment (name : String) : Prop where
  proper : name ≠ ""
  plain : ':' ∉ name.toList

instance (name : String) : Decidable (Text.Segment name) :=
  decidable_of_iff (name ≠ "" ∧ ':' ∉ name.toList)
    ⟨fun ⟨proper, plain⟩ => ⟨proper, plain⟩, fun ⟨proper, plain⟩ => ⟨proper, plain⟩⟩

namespace Model

variable (m : Model)

/-- A node has another for its owner and is among its members. -/
def BelongsTo (item owner : NodeId) : Prop :=
  (m.node item).owner = some owner ∧ item ∈ (m.node owner).members

/-- What the owner of a node lists under the name of the node. -/
def namesakes? (id : NodeId) : Option (OrderedSet NodeId) :=
  (m.node id).owner.bind fun owner => (m.node owner).content.get? (m.name id)

/-- Owners lead from a node through some scopes to the root. Each of them belongs to the next, all
have names that can stand in a path, and no scope shares its name with another. -/
structure Descends (id : NodeId) (scopes : List NodeId) : Prop where
  linked : List.IsChain m.BelongsTo (id :: scopes ++ [root])
  kinds : ∀ scope ∈ scopes, m.kind scope ≠ .translationUnit
  named : ∀ node ∈ id :: scopes, Text.Segment (m.name node)
  alone : ∀ scope ∈ scopes, (m.namesakes? scope).map OrderedSet.size = some 1

instance : DecidableRel m.BelongsTo := fun item owner =>
  inferInstanceAs (Decidable ((m.node item).owner = some owner ∧ item ∈ (m.node owner).members))

instance (id : NodeId) (scopes : List NodeId) : Decidable (m.Descends id scopes) :=
  decidable_of_iff (List.IsChain m.BelongsTo (id :: scopes ++ [root]) ∧
      (∀ scope ∈ scopes, m.kind scope ≠ .translationUnit) ∧
      (∀ node ∈ id :: scopes, Text.Segment (m.name node)) ∧
      ∀ scope ∈ scopes, (m.namesakes? scope).map OrderedSet.size = some 1)
    ⟨fun ⟨linked, kinds, named, alone⟩ => ⟨linked, kinds, named, alone⟩,
      fun ⟨linked, kinds, named, alone⟩ => ⟨linked, kinds, named, alone⟩⟩

variable {m} {id scope owner : NodeId} {scopes others : List NodeId}

namespace Descends

theorem below (descends : m.Descends id (scope :: scopes)) : m.Descends scope scopes where
  linked := descends.linked.of_cons
  kinds other member := descends.kinds other (List.mem_cons_of_mem _ member)
  named other member := descends.named other (List.mem_cons_of_mem _ member)
  alone other member := descends.alone other (List.mem_cons_of_mem _ member)

theorem belongsTo_root (descends : m.Descends id []) : m.BelongsTo id root :=
  (List.isChain_cons_cons.mp descends.linked).1

theorem belongsTo (descends : m.Descends id (scope :: scopes)) : m.BelongsTo id scope :=
  (List.isChain_cons_cons.mp descends.linked).1

theorem exists_belongsTo (descends : m.Descends id scopes) : ∃ owner, m.BelongsTo id owner := by
  cases scopes with
  | nil => exact ⟨root, descends.belongsTo_root⟩
  | cons scope _ => exact ⟨scope, descends.belongsTo⟩

theorem segment (descends : m.Descends id scopes) : Text.Segment (m.name id) :=
  descends.named id List.mem_cons_self

theorem of_mem (descends : m.Descends id scopes) (member : scope ∈ scopes) :
    ∃ above, m.Descends scope above ∧ above.length < scopes.length := by
  induction scopes generalizing id with
  | nil => cases member
  | cons first rest ih =>
    rcases List.mem_cons.mp member with rfl | later
    · exact ⟨rest, descends.below, Nat.lt_succ_self _⟩
    · obtain ⟨above, descends', shorter⟩ := ih descends.below later
      exact ⟨above, descends', Nat.lt_succ_of_lt shorter⟩

theorem segments_down (descends : m.Descends id scopes) :
    ∀ name ∈ (scopes.map m.name).reverse ++ [m.name id], Text.Segment name := by
  intro name member
  have listed : name ∈ (id :: scopes).map m.name := by
    rw [List.map_cons, List.mem_cons]
    rcases List.mem_append.mp member with outer | last
    · exact .inr (List.mem_reverse.mp outer)
    · exact .inl (List.mem_singleton.mp last)
  obtain ⟨node, way, rfl⟩ := List.mem_map.mp listed
  exact descends.named node way

section

variable (unit : m.kind root = .translationUnit)

include unit

/-- There is one way up from a node: owners are unique, and only the root ends it. -/
theorem unique (first : m.Descends id scopes) (second : m.Descends id others) : scopes = others := by
  induction scopes generalizing id others with
  | nil =>
    cases others with
    | nil => rfl
    | cons scope rest =>
      have same := first.belongsTo_root.1.symm.trans second.belongsTo.1
      cases same
      exact absurd unit (second.kinds _ List.mem_cons_self)
  | cons scope rest ih =>
    cases others with
    | nil =>
      have same := first.belongsTo.1.symm.trans second.belongsTo_root.1
      cases same
      exact absurd unit (first.kinds _ List.mem_cons_self)
    | cons other rest' =>
      have same := first.belongsTo.1.symm.trans second.belongsTo.1
      cases same
      rw [ih first.below second.below]

/-- No node is met again on the way up. -/
theorem nodup (descends : m.Descends id scopes) : (id :: scopes).Nodup := by
  induction scopes generalizing id with
  | nil => exact List.nodup_singleton id
  | cons scope rest ih =>
    refine List.nodup_cons.mpr ⟨fun again => ?_, ih descends.below⟩
    -- From where it is met again there would be a shorter way up.
    obtain ⟨above, descends', shorter⟩ := descends.of_mem again
    rw [unique unit descends' descends] at shorter
    exact Nat.lt_irrefl _ shorter

theorem ownerNames_eq (descends : m.Descends id scopes) (bound : Nat) (met : List NodeId)
    (fresh : ∀ scope ∈ scopes, scope ∉ met) (enough : scopes.length ≤ bound) :
    m.ownerNames bound met (m.node id).owner = scopes.map m.name := by
  induction scopes generalizing id bound met with
  | nil =>
    have kind : (m.node root).kind = .translationUnit := unit
    rw [descends.belongsTo_root.1]
    cases bound with
    | zero => rfl
    | succ bound => simp [ownerNames, kind]
  | cons scope rest ih =>
    cases bound with
    | zero => cases enough
    | succ bound =>
      have kind : (m.node scope).kind ≠ .translationUnit := descends.kinds scope List.mem_cons_self
      have named : (m.node scope).name ≠ "" := descends.below.segment.proper
      have unmet : scope ∉ met := fresh scope List.mem_cons_self
      have once := List.nodup_cons.mp (descends.below.nodup unit)
      have further := ih descends.below bound (scope :: met)
        (fun other member again => (List.mem_cons.mp again).elim
          (fun same => once.1 (same ▸ member))
          (fresh other (List.mem_cons_of_mem scope member)))
        (Nat.le_of_succ_le_succ enough)
      rw [descends.belongsTo.1, ownerNames, further]
      simp [kind, Node.isAnonymous, named, unmet, name]

/-- The qualified name of a node consists of the names on the way down to it. -/
theorem fullName_eq (descends : m.Descends id scopes) :
    m.fullName id = Text.qualified ((scopes.map m.name).reverse ++ [m.name id]) := by
  obtain ⟨once, distinct⟩ := List.nodup_cons.mp (descends.nodup unit)
  have inside : ∀ scope ∈ scopes, scope.index < m.size := by
    intro scope member
    obtain ⟨above, descends', _⟩ := descends.of_mem member
    obtain ⟨owner, belongs⟩ := descends'.exists_belongsTo
    exact index_lt_of_owner belongs.1
  have few := length_le_size distinct inside
  have owners := descends.ownerNames_eq unit (m.size + 1) [id]
    (fun scope member same => once (List.mem_singleton.mp same ▸ member)) (by omega)
  rw [fullName, owners, List.reverse_cons]
  rfl

end

end Descends

/-! ## Following a path -/

namespace Placed

variable (placed : m.Placed)

include placed

theorem exists_namesakes (belongs : m.BelongsTo id owner) (named : m.name id ≠ "") :
    ∃ set, m.namesakes? id = some set ∧ (m.node owner).content.get? (m.name id) = some set ∧
      id ∈ set := by
  have proper : (m.name id).isEmpty = false := by simpa using named
  have keyed := placed.keyed owner
  obtain ⟨set, found⟩ :=
    OrderedMap.mem_keys_iff.mp (keyed.mem_keys_iff.mpr ⟨proper, id, belongs.2, rfl⟩)
  refine ⟨set, ?_, found, ?_⟩
  · rw [namesakes?, belongs.1]
    exact found
  · rw [keyed.listed _ set found, OrderedSet.mem_def]
    exact List.mem_filter.mpr ⟨belongs.2, by simp⟩

theorem named_eq (path : String) (belongs : m.BelongsTo id owner) (named : m.name id ≠ "") :
    ∃ set, m.namesakes? id = some set ∧ id ∈ set ∧
      m.named owner path (m.name id) = .ok set := by
  obtain ⟨set, asked, found, member⟩ := placed.exists_namesakes belongs named
  have inhabited : ¬ set.isEmpty := fun none => by
    rw [OrderedSet.isEmpty_iff.mp none] at member
    exact OrderedSet.not_mem_empty id member
  exact ⟨set, asked, member, by simp [Model.named, found, inhabited]⟩

theorem namedOne_eq (path : String) (belongs : m.BelongsTo id owner) (named : m.name id ≠ "")
    (alone : (m.namesakes? id).map OrderedSet.size = some 1) :
    m.namedOne owner path (m.name id) = .ok id := by
  obtain ⟨set, asked, member, found⟩ := placed.named_eq path belongs named
  obtain ⟨other, asked', single⟩ := Option.map_eq_some_iff.mp alone
  cases asked.symm.trans asked'
  obtain ⟨only, same⟩ := List.length_eq_one_iff.mp single
  rw [OrderedSet.mem_def, same, List.mem_singleton] at member
  subst member
  simp [namedOne, found, same]

/-- A path that names the scopes of a node in turn leads to the owner of the node. -/
theorem follow_scopes (path : String) (descends : m.Descends id scopes)
    (belongs : m.BelongsTo id owner) {rest : List String} (more : rest ≠ []) :
    m.follow path root ((scopes.map m.name).reverse ++ rest) = m.follow path owner rest := by
  induction scopes generalizing id owner rest with
  | nil =>
    cases descends.belongsTo_root.1.symm.trans belongs.1
    rfl
  | cons scope above ih =>
    cases descends.belongsTo.1.symm.trans belongs.1
    obtain ⟨outer, around⟩ := descends.below.exists_belongsTo
    have single := placed.namedOne_eq path around descends.below.segment.proper
      (descends.alone scope List.mem_cons_self)
    obtain ⟨next, later, rfl⟩ := List.exists_cons_of_ne_nil more
    rw [List.map_cons, List.reverse_cons, List.append_assoc, List.singleton_append,
      ih descends.below around (List.cons_ne_nil _ _), follow, single]
    simp

/-- The qualified name of a node leads from the root to what its owner lists under its name. -/
theorem follow_fullName (path : String) (descends : m.Descends id scopes) :
    ∃ set, m.namesakes? id = some set ∧ id ∈ set ∧
      m.follow path root ((scopes.map m.name).reverse ++ [m.name id]) = .ok set := by
  obtain ⟨owner, belongs⟩ := descends.exists_belongsTo
  obtain ⟨set, asked, member, found⟩ := placed.named_eq path belongs descends.segment.proper
  refine ⟨set, asked, member, ?_⟩
  rw [placed.follow_scopes path descends belongs (List.cons_ne_nil _ _)]
  exact found

end Placed

/-- A path of names that can stand in one is taken from the scope, and from the root with a double
colon in front. -/
theorem lookup_qualified {names : List String} {last : String}
    (segments : ∀ name ∈ names ++ [last], Text.Segment name) (scope : NodeId) :
    m.lookup scope (Text.qualified (names ++ [last])) =
        m.follow (Text.qualified (names ++ [last])) scope (names ++ [last]) ∧
      m.lookup scope ("::" ++ Text.qualified (names ++ [last])) =
        m.follow ("::" ++ Text.qualified (names ++ [last])) root (names ++ [last]) := by
  have apart : Text.segments (Text.qualified (names ++ [last])) = names ++ [last] :=
    Text.segments_qualified (by simp) fun name member => (segments name member).plain
  have proper : last ≠ "" := (segments last (by simp)).proper
  have relative : (names ++ [last]).head? ≠ some "" := fun first =>
    (segments "" (List.mem_of_mem_head? first)).proper rfl
  constructor
  · simp only [lookup, apart, if_neg relative]
    simp [proper]
  · simp [lookup, Text.segments_anchored, apart, proper]

end Model

open Model in
/-- Qualified names and lookup are inverse. The name of a node leads to what its owner lists under the
name, also from elsewhere behind a double colon, and to the node itself if nothing else is listed. -/
theorem lookup_fullName {u : TranslationUnit} {d : Draft} (reached : Reached u d) {id : NodeId}
    {scopes : List NodeId} (descends : d.model.Descends id scopes) :
    ∃ set, d.model.namesakes? id = some set ∧ id ∈ set ∧
      d.model.lookup root (d.model.fullName id) = .ok set ∧
      d.model.resolvePath (d.model.fullName id) =
        (if set.size = 1 then .ok id
        else .error (.ambiguous (d.model.fullName id) (d.model.name id) set.size)) ∧
      ∀ scope, d.model.lookup scope ("::" ++ d.model.fullName id) = .ok set := by
  have spelled := descends.fullName_eq reached.kind_root
  have looked := lookup_qualified (m := d.model) descends.segments_down
  rw [← spelled] at looked
  obtain ⟨set, asked, member, found⟩ := reached.placed.follow_fullName (d.model.fullName id) descends
  obtain ⟨set', asked', _, found'⟩ :=
    reached.placed.follow_fullName ("::" ++ d.model.fullName id) descends
  cases asked.symm.trans asked'
  have relative : d.model.lookup root (d.model.fullName id) = .ok set := (looked root).1.trans found
  refine ⟨set, asked, member, relative, ?_, fun scope => (looked scope).2.trans found'⟩
  have last : Text.lastSegment (d.model.fullName id) = d.model.name id := by
    rw [spelled, Text.lastSegment_qualified _ descends.segment.plain]
  simp only [resolvePath, lookupOne, relative]
  split
  · next only same =>
    rw [OrderedSet.mem_def, same, List.mem_singleton] at member
    rw [if_pos (by rw [OrderedSet.size, same]; rfl), member]
  · next several =>
    have count : set.size ≠ 1 := fun single =>
      (List.length_eq_one_iff.mp single).elim several
    rw [if_neg count, last]

/-- The type of a parameter is asked for, and then the name of an overload names both. -/
theorem lookup_fullName_bell :
    ∃ d, Reached bell d ∧ d.model.Descends ⟨2⟩ [⟨1⟩] ∧ d.model.fullName ⟨2⟩ = "Bell::ring" ∧
      d.model.resolvePath (d.model.fullName ⟨2⟩) = .error (.ambiguous "Bell::ring" "ring" 2) ∧
      ∃ set, (d.model.node ⟨1⟩).content.get? "ring" = some set ∧ set.toList = [⟨2⟩, ⟨4⟩] ∧
        d.model.lookup ⟨7⟩ ("::" ++ d.model.fullName ⟨2⟩) = .ok set := by
  have computed : ((Question.type ⟨7⟩).ask bell (Session.start bell).build.draft).toOption.any
      fun ended => ended.2.model.Descends ⟨2⟩ [⟨1⟩] ∧ ended.2.model.fullName ⟨2⟩ = "Bell::ring" ∧
        ended.2.model.name ⟨2⟩ = "ring" ∧ (ended.2.model.node ⟨2⟩).owner = some ⟨1⟩ ∧
        ((ended.2.model.node ⟨1⟩).content.get? "ring").map OrderedSet.toList =
          some [⟨2⟩, ⟨4⟩] := by
    decide +kernel
  match ran : (Question.type ⟨7⟩).ask bell (Session.start bell).build.draft with
  | .ok ((), d) =>
    rw [ran] at computed
    obtain ⟨descends, full, name, owner, listed⟩ := of_decide_eq_true computed
    have reached : Reached bell d := .asked (.built .standard) (.type ⟨7⟩) ran
    obtain ⟨set, asked, _, _, resolved, anchored⟩ := lookup_fullName reached descends
    rw [Model.namesakes?, owner, name] at asked
    obtain ⟨set', held, entries⟩ := Option.map_eq_some_iff.mp listed
    cases held.symm.trans asked
    have two : set.size = 2 := congrArg List.length entries
    rw [two, if_neg (by decide), name] at resolved
    refine ⟨d, reached, descends, full, ?_, set, asked, entries, anchored ⟨7⟩⟩
    rw [resolved, full]
  | .error _ =>
    rw [ran] at computed
    cases computed

end Bindery
