import Bindery.Proofs.Model.Recording
import Bindery.Proofs.Ownership
import Bindery.Proofs.Strict.Session

/-! What is left of a model when its session has been asked. Apart from remembered answers every node
is as it was, markers of spellings that are new come behind the others, and the table of markers lists
them all. What is read from nodes that were there before is the same as before. -/

set_option autoImplicit false

namespace Bindery

open Ast (CursorId TranslationUnit)

/-! ## The table of markers -/

namespace Model

/-- The table of markers lists the nodes that reflect no cursor, each under its name. -/
structure Tabled (m : Model) : Prop where
  marks : ∀ spelling id, m.marker? spelling = some id → m.Marks spelling id
  listed : ∀ id, id.index < m.size → (m.node id).occurrence = none →
    m.marker? (m.name id) = some id

variable {m n : Model}

theorem Marks.occurrence {spelling : String} {id : NodeId} (marks : m.Marks spelling id) :
    (m.node id).occurrence = none :=
  congrArg Node.occurrence marks.face

theorem Tabled.marks_of_occurrence (tabled : m.Tabled) {id : NodeId} (inside : id.index < m.size)
    (nowhere : (m.node id).occurrence = none) : m.Marks (m.name id) id :=
  tabled.marks _ _ (tabled.listed id inside nowhere)

/-- What is found for a spelling is the marker that has the spelling for its name. -/
theorem Tabled.marker?_eq_some_iff (tabled : m.Tabled) {spelling : String} {id : NodeId} :
    m.marker? spelling = some id ↔ id.index < m.size ∧ m.kind id = .builtin ∧
      m.name id = spelling ∧ (m.node id).occurrence = none := by
  constructor
  · intro found
    have marks := tabled.marks spelling id found
    exact ⟨marks.inside, marks.kind, marks.name, marks.occurrence⟩
  · rintro ⟨inside, _, rfl, nowhere⟩
    exact tabled.listed id inside nowhere

theorem Tabled.update (tabled : m.Tabled) (id : NodeId) {change : Node → Node}
    (faithful : ∀ node, (change node).face = node.face) : (m.update id change).Tabled where
  marks spelling other found :=
    (tabled.marks spelling other found).extends (.update m id change faithful)
  listed other inside nowhere := by
    have grown : m.Extends (m.update id change) := .update m id change faithful
    rw [size_update] at inside
    rw [grown.occurrence_eq] at nowhere
    rw [name, grown.name_eq inside]
    exact tabled.listed other inside nowhere

theorem Tabled.mark (tabled : m.Tabled) {spelling : String} (absent : m.marker? spelling = none) :
    Tabled { (m.add (.builtin spelling)).1 with
      markers := m.markers.put spelling (m.add (.builtin spelling)).2 } where
  marks := marks_mark tabled.marks absent
  listed id inside nowhere := by
    have grown := Extends.mark absent
    by_cases earlier : id.index < m.size
    · rw [grown.occurrence_eq] at nowhere
      rw [name, grown.name_eq earlier]
      exact grown.markers _ _ (tabled.listed id earlier nowhere)
    · -- The last node is the one made.
      have last : id = ⟨m.size⟩ := by
        cases id
        simp only [Model.size, add, Array.size_push, NodeId.mk.injEq] at inside earlier ⊢
        omega
      subst last
      change (m.markers.put spelling _).get? ((m.add (.builtin spelling)).1.node ⟨m.size⟩).name = _
      rw [node_add_size, OrderedMap.get?_put]
      exact if_pos rfl

theorem Fresh.tabled (fresh : m.Fresh)
    (real : ∀ id, id.index < m.size → (m.node id).occurrence ≠ none) : m.Tabled where
  marks spelling id found := by
    rw [marker?, fresh.unmarked] at found
    cases found
  listed id inside nowhere := absurd nowhere (real id inside)

end Model

/-- A question that ends keeps the table of markers right. -/
def Query.Tables {α : Type} (question : Query α) : Prop :=
  ∀ d : Draft, d.model.Tabled → ∀ answer e, question d = .ok (answer, e) → e.model.Tabled

theorem Query.tables_marker (spelling : String) : Tables (marker spelling) := by
  intro d tabled id e ran
  unfold marker at ran
  split at ran
  · cases ran
    exact tabled
  · next absent =>
    cases ran
    exact tabled.mark absent

theorem Query.pervades_tables : Pervades fun _ question => Tables question where
  toReads := .of_leads (fun _ tabled => tabled)
    (fun _ _ tabled => tabled) (fun _ _ _ _ tabled => tabled) tables_marker
  report found late := by
    intro d tabled given e ran
    cases ran
    exact tabled
  resolution id resolution := by
    intro d tabled given e ran
    cases ran
    exact tabled.update id fun _ => rfl
  bases id found := by
    intro d tabled given e ran
    cases ran
    exact tabled.update id fun _ => rfl

/-- Every node that a build makes reflects a cursor. -/
theorem occurrence_build (u : TranslationUnit) (f : Factory) :
    ∀ stage ∈ opening u f :: (buildVisits u f).map Visit.after,
      ∀ id, id.index < stage.model.size → (stage.model.node id).occurrence ≠ none := by
  refine nodes_build (Q := fun node => node.occurrence ≠ none) ⟨fun _ => Iff.rfl, ?_, ?_⟩ nofun
  · intro id c constructor kind _ _ _
    exact nofun
  · intro node later id c usr real _ _ _ folds
    rw [folds.occurrence]
    split
    · exact nofun
    · exact real

/-! ## The nodes -/

namespace Model

/-- The nodes in the order of the arena, without the answers remembered with them. -/
def faces (m : Model) : List Node := m.ids.map fun id => (m.node id).face

variable {m n : Model}

theorem exists_ids_eq_append (larger : m.size ≤ n.size) :
    ∃ more : List NodeId, n.ids = m.ids ++ more ∧ more.Nodup ∧
      ∀ id ∈ more, m.size ≤ id.index ∧ id.index < n.size := by
  obtain ⟨count, size⟩ := Nat.exists_eq_add_of_le larger
  refine ⟨(List.range count).map fun i => ⟨m.size + i⟩, ?_, ?_, fun id member => ?_⟩
  · simp [ids, size, List.range_add]
  · exact List.nodup_range.map fun i j same => by simpa using same
  · obtain ⟨i, below, rfl⟩ := List.mem_map.mp member
    have below := List.mem_range.mp below
    exact ⟨Nat.le_add_right m.size i, by simp only; omega⟩

/-- If the tables of both models are right, the later one has a marker more for each of some spellings
that were not known before. -/
theorem Extends.exists_new (grown : m.Extends n) (before : m.Tabled) (after : n.Tabled) :
    ∃ new : List String, new.Nodup ∧ (∀ spelling ∈ new, m.marker? spelling = none) ∧
      n.faces = m.faces ++ new.map fun spelling => (Node.builtin spelling).face := by
  obtain ⟨more, ids, distinct, beyond⟩ := exists_ids_eq_append grown.size_le
  have nowhere (id : NodeId) (member : id ∈ more) : (n.node id).occurrence = none := by
    rw [grown.occurrence_eq, node_of_size_le (beyond id member).1]
    rfl
  have found (id : NodeId) (member : id ∈ more) : n.marker? (n.name id) = some id :=
    after.listed id (beyond id member).2 (nowhere id member)
  refine ⟨more.map n.name, ?_, ?_, ?_⟩
  · refine List.Nodup.map_on (fun id first other second same => ?_) distinct
    have here := found id first
    rw [same, found other second] at here
    exact (Option.some.inj here).symm
  · intro spelling member
    obtain ⟨id, new, rfl⟩ := List.mem_map.mp member
    -- A marker that was listed before would be listed still, and it is not behind the others.
    by_contra known
    obtain ⟨other, earlier⟩ := Option.ne_none_iff_exists'.mp known
    have inside := (before.marks _ other earlier).inside
    have still := grown.markers _ other earlier
    rw [found id new] at still
    cases still
    exact absurd inside (Nat.not_lt_of_le (beyond id new).1)
  · rw [faces, ids, List.map_append, List.map_map]
    congr 1
    · exact List.map_congr_left fun id member => grown.kept id (mem_ids.mp member)
    · exact List.map_congr_left fun id member =>
        (after.marks_of_occurrence (beyond id member).2 (nowhere id member)).face

/-! ## Listings -/

theorem Extends.listingLine_eq (grown : m.Extends n) (depth : Nat) {id : NodeId}
    (inside : id.index < m.size) : n.listingLine depth id = m.listingLine depth id := by
  -- A line shows a single node, and nothing that is remembered with it.
  have faceless (k : Model) : k.listingLine depth id =
      listingLine { nodes := #[(k.node id).face] } depth ⟨0⟩ := rfl
  rw [faceless, faceless, grown.kept id inside]

-- The way down stays among the nodes of the earlier model and never repeats, so that neither bound is
-- ever used up.
theorem Extends.listingLines_eq (grown : m.Extends n) (placed : m.Placed) :
    ∀ (bound larger : Nat) (way : List NodeId) (id : NodeId), way.Nodup →
      (∀ above ∈ way, above.index < m.size) → id.index < m.size →
      m.size < bound + way.length → m.size < larger + way.length →
      n.listingLines larger way id = m.listingLines bound way id
  | 0, _, way, _, distinct, within, _, room, _ => by
    have full := length_le_size distinct within
    omega
  | _, 0, way, _, distinct, within, _, _, room => by
    have full := length_le_size distinct within
    omega
  | bound + 1, larger + 1, way, id, distinct, within, inside, room, larger_room => by
    rw [listingLines, listingLines, grown.listingLine_eq way.length inside, grown.membersOf_eq]
    congr 1
    split
    · rfl
    · next further =>
      refine List.flatMap_congr fun member present => ?_
      apply listingLines_eq grown placed bound larger (id :: way) member
      · exact List.nodup_cons.mpr ⟨further, distinct⟩
      · exact List.forall_mem_cons.mpr ⟨inside, within⟩
      · exact placed.index_lt present
      · rw [List.length_cons]
        omega
      · rw [List.length_cons]
        omega

theorem Extends.listingFrom_eq (grown : m.Extends n) (placed : m.Placed) {id : NodeId}
    (inside : id.index < m.size) : n.listingFrom id = m.listingFrom id := by
  have larger := grown.size_le
  rw [listingFrom, listingFrom, grown.listingLines_eq placed (m.size + 1) (n.size + 1) [] id]
  · exact List.nodup_nil
  · exact List.forall_mem_nil _
  · exact inside
  · rw [List.length_nil]
    omega
  · rw [List.length_nil]
    omega

/-- What is read from a later model about the nodes of an earlier one is what was read from that. -/
structure ReadsAs (n m : Model) : Prop where
  listing : n.listing = m.listing
  listingFrom : ∀ id, id.index < m.size → n.listingFrom id = m.listingFrom id
  lookup : ∀ scope path, n.lookup scope path = m.lookup scope path
  lookupOne : ∀ scope path, n.lookupOne scope path = m.lookupOne scope path
  fullName : ∀ id, id.index < m.size → n.fullName id = m.fullName id
  signatureKey : ∀ id, id.index < m.size → n.signatureKey id = m.signatureKey id
  overloads : ∀ id, id.index < m.size → n.overloads id = m.overloads id
  membersOf : ∀ id, n.membersOf id = m.membersOf id
  membersWhere : ∀ id wanted, n.membersWhere id wanted = m.membersWhere id wanted

theorem Extends.readsAs (grown : m.Extends n) (links : m.Linked) (placed : m.Placed)
    (rooted : root.index < m.size) : n.ReadsAs m where
  listing := grown.listingFrom_eq placed rooted
  listingFrom _ inside := grown.listingFrom_eq placed inside
  lookup := grown.lookup_eq
  lookupOne := grown.lookupOne_eq
  fullName _ inside := grown.fullName_eq links inside
  signatureKey _ inside := grown.signatureKey_eq links inside
  overloads _ inside := grown.overloads_eq inside
  membersOf := grown.membersOf_eq
  membersWhere := grown.membersWhere_eq

end Model

/-! ## Operations -/

def Operation.askAll (u : TranslationUnit) (operations : List Operation) : Query Unit :=
  operations.foldlM (fun _ operation => (operation.ask u).forget) ()

theorem Query.Composes.read {P : (α : Type) → Query α → Prop} (composes : Composes P) {α : Type}
    (view : Model → α) : P α (Query.read view) :=
  composes.bind composes.model fun _ => composes.pure _

/-- What is true of all questions to the resolver, and of what is put together from them, is true of
every operation. -/
theorem Query.Resolving.operation {u : TranslationUnit} {P : (α : Type) → Query α → Prop}
    (resolving : Resolving u P) (operation : Operation) : P _ (operation.ask u) := by
  cases operation with
  | type id => exact resolving.type id
  | returned id => exact resolving.returnType id
  | typeNeeds id => exact resolving.typeNeeds id
  | needs id => exact resolving.needs id
  | bases id => exact resolving.baseRecords id
  | unresolvedBases id => exact resolving.unresolvedBases id
  | marker spelling => exact resolving.marker spelling
  | casters p => exact resolving.detectCasters p
  | closure p ids => exact resolving.closure p ids
  | order found => exact resolving.order found
  | plan p emit sorted => exact resolving.ofOrder p emit sorted
  | planOf p emit ids => exact resolving.ofRoots p emit ids
  | _ => exact resolving.read _

theorem Query.Resolving.operations {u : TranslationUnit} {P : (α : Type) → Query α → Prop}
    (resolving : Resolving u P) (operations : List Operation) : P _ (Operation.askAll u operations) :=
  resolving.foldlM (fun _ operation =>
    resolving.bind (resolving.operation operation) fun _ => resolving.pure _) operations ()

section

variable {u : TranslationUnit} {f : Factory} {operations : List Operation} {d e : Draft}

theorem extends_askAll (ran : Operation.askAll u operations d = .ok ((), e)) :
    d.model.Extends e.model :=
  ((Query.pervades_grows.resolving u).operations operations d () e ran).model

theorem tabled_askAll (tabled : d.model.Tabled)
    (ran : Operation.askAll u operations d = .ok ((), e)) : e.model.Tabled :=
  (Query.pervades_tables.resolving u).operations operations d tabled () e ran

theorem tabled_fresh (u : TranslationUnit) (f : Factory) : (freshDraft u f).model.Tabled :=
  (Session.fresh_build u f).tabled (occurrence_build u f _ (runs_build u f).final_mem)

/-- If the constructors make no markers, all nodes of the kind that markers have reflect no cursor. -/
theorem Model.Extends.occurrence_eq_none (plain : f.MakesNoMarkers)
    (grown : (freshDraft u f).model.Extends e.model) {id : NodeId}
    (marker : e.model.kind id = .builtin) : (e.model.node id).occurrence = none := by
  rw [grown.kind_eq] at marker
  have outside : (freshDraft u f).model.size ≤ id.index := by
    apply Nat.le_of_not_lt
    intro inside
    exact real_build plain u _ (runs_build u f).final_mem id inside marker
  rw [grown.occurrence_eq, Model.node_of_size_le outside]
  rfl

end

/-- Whatever a built session was asked before, operations that end leave every node as it was, apart
from remembered answers, and they leave the table of symbols. The arena only gets markers, at its end
and one for each spelling that is new, and what is found for a spelling is the marker of that name.
(Constructors of one's own may make nodes of the same kind, which reflect cursors and are not found.)
Listings, look-ups, qualified names, signatures, overloads and members are the same before and after. -/
theorem operations_undisturbing (u : TranslationUnit) (f : Factory) (earlier asked : List Operation)
    (d e : Draft) (began : Operation.askAll u earlier (freshDraft u f) = .ok ((), d))
    (ended : Operation.askAll u asked d = .ok ((), e)) :
    (∀ id, id.index < d.model.size → (e.model.node id).face = (d.model.node id).face) ∧
      e.model.symbols = d.model.symbols ∧
      (∃ new : List String, new.Nodup ∧ (∀ spelling ∈ new, d.model.marker? spelling = none) ∧
        e.model.faces = d.model.faces ++ new.map fun spelling => (Node.builtin spelling).face) ∧
      (∀ spelling id, e.model.marker? spelling = some id ↔ id.index < e.model.size ∧
        e.model.kind id = .builtin ∧ e.model.name id = spelling ∧
          (e.model.node id).occurrence = none) ∧
      (f.MakesNoMarkers → ∀ spelling id, e.model.marker? spelling = some id ↔
        id.index < e.model.size ∧ e.model.kind id = .builtin ∧ e.model.name id = spelling) ∧
      e.model.ReadsAs d.model := by
  have first : (freshDraft u f).model.Extends d.model := extends_askAll began
  have grown : d.model.Extends e.model := extends_askAll ended
  have before : d.model.Tabled := tabled_askAll (tabled_fresh u f) began
  have after : e.model.Tabled := tabled_askAll before ended
  have links : d.model.Linked := first.linked (Session.fresh_build u f).linked
  have built : Reached u (freshDraft u f) := .built f
  have rooted : Model.root.index < d.model.size := by
    apply Model.index_lt_of_kind_ne
    rw [first.kind_eq, built.kind_root]
    decide
  refine ⟨grown.kept, grown.symbols, grown.exists_new before after,
    fun spelling id => after.marker?_eq_some_iff, fun plain spelling id => ?_,
    grown.readsAs links (built.placed.extends first) rooted⟩
  rw [after.marker?_eq_some_iff]
  constructor
  · rintro ⟨inside, kind, name, _⟩
    exact ⟨inside, kind, name⟩
  · rintro ⟨inside, kind, name⟩
    exact ⟨inside, kind, name, (first.trans grown).occurrence_eq_none plain kind⟩

/-- A plan and the type of a parameter are asked for after a marker. The type makes another one. -/
theorem operations_undisturbing_bell :
    ∃ d e, Operation.askAll bell [.marker "double"] (freshDraft bell .standard) = .ok ((), d) ∧
      Operation.askAll bell [.planOf {} {} [⟨1⟩], .type ⟨7⟩, .marker "double"] d = .ok ((), e) ∧
      d.model.size = 9 ∧ e.model.size = 10 ∧ e.model.marker? "int" = some ⟨9⟩ ∧
      e.model.overloads ⟨2⟩ = [⟨4⟩] ∧ e.model.listing = d.model.listing := by
  have computed : ((Operation.askAll bell [.marker "double"] (freshDraft bell .standard)).toOption.any
      fun first => first.2.model.size = 9 ∧ first.2.model.overloads ⟨2⟩ = [⟨4⟩] ∧
        ((Operation.askAll bell [.planOf {} {} [⟨1⟩], .type ⟨7⟩, .marker "double"]
          first.2).toOption.any fun second => second.2.model.size = 10 ∧
            second.2.model.kind ⟨9⟩ = .builtin ∧ second.2.model.name ⟨9⟩ = "int")) := by
    decide +kernel
  obtain ⟨⟨⟩, d, began, computed⟩ := Query.exists_of_any computed
  obtain ⟨small, overloads, computed⟩ := of_decide_eq_true computed
  obtain ⟨⟨⟩, e, ended, computed⟩ := Query.exists_of_any computed
  obtain ⟨large, kind, name⟩ := of_decide_eq_true computed
  obtain ⟨_, _, _, _, found, reads⟩ := operations_undisturbing bell .standard _ _ d e began ended
  refine ⟨d, e, began, ended, small, large, ?_, ?_, reads.listing⟩
  · refine (found Factory.makesNoMarkers_standard "int" ⟨9⟩).mpr ⟨?_, kind, name⟩
    rw [large]
    decide
  · have inside : (⟨2⟩ : NodeId).index < d.model.size := by
      rw [small]
      decide
    rw [reads.overloads ⟨2⟩ inside, overloads]

end Bindery
