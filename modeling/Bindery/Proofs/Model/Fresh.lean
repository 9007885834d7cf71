import Bindery.Proofs.Model.Walk

/-! The model that a walk leaves: owners and symbols lead to nodes of the arena, and no question has
been asked yet, so that no answer is remembered and no marker made. -/

set_option autoImplicit false

namespace Bindery

open Ast (Cursor CursorId TranslationUnit)

/-- A node with which no answer is remembered. -/
structure Node.Unasked (node : Node) : Prop where
  pending : node.resolution = .pending
  baseless : node.bases = none

namespace Model

/-- A model before the first question. -/
structure Fresh (m : Model) : Prop where
  linked : m.Linked
  unasked : ∀ id, id.index < m.size → (m.node id).Unasked
  unmarked : m.markers = ∅

variable {m : Model} {u : TranslationUnit} {f : Factory}

theorem Fresh.update (fresh : m.Fresh) (id : NodeId) (change : Node → Node)
    (blank : ∀ node : Node, node.Unasked → (change node).Unasked)
    (owners : ∀ node owner, (change node).owner = some owner →
      node.owner = some owner ∨ owner.index < m.size) : (m.update id change).Fresh where
  linked := {
    owner := by
      intro other owner owned
      rw [size_update]
      rw [node_update] at owned
      split at owned
      · rcases owners _ owner owned with earlier | inside
        · exact fresh.linked.owner other owner earlier
        · exact inside
      · exact fresh.linked.owner other owner owned
    symbol := by
      intro usr other found
      rw [size_update]
      exact fresh.linked.symbol usr other found }
  unasked := by
    intro other inside
    rw [size_update] at inside
    rw [node_update]
    split
    · exact blank _ (fresh.unasked other inside)
    · exact fresh.unasked other inside
  unmarked := fresh.unmarked

theorem Fresh.enroll (fresh : m.Fresh) {node : Node} (unasked : node.Unasked)
    (ownerless : node.owner = none) : (m.enroll node).Fresh := by
  refine ⟨⟨?_, ?_⟩, ?_, fresh.unmarked⟩
  · intro id owner owned
    rw [size_enroll]
    rw [node_enroll] at owned
    split at owned
    · rw [ownerless] at owned
      cases owned
    · exact Nat.lt_succ_of_lt (fresh.linked.owner id owner owned)
  · intro usr id found
    rw [size_enroll]
    rw [byUsr?_enroll] at found
    split at found
    · cases found
      exact Nat.lt_succ_self m.size
    · exact Nat.lt_succ_of_lt (fresh.linked.symbol usr id found)
  · intro id inside
    rw [size_enroll] at inside
    rw [node_enroll]
    split
    · exact unasked
    · exact fresh.unasked id (by omega)

theorem Fresh.attach (fresh : m.Fresh) (owner item : NodeId) : (m.attach owner item).Fresh :=
  fresh.update owner _ (fun _ blank => ⟨blank.pending, blank.baseless⟩) fun _ _ owned => .inl owned

theorem Fresh.setOwner (fresh : m.Fresh) {owner : NodeId} (inside : owner.index < m.size)
    (item : NodeId) : (m.setOwner owner item).Fresh :=
  fresh.update item _ (fun _ blank => ⟨blank.pending, blank.baseless⟩) fun _ other owned => by
    cases owned
    exact .inr inside

theorem Fresh.setRefType (fresh : m.Fresh) (owner item : NodeId) : (m.setRefType owner item).Fresh :=
  fresh.update owner _ (fun _ blank => ⟨blank.pending, blank.baseless⟩) fun _ _ owned => .inl owned

theorem fresh_start {root : Node} (unasked : root.Unasked) (ownerless : root.owner = none) :
    (Model.start root).Fresh := by
  have outside (id : NodeId) : ({ nodes := #[] } : Model).node id = .builtin "" :=
    node_of_size_le (Nat.zero_le id.index)
  have empty : Fresh { nodes := #[] } := by
    refine ⟨⟨fun id owner owned => ?_, nofun⟩, nofun, rfl⟩
    rw [outside] at owned
    cases owned
  rw [start_eq]
  exact empty.enroll unasked ownerless

/-- A semantic owner is a node of the arena. -/
theorem semanticOwner?_lt (links : m.Linked) {container owner : NodeId} {c : Cursor}
    (inside : container.index < m.size) (found : m.semanticOwner? u container c = some owner) :
    owner.index < m.size := by
  unfold semanticOwner? at found
  split at found
  · cases found
    exact inside
  · split at found
    · cases found
      exact inside
    · next parent _ =>
      split at found
      · cases found
        exact Nat.zero_lt_of_lt inside
      · split at found
        · cases found
          exact inside
        · obtain ⟨usr, _, here⟩ := Option.bind_eq_some_iff.mp found
          exact links.symbol usr owner here

end Model

namespace Draft

variable {u : TranslationUnit} {f : Factory} {d : Draft}

theorem fresh_carryOut (fresh : d.model.Fresh) {container item : NodeId} (c : Cursor)
    {verdict : Verdict} (inside : ∀ owner, verdict = .accepted owner ∨ verdict = .elaborated owner →
      owner.index < d.model.size) : (d.carryOut u container item c verdict).model.Fresh := by
  cases verdict with
  | accepted owner =>
    have here : owner.index < (d.model.attach owner item).size := by
      rw [Model.attach, Model.size_update]
      exact inside owner (.inl rfl)
    have owned := (fresh.attach owner item).setOwner here item
    simp only [carryOut]
    split
    · exact owned.setRefType owner item
    · exact owned
  | elaborated owner =>
    have attached := (fresh.attach container item).attach owner item
    refine attached.setOwner ?_ item
    rw [Model.attach, Model.size_update, Model.attach, Model.size_update]
    exact inside owner (.inr rfl)
  | rejected owner => exact fresh
  | ownerless => exact fresh

theorem fresh_accept (fresh : d.model.Fresh) {container item : NodeId} (c : Cursor)
    (inside : container.index < d.model.size) :
    (d.accept u container item c).model.Fresh := by
  apply fresh_carryOut fresh
  intro owner taken
  have found : d.model.semanticOwner? u container c = some owner := by
    unfold Model.judge at taken
    split at taken
    · rcases taken with taken | taken <;> cases taken
    · next other found =>
      -- Whatever the verdict, it names the semantic owner.
      have same : other = owner := by
        split at taken <;> split at taken <;> rcases taken with taken | taken <;> cases taken <;> rfl
      rw [found, same]
  exact Model.semanticOwner?_lt fresh.linked inside found

-- Entering a cursor keeps the model fresh, and the node entered is in it.
theorem fresh_of_enters (fresh : d.model.Fresh) {id : CursorId} {c : Cursor} {item : NodeId}
    {entered : Draft} (enters : Enters u f d id c item entered) :
    entered.model.Fresh ∧ d.model.size ≤ entered.model.size ∧
      item.index < entered.model.size := by
  cases enters with
  | @known usr item symbol found =>
    unfold merge
    refine ⟨fresh.update item _ ?_ ?_, Nat.le_of_eq (Model.size_update ..).symm, ?_⟩
    -- A callable is reset, and any other node keeps what it had, which is nothing.
    · intro node blank
      split
      · exact ⟨rfl, rfl⟩
      · split
        · exact ⟨blank.pending, blank.baseless⟩
        · exact blank
    · intro node owner owned
      left
      split at owned
      · exact owned
      · split at owned <;> exact owned
    · rw [Model.size_update]
      exact fresh.linked.symbol usr item found
  | new modeled taken unknown =>
    refine ⟨fresh.enroll ⟨rfl, rfl⟩ rfl, ?_, ?_⟩
    · rw [Model.size_enroll]
      exact Nat.le_succ d.model.size
    · rw [Model.size_enroll]
      exact Nat.lt_succ_self d.model.size

theorem Runs.fresh {known : List NodeId} {e : Draft} {visits : List Visit}
    (runs : Runs u f known d visits e) (fresh : d.model.Fresh)
    (inside : ∀ id ∈ known, id.index < d.model.size) : e.model.Fresh := by
  induction runs with
  | done => exact fresh
  | @visit known container item d entered e id c rest member cursor enters later ih =>
    obtain ⟨kept, grown, here⟩ := fresh_of_enters fresh enters
    have size := (rearranges_accept (u := u) entered container item c).size
    apply ih (fresh_accept kept c (Nat.lt_of_lt_of_le (inside container member) grown))
    intro other present
    rw [size]
    rcases List.mem_cons.mp present with rfl | earlier
    · exact here
    · exact Nat.lt_of_lt_of_le (inside other earlier) grown

end Draft

/-- No question has been asked when a build ends. -/
theorem Session.fresh_build (u : TranslationUnit) (f : Factory) :
    (Session.start u f).build.model.Fresh := by
  have first : (Session.start u f).draft.model.Fresh := Model.fresh_start ⟨rfl, rfl⟩ rfl
  apply (runs_build u f).fresh first
  intro id only
  rw [List.mem_singleton.mp only]
  exact Nat.zero_lt_one

end Bindery
