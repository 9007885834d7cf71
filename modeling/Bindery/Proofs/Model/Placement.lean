import Bindery.Proofs.Model.Arena
import Bindery.Proofs.Model.Fresh

/-! What one visit does to the nodes. Entering a cursor concerns the node entered and no other;
acceptance gives the node to those that take it, and changes nothing if nobody does. -/

set_option autoImplicit false

namespace Bindery

open Ast (Cursor CursorId TranslationUnit)

theorem NodeId.index_ne {id : NodeId} {index : Nat} (apart : id ≠ ⟨index⟩) : id.index ≠ index := by
  rintro rfl
  exact apart rfl

namespace Node

/-- Whether a node is taken over by the next occurrence of its declaration. -/
def yields (node : Node) : Bool := node.kind.isCallable || node.members.isEmpty

/-- What belongs to a node, and whether it may have lost some of it, is the same. -/
structure SameHousehold (later earlier : Node) : Prop where
  members : later.members = earlier.members
  content : later.content = earlier.content
  refType : later.refType = earlier.refType
  isInline : later.isInline = earlier.isInline

/-- Nothing belongs to a callable that has just been met again. -/
structure Cleared (node : Node) : Prop where
  members : node.members = ∅
  content : node.content = ∅
  isInline : node.isInline

/-- What becomes of a node when its declaration is met again. -/
inductive Folds (node : Node) (id : CursorId) (c : Cursor) : Node → Prop where
  | rebuilt (callable : node.kind.isCallable) :
    Folds node id c { node.reset.adopt id c with isInline := true }
  | adopted (plain : node.kind.isCallable = false) (empty : node.members = ∅) :
    Folds node id c (node.adopt id c)
  | kept (plain : node.kind.isCallable = false) (peopled : node.members ≠ ∅) : Folds node id c node

namespace Folds

variable {node later : Node} {id : CursorId} {c : Cursor}

theorem kind (folds : node.Folds id c later) : later.kind = node.kind := by
  cases folds <;> rfl

theorem owner (folds : node.Folds id c later) : later.owner = node.owner := by
  cases folds <;> rfl

/-- A callable loses its members, and all other nodes keep theirs. -/
theorem household (folds : node.Folds id c later) :
    later.SameHousehold node ∨ node.kind.isCallable ∧ later.Cleared := by
  cases folds with
  | rebuilt callable => exact .inr ⟨callable, rfl, rfl, rfl⟩
  | adopted plain empty => exact .inl ⟨rfl, rfl, rfl, rfl⟩
  | kept plain peopled => exact .inl ⟨rfl, rfl, rfl, rfl⟩

theorem occurrence (folds : node.Folds id c later) :
    later.occurrence = if node.yields then some id else node.occurrence := by
  cases folds with
  | rebuilt callable => simp [yields, callable, adopt]
  | adopted plain empty => simp [yields, OrderedSet.isEmpty_iff.mpr empty, adopt]
  | kept plain peopled =>
    have still : node.yields = false := by
      simpa [yields, plain] using mt OrderedSet.isEmpty_iff.mp peopled
    simp [still]

end Folds

end Node

namespace Model

variable (m : Model)

/-! ## Members, owners and type references -/

/-- What a change of one node leaves as it was. -/
theorem read_update {β : Type} (read : Node → β) (id : NodeId) (change : Node → Node)
    (blind : ∀ node, read (change node) = read node) (other : NodeId) :
    read ((m.update id change).node other) = read (m.node other) := by
  rw [node_update]
  split
  · exact blind _
  · rfl

variable (owner item id : NodeId)

@[simp] theorem owner_attach : ((m.attach owner item).node id).owner = (m.node id).owner := by
  refine m.read_update Node.owner owner _ (fun _ => ?_) id
  rfl

@[simp] theorem refType_attach : ((m.attach owner item).node id).refType = (m.node id).refType := by
  refine m.read_update Node.refType owner _ (fun _ => ?_) id
  rfl

@[simp] theorem members_setOwner :
    ((m.setOwner owner item).node id).members = (m.node id).members := by
  refine m.read_update Node.members item _ (fun _ => ?_) id
  rfl

@[simp] theorem refType_setOwner :
    ((m.setOwner owner item).node id).refType = (m.node id).refType := by
  refine m.read_update Node.refType item _ (fun _ => ?_) id
  rfl

@[simp] theorem members_setRefType :
    ((m.setRefType owner item).node id).members = (m.node id).members := by
  refine m.read_update Node.members owner _ (fun _ => ?_) id
  rfl

@[simp] theorem owner_setRefType :
    ((m.setRefType owner item).node id).owner = (m.node id).owner := by
  refine m.read_update Node.owner owner _ (fun _ => ?_) id
  rfl

variable {m owner item id}

theorem members_attach (inside : owner.index < m.size) :
    ((m.attach owner item).node id).members =
      if id = owner then (m.node id).members.insert item else (m.node id).members := by
  rw [attach, node_update]
  by_cases same : id = owner <;> simp [same, inside]

theorem owner_setOwner (inside : item.index < m.size) :
    ((m.setOwner owner item).node id).owner =
      if id = item then some owner else (m.node id).owner := by
  rw [setOwner, node_update]
  by_cases same : id = item <;> simp [same, inside]

theorem refType_setRefType (inside : owner.index < m.size) :
    ((m.setRefType owner item).node id).refType =
      if id = owner then some item else (m.node id).refType := by
  rw [setRefType, node_update]
  by_cases same : id = owner <;> simp [same, inside]

@[simp] theorem size_attach : (m.attach owner item).size = m.size := size_update ..

theorem Lasts.kind_eq {n : Model} (lasts : m.Lasts n) (real : m.kind id ≠ .builtin) :
    n.kind id = m.kind id :=
  (lasts.kept id (index_lt_of_kind_ne real)).kind

@[simp] theorem size_setOwner : (m.setOwner owner item).size = m.size := size_update ..

/-! ## Verdicts -/

end Model

namespace Verdict

/-- Who gets the item as a member. -/
def takers (container : NodeId) : Verdict → List NodeId
  | .accepted owner => [owner]
  | .elaborated owner => [container, owner]
  | .rejected _ | .ownerless => []

def owner? : Verdict → Option NodeId
  | .accepted owner | .elaborated owner => some owner
  | .rejected _ | .ownerless => none

variable {verdict : Verdict} {container owner taker : NodeId}

theorem mem_takers_of_owner? (taken : verdict.owner? = some owner) :
    owner ∈ verdict.takers container := by
  cases verdict <;> cases taken <;> simp [takers]

theorem exists_owner_of_takers (takes : taker ∈ verdict.takers container) :
    ∃ owner, verdict.owner? = some owner := by
  cases verdict with
  | accepted owner | elaborated owner => exact ⟨owner, rfl⟩
  | rejected _ | ownerless => cases takes

end Verdict

namespace Model

variable {m : Model} {u : TranslationUnit} {container item owner : NodeId} {c : Cursor}

/-- What each verdict rests on. -/
inductive Judges (m : Model) (u : TranslationUnit) (container item : NodeId) (c : Cursor) :
    Verdict → Prop where
  | accepted {owner : NodeId} (found : m.semanticOwner? u container c = some owner)
    (allowed : m.ownerAllows owner c.kind)
    (near : owner = container ∨ mayRelocate (m.kind container) (m.kind item) (m.kind owner)) :
    Judges m u container item c (.accepted owner)
  | elaborated {owner : NodeId} (found : m.semanticOwner? u container c = some owner)
    (allowed : m.ownerAllows owner c.kind)
    (spelled : isElaboration (m.kind container) (m.kind item) (m.kind owner)) :
    Judges m u container item c (.elaborated owner)
  | rejected (owner : NodeId) : Judges m u container item c (.rejected owner)
  | ownerless : Judges m u container item c .ownerless

theorem judges (m : Model) (u : TranslationUnit) (container item : NodeId) (c : Cursor) :
    Judges m u container item c (m.judge u container item c) := by
  unfold judge
  split
  · exact .ownerless
  · next owner found =>
    split
    · next spelled =>
      split
      · next allowed => exact .elaborated found allowed spelled
      · exact .rejected owner
    · split
      · next both =>
        obtain ⟨allowed, near⟩ := (Bool.and_eq_true _ _).mp both
        exact .accepted found allowed (by simpa using near)
      · exact .rejected owner

theorem semanticOwner?_of_judge
    (taken : (m.judge u container item c).owner? = some owner) :
    m.semanticOwner? u container c = some owner := by
  have judged := m.judges u container item c
  generalize m.judge u container item c = verdict at judged taken
  cases judged <;> cases taken <;> assumption

/-- Only nodes of the arena take an item. -/
theorem takers_lt (links : m.Linked) (inside : container.index < m.size) :
    ∀ taker ∈ (m.judge u container item c).takers container, taker.index < m.size := by
  have owned (owner : NodeId) (taken : (m.judge u container item c).owner? = some owner) :
      owner.index < m.size :=
    semanticOwner?_lt links inside (semanticOwner?_of_judge taken)
  intro taker member
  cases verdict : m.judge u container item c with
  | accepted owner =>
    rw [verdict] at member owned
    rw [List.mem_singleton.mp member]
    exact owned owner rfl
  | elaborated owner =>
    rw [verdict] at member owned
    rcases List.mem_cons.mp member with rfl | last
    · exact inside
    · rw [List.mem_singleton.mp last]
      exact owned owner rfl
  | rejected owner | ownerless =>
    rw [verdict] at member
    cases member

end Model

namespace Draft

variable {u : TranslationUnit} {f : Factory} {d entered : Draft} {container item other : NodeId}
  {id : CursorId} {c : Cursor}

/-! ## Entering -/

theorem folds_merge (inside : item.index < d.model.size) :
    (d.model.node item).Folds id c ((d.merge item id c).model.node item) := by
  unfold merge
  rw [Model.node_update, if_pos ⟨rfl, inside⟩]
  split
  · next callable => exact .rebuilt callable
  · next plain =>
    rw [Bool.not_eq_true] at plain
    split
    · next empty => exact .adopted plain (OrderedSet.isEmpty_iff.mp empty)
    · next peopled => exact .kept plain (mt OrderedSet.isEmpty_iff.mpr peopled)

theorem node_merge_of_ne (apart : other ≠ item) :
    (d.merge item id c).model.node other = d.model.node other := by
  unfold merge
  rw [Model.node_update, if_neg fun both => apart both.1]

/-- Entering a cursor leaves all nodes but the one entered as they are. -/
theorem node_of_enters_ne (enters : Enters u f d id c item entered) (apart : other ≠ item) :
    entered.model.node other = d.model.node other := by
  cases enters with
  | known symbol found => exact node_merge_of_ne apart
  | new modeled taken unknown =>
    rw [Model.node_enroll, if_neg (NodeId.index_ne apart)]

/-! ## Acceptance -/

section

variable (takers : ∀ taker ∈ (d.model.judge u container item c).takers container,
  taker.index < d.model.size)

include takers

theorem members_accept :
    ((d.accept u container item c).model.node other).members =
      if other ∈ (d.model.judge u container item c).takers container
      then (d.model.node other).members.insert item else (d.model.node other).members := by
  unfold accept
  cases verdict : d.model.judge u container item c with
  | accepted owner =>
    rw [verdict] at takers
    have inside : owner.index < d.model.size := takers owner List.mem_cons_self
    simp only [carryOut, Verdict.takers, List.mem_singleton]
    split <;> simp [Model.members_attach inside]
  | elaborated owner =>
    rw [verdict] at takers
    have first : container.index < d.model.size := takers container List.mem_cons_self
    have second : owner.index < (d.model.attach container item).size := by
      simpa using takers owner (by simp [Verdict.takers])
    simp only [carryOut, Verdict.takers, List.mem_cons, List.not_mem_nil, or_false,
      Model.members_setOwner, Model.members_attach second, Model.members_attach first]
    by_cases there : other = owner
    · subst there
      by_cases here : other = container <;> simp [here, OrderedSet.insert_of_mem]
    · by_cases here : other = container
      · subst here
        simp [there]
      · simp [here, there]
  | rejected owner | ownerless => simp [carryOut, Verdict.takers, report]

theorem mem_members_accept {member : NodeId} :
    member ∈ ((d.accept u container item c).model.node other).members ↔
      member ∈ (d.model.node other).members ∨
        member = item ∧ other ∈ (d.model.judge u container item c).takers container := by
  rw [members_accept takers]
  split <;> simp_all

end

theorem owner_accept (inside : item.index < d.model.size) :
    ((d.accept u container item c).model.node other).owner =
      (if other = item then (d.model.judge u container item c).owner? else none).or
        (d.model.node other).owner := by
  unfold accept
  cases d.model.judge u container item c with
  | accepted owner =>
    have here : item.index < (d.model.attach owner item).size := by simpa using inside
    simp only [carryOut, Verdict.owner?]
    split <;> by_cases same : other = item <;> simp [Model.owner_setOwner here, same]
  | elaborated owner =>
    have here : item.index < ((d.model.attach container item).attach owner item).size := by
      simpa using inside
    by_cases same : other = item <;>
      simp [carryOut, Verdict.owner?, Model.owner_setOwner here, same]
  | rejected owner | ownerless => simp [carryOut, Verdict.owner?, report]

theorem refType_accept (takers : ∀ taker ∈ (d.model.judge u container item c).takers container,
      taker.index < d.model.size) :
    ((d.accept u container item c).model.node other).refType =
      if d.model.judge u container item c = .accepted other ∧
          d.model.kind other = .templateNonTypeParam
      then some item else (d.model.node other).refType := by
  unfold accept
  cases verdict : d.model.judge u container item c with
  | accepted owner =>
    rw [verdict] at takers
    have inside : owner.index < ((d.model.attach owner item).setOwner owner item).size := by
      simpa using takers owner List.mem_cons_self
    have kinds : ((d.model.attach owner item).setOwner owner item).kind owner = d.model.kind owner :=
      ((Model.Rearranges.attach d.model owner item).trans (.setOwner _ owner item)).same_read
        Node.kind (fun _ => rfl) owner
    simp only [carryOut, Verdict.accepted.injEq, kinds]
    by_cases same : owner = other
    · subst same
      split <;> simp [Model.refType_setRefType inside, *]
    · have apart : ¬ other = owner := fun equal => same equal.symm
      split <;> simp [Model.refType_setRefType inside, same, apart]
  | elaborated owner => simp [carryOut]
  | rejected owner | ownerless => simp [carryOut, report]

/-! ## Visits -/

/-- A walk calls at a cursor that stands in a node of the arena, and no question has been asked
yet. -/
structure CallsAt (u : TranslationUnit) (f : Factory) (d : Draft) (container : NodeId)
    (id : CursorId) (c : Cursor) (item : NodeId) (entered : Draft) : Prop where
  fresh : d.model.Fresh
  indexed : d.model.Indexed
  inside : container.index < d.model.size
  cursor : u.cursor? id = some c
  enters : Enters u f d id c item entered

namespace CallsAt

variable (calls : CallsAt u f d container id c item entered)

include calls

theorem fresh_entered : entered.model.Fresh := (fresh_of_enters calls.fresh calls.enters).1

theorem item_lt : item.index < entered.model.size := (fresh_of_enters calls.fresh calls.enters).2.2

theorem container_lt : container.index < entered.model.size :=
  Nat.lt_of_lt_of_le calls.inside (fresh_of_enters calls.fresh calls.enters).2.1

theorem takers_lt : ∀ taker ∈ (entered.model.judge u container item c).takers container,
    taker.index < entered.model.size :=
  Model.takers_lt calls.fresh_entered.linked calls.container_lt

/-- The node of the cursor was there before and bears its symbol, or it is new and of the kind that
the constructor gives. -/
theorem node : item.index < d.model.size ∧ (∃ usr, c.usr? = some usr ∧
      (d.model.node item).usr = some usr) ∧ (d.model.node item).Folds id c (entered.model.node item) ∨
    d.model.node item = .builtin "" ∧ ∃ constructor kind, f.constructor? c.kind = some constructor ∧
      constructor u id = some kind ∧ entered.model.node item = .ofCursor kind id c := by
  obtain ⟨fresh, indexed, _, _, enters⟩ := calls
  cases enters with
  | @known usr item symbol found =>
    have inside := fresh.linked.symbol usr item found
    exact .inl ⟨inside, ⟨usr, symbol, (indexed usr item).mp found⟩, folds_merge inside⟩
  | @new constructor kind modeled taken unknown =>
    refine .inr ⟨Model.node_of_size_le (Nat.le_refl _), constructor, kind, modeled, taken, ?_⟩
    rw [Model.node_enroll, if_pos rfl]

theorem lt_of_ne (inside : other.index < entered.model.size) (apart : other ≠ item) :
    other.index < d.model.size := by
  obtain ⟨_, _, _, _, enters⟩ := calls
  cases enters with
  | known symbol found =>
    unfold merge at inside
    rwa [Model.size_update] at inside
  | new modeled taken unknown =>
    have earlier := NodeId.index_ne apart
    rw [Model.size_enroll] at inside
    omega

theorem lasts : d.model.Lasts entered.model := lasts_of_enters calls.indexed calls.enters

theorem owner (other : NodeId) :
    (entered.model.node other).owner = (d.model.node other).owner := by
  by_cases here : other = item
  · subst here
    rcases calls.node with ⟨_, _, folds⟩ | ⟨outside, _, _, _, _, new⟩
    · exact folds.owner
    · rw [outside, new]
      rfl
  · rw [node_of_enters_ne calls.enters here]

/-- Entering a cursor takes members from nobody but a callable that is met again. -/
theorem household (other : NodeId) :
    (entered.model.node other).SameHousehold (d.model.node other) ∨
      (d.model.kind other).isCallable ∧ (entered.model.node other).Cleared := by
  by_cases here : other = item
  · subst here
    rcases calls.node with ⟨_, _, folds⟩ | ⟨outside, _, _, _, _, new⟩
    · exact folds.household
    · rw [outside, new]
      exact .inl ⟨rfl, rfl, rfl, rfl⟩
  · rw [node_of_enters_ne calls.enters here]
    exact .inl ⟨rfl, rfl, rfl, rfl⟩

end CallsAt

/-- Induction on the calls of a run, from the last one back to the first. -/
theorem Runs.induct {e : Draft} {motive : Draft → List Visit → Prop} (done : motive e [])
    (visit : ∀ {d entered : Draft} {container item : NodeId} {id : CursorId} {c : Cursor}
      {rest : List Visit}, CallsAt u f d container id c item entered →
        motive (entered.accept u container item c) rest →
        motive d (⟨id, item, entered.accept u container item c⟩ :: rest))
    {known : List NodeId} {visits : List Visit} (runs : Runs u f known d visits e)
    (fresh : d.model.Fresh) (indexed : d.model.Indexed)
    (inside : ∀ id ∈ known, id.index < d.model.size) : motive d visits := by
  induction runs with
  | done => exact done
  | @visit known container item d entered e id c rest member cursor enters later ih =>
    have calls : CallsAt u f d container id c item entered :=
      ⟨fresh, indexed, inside container member, cursor, enters⟩
    refine visit calls (ih done ?_ ?_ ?_)
    · exact fresh_accept calls.fresh_entered c calls.container_lt
    · exact indexed_accept (indexed_of_enters indexed enters) container item c
    · intro other present
      rw [(rearranges_accept entered container item c).size]
      rcases List.mem_cons.mp present with rfl | earlier
      · exact calls.item_lt
      · exact Nat.lt_of_lt_of_le (inside other earlier) (fresh_of_enters fresh enters).2.1

/-- What every visit keeps holds at all stages of a run. -/
theorem Runs.holds {P : Draft → Prop} {known : List NodeId} {visits : List Visit} {e : Draft}
    (runs : Runs u f known d visits e) (fresh : d.model.Fresh) (indexed : d.model.Indexed)
    (inside : ∀ id ∈ known, id.index < d.model.size)
    (keeps : ∀ {d entered : Draft} {container item : NodeId} {id : CursorId} {c : Cursor},
      CallsAt u f d container id c item entered → P d → P (entered.accept u container item c))
    (first : P d) : ∀ stage ∈ d :: visits.map Visit.after, P stage := by
  refine Runs.induct (motive := fun d visits => P d → ∀ stage ∈ d :: visits.map Visit.after, P stage)
    ?_ ?_ runs fresh indexed inside first
  · intro last stage only
    rw [List.mem_singleton.mp only]
    exact last
  · intro d entered container item id c rest calls later before stage member
    rcases List.mem_cons.mp member with rfl | further
    · exact before
    · exact later (keeps calls before) stage further

end Draft

/-- Before the walk there is the root alone, and nothing belongs to anything. -/
theorem node_opening (u : TranslationUnit) (f : Factory) (id : NodeId) :
    (opening u f).model.node id =
      if id.index = 0 then
        .ofCursor .translationUnit u.root ((u.cursor? u.root).getD { kind := .translationUnit })
      else .builtin "" := by
  change (Model.start _).node id = _
  rw [Model.start_eq, Model.node_enroll]
  split
  · next here => rw [if_pos (show id.index = 0 from here)]
  · next there =>
    rw [if_neg (show ¬ id.index = 0 from there)]
    exact Model.node_of_size_le (Nat.zero_le id.index)

theorem household_opening (u : TranslationUnit) (f : Factory) (id : NodeId) :
    ((opening u f).model.node id).SameHousehold (.builtin "") ∧
      ((opening u f).model.node id).owner = none := by
  rw [node_opening]
  split <;> exact ⟨⟨rfl, rfl, rfl, rfl⟩, rfl⟩

theorem fresh_opening (u : TranslationUnit) (f : Factory) : (opening u f).model.Fresh :=
  Model.fresh_start ⟨rfl, rfl⟩ rfl

theorem root_lt_opening (u : TranslationUnit) (f : Factory) :
    ∀ id ∈ [Model.root], id.index < (opening u f).model.size := by
  intro id only
  rw [List.mem_singleton.mp only]
  exact Nat.zero_lt_one

/-- What the root has and every visit keeps holds at all stages of a build. -/
theorem holds_build {P : Draft → Prop} (u : TranslationUnit) (f : Factory)
    (keeps : ∀ {d entered : Draft} {container item : NodeId} {id : CursorId} {c : Cursor},
      Draft.CallsAt u f d container id c item entered → P d →
        P (entered.accept u container item c))
    (first : P (opening u f)) :
    ∀ stage ∈ opening u f :: (buildVisits u f).map Visit.after, P stage := by
  exact (runs_build u f).holds (fresh_opening u f) (Model.indexed_start _) (root_lt_opening u f) keeps
    first

/-- What is true of a node when it is made and stays true when the node is folded. Places have no part
in it. -/
structure Persists (u : TranslationUnit) (f : Factory) (Q : Node → Prop) : Prop where
  blind : ∀ node, Q node.unplaced ↔ Q node
  made : ∀ {id : CursorId} {c : Cursor} {constructor : Constructor} {kind : NodeKind},
    u.cursor? id = some c → f.constructor? c.kind = some constructor →
      constructor u id = some kind → Q (.ofCursor kind id c)
  folded : ∀ {node later : Node} {id : CursorId} {c : Cursor} {usr : String}, Q node →
    u.cursor? id = some c → c.usr? = some usr → node.usr = some usr → node.Folds id c later → Q later

variable {u : TranslationUnit} {f : Factory} {Q : Node → Prop}

theorem Draft.CallsAt.persist {d entered : Draft} {container item : NodeId} {id : CursorId}
    {c : Cursor} (calls : CallsAt u f d container id c item entered) (persists : Persists u f Q)
    (earlier : ∀ id, id.index < d.model.size → Q (d.model.node id)) :
    ∀ id, id.index < entered.model.size → Q (entered.model.node id) := by
  intro other inside
  by_cases here : other = item
  · subst here
    rcases calls.node with ⟨before, ⟨usr, symbol, carried⟩, folds⟩ | ⟨_, _, _, modeled, taken, new⟩
    · exact persists.folded (earlier other before) calls.cursor symbol carried folds
    · rw [new]
      exact persists.made calls.cursor modeled taken
  · rw [node_of_enters_ne calls.enters here]
    exact earlier other (calls.lt_of_ne inside here)

theorem Draft.persist_accept {d : Draft} (persists : Persists u f Q)
    (earlier : ∀ id, id.index < d.model.size → Q (d.model.node id)) (container item : NodeId)
    (c : Cursor) : ∀ id, id.index < (d.accept u container item c).model.size →
      Q ((d.accept u container item c).model.node id) := by
  have rearranged := rearranges_accept (u := u) d container item c
  intro id inside
  rw [rearranged.size] at inside
  rw [← persists.blind, rearranged.unplaced, persists.blind]
  exact earlier id inside

theorem persist_opening
    (root : Q (.ofCursor .translationUnit u.root
      ((u.cursor? u.root).getD { kind := .translationUnit }))) :
    ∀ id, id.index < (opening u f).model.size → Q ((opening u f).model.node id) := by
  intro id inside
  have first : id.index = 0 := by
    change id.index < 1 at inside
    omega
  rw [node_opening, if_pos first]
  exact root

/-- What persists, and is true of the root, is true of every node at all stages of a build. -/
theorem nodes_build (persists : Persists u f Q)
    (root : Q (.ofCursor .translationUnit u.root
      ((u.cursor? u.root).getD { kind := .translationUnit }))) :
    ∀ stage ∈ opening u f :: (buildVisits u f).map Visit.after,
      ∀ id, id.index < stage.model.size → Q (stage.model.node id) := by
  refine holds_build u f (fun calls earlier => ?_) (persist_opening root)
  exact Draft.persist_accept persists (calls.persist persists earlier) _ _ _

/-- The standard constructors make what the kind of the cursor stands for. -/
theorem standardKind?_of_made {id : CursorId} {child : Ast.CursorKind} {constructor : Constructor}
    {kind : NodeKind} (modeled : Factory.standard.constructor? child = some constructor)
    (taken : constructor u id = some kind) : Factory.standardKind? child = some kind := by
  obtain ⟨known, here, rfl⟩ := Option.map_eq_some_iff.mp modeled
  cases taken
  exact here

end Bindery
