import Bindery.Model.Build
import Bindery.Proofs.Model.Frame

/-! The walk of a build as a run of single visits. A visit enters a cursor, which finds or makes its
node, and hands the node to its owner; what every visit keeps, a walk keeps, whatever the tree below
it looks like. -/

set_option autoImplicit false

namespace Bindery

open Ast (Cursor CursorId CursorTree TranslationUnit)

/-- A cursor that a walk enters, its node, and the draft once the node has gone to its owner. -/
structure Visit where
  cursor : CursorId
  item : NodeId
  after : Draft

/-- A node without its place: neither an owner nor anything that belongs to it. -/
def Node.unplaced (node : Node) : Node :=
  { node with owner := none, content := ∅, members := ∅, refType := none }

namespace Model

/-- Adds a node at the end of the arena and lists it under its symbol reference. -/
def enroll (m : Model) (node : Node) : Model :=
  { (m.add node).1 with symbols :=
      match node.usr with
      | some usr => m.symbols.put usr ⟨m.size⟩
      | none => m.symbols }

@[simp] theorem size_enroll (m : Model) (node : Node) : (m.enroll node).size = m.size + 1 :=
  size_add m node

/-- Every node is an earlier one, the new one, or none at all. -/
theorem node_enroll (m : Model) (node : Node) (id : NodeId) :
    (m.enroll node).node id = if id.index = m.size then node else m.node id := by
  change ((m.add node).1.node? id).getD _ = _
  rw [node?_add]
  split <;> rfl

theorem byUsr?_enroll (m : Model) (node : Node) (usr : String) :
    (m.enroll node).byUsr? usr = if node.usr = some usr then some ⟨m.size⟩ else m.byUsr? usr := by
  unfold byUsr? enroll
  cases node.usr with
  | none => rfl
  | some own => simp [OrderedMap.get?_put, eq_comm]

/-- A model of the root alone has enrolled the root. -/
theorem start_eq (root : Node) : Model.start root = ({ nodes := #[] } : Model).enroll root := rfl

/-- The nodes of one model are those of another, with the same symbols, up to their places. -/
structure Rearranges (m n : Model) : Prop where
  size : n.size = m.size
  symbols : n.symbols = m.symbols
  unplaced : ∀ id, (n.node id).unplaced = (m.node id).unplaced

namespace Rearranges

variable {m n : Model}

theorem refl (m : Model) : m.Rearranges m := ⟨rfl, rfl, fun _ => rfl⟩

theorem trans {k : Model} (first : m.Rearranges n) (second : n.Rearranges k) : m.Rearranges k where
  size := second.size.trans first.size
  symbols := second.symbols.trans first.symbols
  unplaced id := (second.unplaced id).trans (first.unplaced id)

theorem update (m : Model) (id : NodeId) (change : Node → Node)
    (faithful : ∀ node, (change node).unplaced = node.unplaced) :
    m.Rearranges (m.update id change) where
  size := size_update m id change
  symbols := rfl
  unplaced other := by
    rw [node_update]
    split
    · exact faithful _
    · rfl

theorem attach (m : Model) (owner item : NodeId) : m.Rearranges (m.attach owner item) :=
  .update m owner _ fun _ => rfl

theorem setOwner (m : Model) (owner item : NodeId) : m.Rearranges (m.setOwner owner item) :=
  .update m item _ fun _ => rfl

theorem setRefType (m : Model) (owner item : NodeId) : m.Rearranges (m.setRefType owner item) :=
  .update m owner _ fun _ => rfl

-- What is read from a node without its place is the same in both models.
theorem same_read (rearranged : m.Rearranges n) {β : Type} (read : Node → β)
    (blind : ∀ node, read node.unplaced = read node) (id : NodeId) :
    read (n.node id) = read (m.node id) := by
  rw [← blind, rearranged.unplaced, blind]

end Rearranges

end Model

namespace Draft

variable {u : TranslationUnit} {f : Factory} {d : Draft}

/-- Whoever gets an item, the arena and the symbols stay. -/
theorem rearranges_accept (d : Draft) (container item : NodeId) (c : Cursor) :
    d.model.Rearranges (d.accept u container item c).model := by
  unfold accept
  cases d.model.judge u container item c with
  | accepted owner =>
    have owned := (Model.Rearranges.attach d.model owner item).trans (.setOwner _ owner item)
    simp only [carryOut]
    split
    · exact owned.trans (.setRefType _ owner item)
    · exact owned
  | elaborated owner =>
    exact ((Model.Rearranges.attach d.model container item).trans (.attach _ owner item)).trans
      (.setOwner _ owner item)
  | rejected owner => exact .refl _
  | ownerless => exact .refl _

/-- How a cursor comes by its node. -/
inductive Enters (u : TranslationUnit) (f : Factory) (d : Draft) (id : CursorId) (c : Cursor) :
    NodeId → Draft → Prop where
  | known {usr : String} {item : NodeId} (symbol : c.usr? = some usr)
    (found : d.model.byUsr? usr = some item) : Enters u f d id c item (d.merge item id c)
  | new {constructor : Constructor} {kind : NodeKind}
    (modeled : f.constructor? c.kind = some constructor) (taken : constructor u id = some kind)
    (unknown : ∀ usr, c.usr? = some usr → d.model.byUsr? usr = none) :
    Enters u f d id c ⟨d.model.size⟩ { d with model := d.model.enroll (.ofCursor kind id c) }

theorem enters_of_enter? {id : CursorId} {c : Cursor} {item : NodeId} {entered : Draft}
    (found : d.enter? u f id c = some (item, entered)) : Enters u f d id c item entered := by
  unfold enter? at found
  split at found
  · cases found
  · next constructor modeled =>
    split at found
    · next known present =>
      cases found
      obtain ⟨usr, symbol, here⟩ := Option.bind_eq_some_iff.mp present
      exact .known symbol here
    · next absent =>
      split at found
      · cases found
      · next kind taken =>
        have unknown : ∀ usr, c.usr? = some usr → d.model.byUsr? usr = none := by
          intro usr symbol
          rwa [symbol, Option.bind_some] at absent
        have new := Enters.new (d := d) modeled taken unknown
        have made : (match c.usr? with
            | some usr => { (d.model.add (.ofCursor kind id c)).1 with
                symbols := d.model.symbols.put usr ⟨d.model.size⟩ }
            | none => (d.model.add (.ofCursor kind id c)).1) =
            d.model.enroll (.ofCursor kind id c) := by
          unfold Model.enroll Node.ofCursor
          cases c.usr? <;> rfl
        cases found
        rw [← made] at new
        exact new

/-! ## Visits -/

variable (u f)

mutual

def visits (container : NodeId) (way : List NodeId) : CursorTree → Draft → List Visit
  | .node id children, d =>
    match u.cursor? id with
    | none => []
    | some c =>
      match d.enter? u f id c with
      | none => []
      | some (item, entered) =>
        let accepted := entered.accept u container item c
        ⟨id, item, accepted⟩ ::
          if item ∈ way then [] else visitsAll item (item :: way) children accepted

def visitsAll (container : NodeId) (way : List NodeId) : List CursorTree → Draft → List Visit
  | [], _ => []
  | tree :: rest, d =>
    visits container way tree d ++ visitsAll container way rest (visit u f container way tree d)

end

/-- Visits that lead from one draft to another. Every cursor is entered below a node that is known:
one known at first, or the node of an earlier visit. -/
inductive Runs : List NodeId → Draft → List Visit → Draft → Prop where
  | done {known : List NodeId} {d : Draft} : Runs known d [] d
  | visit {known : List NodeId} {container item : NodeId} {d entered e : Draft} {id : CursorId}
    {c : Cursor} {rest : List Visit} (inside : container ∈ known) (cursor : u.cursor? id = some c)
    (enters : Enters u f d id c item entered)
    (later : Runs (item :: known) (entered.accept u container item c) rest e) :
    Runs known d (⟨id, item, entered.accept u container item c⟩ :: rest) e

variable {u f}

namespace Runs

theorem mono {known more : List NodeId} {d e : Draft} {visits : List Visit}
    (runs : Runs u f known d visits e) (wider : known ⊆ more) : Runs u f more d visits e := by
  induction runs generalizing more with
  | done => exact .done
  | visit inside cursor enters _ ih =>
    exact .visit (wider inside) cursor enters (ih (List.cons_subset_cons _ wider))

theorem append {known : List NodeId} {d e e' : Draft} {first second : List Visit}
    (begins : Runs u f known d first e) (ends : Runs u f known e second e') :
    Runs u f known d (first ++ second) e' := by
  induction begins with
  | done => exact ends
  | visit inside cursor enters _ ih =>
    exact .visit inside cursor enters (ih (ends.mono (List.subset_cons_self _ _)))

end Runs

variable (u f)

mutual

theorem runs_visit : ∀ (tree : CursorTree) (container : NodeId) (way known : List NodeId)
    (d : Draft), container ∈ known →
      Runs u f known d (visits u f container way tree d) (visit u f container way tree d)
  | .node id children, container, way, known, d, inside => by
    rw [visits, visit]
    cases cursor : u.cursor? id with
    | none => exact .done
    | some c =>
      dsimp only
      cases found : d.enter? u f id c with
      | none => exact .done
      | some result =>
        obtain ⟨item, entered⟩ := result
        refine .visit inside cursor (enters_of_enter? found) ?_
        dsimp only
        split
        · exact .done
        · exact runs_visitAll children item (item :: way) _ _ List.mem_cons_self

/-- A walk is the run of its visits. -/
theorem runs_visitAll : ∀ (trees : List CursorTree) (container : NodeId) (way known : List NodeId)
    (d : Draft), container ∈ known →
      Runs u f known d (visitsAll u f container way trees d) (visitAll u f container way trees d)
  | [], _, _, _, _, _ => .done
  | tree :: rest, container, way, known, d, inside => by
    rw [visitsAll, visitAll]
    exact (runs_visit tree container way known d inside).append
      (runs_visitAll rest container way known _ inside)

end

end Draft

/-! ## The build of a session -/

/-- The draft in which the walk of a build begins. -/
def opening (u : TranslationUnit) (f : Factory := .standard) : Draft :=
  { (Session.start u f).draft with
    diagnostics := (Session.start u f).draft.diagnostics ++ Session.messages u }

def buildVisits (u : TranslationUnit) (f : Factory := .standard) : List Visit :=
  Draft.visitsAll u f Model.root [Model.root] u.tree.children (opening u f)

theorem runs_build (u : TranslationUnit) (f : Factory) :
    Draft.Runs u f [Model.root] (opening u f) (buildVisits u f) (Session.start u f).build.draft :=
  Draft.runs_visitAll u f u.tree.children Model.root [Model.root] [Model.root] (opening u f)
    List.mem_cons_self

end Bindery
