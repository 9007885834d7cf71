import Bindery.Proofs.Model.Reach
import Bindery.Proofs.Session

/-! A build makes one node for each declaration that it meets, and meets those that the unit exposes.
A symbol reference then finds the one node that carries it, and no node turns into another, however
long the session lasts. -/

set_option autoImplicit false

namespace Bindery

open Ast (CursorId CursorTree Spans TranslationUnit)

/-- A cursor below the root that is modeled, as all that it stands below are. Nothing that it stands
below is itself inside a declaration of the same symbol. -/
def Ast.TranslationUnit.Exposed (u : TranslationUnit) (id : CursorId) : Prop :=
  ∃ way, u.Leads u.root way id ∧ way ≠ [] ∧ (∀ a ∈ id :: way, u.isModeled a) ∧
    way.Pairwise fun a b => ¬ u.Twins a b

/-- What a build makes of a unit. -/
structure BuildsDeclarations (u : TranslationUnit) : Prop where
  /-- The walk goes over the child lists as they are, from the root down, and to their ends. -/
  whole : Spans u u.tree ∧ u.tree.id = u.root
  visited : Draft.Runs u .standard [Model.root] (opening u) (buildVisits u)
    (Session.start u).build.draft
  once : ((buildVisits u).map Visit.cursor).Nodup
  exposed : ∀ id, id ∈ (buildVisits u).map Visit.cursor ↔ u.Exposed id
  /-- The arena holds a node for each declaration, the root's first, and nothing else. -/
  arena : (Session.start u).build.model.keys =
    (declared u (u.root :: (buildVisits u).map Visit.cursor)).toList.map some
  items : ∀ visit ∈ buildVisits u,
    visit.item.index < (Session.start u).build.model.size ∧
      ((Session.start u).build.model.node visit.item).key? =
        some (NodeKey.ofCursor u visit.cursor)
  symbols : ∀ stage ∈ opening u :: (buildVisits u).map Visit.after, stage.model.Indexed
  lasting : (opening u :: (buildVisits u).map Visit.after).Pairwise fun earlier later =>
    earlier.model.Lasts later.model

variable {u : TranslationUnit} {f : Factory}

theorem indexed_opening (u : TranslationUnit) (f : Factory) : (opening u f).model.Indexed :=
  Model.indexed_start _

-- Before the walk there is the root alone.
theorem opening_root {c : Ast.Cursor} (cursor : u.cursor? u.root = some c) :
    ((opening u).model.node Model.root).usr = u.usrOf? u.root ∧
      (opening u).model.keys = (declared u [u.root]).toList.map some := by
  have start : (opening u).model = Model.start (.ofCursor .translationUnit u.root c) := by
    simp [opening, Session.start, cursor]
  have key := key?_ofCursor cursor .translationUnit
  rw [start]
  constructor
  · exact Node.usr_of_key? key
  · rw [Model.start_eq, Model.keys_enroll, key]
    rfl

theorem mem_exposedAll_children_iff {tree : CursorTree} (spans : Spans u tree)
    (root : tree.id = u.root) (modeled : u.isModeled u.root) {id : CursorId} :
    id ∈ u.exposedAll [u.root] tree.children ↔ u.Exposed id := by
  cases spans with
  | @node top children listed below =>
    change top = u.root at root
    subst root
    change id ∈ u.exposedAll [u.root] children ↔ _
    have below_iff := Ast.TranslationUnit.exists_way_below_iff [] id listed
    rw [Ast.TranslationUnit.mem_exposedAll_iff children [u.root] id below]
    constructor
    · intro inside
      obtain ⟨way, leads, all, unbarred⟩ := below_iff.mpr ⟨modeled, by simp, inside⟩
      exact ⟨u.root :: way, leads, List.cons_ne_nil _ _, all, unbarred.2⟩
    · rintro ⟨way, leads, proper, all, apart⟩
      cases leads with
      | here => exact absurd rfl proper
      | down listed onward =>
        exact (below_iff.mp ⟨_, .down listed onward, all, nofun, apart⟩).2.2

/-! ## After the build -/

theorem Model.Extends.lasts {m n : Model} (grown : m.Extends n) : m.Lasts n where
  size_le := grown.size_le
  kept _ inside := {
    usr := grown.kept_read Node.usr (fun _ => rfl) inside
    kind := grown.kept_read Node.kind (fun _ => rfl) inside
    name := grown.kept_read Node.name (fun _ => rfl) inside
    key := grown.kept_read Node.key? (fun _ => rfl) inside }

theorem Model.Extends.indexed {m n : Model} (grown : m.Extends n) (indexed : m.Indexed) :
    n.Indexed :=
  indexed.congr grown.symbols (grown.same_read Node.usr (fun _ => rfl) fun _ => rfl)

theorem Reached.indexed {d : Draft} (reached : Reached u d) : d.model.Indexed := by
  induction reached with
  | built f =>
    have runs := runs_build u f
    exact runs.indexed (indexed_opening u f) _ runs.final_mem
  | asked earlier question ended ih => exact (earlier.extends ended).indexed ih

/-- In a unit without faults a build visits no cursor twice and visits all that the unit exposes. It
makes one node for the root and each declaration visited, found by its symbol reference if it has one;
these stay what they are at all stages of the build and whatever is asked later. -/
theorem build_declares (u : TranslationUnit) (valid : u.firstFault? = none) :
    BuildsDeclarations u ∧
      ∀ d, Reached u d → d.model.Indexed ∧
        ∀ (question : Question) (e : Draft), question.ask u d = .ok ((), e) →
          d.model.Lasts e.model := by
  obtain ⟨spans, top, distinct⟩ := Ast.TranslationUnit.tree_of_valid valid
  obtain ⟨root, cursor, kind⟩ := Ast.TranslationUnit.kind_root_of_valid valid
  have modeled : u.isModeled u.root := by
    simp [Ast.TranslationUnit.isModeled, cursor, kind, Factory.isModeled, Factory.standard,
      Factory.standardKind?]
  have indexed := indexed_opening u .standard
  have runs := runs_build u .standard
  obtain ⟨usr, told⟩ := opening_root cursor
  have cursors : (buildVisits u).map Visit.cursor = u.exposedAll [u.root] u.tree.children :=
    Draft.map_cursor_visitsAll u.tree.children Model.root [Model.root] [u.root] (opening u) indexed
      (.cons ⟨Nat.zero_lt_one, usr⟩ .nil)
  have whole : (u.root :: (buildVisits u).map Visit.cursor).Nodup := by
    rw [CursorTree.preorder_eq, top] at distinct
    rw [cursors]
    exact distinct.sublist ((u.exposedAll_sublist u.tree.children [u.root]).cons_cons u.root)
  refine ⟨⟨⟨spans, top⟩, runs, ?_, ?_, ?_, runs.items indexed, runs.indexed indexed,
    runs.lasting indexed⟩, ?_⟩
  · exact (List.nodup_cons.mp whole).2
  · intro id
    rw [cursors]
    exact mem_exposedAll_children_iff spans top modeled
  · exact runs.keys indexed told whole
  · intro d reached
    refine ⟨reached.indexed, fun question e ended => ?_⟩
    exact (keeps_ask question d reached.coherent.1 () e ended).2.lasts

/-- A struct is declared, defined, and met again inside its definition; a function stands behind a
linkage specification, and a namespace bears the symbol of the root. -/
def den : TranslationUnit where
  path := "den.h"
  root := ⟨0⟩
  cursors := #[
    { kind := .translationUnit, usr := some "c:den.h", children := [⟨1⟩, ⟨2⟩, ⟨6⟩, ⟨8⟩, ⟨9⟩] },
    { kind := .structDecl, spelling := "Den", usr := some "c:Den", semanticParent := some ⟨0⟩ },
    { kind := .structDecl, spelling := "Den", usr := some "c:Den", semanticParent := some ⟨0⟩,
      children := [⟨3⟩, ⟨4⟩] },
    { kind := .structDecl, spelling := "Den", usr := some "c:Den", semanticParent := some ⟨2⟩,
      children := [⟨5⟩] },
    { kind := .fieldDecl, spelling := "width", semanticParent := some ⟨2⟩ },
    { kind := .fieldDecl, spelling := "hidden", semanticParent := some ⟨3⟩ },
    { kind := .linkageSpec, children := [⟨7⟩] },
    { kind := .functionDecl, spelling := "enter", usr := some "c:enter" },
    { kind := .namespaceDecl, spelling := "outer", usr := some "c:den.h",
      semanticParent := some ⟨0⟩, children := [⟨10⟩] },
    { kind := .varDecl, spelling := "depth", semanticParent := some ⟨0⟩ },
    { kind := .varDecl, spelling := "buried", semanticParent := some ⟨8⟩ }]
  types := #[]

theorem build_declares_den :
    den.firstFault? = none ∧ (buildVisits den).map Visit.cursor = [⟨1⟩, ⟨2⟩, ⟨3⟩, ⟨4⟩, ⟨8⟩, ⟨9⟩] ∧
      ¬ den.Exposed ⟨5⟩ ∧ (Session.start den).build.model.keys =
        [some (.symbol "c:den.h"), some (.symbol "c:Den"), some (.cursor ⟨4⟩),
          some (.cursor ⟨9⟩)] := by
  have valid : den.firstFault? = none := by decide +kernel
  have visited : (buildVisits den).map Visit.cursor = [⟨1⟩, ⟨2⟩, ⟨3⟩, ⟨4⟩, ⟨8⟩, ⟨9⟩] := by
    decide +kernel
  obtain ⟨declares, _⟩ := build_declares den valid
  refine ⟨valid, visited, ?_, ?_⟩
  · rw [← declares.exposed, visited]
    decide
  · rw [declares.arena, visited]
    decide +kernel

end Bindery
