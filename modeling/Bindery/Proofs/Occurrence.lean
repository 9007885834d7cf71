import Bindery.Proofs.Build
import Bindery.Proofs.Model.Placement

/-! Which occurrence of its declaration a node reflects. A node that is not a callable is adopted by
every occurrence that finds it without members and by no other, so that the last of these decides,
whether it is the definition or not. -/

set_option autoImplicit false

namespace Bindery

open Ast (Cursor CursorId TranslationUnit)

namespace Node

/-- A node says of itself what a cursor says. -/
structure Reflects (node : Node) (id : CursorId) (c : Cursor) : Prop where
  occurrence : node.occurrence = some id
  displayName : node.displayName = c.shownName
  location : node.location = c.location
  access : node.access = c.access
  flags : node.flags = c.flags

variable {node later : Node} {id other : CursorId} {c c' : Cursor}

theorem reflects_unplaced : node.unplaced.Reflects id c ↔ node.Reflects id c :=
  ⟨fun ⟨occurrence, displayName, location, access, flags⟩ =>
      ⟨occurrence, displayName, location, access, flags⟩,
    fun ⟨occurrence, displayName, location, access, flags⟩ =>
      ⟨occurrence, displayName, location, access, flags⟩⟩

theorem Folds.reflects (folds : node.Folds other c' later) (earlier : node.Reflects id c) :
    later.Reflects other c' ∨ later.Reflects id c := by
  cases folds with
  | rebuilt callable => exact .inl ⟨rfl, rfl, rfl, rfl, rfl⟩
  | adopted plain empty => exact .inl ⟨rfl, rfl, rfl, rfl, rfl⟩
  | kept plain peopled => exact .inr earlier

theorem yields_eq_true_iff (plain : node.kind.isCallable = false) :
    node.yields = true ↔ node.members = ∅ := by
  simp [yields, plain, OrderedSet.isEmpty_iff]

end Node

variable {u : TranslationUnit} {f : Factory}

theorem persists_reflects (u : TranslationUnit) (f : Factory) :
    Persists u f fun node => ∃ id c, u.cursor? id = some c ∧ node.Reflects id c where
  blind node := by simp only [Node.reflects_unplaced]
  made {id c _ _} cursor _ _ := ⟨id, c, cursor, rfl, rfl, rfl, rfl, rfl⟩
  folded {_ _ id c _} earlier cursor _ _ folds := by
    obtain ⟨first, told, known, reflects⟩ := earlier
    rcases folds.reflects reflects with new | old
    · exact ⟨id, c, cursor, new⟩
    · exact ⟨first, told, known, old⟩

theorem reflects_of_occurrence (valid : u.firstFault? = none) {n : NodeId} {id : CursorId}
    {c : Cursor} (inside : n.index < (Session.start u f).build.model.size)
    (occurrence : ((Session.start u f).build.model.node n).occurrence = some id)
    (cursor : u.cursor? id = some c) : ((Session.start u f).build.model.node n).Reflects id c := by
  obtain ⟨root, known, _⟩ := Ast.TranslationUnit.kind_root_of_valid valid
  have told := nodes_build (persists_reflects u f)
    ⟨u.root, root, known, by rw [known]; exact ⟨rfl, rfl, rfl, rfl, rfl⟩⟩
    (Session.start u f).build.draft (runs_build u f).final_mem n inside
  obtain ⟨held, c', cursor', reflects⟩ := told
  cases reflects.occurrence.symm.trans occurrence
  cases cursor'.symm.trans cursor
  exact reflects

namespace Draft

variable {d e : Draft} {known : List NodeId} {visits : List Visit} {n : NodeId}

/-! ## Who adopts a node -/

/-- The visits of a run, each with the draft in which it begins. -/
def begun (d : Draft) : List Visit → List (Draft × Visit)
  | [] => []
  | visit :: rest => (d, visit) :: visit.after.begun rest

theorem map_snd_begun (d : Draft) (visits : List Visit) : (d.begun visits).map Prod.snd = visits := by
  induction visits generalizing d with
  | nil => rfl
  | cons visit rest ih => simp [begun, ih]

theorem fst_mem_of_begun {begin : Draft × Visit} (member : begin ∈ d.begun visits) :
    begin.1 ∈ d :: visits.map Visit.after := by
  induction visits generalizing d with
  | nil => cases member
  | cons visit rest ih =>
    rcases List.mem_cons.mp member with rfl | later
    · exact List.mem_cons_self
    · exact List.mem_cons_of_mem d (ih later)

/-- Whether a visit takes a node over for its cursor. -/
def adopts (n : NodeId) (begin : Draft × Visit) : Bool :=
  begin.2.item = n && (begin.1.model.node n).yields

theorem CallsAt.occurrence {entered : Draft} {container item : NodeId} {id : CursorId} {c : Cursor}
    (calls : CallsAt u f d container id c item entered) (n : NodeId) :
    ((entered.accept u container item c).model.node n).occurrence =
      if adopts n (d, ⟨id, item, entered.accept u container item c⟩) then some id
      else (d.model.node n).occurrence := by
  have rearranged := rearranges_accept (u := u) entered container item c
  rw [rearranged.same_read Node.occurrence (fun _ => rfl), adopts]
  by_cases here : item = n
  · subst here
    rcases calls.node with ⟨_, _, folds⟩ | ⟨outside, _, _, _, _, new⟩
    · simp [folds.occurrence]
    · rw [outside, new]
      simp [Node.ofCursor, Node.yields, Node.builtin, OrderedSet.isEmpty_iff]
  · simp [here, node_of_enters_ne calls.enters (Ne.symm here)]

/-- The last visit that takes a node over decides which cursor the node holds. -/
theorem Runs.occurrence (runs : Runs u f known d visits e) (fresh : d.model.Fresh)
    (indexed : d.model.Indexed) (inside : ∀ id ∈ known, id.index < d.model.size) (n : NodeId) :
    (e.model.node n).occurrence =
      (((d.begun visits).filter (adopts n)).getLast?.map fun begin => begin.2.cursor).or
        (d.model.node n).occurrence := by
  refine Runs.induct (motive := fun d visits => (e.model.node n).occurrence =
    (((d.begun visits).filter (adopts n)).getLast?.map fun begin => begin.2.cursor).or
      (d.model.node n).occurrence) ?_ ?_ runs fresh indexed inside
  · rfl
  · intro d entered container item id c rest calls later
    rw [later, calls.occurrence n, begun, List.filter_cons]
    split
    · rw [List.getLast?_cons]
      cases (List.filter (adopts n) _).getLast? <;> rfl
    · rfl

theorem Runs.lasts_final (runs : Runs u f known d visits e) (indexed : d.model.Indexed) :
    ∀ stage ∈ d :: visits.map Visit.after, stage.model.Lasts e.model := by
  induction runs with
  | done =>
    intro stage only
    rw [List.mem_singleton.mp only]
    exact .refl _
  | visit inside cursor enters later ih =>
    intro stage member
    rcases List.mem_cons.mp member with rfl | further
    · exact (Runs.visit inside cursor enters later).lasts indexed
    · exact ih (indexed_accept (indexed_of_enters indexed enters) _ _ _) stage further

-- A node that is no callable in the end has never been one.
theorem Runs.isCallable_eq_false (runs : Runs u f known d visits e) (indexed : d.model.Indexed)
    (plain : (e.model.kind n).isCallable = false) {stage : Draft}
    (member : stage ∈ d :: visits.map Visit.after) :
    (stage.model.node n).kind.isCallable = false := by
  by_cases inside : n.index < stage.model.size
  · rw [← ((runs.lasts_final indexed stage member).kept n inside).kind]
    exact plain
  · rw [Model.node_of_size_le (Nat.le_of_not_lt inside)]
    rfl

theorem Runs.item_eq_iff (runs : Runs u f known d visits e) (indexed : d.model.Indexed)
    {usr : String} (memoized : e.model.byUsr? usr = some n) {visit : Visit}
    (member : visit ∈ visits) : visit.item = n ↔ u.usrOf? visit.cursor = some usr := by
  have final := runs.indexed indexed e runs.final_mem
  rw [← Node.usr_of_key? (runs.items indexed visit member).2, ← final usr visit.item, memoized]
  exact ⟨fun same => congrArg some same.symm, fun same => (Option.some.inj same).symm⟩

end Draft

theorem nodup_visited (valid : u.firstFault? = none) :
    (u.root :: (buildVisits u).map Visit.cursor).Nodup := by
  obtain ⟨_, top, distinct⟩ := Ast.TranslationUnit.tree_of_valid valid
  obtain ⟨root, cursor, _⟩ := Ast.TranslationUnit.kind_root_of_valid valid
  have cursors : (buildVisits u).map Visit.cursor = u.exposedAll [u.root] u.tree.children :=
    Draft.map_cursor_visitsAll u.tree.children Model.root [Model.root] [u.root] (opening u)
      (indexed_opening u .standard) (.cons ⟨Nat.zero_lt_one, (opening_root cursor).1⟩ .nil)
  rw [Ast.CursorTree.preorder_eq, top] at distinct
  rw [cursors]
  exact distinct.sublist ((u.exposedAll_sublist u.tree.children [u.root]).cons_cons u.root)

theorem getLast?_filter_map_eq_iff {α β : Type} {p : α → Bool} {name : α → β} {front back : List α}
    {item : α} {first : Option β} (distinct : ((front ++ item :: back).map name).Nodup)
    (apart : first ≠ some (name item)) :
    (((front ++ item :: back).filter p).getLast?.map name).or first = some (name item) ↔
      p item ∧ ∀ next ∈ back, ¬ p next := by
  rw [List.map_append, List.map_cons, List.nodup_append] at distinct
  obtain ⟨_, behind, across⟩ := distinct
  have found : ((front ++ item :: back).filter p).getLast? =
      (back.filter p).getLast?.or ((if p item then some item else none).or
        (front.filter p).getLast?) := by
    rw [List.filter_append, List.getLast?_append, ← List.singleton_append, List.filter_append,
      List.getLast?_append, List.filter_singleton, Option.or_assoc]
    cases p item <;> rfl
  rw [found]
  cases last : (back.filter p).getLast? with
  | some next =>
    obtain ⟨present, holds⟩ := List.mem_filter.mp (List.mem_of_getLast? last)
    constructor
    · intro same
      have repeated : name item ∈ back.map name :=
        List.mem_map.mpr ⟨next, present, Option.some.inj same⟩
      exact absurd repeated (List.nodup_cons.mp behind).1
    · rintro ⟨_, clear⟩
      exact absurd holds (clear next present)
  | none =>
    have clear : ∀ next ∈ back, ¬ p next :=
      List.filter_eq_nil_iff.mp (List.getLast?_eq_none_iff.mp last)
    by_cases holds : p item
    · simp only [holds, if_true]
      exact ⟨fun _ => ⟨trivial, clear⟩, fun _ => rfl⟩
    · refine ⟨fun same => ?_, fun both => absurd both.1 holds⟩
      rw [if_neg holds, Option.none_or, Option.none_or] at same
      cases earlier : (front.filter p).getLast? with
      | none =>
        rw [earlier] at same
        exact absurd same apart
      | some other =>
        have present := (List.mem_filter.mp (List.mem_of_getLast? earlier)).1
        rw [earlier] at same
        exact absurd (Option.some.inj same)
          (across _ (List.mem_map_of_mem present) _ List.mem_cons_self)

theorem occurrence_build_iff (valid : u.firstFault? = none) {earlier later : List (Draft × Visit)}
    {begin : Draft × Visit} (visited : (opening u).begun (buildVisits u) = earlier ++ begin :: later)
    (n : NodeId) :
    ((Session.start u).build.model.node n).occurrence = some begin.2.cursor ↔
      Draft.adopts n begin ∧ ∀ next ∈ later, ¬ Draft.adopts n next := by
  have distinct := nodup_visited valid
  rw [← (opening u).map_snd_begun (buildVisits u), List.map_map, visited, List.nodup_cons] at distinct
  obtain ⟨unmet, distinct⟩ := distinct
  have apart : ((opening u).model.node n).occurrence ≠ some begin.2.cursor := by
    rw [node_opening]
    split
    · intro same
      apply unmet
      rw [Option.some.inj same]
      exact List.mem_map_of_mem (List.mem_append_right earlier List.mem_cons_self)
    · nofun
  rw [Session.model, (runs_build u .standard).occurrence (fresh_opening u .standard)
    (indexed_opening u .standard) (root_lt_opening u .standard) n, visited]
  exact getLast?_filter_map_eq_iff distinct apart

/-- After a build a node that is not a callable reflects an occurrence of its declaration if and only
if the node has no members when that occurrence is met, and has some at each occurrence met later.
Which of them is the definition plays no part. -/
theorem build_reflects_iff (valid : u.firstFault? = none) {usr : String} {n : NodeId}
    (memoized : (Session.start u).build.model.byUsr? usr = some n)
    (plain : ((Session.start u).build.model.kind n).isCallable = false)
    {earlier later : List (Draft × Visit)} {before : Draft} {visit : Visit}
    (visited : (opening u).begun (buildVisits u) = earlier ++ (before, visit) :: later)
    {c : Cursor} (cursor : u.cursor? visit.cursor = some c) (symbol : c.usr? = some usr) :
    ((Session.start u).build.model.node n).Reflects visit.cursor c ↔
      (before.model.node n).members = ∅ ∧
        ∀ next ∈ later, u.usrOf? next.2.cursor = some usr → (next.1.model.node n).members ≠ ∅ := by
  have indexed := indexed_opening u .standard
  have runs := runs_build u .standard
  have adopts_iff : ∀ begin ∈ (opening u).begun (buildVisits u),
      Draft.adopts n begin ↔
        u.usrOf? begin.2.cursor = some usr ∧ (begin.1.model.node n).members = ∅ := by
    intro begin member
    have present : begin.2 ∈ buildVisits u :=
      (opening u).map_snd_begun (buildVisits u) ▸ List.mem_map_of_mem member
    have yields_iff := Node.yields_eq_true_iff
      (runs.isCallable_eq_false indexed plain (Draft.fst_mem_of_begun member))
    rw [Draft.adopts, Bool.and_eq_true, decide_eq_true_iff, yields_iff,
      runs.item_eq_iff indexed memoized present]
  have inside : n.index < (Session.start u).build.model.size :=
    Model.index_lt_of_usr ((runs.indexed indexed _ runs.final_mem usr n).mp memoized)
  have reflects_iff : ((Session.start u).build.model.node n).Reflects visit.cursor c ↔
      ((Session.start u).build.model.node n).occurrence = some visit.cursor :=
    ⟨fun reflects => reflects.occurrence, fun held => reflects_of_occurrence valid inside held cursor⟩
  rw [reflects_iff, occurrence_build_iff valid visited n, adopts_iff _ (by simp [visited])]
  have own : u.usrOf? visit.cursor = some usr := by
    simp [Ast.TranslationUnit.usrOf?, cursor, symbol]
  simp only [own, true_and]
  refine and_congr_right fun _ => forall₂_congr fun next member => ?_
  rw [adopts_iff next (by simp [visited, member]), not_and]

/-- `struct Cart; struct Cart { int load; }; struct Cart;` -/
def cart : TranslationUnit where
  path := "cart.h"
  root := ⟨0⟩
  cursors := #[
    { kind := .translationUnit, children := [⟨1⟩, ⟨2⟩, ⟨4⟩] },
    { kind := .structDecl, spelling := "Cart", usr := some "c:Cart", semanticParent := some ⟨0⟩,
      location := { line := 1 } },
    { kind := .structDecl, spelling := "Cart", usr := some "c:Cart", semanticParent := some ⟨0⟩,
      location := { line := 2 }, flags := { isDefinition := true }, children := [⟨3⟩] },
    { kind := .fieldDecl, spelling := "load", semanticParent := some ⟨2⟩ },
    { kind := .structDecl, spelling := "Cart", usr := some "c:Cart", semanticParent := some ⟨0⟩,
      location := { line := 3 } }]

/-- The definition is met before the node has members, and the declaration after it does not find the
node empty. -/
theorem build_reflects_iff_cart :
    cart.firstFault? = none ∧ (buildVisits cart).map Visit.cursor = [⟨1⟩, ⟨2⟩, ⟨3⟩, ⟨4⟩] ∧
      ∃ c, cart.cursor? ⟨2⟩ = some c ∧ c.flags.isDefinition ∧
        ((Session.start cart).build.model.node ⟨1⟩).Reflects ⟨2⟩ c := by
  have valid : cart.firstFault? = none := by decide +kernel
  have cursors : (buildVisits cart).map Visit.cursor = [⟨1⟩, ⟨2⟩, ⟨3⟩, ⟨4⟩] := by decide +kernel
  have members : ((opening cart).begun (buildVisits cart)).map (fun begin =>
      (begin.1.model.node ⟨1⟩).members.toList) = [[], [], [], [⟨2⟩]] := by decide +kernel
  have order := congrArg (List.map Visit.cursor) ((opening cart).map_snd_begun (buildVisits cart))
  rw [cursors] at order
  match visited : (opening cart).begun (buildVisits cart) with
  | [declared, (before, visit), field, again] =>
    rw [visited] at members order
    simp only [List.map_cons, List.map_nil, List.cons.injEq, and_true] at members order
    obtain ⟨_, second, third, fourth⟩ := order
    refine ⟨valid, cursors, cart.cursors[2], rfl, rfl, ?_⟩
    have memoized : (Session.start cart).build.model.byUsr? "c:Cart" = some ⟨1⟩ := by decide +kernel
    have split : (opening cart).begun (buildVisits cart) =
        [declared] ++ (before, visit) :: [field, again] := visited
    have cursor : cart.cursor? visit.cursor = some cart.cursors[2] := by rw [second]; rfl
    rw [← second]
    refine (build_reflects_iff valid memoized (by decide +kernel) split cursor rfl).mpr ⟨?_, ?_⟩
    · exact OrderedSet.ext members.2.1
    · intro next member bears empty
      rcases List.mem_pair.mp member with rfl | rfl
      · rw [third] at bears
        revert bears
        decide
      · rw [empty] at members
        cases members.2.2.2
  | [] | [_] | [_, _] | [_, _, _] | _ :: _ :: _ :: _ :: _ :: _ =>
    rw [visited] at order
    simp at order

/-- The visited cursors of a symbol. -/
def occurrences (u : TranslationUnit) (usr : String) : List CursorId :=
  ((buildVisits u).map Visit.cursor).filter fun id => u.usrOf? id = some usr

def definitions (u : TranslationUnit) (usr : String) : List CursorId :=
  (occurrences u usr).filter fun id => ((u.cursor? id).map (·.flags.isDefinition)).getD false

/-- `struct Tag {}; struct Tag;` and then
`template <class T> class Crate; template <class T> class Crate { public: T held; };` -/
def crate : TranslationUnit where
  path := "crate.h"
  root := ⟨0⟩
  cursors := #[
    { kind := .translationUnit, spelling := "crate.h", children := [⟨1⟩, ⟨2⟩, ⟨3⟩, ⟨5⟩] },
    { kind := .structDecl, spelling := "Tag", usr := some "c:Tag", semanticParent := some ⟨0⟩,
      location := ⟨some "crate.h", 1, 8⟩, flags := { isDefinition := true } },
    { kind := .structDecl, spelling := "Tag", usr := some "c:Tag", semanticParent := some ⟨0⟩,
      location := ⟨some "crate.h", 2, 8⟩, definition := some ⟨1⟩ },
    { kind := .classTemplate, spelling := "Crate", usr := some "c:Crate",
      semanticParent := some ⟨0⟩, location := ⟨some "crate.h", 3, 26⟩, definition := some ⟨5⟩,
      children := [⟨4⟩] },
    { kind := .templateTypeParameter, spelling := "T", usr := some "c:crate.h@3@T",
      semanticParent := some ⟨3⟩ },
    { kind := .classTemplate, spelling := "Crate", usr := some "c:Crate",
      semanticParent := some ⟨0⟩, location := ⟨some "crate.h", 4, 26⟩,
      flags := { isDefinition := true }, children := [⟨6⟩, ⟨7⟩] },
    { kind := .templateTypeParameter, spelling := "T", usr := some "c:crate.h@4@T",
      semanticParent := some ⟨5⟩ },
    { kind := .fieldDecl, spelling := "held", usr := some "c:held", semanticParent := some ⟨5⟩,
      access := .publicMember }]

/-- Neither record is left at its definition. An empty one gives way to the declaration after it, and
a template declared with a parameter never gives way. -/
theorem crate_forsakes_definitions :
    crate.firstFault? = none ∧
      (occurrences crate "c:Tag" = [⟨1⟩, ⟨2⟩] ∧ definitions crate "c:Tag" = [⟨1⟩] ∧
        (Session.start crate).build.model.byUsr? "c:Tag" = some ⟨1⟩ ∧
        ((Session.start crate).build.model.node ⟨1⟩).occurrence = some ⟨2⟩ ∧
        ((Session.start crate).build.model.node ⟨1⟩).location = ⟨some "crate.h", 2, 8⟩ ∧
        ¬ ((Session.start crate).build.model.node ⟨1⟩).flags.isDefinition) ∧
      occurrences crate "c:Crate" = [⟨3⟩, ⟨5⟩] ∧ definitions crate "c:Crate" = [⟨5⟩] ∧
        (Session.start crate).build.model.byUsr? "c:Crate" = some ⟨2⟩ ∧
        ((Session.start crate).build.model.node ⟨2⟩).occurrence = some ⟨3⟩ ∧
        ((Session.start crate).build.model.node ⟨2⟩).location = ⟨some "crate.h", 3, 26⟩ ∧
        ¬ ((Session.start crate).build.model.node ⟨2⟩).flags.isDefinition := by
  decide +kernel

end Bindery
