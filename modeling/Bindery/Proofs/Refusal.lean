import Bindery.Proofs.Occurrence

/-! What a refused occurrence does to the node of its declaration. Being refused changes nothing but
the diagnostics. The node is entered before it is judged, though: one that yields is at the refused
occurrence from then on, and one that does not yield is spared by all that follows. -/

set_option autoImplicit false

namespace Bindery

open Ast (Cursor CursorId CursorTree TranslationUnit)

namespace Node

/-- A node stands for the occurrence it stood for, and still has the members it had. -/
structure Keeps (earlier later : Node) : Prop where
  occurrence : later.occurrence = earlier.occurrence
  displayName : later.displayName = earlier.displayName
  location : later.location = earlier.location
  access : later.access = earlier.access
  flags : later.flags = earlier.flags
  comment : later.comment = earlier.comment
  isInline : later.isInline = earlier.isInline
  members : earlier.members.toList <+: later.members.toList

namespace Keeps

variable {first second third : Node}

theorem refl (node : Node) : node.Keeps node :=
  ⟨rfl, rfl, rfl, rfl, rfl, rfl, rfl, List.prefix_rfl⟩

theorem trans (begins : first.Keeps second) (ends : second.Keeps third) : first.Keeps third where
  occurrence := ends.occurrence.trans begins.occurrence
  displayName := ends.displayName.trans begins.displayName
  location := ends.location.trans begins.location
  access := ends.access.trans begins.access
  flags := ends.flags.trans begins.flags
  comment := ends.comment.trans begins.comment
  isInline := ends.isInline.trans begins.isInline
  members := begins.members.trans ends.members

theorem of_unplaced (same : second.unplaced = first.unplaced)
    (members : first.members.toList <+: second.members.toList) : first.Keeps second where
  occurrence := (congrArg Node.occurrence same :)
  displayName := (congrArg Node.displayName same :)
  location := (congrArg Node.location same :)
  access := (congrArg Node.access same :)
  flags := (congrArg Node.flags same :)
  comment := (congrArg Node.comment same :)
  isInline := (congrArg Node.isInline same :)
  members := members

theorem yields (keeps : first.Keeps second) (kind : second.kind = first.kind)
    (settled : first.yields = false) : second.yields = false := by
  simp only [Node.yields, Bool.or_eq_false_iff, kind] at settled ⊢
  refine ⟨settled.1, ?_⟩
  have peopled := settled.2
  simp only [OrderedSet.isEmpty, List.isEmpty_eq_false_iff] at peopled ⊢
  exact fun none => peopled (List.prefix_nil.mp (none ▸ keeps.members))

end Keeps

end Node

namespace Draft

variable {u : TranslationUnit} {f : Factory} {d e entered : Draft} {container item n : NodeId}
  {id : CursorId} {c : Cursor} {known way : List NodeId} {visits : List Visit}

/-! ## A node that does not yield -/

theorem CallsAt.node_of_settled (calls : CallsAt u f d container id c item entered)
    (settled : (d.model.node n).yields = false) : entered.model.node n = d.model.node n := by
  by_cases here : n = item
  · subst here
    rcases calls.node with ⟨_, _, folds⟩ | ⟨outside, _⟩
    · generalize entered.model.node n = later at folds
      cases folds with
      | rebuilt callable => simp [Node.yields, callable] at settled
      | adopted plain empty => simp [Node.yields, OrderedSet.isEmpty_iff.mpr empty] at settled
      | kept plain peopled => rfl
    · rw [outside] at settled
      cases settled
  · exact node_of_enters_ne calls.enters here

theorem keeps_accept (takers : ∀ taker ∈ (d.model.judge u container item c).takers container,
      taker.index < d.model.size) (n : NodeId) :
    (d.model.node n).Keeps ((d.accept u container item c).model.node n) := by
  refine .of_unplaced ((rearranges_accept d container item c).unplaced n) ?_
  rw [members_accept takers]
  split
  · exact OrderedSet.prefix_insert ..
  · exact List.prefix_rfl

theorem CallsAt.keeps (calls : CallsAt u f d container id c item entered)
    (settled : (d.model.node n).yields = false) :
    (d.model.node n).Keeps ((entered.accept u container item c).model.node n) ∧
      ((entered.accept u container item c).model.node n).yields = false := by
  have keeps := keeps_accept calls.takers_lt n
  rw [calls.node_of_settled settled] at keeps
  refine ⟨keeps, keeps.yields ?_ settled⟩
  rw [(rearranges_accept entered container item c).same_read Node.kind (fun _ => rfl),
    calls.node_of_settled settled]

theorem Runs.keeps (runs : Runs u f known d visits e) (fresh : d.model.Fresh)
    (indexed : d.model.Indexed) (inside : ∀ id ∈ known, id.index < d.model.size)
    (settled : (d.model.node n).yields = false) : (d.model.node n).Keeps (e.model.node n) := by
  have stages := runs.holds (P := fun stage =>
    (d.model.node n).Keeps (stage.model.node n) ∧ (stage.model.node n).yields = false) fresh indexed
    inside ?_ ⟨.refl _, settled⟩
  · exact (stages e runs.final_mem).1
  · intro stage entered container item id c calls earlier
    obtain ⟨next, settled⟩ := calls.keeps earlier.2
    exact ⟨earlier.1.trans next, settled⟩

theorem Runs.occurrence_cases (runs : Runs u f known d visits e) (fresh : d.model.Fresh)
    (indexed : d.model.Indexed) (inside : ∀ id ∈ known, id.index < d.model.size) (n : NodeId) :
    (e.model.node n).occurrence = (d.model.node n).occurrence ∧
        (∀ begin ∈ d.begun visits, ¬ adopts n begin) ∨
      ∃ id ∈ visits.map Visit.cursor, (e.model.node n).occurrence = some id := by
  rw [runs.occurrence fresh indexed inside n]
  cases last : ((d.begun visits).filter (adopts n)).getLast? with
  | none => exact .inl ⟨rfl, List.filter_eq_nil_iff.mp (List.getLast?_eq_none_iff.mp last)⟩
  | some begin =>
    have member := (List.mem_filter.mp (List.mem_of_getLast? last)).1
    have visited : begin.2 ∈ visits := d.map_snd_begun visits ▸ List.mem_map_of_mem member
    exact .inr ⟨_, List.mem_map_of_mem visited, rfl⟩

/-! ## Where a build is -/

/-- Some visits of a build are over: no question has been asked, and the nodes hold cursors that have
been visited. -/
structure Stage (u : TranslationUnit) (d : Draft) (earlier : List Visit) : Prop where
  fresh : d.model.Fresh
  indexed : d.model.Indexed
  held : ∀ n id, (d.model.node n).occurrence = some id → id ∈ u.root :: earlier.map Visit.cursor

theorem Stage.run {earlier : List Visit} (stage : Stage u d earlier)
    (runs : Runs u f known d visits e) (inside : ∀ id ∈ known, id.index < d.model.size) :
    Stage u e (earlier ++ visits) where
  fresh := runs.fresh stage.fresh inside
  indexed := runs.indexed stage.indexed e runs.final_mem
  held n id occurrence := by
    rw [List.map_append, ← List.cons_append, List.mem_append]
    rcases runs.occurrence_cases stage.fresh stage.indexed inside n with
      ⟨same, _⟩ | ⟨new, met, held⟩
    · exact .inl (stage.held n id (same ▸ occurrence))
    · cases held.symm.trans occurrence
      exact .inr met

theorem Stage.occurrence_ne {earlier : List Visit} (stage : Stage u d earlier)
    (runs : Runs u f known d visits e) (inside : ∀ id ∈ known, id.index < d.model.size)
    (once : (u.root :: (earlier ++ visits).map Visit.cursor).Nodup) {begin : Draft × Visit}
    (member : begin ∈ d.begun visits) (taken : adopts n begin) :
    (e.model.node n).occurrence ≠ (d.model.node n).occurrence := by
  intro same
  rw [List.map_append, ← List.cons_append, List.nodup_append] at once
  rcases runs.occurrence_cases stage.fresh stage.indexed inside n with ⟨_, clear⟩ | ⟨new, met, held⟩
  · exact clear begin member taken
  · exact once.2.2 new (stage.held n new (same ▸ held)) new met rfl

/-- The trees below a node that a build has come to and has yet to visit. -/
inductive Ahead (u : TranslationUnit) (f : Factory) :
    NodeId → List NodeId → List CursorTree → Draft → Prop where
  | root : Ahead u f Model.root [Model.root] u.tree.children (opening u f)
  | next {container : NodeId} {way : List NodeId} {tree : CursorTree} {rest : List CursorTree}
    {d : Draft} (ahead : Ahead u f container way (tree :: rest) d) :
    Ahead u f container way rest (d.visit u f container way tree)
  | down {container item : NodeId} {way : List NodeId} {id : CursorId} {c : Cursor}
    {children rest : List CursorTree} {d entered : Draft}
    (ahead : Ahead u f container way (.node id children :: rest) d) (cursor : u.cursor? id = some c)
    (found : d.enter? u f id c = some (item, entered)) (clear : item ∉ way) :
    Ahead u f item (item :: way) children (entered.accept u container item c)

theorem visits_eq {children : List CursorTree} (cursor : u.cursor? id = some c)
    (found : d.enter? u f id c = some (item, entered)) :
    Draft.visits u f container way (.node id children) d =
      ⟨id, item, entered.accept u container item c⟩ ::
        if item ∈ way then []
        else visitsAll u f item (item :: way) children (entered.accept u container item c) := by
  simp only [Draft.visits, cursor, found]

/-- A build that has trees ahead has visited all that comes before them. -/
theorem Ahead.exists_stage {trees : List CursorTree} (ahead : Ahead u f container way trees d) :
    ∃ earlier later, Stage u d earlier ∧ container.index < d.model.size ∧
      buildVisits u f = earlier ++ visitsAll u f container way trees d ++ later := by
  induction ahead with
  | root =>
    refine ⟨[], [], ⟨fresh_opening u f, indexed_opening u f, ?_⟩, Nat.zero_lt_one, ?_⟩
    · intro n id occurrence
      rw [node_opening] at occurrence
      split at occurrence
      · cases occurrence
        exact List.mem_cons_self
      · cases occurrence
    · rw [List.append_nil]
      rfl
  | @next container way tree rest d ahead ih =>
    obtain ⟨earlier, later, stage, inside, visits⟩ := ih
    have only : ∀ id ∈ [container], id.index < d.model.size := by simpa using inside
    have runs := runs_visit u f tree container way [container] d List.mem_cons_self
    refine ⟨earlier ++ Draft.visits u f container way tree d, later, stage.run runs only,
      Nat.lt_of_lt_of_le inside (runs.lasts stage.indexed).size_le, ?_⟩
    rw [visits, visitsAll]
    simp only [List.append_assoc]
  | @down container item way id c children rest d entered ahead cursor found clear ih =>
    obtain ⟨earlier, later, stage, inside, visits⟩ := ih
    have only : ∀ id ∈ [container], id.index < d.model.size := by simpa using inside
    have enters := enters_of_enter? found
    have runs : Runs u f [container] d _ (entered.accept u container item c) :=
      .visit List.mem_cons_self cursor enters .done
    have calls : CallsAt u f d container id c item entered :=
      ⟨stage.fresh, stage.indexed, inside, cursor, enters⟩
    refine ⟨earlier ++ [⟨id, item, entered.accept u container item c⟩],
      visitsAll u f container way rest (d.visit u f container way (.node id children)) ++ later,
      stage.run runs only, ?_, ?_⟩
    · rw [(rearranges_accept entered container item c).size]
      exact calls.item_lt
    · rw [visits, visitsAll, visits_eq cursor found, if_neg clear]
      simp only [List.append_assoc, List.cons_append, List.nil_append]

/-- A visit is what becomes of a tree that a build has come to. -/
def Awaits (u : TranslationUnit) (f : Factory) (visit : Visit) : Prop :=
  ∃ container way children rest d, Ahead u f container way (.node visit.cursor children :: rest) d ∧
    ∃ c entered, u.cursor? visit.cursor = some c ∧
      d.enter? u f visit.cursor c = some (visit.item, entered) ∧
      visit.after = entered.accept u container visit.item c

mutual

theorem Ahead.awaits : ∀ (tree : CursorTree) {container : NodeId} {way : List NodeId}
    {rest : List CursorTree} {d : Draft}, Ahead u f container way (tree :: rest) d →
      ∀ visit ∈ Draft.visits u f container way tree d, Awaits u f visit
  | .node id children, container, way, rest, d, ahead => by
    intro visit member
    cases cursor : u.cursor? id with
    | none => simp [Draft.visits, cursor] at member
    | some c =>
      cases found : d.enter? u f id c with
      | none => simp [Draft.visits, cursor, found] at member
      | some result =>
        obtain ⟨item, entered⟩ := result
        rw [visits_eq cursor found] at member
        rcases List.mem_cons.mp member with rfl | below
        · exact ⟨container, way, children, rest, d, ahead, c, entered, cursor, found, rfl⟩
        · split at below
          · cases below
          · next clear => exact Ahead.awaits_all children (ahead.down cursor found clear) visit below

/-- Whatever a build visits it has come to. -/
theorem Ahead.awaits_all : ∀ (trees : List CursorTree) {container : NodeId} {way : List NodeId}
    {d : Draft}, Ahead u f container way trees d →
      ∀ visit ∈ visitsAll u f container way trees d, Awaits u f visit
  | [], _, _, _, _ => nofun
  | tree :: rest, container, way, d, ahead => by
    intro visit member
    rw [visitsAll] at member
    rcases List.mem_append.mp member with here | later
    · exact Ahead.awaits tree ahead visit here
    · exact Ahead.awaits_all rest ahead.next visit later

end

theorem enter?_of_known {usr : String} (modeled : f.isModeled c.kind) (symbol : c.usr? = some usr)
    (known : d.model.byUsr? usr = some item) :
    d.enter? u f id c = some (item, d.merge item id c) := by
  obtain ⟨constructor, listed⟩ := Option.isSome_iff_exists.mp modeled
  simp only [enter?, listed, symbol, Option.bind_some, known]

theorem accept_of_refused (refused : (d.model.judge u container item c).owner? = none) :
    ∃ diagnostic, d.accept u container item c = d.report diagnostic := by
  unfold accept
  cases verdict : d.model.judge u container item c with
  | accepted owner | elaborated owner =>
    rw [verdict] at refused
    cases refused
  | rejected owner | ownerless => exact ⟨_, rfl⟩

/-- A build comes to an occurrence of a known declaration that nobody will take. -/
structure Refuses (u : TranslationUnit) (d : Draft) (container : NodeId) (way : List NodeId)
    (id : CursorId) (children : List CursorTree) (c : Cursor) (item : NodeId) : Prop where
  ahead : ∃ rest, Ahead u .standard container way (.node id children :: rest) d
  cursor : u.cursor? id = some c
  modeled : Factory.standard.isModeled c.kind
  known : ∃ usr, c.usr? = some usr ∧ d.model.byUsr? usr = some item
  ownerless : ((d.merge item id c).model.judge u container item c).owner? = none

end Draft

/-- A build comes to all that it visits. An occurrence of a known declaration that is refused changes
nothing but the diagnostics when it is refused. Its node has been entered by then, and so the node
keeps the occurrence and the members that it had, through all that stands below the refused cursor, if
and only if it does not yield. -/
theorem refused_keeps_iff {u : TranslationUnit} (valid : u.firstFault? = none) :
    (∀ visit ∈ buildVisits u, Draft.Awaits u .standard visit) ∧
      ∀ d container way id children c item, Draft.Refuses u d container way id children c item →
        (∃ diagnostic, (d.merge item id c).accept u container item c =
          (d.merge item id c).report diagnostic) ∧
        ((d.model.node item).Keeps
            ((d.visit u .standard container way (.node id children)).model.node item) ↔
          (d.model.node item).yields = false) := by
  refine ⟨Draft.Ahead.awaits_all u.tree.children .root, ?_⟩
  intro d container way id children c item refuses
  obtain ⟨⟨rest, ahead⟩, cursor, modeled, ⟨usr, symbol, known⟩, refused⟩ := refuses
  refine ⟨Draft.accept_of_refused refused, ?_⟩
  obtain ⟨earlier, later, stage, inside, visits⟩ := ahead.exists_stage
  have only : ∀ id ∈ [container], id.index < d.model.size := by simpa using inside
  have runs := Draft.runs_visit u .standard (.node id children) container way [container] d
    List.mem_cons_self
  constructor
  · intro keeps
    by_contra yielding
    have found : d.enter? u .standard id c = some (item, d.merge item id c) :=
      Draft.enter?_of_known modeled symbol known
    have first : (d, (⟨id, item, (d.merge item id c).accept u container item c⟩ : Visit)) ∈
        d.begun (d.visits u .standard container way (.node id children)) := by
      rw [Draft.visits_eq cursor found, Draft.begun]
      exact List.mem_cons_self
    have once := nodup_visited valid
    rw [visits, Draft.visitsAll, ← List.append_assoc, List.append_assoc, List.map_append] at once
    exact stage.occurrence_ne runs only (once.sublist ((List.sublist_append_left _ _).cons_cons _))
      first (by simpa [Draft.adopts] using yielding) keeps.occurrence
  · intro settled
    exact runs.keeps stage.fresh stage.indexed only settled

/-- `struct Gate { int bar; };`, and `struct Gate` is met again inside `struct Yard`, where it does
not belong, with another field. -/
def yard : TranslationUnit where
  path := "yard.h"
  root := ⟨0⟩
  cursors := #[
    { kind := .translationUnit, spelling := "yard.h", children := [⟨1⟩, ⟨3⟩] },
    { kind := .structDecl, spelling := "Gate", usr := some "c:Gate", semanticParent := some ⟨0⟩,
      children := [⟨2⟩] },
    { kind := .fieldDecl, spelling := "bar", semanticParent := some ⟨1⟩ },
    { kind := .structDecl, spelling := "Yard", usr := some "c:Yard", semanticParent := some ⟨0⟩,
      children := [⟨4⟩] },
    { kind := .structDecl, spelling := "Gate", usr := some "c:Gate", semanticParent := some ⟨0⟩,
      children := [⟨5⟩] },
    { kind := .fieldDecl, spelling := "latch", semanticParent := some ⟨4⟩ }]

/-- The gate stands for its first occurrence and has its bar, and gets the latch in addition. -/
theorem refused_keeps_iff_yard :
    yard.firstFault? = none ∧ ∃ d c,
      Draft.Refuses yard d ⟨3⟩ [⟨3⟩, Model.root] ⟨4⟩ [.node ⟨5⟩ []] c ⟨1⟩ ∧
      let e := d.visit yard .standard ⟨3⟩ [⟨3⟩, Model.root] (.node ⟨4⟩ [.node ⟨5⟩ []])
      (d.model.node ⟨1⟩).Keeps (e.model.node ⟨1⟩) ∧
        d.model.membersOf ⟨1⟩ = [⟨2⟩] ∧ e.model.membersOf ⟨1⟩ = [⟨2⟩, ⟨4⟩] := by
  have valid : yard.firstFault? = none := by decide +kernel
  have first : Draft.Ahead yard .standard Model.root [Model.root]
      [.node ⟨1⟩ [.node ⟨2⟩ []], .node ⟨3⟩ [.node ⟨4⟩ [.node ⟨5⟩ []]]] (opening yard) := .root
  have computed : (((opening yard).visit yard .standard Model.root [Model.root]
      (.node ⟨1⟩ [.node ⟨2⟩ []])).enter? yard .standard ⟨3⟩ yard.cursors[3]).any fun entered =>
        entered.1 = ⟨3⟩ ∧
        let d := entered.2.accept yard Model.root ⟨3⟩ yard.cursors[3]
        d.model.byUsr? "c:Gate" = some ⟨1⟩ ∧
        ((d.merge ⟨1⟩ ⟨4⟩ yard.cursors[4]).model.judge yard ⟨3⟩ ⟨1⟩ yard.cursors[4]).owner? = none ∧
        (d.model.node ⟨1⟩).yields = false ∧ d.model.membersOf ⟨1⟩ = [⟨2⟩] ∧
        (d.visit yard .standard ⟨3⟩ [⟨3⟩, Model.root] (.node ⟨4⟩ [.node ⟨5⟩ []])).model.membersOf ⟨1⟩ =
          [⟨2⟩, ⟨4⟩] := by decide +kernel
  obtain ⟨⟨item, entered⟩, found, told⟩ := (Option.any_eq_true _ _).mp computed
  obtain ⟨rfl, known, ownerless, settled, grows⟩ := of_decide_eq_true told
  have refuses : Draft.Refuses yard _ _ _ ⟨4⟩ _ yard.cursors[4] ⟨1⟩ :=
    ⟨⟨[], first.next.down rfl found (by decide)⟩, rfl, by decide, ⟨"c:Gate", rfl, known⟩, ownerless⟩
  have outcome := (refused_keeps_iff valid).2 _ _ _ _ _ _ _ refuses
  exact ⟨valid, _, _, refuses, outcome.2.mpr settled, grows⟩

/-- `void ring(int times);`, and `void ring(int);` again inside `struct Door`, as a friend is
written. -/
def doorbell : TranslationUnit where
  path := "doorbell.h"
  root := ⟨0⟩
  cursors := #[
    { kind := .translationUnit, spelling := "doorbell.h", children := [⟨1⟩, ⟨3⟩] },
    { kind := .functionDecl, spelling := "ring", displayName := some "ring(int)",
      usr := some "c:ring", semanticParent := some ⟨0⟩, lexicalParent := some ⟨0⟩,
      location := ⟨some "doorbell.h", 1, 6⟩, children := [⟨2⟩] },
    { kind := .parmDecl, spelling := "times", semanticParent := some ⟨1⟩,
      lexicalParent := some ⟨1⟩ },
    { kind := .structDecl, spelling := "Door", usr := some "c:Door", semanticParent := some ⟨0⟩,
      lexicalParent := some ⟨0⟩, location := ⟨some "doorbell.h", 2, 8⟩,
      flags := { isDefinition := true }, children := [⟨4⟩] },
    { kind := .functionDecl, spelling := "ring", displayName := some "ring(int)",
      usr := some "c:ring", semanticParent := some ⟨0⟩, lexicalParent := some ⟨3⟩,
      location := ⟨some "doorbell.h", 3, 15⟩ }]

/-- The second occurrence is refused, and takes the cursor, the location and the parameter of the
function away all the same. -/
theorem doorbell_loses_parameter :
    doorbell.firstFault? = none ∧ ∃ d c,
      Draft.Refuses doorbell d ⟨3⟩ [⟨3⟩, Model.root] ⟨4⟩ [] c ⟨1⟩ ∧
      (d.model.node ⟨1⟩).occurrence = some ⟨1⟩ ∧
      (d.model.node ⟨1⟩).location = ⟨some "doorbell.h", 1, 6⟩ ∧ d.model.membersOf ⟨1⟩ = [⟨2⟩] ∧
      let e := d.visit doorbell .standard ⟨3⟩ [⟨3⟩, Model.root] (.node ⟨4⟩ [])
      (e.model.node ⟨1⟩).occurrence = some ⟨4⟩ ∧
        (e.model.node ⟨1⟩).location = ⟨some "doorbell.h", 3, 15⟩ ∧ e.model.membersOf ⟨1⟩ = [] := by
  have first : Draft.Ahead doorbell .standard Model.root [Model.root]
      [.node ⟨1⟩ [.node ⟨2⟩ []], .node ⟨3⟩ [.node ⟨4⟩ []]] (opening doorbell) := .root
  have computed : (((opening doorbell).visit doorbell .standard Model.root [Model.root]
      (.node ⟨1⟩ [.node ⟨2⟩ []])).enter? doorbell .standard ⟨3⟩ doorbell.cursors[3]).any
        fun entered => entered.1 = ⟨3⟩ ∧
          let d := entered.2.accept doorbell Model.root ⟨3⟩ doorbell.cursors[3]
          d.model.byUsr? "c:ring" = some ⟨1⟩ ∧
          ((d.merge ⟨1⟩ ⟨4⟩ doorbell.cursors[4]).model.judge doorbell ⟨3⟩ ⟨1⟩
            doorbell.cursors[4]).owner? = none ∧
          (d.model.node ⟨1⟩).occurrence = some ⟨1⟩ ∧
          (d.model.node ⟨1⟩).location = ⟨some "doorbell.h", 1, 6⟩ ∧ d.model.membersOf ⟨1⟩ = [⟨2⟩] ∧
          let e := d.visit doorbell .standard ⟨3⟩ [⟨3⟩, Model.root] (.node ⟨4⟩ [])
          (e.model.node ⟨1⟩).occurrence = some ⟨4⟩ ∧
            (e.model.node ⟨1⟩).location = ⟨some "doorbell.h", 3, 15⟩ ∧
            e.model.membersOf ⟨1⟩ = [] := by decide +kernel
  obtain ⟨⟨item, entered⟩, found, told⟩ := (Option.any_eq_true _ _).mp computed
  obtain ⟨rfl, known, ownerless, outcome⟩ := of_decide_eq_true told
  have refuses : Draft.Refuses doorbell _ _ _ ⟨4⟩ _ doorbell.cursors[4] ⟨1⟩ :=
    ⟨⟨[], first.next.down rfl found (by decide)⟩, rfl, by decide, ⟨"c:ring", rfl, known⟩, ownerless⟩
  exact ⟨by decide +kernel, _, _, refuses, outcome⟩

end Bindery
