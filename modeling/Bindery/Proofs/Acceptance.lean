import Bindery.Proofs.Ast.Tree
import Bindery.Proofs.Model.Placement

/-! The table of acceptance holds in what a build leaves. Every member is of a kind that its owner
takes, however often it was met and whoever it was offered to; an enum or struct spelled inside a
field is the one exception, and a record holds it as well. -/

set_option autoImplicit false

namespace Bindery

open Ast (Cursor CursorId CursorKind TranslationUnit)

/-- Occurrences of one symbol are of one kind, as front ends see to. -/
def Ast.TranslationUnit.OneKindPerSymbol (u : TranslationUnit) : Prop :=
  ∀ a ∈ u.cursors.toList, ∀ b ∈ u.cursors.toList,
    a.usr?.isSome → b.usr? = a.usr? → b.kind = a.kind

instance (u : TranslationUnit) : Decidable u.OneKindPerSymbol :=
  inferInstanceAs (Decidable (∀ a ∈ u.cursors.toList, ∀ b ∈ u.cursors.toList,
    a.usr?.isSome → b.usr? = a.usr? → b.kind = a.kind))

theorem Ast.TranslationUnit.OneKindPerSymbol.kind_eq {u : TranslationUnit}
    (uniform : u.OneKindPerSymbol) {id other : CursorId} {a b : Cursor} {usr : String}
    (first : u.cursor? id = some a) (second : u.cursor? other = some b) (own : a.usr? = some usr)
    (same : b.usr? = some usr) : b.kind = a.kind := by
  have member {id : CursorId} {c : Cursor} (cursor : u.cursor? id = some c) :
      c ∈ u.cursors.toList := by
    unfold TranslationUnit.cursor? at cursor
    exact Array.mem_toList_iff.mpr (Array.mem_of_getElem? cursor)
  exact uniform a (member first) b (member second) (by simp [own]) (same.trans own.symm)

theorem standardKind?_injective {first second : CursorKind} {kind : NodeKind}
    (one : Factory.standardKind? first = some kind)
    (other : Factory.standardKind? second = some kind) : first = second := by
  have table : ∀ a ∈ CursorKind.all, ∀ b ∈ CursorKind.all,
      Factory.standardKind? a = Factory.standardKind? b →
        (Factory.standardKind? a).isSome → a = b := by decide +kernel
  exact table first (CursorKind.mem_all first) second (CursorKind.mem_all second)
    (one.trans other.symm) (by simp [one])

namespace NodeKind

/-- An owner takes the cursors that become nodes of a kind. -/
def Takes (owner member : NodeKind) : Prop :=
  ∃ child, Factory.standardKind? child = some member ∧ allows owner child

/-- Where members of some kinds are found, and where they are not. -/
def Suits (owner member : NodeKind) : Prop :=
  (member ∈ [callable .method, callable .constructor, callable .destructor, field, baseSpecifier] →
    owner.isRecord) ∧
  (member = param → owner.isCallable) ∧
  (member = enumConstant → owner = enumeration) ∧
  (member ∈ [templateTypeParam, templateNonTypeParam] →
    owner ∉ [record .classRecord, record .structRecord, callable .function])

instance (owner member : NodeKind) : Decidable (Suits owner member) :=
  inferInstanceAs (Decidable (_ ∧ _ ∧ _ ∧ _))

variable {owner member : NodeKind}

theorem Takes.suits (takes : Takes owner member) : Suits owner member := by
  obtain ⟨child, kind, allowed⟩ := takes
  have table : ∀ child ∈ CursorKind.all, ∀ owner ∈ all, allows owner child →
      ∀ member ∈ (Factory.standardKind? child).toList, Suits owner member := by decide +kernel
  exact table child (CursorKind.mem_all child) owner (mem_all owner) allowed member (by simp [kind])

theorem Takes.eq_typeRef (takes : Takes templateNonTypeParam member) : member = typeRef := by
  obtain ⟨child, kind, allowed⟩ := takes
  have only : child = .typeRef := by simpa [allows] using allowed
  subst only
  cases kind
  rfl

theorem Takes.ne_builtin (takes : Takes owner member) : owner ≠ builtin ∧ member ≠ builtin := by
  obtain ⟨child, kind, allowed⟩ := takes
  refine ⟨fun marker => ?_, fun marker => ?_⟩
  · subst marker
    cases allowed
  · subst marker
    cases child <;> cases kind

end NodeKind

namespace Model

/-- An enum or struct is spelled inside a field, and belongs to a record as well. -/
def Elaborates (m : Model) (owner member : NodeId) : Prop :=
  m.kind owner = .field ∧ (m.kind member = .enumeration ∨ m.kind member = .record .structRecord) ∧
    ∃ outer, (m.kind outer).isRecord ∧ member ∈ (m.node outer).members

/-- Members are of kinds that their owners take. -/
structure Regular (m : Model) : Prop where
  edges : ∀ owner, ∀ member ∈ (m.node owner).members,
    NodeKind.Takes (m.kind owner) (m.kind member) ∨ m.Elaborates owner member
  single : ∀ owner, m.kind owner = .templateNonTypeParam →
    (m.node owner).members.toList = (m.node owner).refType.toList

variable {m n : Model} {u : TranslationUnit} {container item : NodeId} {c : Cursor}

theorem Elaborates.ne_builtin {owner member : NodeId} (elaborates : m.Elaborates owner member) :
    m.kind owner ≠ .builtin ∧ m.kind member ≠ .builtin := by
  obtain ⟨field, spelled, _⟩ := elaborates
  refine ⟨by simp [field], ?_⟩
  rcases spelled with spelled | spelled <;> simp [spelled]

theorem ownerAllows_iff {owner : NodeId} {child : CursorKind} :
    m.ownerAllows owner child ↔ allows (m.kind owner) child ∧
      (m.kind owner = .templateNonTypeParam → (m.node owner).refType = none) := by
  simp only [ownerAllows, kind, Bool.and_eq_true, Bool.not_eq_true', Bool.and_eq_false_iff,
    decide_eq_false_iff_not, Option.isSome_eq_false_iff, Option.isNone_iff_eq_none]
  tauto

/-- What takes an item is of a kind that takes it, or a field in which it is spelled. -/
theorem takes_of_judge (stands : Factory.standardKind? c.kind = some (m.kind item)) {taker : NodeId}
    (takes : taker ∈ (m.judge u container item c).takers container) :
    NodeKind.Takes (m.kind taker) (m.kind item) ∨
      m.kind taker = .field ∧
        (m.kind item = .enumeration ∨ m.kind item = .record .structRecord) ∧
        ∃ outer ∈ (m.judge u container item c).takers container, (m.kind outer).isRecord := by
  have judged := m.judges u container item c
  generalize m.judge u container item c = verdict at judged takes
  cases judged with
  | @accepted owner found allowed near =>
    rw [List.mem_singleton.mp takes]
    exact .inl ⟨c.kind, stands, (ownerAllows_iff.mp allowed).1⟩
  | @elaborated owner found allowed spelled =>
    simp only [isElaboration, Bool.and_eq_true, Bool.or_eq_true, decide_eq_true_eq] at spelled
    obtain ⟨types, place⟩ := spelled
    rcases List.mem_cons.mp takes with rfl | last
    · rcases place with typeDef | ⟨field, outer⟩
      · rw [typeDef]
        rcases types with kind | kind <;> rw [kind]
        · exact .inl ⟨.enumDecl, rfl, rfl⟩
        · exact .inl ⟨.structDecl, rfl, rfl⟩
      · exact .inr ⟨field, types, owner, by simp [Verdict.takers], outer⟩
    · rw [List.mem_singleton.mp last]
      exact .inl ⟨c.kind, stands, (ownerAllows_iff.mp allowed).1⟩
  | rejected _ | ownerless => cases takes

end Model

/-! ## Visits -/

/-- A node is of the kind that its cursor stands for. -/
def Node.Stands (u : TranslationUnit) (node : Node) : Prop :=
  ∃ id c, node.occurrence = some id ∧ u.cursor? id = some c ∧ c.usr? = node.usr ∧
    Factory.standardKind? c.kind = some node.kind

variable {u : TranslationUnit}

theorem persists_stands (uniform : u.OneKindPerSymbol) : Persists u .standard (Node.Stands u) where
  blind _ := Iff.rfl
  made cursor modeled taken := ⟨_, _, rfl, cursor, rfl, standardKind?_of_made modeled taken⟩
  folded := by
    rintro node later id c usr ⟨before, c', occurrence, cursor', symbol', kind⟩ cursor symbol carried
      folds
    have same : c.kind = c'.kind :=
      uniform.kind_eq cursor' cursor (symbol'.trans carried) symbol
    cases folds with
    | rebuilt callable | adopted plain empty =>
      exact ⟨id, c, rfl, cursor, symbol.trans carried.symm, same ▸ kind⟩
    | kept plain peopled => exact ⟨before, c', occurrence, cursor', symbol', kind⟩

theorem stands_root (valid : u.firstFault? = none) :
    Node.Stands u (.ofCursor .translationUnit u.root
      ((u.cursor? u.root).getD { kind := .translationUnit })) := by
  obtain ⟨c, cursor, kind⟩ := TranslationUnit.kind_root_of_valid valid
  rw [cursor]
  exact ⟨u.root, c, rfl, cursor, rfl, by rw [kind]; rfl⟩

namespace Draft

variable {d entered : Draft} {container item : NodeId} {id : CursorId} {c : Cursor}

theorem CallsAt.standardKind? (calls : CallsAt u .standard d container id c item entered)
    (uniform : u.OneKindPerSymbol)
    (stands : ∀ id, id.index < d.model.size → (d.model.node id).Stands u) :
    Factory.standardKind? c.kind = some (entered.model.kind item) := by
  rcases calls.node with ⟨before, ⟨usr, symbol, carried⟩, folds⟩ | ⟨_, _, _, modeled, taken, new⟩
  · obtain ⟨_, c', _, cursor', symbol', kind⟩ := stands item before
    rw [Model.kind, folds.kind, ← kind,
      uniform.kind_eq cursor' calls.cursor (symbol'.trans carried) symbol]
  · rw [Model.kind, new]
    exact standardKind?_of_made modeled taken

theorem CallsAt.regular {f : Factory} (calls : CallsAt u f d container id c item entered)
    (regular : d.model.Regular) : entered.model.Regular := by
  have kinds {other : NodeId} (real : d.model.kind other ≠ .builtin) :
      entered.model.kind other = d.model.kind other := calls.lasts.kind_eq real
  refine ⟨fun owner member present => ?_, fun owner kind => ?_⟩
  · have earlier : member ∈ (d.model.node owner).members := by
      rcases calls.household owner with same | ⟨_, cleared⟩
      · rwa [same.members] at present
      · rw [cleared.members] at present
        cases present
    rcases regular.edges owner member earlier with takes | elaborates
    · rw [kinds takes.ne_builtin.1, kinds takes.ne_builtin.2]
      exact .inl takes
    · have real := elaborates.ne_builtin
      obtain ⟨field, spelled, outer, record, belongs⟩ := elaborates
      have outerKind : entered.model.kind outer = d.model.kind outer :=
        kinds fun marker => by rw [marker] at record; cases record
      refine .inr ⟨(kinds real.1).trans field, by rwa [kinds real.2], outer, by rwa [outerKind], ?_⟩
      -- A record is no callable, and keeps its members.
      rcases calls.household outer with same | ⟨callable, _⟩
      · rwa [same.members]
      · cases other : d.model.kind outer <;> rw [other] at record callable <;> cases record
        cases callable
  · rcases calls.household owner with same | ⟨callable, _⟩
    · rw [same.members, same.refType]
      by_cases inside : owner.index < d.model.size
      · exact regular.single owner ((calls.lasts.kept owner inside).kind.symm.trans kind)
      · rw [Model.node_of_size_le (Nat.le_of_not_lt inside)]
        rfl
    · rw [kinds fun marker => by rw [marker] at callable; cases callable] at kind
      rw [kind] at callable
      cases callable

/-- Acceptance gives items to those alone that take their kind, and to a template non-type parameter
only one. -/
theorem regular_accept (regular : d.model.Regular)
    (stands : Factory.standardKind? c.kind = some (d.model.kind item))
    (takers : ∀ taker ∈ (d.model.judge u container item c).takers container,
      taker.index < d.model.size) : (d.accept u container item c).model.Regular := by
  have rearranged := rearranges_accept (u := u) d container item c
  have kinds (other : NodeId) :
      (d.accept u container item c).model.kind other = d.model.kind other :=
    rearranged.same_read Node.kind (fun _ => rfl) other
  refine ⟨fun owner member present => ?_, fun owner kind => ?_⟩
  · simp only [Model.Elaborates, kinds, mem_members_accept takers]
    rcases (mem_members_accept takers).mp present with earlier | ⟨rfl, takes⟩
    · refine (regular.edges owner member earlier).imp_right ?_
      rintro ⟨field, spelled, outer, record, belongs⟩
      exact ⟨field, spelled, outer, record, .inl belongs⟩
    · refine (Model.takes_of_judge stands takes).imp_right ?_
      rintro ⟨field, spelled, outer, takes', record⟩
      exact ⟨field, spelled, outer, record, .inr ⟨rfl, takes'⟩⟩
  · rw [kinds] at kind
    rw [members_accept takers, refType_accept takers]
    have judged := d.model.judges u container item c
    generalize d.model.judge u container item c = verdict at judged
    cases judged with
    | @accepted other found allowed near =>
      by_cases here : owner = other
      · subst here
        have none := (Model.ownerAllows_iff.mp allowed).2 kind
        have empty : (d.model.node owner).members = ∅ := by
          ext1
          rw [regular.single owner kind, none]
          rfl
        simp [Verdict.takers, kind, empty, OrderedSet.toList_insert]
      · have apart : ¬ other = owner := fun same => here same.symm
        simp [Verdict.takers, here, apart, regular.single owner kind]
    | @elaborated other found allowed spelled =>
      simp only [isElaboration, Bool.and_eq_true, Bool.or_eq_true, decide_eq_true_eq] at spelled
      have absent : owner ∉ Verdict.takers container (.elaborated other) := by
        intro takes
        rcases List.mem_cons.mp takes with rfl | last
        · simp [kind] at spelled
        · rw [List.mem_singleton.mp last] at kind
          have takes : NodeKind.Takes .templateNonTypeParam (d.model.kind item) :=
            ⟨c.kind, stands, kind ▸ (Model.ownerAllows_iff.mp allowed).1⟩
          simp [takes.eq_typeRef] at spelled
      simp [absent, regular.single owner kind]
    | rejected _ | ownerless => simp [Verdict.takers, regular.single owner kind]

end Draft

/-! ## Builds -/

theorem regular_build (valid : u.firstFault? = none) (uniform : u.OneKindPerSymbol) :
    (Session.start u).build.model.Regular ∧
      ∀ id, id.index < (Session.start u).build.model.size →
        ((Session.start u).build.model.node id).Stands u := by
  let P (d : Draft) : Prop :=
    d.model.Regular ∧ ∀ id, id.index < d.model.size → (d.model.node id).Stands u
  have persists := persists_stands uniform
  have first : P (opening u) := by
    refine ⟨⟨fun owner member present => ?_, fun owner _ => ?_⟩, persist_opening (stands_root valid)⟩
    · rw [(household_opening u .standard owner).1.members] at present
      cases present
    · obtain ⟨same, _⟩ := household_opening u .standard owner
      rw [same.members, same.refType]
      rfl
  have stages := holds_build u .standard (P := P) (fun calls earlier => ?_) first
  · exact stages _ (runs_build u .standard).final_mem
  · obtain ⟨regular, stands⟩ := earlier
    exact ⟨Draft.regular_accept (calls.regular regular) (calls.standardKind? uniform stands)
      calls.takers_lt, Draft.persist_accept persists (calls.persist persists stands) _ _ _⟩

structure Model.Abides (u : TranslationUnit) (m : Model) : Prop where
  /-- The cursor that a member reflects is one that its owner takes. -/
  table : ∀ owner, ∀ member ∈ (m.node owner).members, ∃ id c,
    (m.node member).occurrence = some id ∧ u.cursor? id = some c ∧
      (allows (m.kind owner) c.kind ∨ m.Elaborates owner member)
  suits : ∀ owner, ∀ member ∈ (m.node owner).members,
    NodeKind.Suits (m.kind owner) (m.kind member)
  /-- A template non-type parameter has one member at most, which is its type reference. -/
  single : ∀ owner, m.kind owner = .templateNonTypeParam →
    (m.node owner).members.toList = (m.node owner).refType.toList

/-- In a unit without faults in which the occurrences of a symbol are of one kind, a build leaves a
model in which the table of acceptance holds. -/
theorem build_abides (valid : u.firstFault? = none) (uniform : u.OneKindPerSymbol) :
    (Session.start u).build.model.Abides u := by
  obtain ⟨regular, stands⟩ := regular_build valid uniform
  refine ⟨fun owner member present => ?_, fun owner member present => ?_, regular.single⟩
  · have inside : member.index < (Session.start u).build.model.size := by
      apply Model.index_lt_of_kind_ne
      rcases regular.edges owner member present with takes | elaborates
      · exact takes.ne_builtin.2
      · exact elaborates.ne_builtin.2
    obtain ⟨id, c, occurrence, cursor, _, kind⟩ := stands member inside
    refine ⟨id, c, occurrence, cursor, ?_⟩
    rcases regular.edges owner member present with ⟨child, kind', allowed⟩ | elaborates
    · rw [standardKind?_injective kind kind']
      exact .inl allowed
    · exact .inr elaborates
  · rcases regular.edges owner member present with takes | ⟨field, spelled, _⟩
    · exact takes.suits
    · rw [field]
      rcases spelled with kind | kind <;> rw [kind] <;> decide

/-- `template <size N> class Rack { struct { int width; } slot; void turn(); }; void Rack::turn() {}`
and `typedef enum {} Mode;`, where the parameter has a second type reference. -/
def rack : TranslationUnit where
  path := "rack.h"
  root := ⟨0⟩
  cursors := #[
    { kind := .translationUnit, children := [⟨1⟩, ⟨9⟩, ⟨10⟩] },
    { kind := .classTemplate, spelling := "Rack", usr := some "c:Rack", semanticParent := some ⟨0⟩,
      children := [⟨2⟩, ⟨5⟩, ⟨8⟩] },
    { kind := .templateNonTypeParameter, spelling := "N", usr := some "c:Rack@N",
      children := [⟨3⟩, ⟨4⟩] },
    { kind := .typeRef, spelling := "size" },
    { kind := .typeRef, spelling := "other" },
    { kind := .fieldDecl, spelling := "slot", usr := some "c:slot", semanticParent := some ⟨1⟩,
      children := [⟨6⟩] },
    { kind := .structDecl, usr := some "c:slot@S", semanticParent := some ⟨1⟩, children := [⟨7⟩] },
    { kind := .fieldDecl, spelling := "width", semanticParent := some ⟨6⟩ },
    { kind := .cxxMethod, spelling := "turn", usr := some "c:turn", semanticParent := some ⟨1⟩ },
    { kind := .cxxMethod, spelling := "turn", usr := some "c:turn", semanticParent := some ⟨1⟩ },
    { kind := .typedefDecl, spelling := "Mode", usr := some "c:Mode", semanticParent := some ⟨0⟩,
      children := [⟨11⟩] },
    { kind := .enumDecl, usr := some "c:Mode@E", semanticParent := some ⟨0⟩ }]
  types := #[]

/-- The field holds the struct that is spelled in it, the parameter its first type reference, and the
method is a member of its class and of nothing else. -/
theorem build_abides_rack :
    rack.firstFault? = none ∧ rack.OneKindPerSymbol ∧ (Session.start rack).build.model.Abides rack ∧
      (Session.start rack).build.model.membersOf ⟨5⟩ = [⟨6⟩] ∧
      (Session.start rack).build.model.membersOf ⟨2⟩ = [⟨3⟩] ∧
      (Session.start rack).build.model.membersOf ⟨1⟩ = [⟨2⟩, ⟨5⟩, ⟨6⟩, ⟨8⟩] ∧
      (Session.start rack).build.model.membersOf Model.root = [⟨1⟩, ⟨9⟩, ⟨10⟩] := by
  have valid : rack.firstFault? = none := by decide +kernel
  have uniform : rack.OneKindPerSymbol := by decide +kernel
  exact ⟨valid, uniform, build_abides valid uniform, by decide +kernel, by decide +kernel,
    by decide +kernel, by decide +kernel⟩

end Bindery
