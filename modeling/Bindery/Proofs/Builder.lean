import Bindery.Ast.Builder
import Bindery.Proofs.Ast.WellFormed
import Bindery.Proofs.Model.Ending

/-! What a builder makes can be loaded. As long as every step refers only to what earlier steps have
returned, references stay in their tables, child lists and pointees lead from earlier positions to
later ones and back, and what an alias stands for stands for nothing else. -/

set_option autoImplicit false

namespace Bindery.Ast

def CursorEdit.cursorIds : CursorEdit → List CursorId
  | .semanticParent parent => [parent]
  | .definition target => [target]
  | _ => []

def CursorEdit.typeIds : CursorEdit → List TypeId
  | .type target | .resultType target => [target]
  | _ => []

namespace TranslationUnit

def InList (u : TranslationUnit) (entry : Entry) : Prop :=
  (u.childrenOf entry.parent)[entry.index]? = some entry.child

/-- What every step of a builder keeps. -/
structure Sound (u : TranslationUnit) : Prop where
  rooted : u.root = ⟨0⟩ ∧ ∃ c, u.cursor? ⟨0⟩ = some c ∧ c.kind = .translationUnit
  cursors : ∀ (index : Nat) c, u.cursors[index]? = some c →
    (∀ id, c.RefersTo id → u.HasCursor id) ∧ ∀ id, c.HasType id → u.HasType id
  declared : ∀ (index : Nat) t, u.types[index]? = some t →
    ∀ id, t.declaration = some id → u.HasCursor id
  /-- A type points only at types before it. -/
  pointees : ∀ (index : Nat) t, u.types[index]? = some t →
    ∀ target, t.pointee = some target → target.index < index
  canonicals : ∀ (index : Nat) t, u.types[index]? = some t →
    ∀ target, t.canonical = some target → ∃ t', u.type? target = some t' ∧ t'.canonical = none
  /-- A cursor lists only cursors behind it. -/
  descends : ∀ parent child, child ∈ u.childrenOf parent → parent.index < child.index
  listed : ∀ id, u.HasCursor id → id ≠ u.root → ∃! entry, u.InList entry ∧ entry.child = id

end TranslationUnit

namespace UnitBuilder

def Step.cursorIds : Step → List CursorId
  | .cursor parent _ _ edits => parent :: edits.flatMap CursorEdit.cursorIds
  | .edit id edits => id :: edits.flatMap CursorEdit.cursorIds
  | .declaredType declaration | .aliasType declaration _ => [declaration]
  | .type _ _ | .indirection _ _ | .message _ | .inclusion _ => []

def Step.typeIds : Step → List TypeId
  | .cursor _ _ _ edits | .edit _ edits => edits.flatMap CursorEdit.typeIds
  | .aliasType _ target => [target]
  | .indirection _ pointee => [pointee]
  | .type _ _ | .declaredType _ | .message _ | .inclusion _ => []

/-- A step refers only to what has been made. -/
def Step.Knows (made : List Made) (step : Step) : Prop :=
  (∀ id ∈ step.cursorIds, .cursor id ∈ made) ∧ ∀ id ∈ step.typeIds, .type id ∈ made

instance (made : List Made) (step : Step) : Decidable (step.Knows made) :=
  inferInstanceAs (Decidable (_ ∧ _))

def takeAll (b : UnitBuilder) (steps : List Step) : UnitBuilder :=
  steps.foldl (fun b step => (b.take step).1) b

/-- Every step refers only to what has been made before it. -/
def Follows (b : UnitBuilder) (made : List Made) : List Step → Prop
  | [] => True
  | step :: rest => step.Knows made ∧ Follows (b.take step).1 ((b.take step).2 :: made) rest

instance decidableFollows : (b : UnitBuilder) → (made : List Made) → (steps : List Step) →
    Decidable (b.Follows made steps)
  | _, _, [] => inferInstanceAs (Decidable True)
  | b, made, step :: rest =>
    have := decidableFollows (b.take step).1 ((b.take step).2 :: made) rest
    inferInstanceAs (Decidable (_ ∧ _))

/-- What has been made is in the tables. -/
structure Holds (b : UnitBuilder) (made : List Made) : Prop where
  cursors : ∀ id, .cursor id ∈ made → b.unit.HasCursor id
  types : ∀ id, .type id ∈ made → b.unit.HasType id

end UnitBuilder

open TranslationUnit (Sound)
open UnitBuilder (Made Step)

variable {u : TranslationUnit} {b : UnitBuilder} {c : Cursor} {parent : CursorId}
  {kind : CursorKind} {spelling : String}

/-! ## Positions -/

theorem index_cursorIdOfIndex {index : Nat} (small : index < UInt32.size) :
    (CursorId.ofIndex index).index = index :=
  Nat.mod_eq_of_lt small

theorem index_typeIdOfIndex {index : Nat} (small : index < UInt32.size) :
    (TypeId.ofIndex index).index = index :=
  Nat.mod_eq_of_lt small

/-! ## Edits -/

theorem children_edited (c : Cursor) (edit : CursorEdit) : (c.edited edit).children = c.children := by
  cases edit <;> rfl

theorem kind_edited (c : Cursor) (edit : CursorEdit) : (c.edited edit).kind = c.kind := by
  cases edit <;> rfl

theorem refersTo_edited {edit : CursorEdit} {id : CursorId} (refers : (c.edited edit).RefersTo id) :
    c.RefersTo id ∨ id ∈ edit.cursorIds := by
  cases edit <;> simp_all [Cursor.edited, Cursor.RefersTo, CursorEdit.cursorIds] <;> tauto

theorem hasType_edited {edit : CursorEdit} {id : TypeId} (has : (c.edited edit).HasType id) :
    c.HasType id ∨ id ∈ edit.typeIds := by
  cases edit <;> simp_all [Cursor.edited, Cursor.HasType, CursorEdit.typeIds] <;> tauto

-- What is true of one edit is true of several, one after the other.
theorem edited_all (c : Cursor) (edits : List CursorEdit) :
    (edits.foldl Cursor.edited c).children = c.children ∧
      (edits.foldl Cursor.edited c).kind = c.kind ∧
      (∀ id, (edits.foldl Cursor.edited c).RefersTo id →
        c.RefersTo id ∨ id ∈ edits.flatMap CursorEdit.cursorIds) ∧
      ∀ id, (edits.foldl Cursor.edited c).HasType id →
        c.HasType id ∨ id ∈ edits.flatMap CursorEdit.typeIds := by
  induction edits generalizing c with
  | nil => exact ⟨rfl, rfl, fun _ => .inl, fun _ => .inl⟩
  | cons edit rest ih =>
    obtain ⟨children, kind, refers, has⟩ := ih (c.edited edit)
    refine ⟨children.trans (children_edited c edit), kind.trans (kind_edited c edit), ?_, ?_⟩
    · intro id further
      rw [List.flatMap_cons, List.mem_append]
      rcases refers id further with now | later
      · exact (refersTo_edited now).imp_right .inl
      · exact .inr (.inr later)
    · intro id further
      rw [List.flatMap_cons, List.mem_append]
      rcases has id further with now | later
      · exact (hasType_edited now).imp_right .inl
      · exact .inr (.inr later)

theorem getElem?_edit (b : UnitBuilder) (id : CursorId) (edits : List CursorEdit) (index : Nat) :
    (b.edit id edits).unit.cursors[index]? = (b.unit.cursors[index]?).map fun c =>
      if id.index = index then edits.foldl Cursor.edited c else c := by
  unfold UnitBuilder.edit
  rw [Array.getElem?_modify]
  split <;> simp

theorem childrenOf_edit (b : UnitBuilder) (id parent : CursorId) (edits : List CursorEdit) :
    (b.edit id edits).unit.childrenOf parent = b.unit.childrenOf parent := by
  unfold TranslationUnit.childrenOf TranslationUnit.cursor?
  rw [getElem?_edit, Option.map_map]
  congr 2
  funext c
  dsimp only [Function.comp_apply]
  split
  · exact (edited_all c edits).1
  · rfl

theorem TranslationUnit.Sound.edit (sound : Sound b.unit) {id : CursorId} {edits : List CursorEdit}
    (cursors : ∀ other ∈ edits.flatMap CursorEdit.cursorIds, b.unit.HasCursor other)
    (types : ∀ other ∈ edits.flatMap CursorEdit.typeIds, b.unit.HasType other) :
    Sound (b.edit id edits).unit := by
  have size : (b.edit id edits).unit.cursors.size = b.unit.cursors.size := Array.size_modify
  have hasCursor (other : CursorId) :
      (b.edit id edits).unit.HasCursor other ↔ b.unit.HasCursor other := by
    simp [TranslationUnit.HasCursor, size]
  constructor
  · obtain ⟨atZero, c, known, isUnit⟩ := sound.rooted
    refine ⟨atZero, _, (getElem?_edit b id edits 0).trans (congrArg _ known), ?_⟩
    split
    · exact ((edited_all c edits).2.1).trans isUnit
    · exact isUnit
  · intro index c known
    rw [getElem?_edit, Option.map_eq_some_iff] at known
    obtain ⟨old, known, rfl⟩ := known
    obtain ⟨refers, has⟩ := sound.cursors index old known
    simp only [hasCursor]
    split
    · obtain ⟨_, _, refers', has'⟩ := edited_all old edits
      constructor
      · intro other further
        exact (refers' other further).elim (refers other) (cursors other)
      · intro other further
        exact (has' other further).elim (has other) (types other)
    · exact ⟨refers, has⟩
  · intro index t known target declared
    exact (hasCursor target).mpr (sound.declared index t known target declared)
  · exact sound.pointees
  · exact sound.canonicals
  · simpa only [childrenOf_edit] using sound.descends
  · intro target inside apart
    simpa only [TranslationUnit.InList, childrenOf_edit] using
      sound.listed target ((hasCursor target).mp inside) apart

/-! ## Another cursor -/

theorem TranslationUnit.Sound.hasCursor_of_inList (sound : Sound u) {entry : Entry}
    (listed : u.InList entry) : u.HasCursor entry.child := by
  unfold TranslationUnit.InList TranslationUnit.childrenOf at listed
  cases known : u.cursor? entry.parent with
  | none => simp [known] at listed
  | some c =>
    simp only [known, Option.map_some, Option.getD_some] at listed
    exact (sound.cursors _ c known).1 _ (.inr (.inr (.inr (List.mem_of_getElem? listed))))

theorem size_addCursor (b : UnitBuilder) (parent : CursorId) (kind : CursorKind)
    (spelling : String) :
    (b.addCursor parent kind spelling).1.unit.cursors.size = b.unit.cursors.size + 1 := by
  simp [UnitBuilder.addCursor]

theorem exists_addCursor (known : b.unit.HasCursor parent) (kind : CursorKind)
    (spelling : String) :
    ∃ added : Cursor, added.children = [] ∧ (∀ id, added.RefersTo id → id = parent) ∧
      (∀ id, ¬ added.HasType id) ∧
      (b.addCursor parent kind spelling).1.unit.cursors =
        (b.unit.cursors.modify parent.index fun c =>
          { c with children := c.children ++ [.ofIndex b.unit.cursors.size] }).push added := by
  refine ⟨{ kind, spelling, semanticParent := some parent, lexicalParent := some parent
            location := { file := some b.unit.path, line := b.nextLine, column := 1 }
            access := if UnitBuilder.hasMembers (b.kindAt parent) then .publicMember else .none },
    rfl, ?_, ?_, ?_⟩
  · simp [Cursor.RefersTo, eq_comm]
  · simp [Cursor.HasType]
  · unfold UnitBuilder.addCursor
    apply Array.ext_getElem?
    intro index
    have apart : parent.index ≠ b.unit.cursors.size := Nat.ne_of_lt known
    rw [Array.getElem?_modify, Array.getElem?_push, Array.getElem?_push, Array.getElem?_modify,
      Array.size_modify]
    by_cases last : index = b.unit.cursors.size
    · simp [last, apart]
    · simp [last]

theorem childrenOf_addCursor (known : b.unit.HasCursor parent) (id : CursorId) :
    (b.addCursor parent kind spelling).1.unit.childrenOf id =
      b.unit.childrenOf id ++ if id = parent then [.ofIndex b.unit.cursors.size] else [] := by
  obtain ⟨added, childless, _, _, cursors⟩ := exists_addCursor known kind spelling
  have same : parent.index = id.index ↔ id = parent := by
    rw [TranslationUnit.index_injective.eq_iff, eq_comm]
  unfold TranslationUnit.childrenOf TranslationUnit.cursor?
  rw [cursors, Array.getElem?_push, Array.getElem?_modify, Array.size_modify]
  by_cases last : id.index = b.unit.cursors.size
  · have apart : id ≠ parent := by
      rintro rfl
      exact Nat.ne_of_lt known last
    simp [last, childless, apart]
  · rw [if_neg last]
    simp only [same]
    by_cases here : id = parent
    · subst here
      simp [Array.getElem?_eq_getElem known]
    · simp [here]

theorem inList_addCursor (known : b.unit.HasCursor parent) (kind : CursorKind)
    (spelling : String) (entry : Entry) :
    (b.addCursor parent kind spelling).1.unit.InList entry ↔
      b.unit.InList entry ∨ entry =
        ⟨parent, (b.unit.childrenOf parent).length, .ofIndex b.unit.cursors.size⟩ := by
  obtain ⟨listing, index, child⟩ := entry
  unfold TranslationUnit.InList
  rw [childrenOf_addCursor known, Entry.mk.injEq]
  by_cases here : listing = parent
  · subst here
    rw [if_pos rfl]
    rcases Nat.lt_trichotomy index (b.unit.childrenOf listing).length with inside | rfl | outside
    · simp [List.getElem?_append_left inside, Nat.ne_of_lt inside]
    · simp [eq_comm]
    · have behind : index - (b.unit.childrenOf listing).length ≠ 0 := by omega
      simp [List.getElem?_append, behind, Nat.not_lt_of_lt outside, Nat.ne_of_gt outside]
  · simp [here]

-- A cursor of the table is the one that was added, or it was there and may list one more.
theorem kept_or_added (known : b.unit.HasCursor parent) {index : Nat}
    (found : (b.addCursor parent kind spelling).1.unit.cursors[index]? = some c) :
    (∃ old, b.unit.cursors[index]? = some old ∧ c.kind = old.kind ∧
      (∀ id, c.RefersTo id → old.RefersTo id ∨ id = .ofIndex b.unit.cursors.size) ∧
      ∀ id, c.HasType id → old.HasType id) ∨
    index = b.unit.cursors.size ∧ (∀ id, c.RefersTo id → id = parent) ∧ ∀ id, ¬ c.HasType id := by
  obtain ⟨added, _, refers, has, cursors⟩ := exists_addCursor known kind spelling
  rw [cursors, Array.getElem?_push, Array.getElem?_modify, Array.size_modify] at found
  split at found
  · next last =>
    cases found
    exact .inr ⟨last, refers, has⟩
  · apply Or.inl
    split at found
    · obtain ⟨old, stood, rfl⟩ := Option.map_eq_some_iff.mp found
      refine ⟨old, stood, rfl, ?_, fun id has => has⟩
      intro id refers
      simp only [Cursor.RefersTo, List.mem_append, List.mem_singleton] at refers ⊢
      tauto
    · exact ⟨c, found, rfl, fun id => .inl, fun id has => has⟩

theorem hasCursor_addCursor (few : b.unit.cursors.size < UInt32.size) (id : CursorId) :
    (b.addCursor parent kind spelling).1.unit.HasCursor id ↔
      b.unit.HasCursor id ∨ id = .ofIndex b.unit.cursors.size := by
  rw [← TranslationUnit.index_injective.eq_iff, index_cursorIdOfIndex few]
  unfold TranslationUnit.HasCursor
  rw [size_addCursor]
  exact Nat.lt_succ_iff_lt_or_eq

theorem not_hasCursor_ofIndex (few : b.unit.cursors.size < UInt32.size) :
    ¬ b.unit.HasCursor (.ofIndex b.unit.cursors.size) := by
  unfold TranslationUnit.HasCursor
  rw [index_cursorIdOfIndex few]
  exact Nat.lt_irrefl _

-- The cursors that were there are listed where they were, and the new one by its parent.
theorem listed_addCursor (sound : Sound b.unit) (known : b.unit.HasCursor parent)
    (few : b.unit.cursors.size < UInt32.size) {id : CursorId} (apart : id ≠ b.unit.root)
    (inside : (b.addCursor parent kind spelling).1.unit.HasCursor id) :
    ∃! entry, (b.addCursor parent kind spelling).1.unit.InList entry ∧ entry.child = id := by
  have inList := inList_addCursor known kind spelling
  rcases (hasCursor_addCursor few id).mp inside with old | rfl
  · obtain ⟨entry, ⟨listed, same⟩, unique⟩ := sound.listed id old apart
    refine ⟨entry, ⟨(inList entry).mpr (.inl listed), same⟩, ?_⟩
    rintro other ⟨listed, rfl⟩
    rcases (inList other).mp listed with listed | rfl
    · exact unique other ⟨listed, rfl⟩
    · exact absurd old (not_hasCursor_ofIndex few)
  · refine ⟨_, ⟨(inList _).mpr (.inr rfl), rfl⟩, ?_⟩
    rintro other ⟨listed, same⟩
    rcases (inList other).mp listed with listed | here
    · have old := sound.hasCursor_of_inList listed
      rw [same] at old
      exact absurd old (not_hasCursor_ofIndex few)
    · exact here

theorem TranslationUnit.Sound.addCursor (sound : Sound b.unit) (known : b.unit.HasCursor parent)
    (few : b.unit.cursors.size < UInt32.size) :
    Sound (b.addCursor parent kind spelling).1.unit := by
  have grown {id : CursorId} (inside : b.unit.HasCursor id) :
      (b.addCursor parent kind spelling).1.unit.HasCursor id :=
    (hasCursor_addCursor few id).mpr (.inl inside)
  constructor
  · obtain ⟨atZero, c, found, isUnit⟩ := sound.rooted
    have first : b.unit.HasCursor ⟨0⟩ := (Array.getElem?_eq_some_iff.mp found).1
    refine ⟨atZero, _, Array.getElem?_eq_getElem (grown first), ?_⟩
    rcases kept_or_added known (Array.getElem?_eq_getElem (grown first)) with
      ⟨old, found', same, _⟩ | ⟨behind, _⟩
    · cases found.symm.trans found'
      exact same.trans isUnit
    · exact absurd behind (Nat.ne_of_lt first)
  · intro index c found
    rcases kept_or_added known found with ⟨old, found, _, refers', has'⟩ | ⟨_, refers', has'⟩
    · obtain ⟨refers, has⟩ := sound.cursors index old found
      constructor
      · intro id further
        exact (hasCursor_addCursor few id).mpr ((refers' id further).imp_left (refers id))
      · exact fun id further => has id (has' id further)
    · constructor
      · intro id further
        rw [refers' id further]
        exact grown known
      · exact fun id further => absurd further (has' id)
  · intro index t found target declared
    exact grown (sound.declared index t found target declared)
  · exact sound.pointees
  · exact sound.canonicals
  · intro listing child member
    rw [childrenOf_addCursor known, List.mem_append] at member
    rcases member with old | new
    · exact sound.descends listing child old
    · split at new
      · next here =>
        rw [List.mem_singleton.mp new, index_cursorIdOfIndex few, here]
        exact known
      · cases new
  · exact fun id inside apart => listed_addCursor sound known few apart inside

/-! ## Another type -/

theorem TranslationUnit.Sound.addType (sound : Sound b.unit) {t : TypeDescriptor}
    (declared : ∀ id, t.declaration = some id → b.unit.HasCursor id)
    (pointee : ∀ target, t.pointee = some target → b.unit.HasType target)
    (canonical : ∀ target, t.canonical = some target →
      ∃ t', b.unit.type? target = some t' ∧ t'.canonical = none) :
    Sound (b.addType t).1.unit := by
  have types (index : Nat) : (b.addType t).1.unit.types[index]? =
      if index = b.unit.types.size then some t else b.unit.types[index]? := Array.getElem?_push
  constructor
  · exact sound.rooted
  · intro index c found
    obtain ⟨refers, has⟩ := sound.cursors index c found
    refine ⟨refers, fun id further => ?_⟩
    exact (Nat.lt_succ_of_lt (has id further)).trans_eq (Array.size_push _).symm
  · intro index t' found
    rw [types] at found
    split at found
    · cases found
      exact declared
    · exact sound.declared index t' found
  · intro index t' found
    rw [types] at found
    split at found
    · next last =>
      cases found
      exact last ▸ pointee
    · exact sound.pointees index t' found
  · intro index t' found target stands
    have old : ∃ t', b.unit.type? target = some t' ∧ t'.canonical = none := by
      rw [types] at found
      split at found
      · cases found
        exact canonical target stands
      · exact sound.canonicals index t' found target stands
    obtain ⟨t'', known, final⟩ := old
    have inside : target.index < b.unit.types.size := (Array.getElem?_eq_some_iff.mp known).1
    refine ⟨t'', ?_, final⟩
    unfold TranslationUnit.type?
    rw [types, if_neg (Nat.ne_of_lt inside)]
    exact known
  · exact sound.descends
  · exact sound.listed

/-- What stands for a type that is there has no canonical form but itself. -/
theorem TranslationUnit.Sound.canonical_final (sound : Sound u) {target : TypeId}
    (known : u.HasType target) :
    ∃ t, u.type? (((u.type? target).bind (·.canonical)).getD target) = some t ∧
      t.canonical = none := by
  have stands : u.type? target = some u.types[target.index] := Array.getElem?_eq_getElem known
  cases final : u.types[target.index].canonical with
  | none => exact ⟨_, by simp [stands, final], final⟩
  | some form =>
    obtain ⟨t, found, last⟩ := sound.canonicals target.index _ stands form final
    exact ⟨t, by simpa [stands, final] using found, last⟩

/-! ## Steps -/

theorem sound_new (path : String) : Sound (UnitBuilder.new path).unit := by
  have only (id : CursorId) : (UnitBuilder.new path).unit.HasCursor id ↔ id = ⟨0⟩ := by
    rw [← TranslationUnit.index_injective.eq_iff]
    exact Nat.lt_one_iff
  have childless (id : CursorId) : (UnitBuilder.new path).unit.childrenOf id = [] := by
    unfold TranslationUnit.childrenOf TranslationUnit.cursor? UnitBuilder.new
    rcases Nat.eq_zero_or_pos id.index with first | behind
    · simp [first]
    · rw [Array.getElem?_eq_none behind]
      rfl
  constructor
  · exact ⟨rfl, _, rfl, rfl⟩
  · intro index c found
    have same : c = { kind := .translationUnit, spelling := path } := by
      simpa [UnitBuilder.new] using Array.mem_of_getElem? found
    simp [same, Cursor.RefersTo, Cursor.HasType]
  · intro index t found
    cases found
  · intro index t found
    cases found
  · intro index t found
    cases found
  · intro listing child member
    rw [childless] at member
    cases member
  · exact fun id inside apart => absurd ((only id).mp inside) apart

theorem size_take (b : UnitBuilder) (step : Step) :
    b.unit.cursors.size ≤ (b.take step).1.unit.cursors.size ∧
      b.unit.types.size ≤ (b.take step).1.unit.types.size := by
  cases step <;> simp [UnitBuilder.take, UnitBuilder.addCursor, UnitBuilder.edit,
    UnitBuilder.addDeclaredType, UnitBuilder.addAliasType, UnitBuilder.addIndirection,
    UnitBuilder.addType]

theorem size_takeAll (b : UnitBuilder) (steps : List Step) :
    b.unit.cursors.size ≤ (b.takeAll steps).unit.cursors.size ∧
      b.unit.types.size ≤ (b.takeAll steps).unit.types.size := by
  induction steps generalizing b with
  | nil => exact ⟨Nat.le_refl _, Nat.le_refl _⟩
  | cons step rest ih =>
    have now := size_take b step
    have later := ih (b.take step).1
    exact ⟨Nat.le_trans now.1 later.1, Nat.le_trans now.2 later.2⟩

/-- A step that refers only to what has been made keeps the tables in order. -/
theorem sound_take (sound : Sound b.unit) {made : List Made} (holds : b.Holds made) {step : Step}
    (knows : step.Knows made) (few : b.unit.cursors.size < UInt32.size) :
    Sound (b.take step).1.unit := by
  have cursors (id : CursorId) (member : id ∈ step.cursorIds) : b.unit.HasCursor id :=
    holds.cursors id (knows.1 id member)
  have types (id : TypeId) (member : id ∈ step.typeIds) : b.unit.HasType id :=
    holds.types id (knows.2 id member)
  cases step with
  | cursor parent kind spelling edits =>
    apply (sound.addCursor (cursors parent List.mem_cons_self) few).edit
    · intro other member
      have old := cursors other (List.mem_cons_of_mem _ member)
      exact (Nat.lt_succ_of_lt old).trans_eq (size_addCursor b parent kind spelling).symm
    · exact types
  | edit id edits =>
    apply sound.edit
    · exact fun other member => cursors other (List.mem_cons_of_mem _ member)
    · exact types
  | type kind spelling => exact sound.addType nofun nofun nofun
  | declaredType declaration =>
    refine sound.addType ?_ nofun nofun
    rintro id ⟨⟩
    exact cursors declaration List.mem_cons_self
  | aliasType declaration target =>
    refine sound.addType ?_ nofun ?_
    · rintro id ⟨⟩
      exact cursors declaration List.mem_cons_self
    · rintro id ⟨⟩
      exact sound.canonical_final (types target List.mem_cons_self)
  | indirection indirection pointee =>
    refine sound.addType nofun ?_ nofun
    rintro id ⟨⟩
    exact types pointee List.mem_cons_self
  | message message => exact { sound with }
  | inclusion inclusion => exact { sound with }

theorem hasType_addType (b : UnitBuilder) (t : TypeDescriptor)
    (few : b.unit.types.size < UInt32.size) :
    (b.addType t).1.unit.HasType (b.addType t).2 := by
  unfold TranslationUnit.HasType UnitBuilder.addType
  rw [index_typeIdOfIndex few, Array.size_push]
  exact Nat.lt_succ_self _

/-- What a step returns is in the tables, and so is what was there. -/
theorem holds_take {made : List Made} (holds : b.Holds made) {step : Step}
    (knows : step.Knows made) (fewCursors : b.unit.cursors.size < UInt32.size)
    (fewTypes : b.unit.types.size < UInt32.size) :
    (b.take step).1.Holds ((b.take step).2 :: made) := by
  have grown := size_take b step
  constructor
  · intro id member
    rcases List.mem_cons.mp member with new | old
    · cases step with
      | cursor parent kind spelling edits =>
        cases new
        unfold TranslationUnit.HasCursor UnitBuilder.take UnitBuilder.edit
        rw [Array.size_modify, size_addCursor]
        exact (index_cursorIdOfIndex fewCursors).trans_lt (Nat.lt_succ_self _)
      | edit other edits =>
        cases new
        exact Nat.lt_of_lt_of_le (holds.cursors id (knows.1 id List.mem_cons_self)) grown.1
      | _ => cases new
    · exact Nat.lt_of_lt_of_le (holds.cursors id old) grown.1
  · intro id member
    rcases List.mem_cons.mp member with new | old
    · cases step with
      | cursor | edit | message | inclusion => cases new
      | _ =>
        cases new
        exact hasType_addType b _ fewTypes
    · exact Nat.lt_of_lt_of_le (holds.types id old) grown.2

theorem sound_takeAll (sound : Sound b.unit) {made : List Made} (holds : b.Holds made)
    {steps : List Step} (follows : b.Follows made steps)
    (fewCursors : (b.takeAll steps).unit.cursors.size < UInt32.size)
    (fewTypes : (b.takeAll steps).unit.types.size < UInt32.size) :
    Sound (b.takeAll steps).unit := by
  induction steps generalizing b made with
  | nil => exact sound
  | cons step rest ih =>
    obtain ⟨knows, follows⟩ := follows
    have now := size_take b step
    have later := size_takeAll (b.take step).1 rest
    change (((b.take step).1).takeAll rest).unit.cursors.size < _ at fewCursors
    change (((b.take step).1).takeAll rest).unit.types.size < _ at fewTypes
    apply ih _ _ follows fewCursors fewTypes
    · exact sound_take sound holds knows (by omega)
    · exact holds_take holds knows (by omega) (by omega)

/-! ## Loading what was made -/

namespace TranslationUnit

theorem Sound.hasCursor_of_mem (sound : Sound u) {parent child : CursorId}
    (member : child ∈ u.childrenOf parent) : u.HasCursor child := by
  obtain ⟨index, stands⟩ := List.mem_iff_getElem?.mp member
  exact sound.hasCursor_of_inList (show u.InList ⟨parent, index, child⟩ from stands)

theorem Sound.root_unlisted (sound : Sound u) (parent : CursorId) : u.root ∉ u.childrenOf parent := by
  intro member
  have behind := sound.descends parent u.root member
  rw [sound.rooted.1] at behind
  exact absurd behind (Nat.not_lt_zero _)

/-- Going from a cursor to the one that lists it ends at the root. -/
theorem Sound.reachable (sound : Sound u) {id : CursorId} (known : u.HasCursor id) :
    u.Reachable id := by
  induction distance : id.index using Nat.strong_induction_on generalizing id with
  | _ index ih =>
    by_cases top : id = u.root
    · exact top ▸ .refl
    · obtain ⟨entry, ⟨listed, same⟩, _⟩ := sound.listed id known top
      have member : id ∈ u.childrenOf entry.parent := same ▸ List.mem_of_getElem? listed
      have above := sound.descends entry.parent id member
      refine (ih entry.parent.index (by omega) ?_ rfl).tail member
      exact Nat.lt_trans above known

theorem Sound.wellFormed (sound : Sound u) : u.WellFormed := by
  constructor
  · obtain ⟨atZero, c, known, isUnit⟩ := sound.rooted
    exact ⟨c, atZero ▸ known, isUnit⟩
  · intro c member
    obtain ⟨index, found⟩ := Array.mem_iff_getElem?.mp member
    exact sound.cursors index c found
  · intro t member
    obtain ⟨index, found⟩ := Array.mem_iff_getElem?.mp member
    have inside : index < u.types.size := (Array.getElem?_eq_some_iff.mp found).1
    refine ⟨?_, sound.declared index t found⟩
    rintro target (points | stands)
    · exact Nat.lt_trans (sound.pointees index t found target points) inside
    · obtain ⟨t', known, _⟩ := sound.canonicals index t found target stands
      exact (Array.getElem?_eq_some_iff.mp known).1
  · exact fun id _ => sound.root_unlisted id
  · intro id reachable apart
    have known : u.HasCursor id := by
      cases reachable with
      | refl => exact absurd rfl apart
      | tail _ member => exact sound.hasCursor_of_mem member
    obtain ⟨entry, ⟨listed, same⟩, unique⟩ := sound.listed id known apart
    refine ⟨entry, ⟨⟨?_, listed⟩, same⟩, fun other both => unique other ⟨both.1.2, both.2⟩⟩
    have member : id ∈ u.childrenOf entry.parent := same ▸ List.mem_of_getElem? listed
    exact sound.reachable (Nat.lt_trans (sound.descends _ _ member) known)

theorem Sound.firstFault? (sound : Sound u) : u.firstFault? = none := by
  cases found : u.firstFault? with
  | none => rfl
  | some fault => exact absurd (exhibits_of_firstFault? found) (sound.wellFormed.not_exhibits fault)

theorem Sound.stripPointers? (sound : Sound u) (id : TypeId) : u.stripPointers? id ≠ none := by
  apply AcyclicPointees.stripPointers?
  apply acyclicPointees_of_lt
  rintro ⟨t, index⟩ member target points
  rw [List.mem_zipIdx_iff_getElem?, Array.getElem?_toList] at member
  exact sound.pointees index t member target points

theorem Sound.canonical_canonical (sound : Sound u) (id : TypeId) :
    u.canonical (u.canonical id) = u.canonical id := by
  by_cases known : u.HasType id
  · obtain ⟨t, found, final⟩ := sound.canonical_final known
    change u.type? (u.canonical id) = some t at found
    rw [canonical, found]
    simp [final]
  · have missing : u.type? id = none := Array.getElem?_eq_none (Nat.le_of_not_lt known)
    simp [canonical, missing]

end TranslationUnit

/-- As long as each step refers only to what earlier steps have returned, and 32 bits number the
cursors and the types, the unit that comes out passes the check. All cursors but the root stand in
one child list, at one place; types point only at types before them, so that taking pointers away
ends; and the canonical form of a type is its own canonical form. -/
theorem takeAll_loadable (path : String) (steps : List Step)
    (follows : (UnitBuilder.new path).Follows [.cursor (UnitBuilder.new path).root] steps)
    (fewCursors : ((UnitBuilder.new path).takeAll steps).unit.cursors.size < UInt32.size - 1)
    (fewTypes : ((UnitBuilder.new path).takeAll steps).unit.types.size < UInt32.size - 1) :
    let u := ((UnitBuilder.new path).takeAll steps).unit
    u.firstFault? = none ∧ (∀ parent, u.root ∉ u.childrenOf parent) ∧
      (∀ id, u.HasCursor id → id ≠ u.root → ∃! entry, u.InList entry ∧ entry.child = id) ∧
      (∀ id t target, u.type? id = some t → t.pointee = some target → target.index < id.index) ∧
      (∀ id, u.stripPointers? id ≠ none) ∧
      ∀ id, u.canonical (u.canonical id) = u.canonical id := by
  intro u
  have holds : (UnitBuilder.new path).Holds [.cursor (UnitBuilder.new path).root] := by
    constructor
    · intro id member
      cases List.mem_singleton.mp member
      exact Nat.zero_lt_one
    · intro id member
      cases List.mem_singleton.mp member
  have sound : Sound u := sound_takeAll (sound_new path) holds follows (by omega) (by omega)
  refine ⟨sound.firstFault?, sound.root_unlisted, sound.listed, ?_, sound.stripPointers?,
    sound.canonical_canonical⟩
  intro id t target found points
  exact sound.pointees id.index t found target points

/-- A class, an alias of it and an alias of that alias, with a reference to a pointer for the class's
own field. The namespace is opened again and named the definition of what was made after it. -/
def quay : List Step := [
  .cursor ⟨0⟩ .namespaceDecl "port" [],
  .cursor ⟨1⟩ .classDecl "Ship" [.usr "c:Ship", .definitionOfItself],
  .declaredType ⟨2⟩,
  .cursor ⟨1⟩ .typedefDecl "Vessel" [.type ⟨0⟩],
  .aliasType ⟨3⟩ ⟨0⟩,
  .cursor ⟨1⟩ .typeAliasDecl "Craft" [.type ⟨1⟩, .noSemanticParent],
  .aliasType ⟨4⟩ ⟨1⟩,
  .indirection .pointer ⟨2⟩,
  .indirection .lvalueReference ⟨3⟩,
  .cursor ⟨2⟩ .fieldDecl "consort" [.type ⟨4⟩, .semanticParent ⟨1⟩],
  .edit ⟨1⟩ [.definition ⟨4⟩],
  .inclusion { path := "port.hpp", depth := 1 }]

theorem takeAll_loadable_quay :
    let u := ((UnitBuilder.new "quay.hpp").takeAll quay).unit
    u.cursors.size = 6 ∧ u.types.size = 5 ∧ u.firstFault? = none ∧ u.stripPointers? ⟨3⟩ ≠ none ∧
      u.canonical ⟨2⟩ = ⟨0⟩ ∧ u.canonical (u.canonical ⟨2⟩) = u.canonical ⟨2⟩ := by
  intro u
  have cursors : u.cursors.size = 6 := by decide +kernel
  have types : u.types.size = 5 := by decide +kernel
  obtain ⟨faultless, _, _, _, stripped, canonical⟩ :=
    takeAll_loadable "quay.hpp" quay (by decide +kernel) (cursors.trans_lt (by decide))
      (types.trans_lt (by decide))
  exact ⟨cursors, types, faultless, stripped ⟨3⟩, by decide +kernel, canonical ⟨2⟩⟩

end Bindery.Ast
