import Bindery.Ast.View
import Bindery.Proofs.Ast.WellFormed

/-! Strict reading of a unit. Where the views of a unit take an absent entry of a table for an absent
answer, these give no result at all, so that a result says that every identifier looked up had its
entry. Each bears the name of its view. On a well-formed unit they always have a result, and it is
the answer of the view. -/

set_option autoImplicit false

namespace Bindery.Strict

open Ast (Cursor CursorId CursorTree TranslationUnit TypeDescriptor TypeId)

/-! ## Lists of look-ups -/

section
variable {α β : Type}

theorem mapM_eq_some {look : α → Option β} {value : α → β} {items : List α}
    (each : ∀ item ∈ items, look item = some (value item)) :
    items.mapM look = some (items.map value) := by
  induction items with
  | nil => rfl
  | cons item rest ih =>
    have first := each item List.mem_cons_self
    have others := ih fun other member => each other (List.mem_cons_of_mem _ member)
    simp [List.mapM_cons, first, others]

theorem filterM_eq_some {look : α → Option Bool} {keep : α → Bool} {items : List α}
    (each : ∀ item ∈ items, look item = some (keep item)) :
    items.filterM look = some (items.filter keep) := by
  have collected (kept : List α) :
      items.filterAuxM look kept = some ((items.filter keep).reverse ++ kept) := by
    induction items generalizing kept with
    | nil => rfl
    | cons item rest ih =>
      have first := each item List.mem_cons_self
      have others := ih fun other member => each other (List.mem_cons_of_mem _ member)
      cases decided : keep item <;> simp [List.filterAuxM, first, others, decided]
  simp [List.filterM, collected]

/-- A fold does not get stuck as long as no step does from a state that the steps before may leave. -/
theorem foldlM_eq_some {step : β → α → Option β} {next : β → α → β} {items : List α}
    {holds : β → Prop} (each : ∀ s, holds s → ∀ item ∈ items,
      step s item = some (next s item) ∧ holds (next s item)) (s : β) (first : holds s) :
    items.foldlM step s = some (items.foldl next s) ∧ holds (items.foldl next s) := by
  induction items generalizing s with
  | nil => exact ⟨rfl, first⟩
  | cons item rest ih =>
    obtain ⟨stepped, held⟩ := each s first item List.mem_cons_self
    rw [List.foldlM_cons, stepped]
    exact ih (fun s held other member => each s held other (List.mem_cons_of_mem _ member)) _ held

end

/-! ## Views -/

section
variable (u : TranslationUnit)

def definition (id : CursorId) : Option (Option CursorId) := do
  let c ← u.cursor? id
  return c.definition <|> if c.flags.isDefinition then some id else none

def isValidType (id : TypeId) : Option Bool := do return (← u.type? id).isValid

/-- A type as far as it is valid. -/
def validType (type : Option TypeId) : Option (Option TypeId) := type.filterM (isValidType u)

def pointee (id : TypeId) : Option (Option TypeId) := do
  let t ← u.type? id
  if t.kind.isIndirection then validType u t.pointee else return none

def pointerTarget (id : TypeId) : Option (Option TypeId) := do
  let t ← u.type? id
  if t.kind = .pointer then pointee u id else return none

def followPointers : Nat → TypeId → Option (Option TypeId)
  | 0, _ => return none
  | bound + 1, id => do
    match ← pointerTarget u id with
    | none => return some id
    | some target => followPointers bound target

def stripPointers (id : TypeId) : Option (Option TypeId) := followPointers u (u.types.size + 1) id

def canonical (id : TypeId) : Option TypeId := do return (← u.type? id).canonical.getD id

def declaration (id : TypeId) : Option (Option CursorId) := do return (← u.type? id).declaration

def treeBelow : Nat → CursorId → Option CursorTree
  | 0, id => return .node id []
  | depth + 1, id => do
    let c ← u.cursor? id
    return .node id (← c.children.mapM (treeBelow depth))

def tree : Option CursorTree := treeBelow u u.cursors.size u.root

end

/-! ## Well-formed units -/

section
variable {u : TranslationUnit}

theorem exists_cursor {id : CursorId} (inside : u.HasCursor id) : ∃ c, u.cursor? id = some c :=
  ⟨_, Array.getElem?_eq_getElem inside⟩

theorem exists_type {id : TypeId} (inside : u.HasType id) : ∃ t, u.type? id = some t :=
  ⟨_, Array.getElem?_eq_getElem inside⟩

theorem definition_eq {id : CursorId} (inside : u.HasCursor id) :
    definition u id = some (u.definition? id) := by
  obtain ⟨c, known⟩ := exists_cursor inside
  simp [definition, TranslationUnit.definition?, known]

theorem isValidType_eq {id : TypeId} (inside : u.HasType id) :
    isValidType u id = some (u.isValidType id) := by
  obtain ⟨t, known⟩ := exists_type inside
  simp [isValidType, TranslationUnit.isValidType, known]

theorem validType_eq {type : Option TypeId} (inside : ∀ id ∈ type, u.HasType id) :
    validType u type = some (type.filter u.isValidType) := by
  cases type with
  | none => rfl
  | some id => simp [validType, Option.filterM, isValidType_eq (inside id rfl), Option.filter]

theorem declaration_eq {id : TypeId} (inside : u.HasType id) :
    declaration u id = some (u.declaration? id) := by
  obtain ⟨t, known⟩ := exists_type inside
  simp [declaration, TranslationUnit.declaration?, known]

theorem canonical_eq {id : TypeId} (inside : u.HasType id) :
    canonical u id = some (u.canonical id) := by
  obtain ⟨t, known⟩ := exists_type inside
  simp [canonical, TranslationUnit.canonical, known]

variable (wellFormed : u.WellFormed)

include wellFormed

theorem hasCursor_root : u.HasCursor u.root := by
  obtain ⟨c, known, _⟩ := wellFormed.root
  exact TranslationUnit.index_lt_of_cursor? known

theorem hasCursor_of_refersTo {id other : CursorId} {c : Cursor} (known : u.cursor? id = some c)
    (refers : c.RefersTo other) : u.HasCursor other :=
  (wellFormed.cursors c (Array.mem_of_getElem? known)).1 other refers

theorem hasType_of_hasType {id : CursorId} {other : TypeId} {c : Cursor}
    (known : u.cursor? id = some c) (has : c.HasType other) : u.HasType other :=
  (wellFormed.cursors c (Array.mem_of_getElem? known)).2 other has

theorem hasType_of_refersTo {id other : TypeId} {t : TypeDescriptor} (known : u.type? id = some t)
    (refers : t.RefersTo other) : u.HasType other :=
  (wellFormed.types t (Array.mem_of_getElem? known)).1 other refers

theorem hasCursor_of_definition? {id other : CursorId} (inside : u.HasCursor id)
    (defined : u.definition? id = some other) : u.HasCursor other := by
  obtain ⟨c, known⟩ := exists_cursor inside
  simp only [TranslationUnit.definition?, known, Option.bind_eq_bind, Option.bind_some] at defined
  cases named : c.definition with
  | some _ =>
    rw [named] at defined
    exact hasCursor_of_refersTo wellFormed known (.inr (.inr (.inl (named.trans defined))))
  | none =>
    -- A cursor flagged as a definition is its own.
    rw [named] at defined
    change (if c.flags.isDefinition then some id else none) = some other at defined
    split at defined
    · exact Option.some.inj defined ▸ inside
    · cases defined

theorem hasCursor_of_declaration? {id : TypeId} {other : CursorId}
    (declared : u.declaration? id = some other) : u.HasCursor other := by
  obtain ⟨t, known, declared⟩ := Option.bind_eq_some_iff.mp declared
  exact (wellFormed.types t (Array.mem_of_getElem? known)).2 other declared

theorem hasType_canonical {id : TypeId} (inside : u.HasType id) : u.HasType (u.canonical id) := by
  obtain ⟨t, known⟩ := exists_type inside
  cases unwrapped : t.canonical with
  | none => simpa [TranslationUnit.canonical, known, unwrapped] using inside
  | some other =>
    simpa [TranslationUnit.canonical, known, unwrapped] using
      hasType_of_refersTo wellFormed known (.inr unwrapped)

theorem pointee_eq {id : TypeId} (inside : u.HasType id) :
    pointee u id = some (u.pointee? id) ∧
      ∀ other ∈ u.pointee? id, u.HasType other := by
  obtain ⟨t, known⟩ := exists_type inside
  have target (other : TypeId) (points : t.pointee = some other) : u.HasType other :=
    hasType_of_refersTo wellFormed known (.inl points)
  simp only [pointee, TranslationUnit.pointee?, known, Option.bind_eq_bind, Option.bind_some]
  split
  · refine ⟨validType_eq target, fun other points => target other ?_⟩
    exact (Option.filter_eq_some_iff.mp points).1
  · exact ⟨rfl, by simp⟩

theorem pointerTarget_eq {id : TypeId} (inside : u.HasType id) :
    pointerTarget u id = some (u.pointerTarget? id) ∧
      ∀ other ∈ u.pointerTarget? id, u.HasType other := by
  obtain ⟨t, known⟩ := exists_type inside
  simp only [pointerTarget, TranslationUnit.pointerTarget?, known, Option.bind_eq_bind,
    Option.bind_some]
  split
  · exact pointee_eq wellFormed inside
  · exact ⟨rfl, by simp⟩

theorem followPointers_eq (bound : Nat) {id : TypeId} (inside : u.HasType id) :
    followPointers u bound id = some (u.followPointers bound id) ∧
      ∀ other ∈ u.followPointers bound id, u.HasType other := by
  induction bound generalizing id with
  | zero => exact ⟨rfl, by simp [TranslationUnit.followPointers]⟩
  | succ bound ih =>
    obtain ⟨looked, further⟩ := pointerTarget_eq wellFormed inside
    simp only [followPointers, TranslationUnit.followPointers, looked, Option.bind_eq_bind,
      Option.bind_some]
    cases points : u.pointerTarget? id with
    | none => exact ⟨rfl, fun other same => Option.some.inj same ▸ inside⟩
    | some target => exact ih (further target points)

theorem treeBelow_eq (depth : Nat) {id : CursorId} (inside : u.HasCursor id) :
    treeBelow u depth id = some (u.treeBelow depth id) := by
  induction depth generalizing id with
  | zero => rfl
  | succ depth ih =>
    obtain ⟨c, known⟩ := exists_cursor inside
    have below := mapM_eq_some fun child listed =>
      ih (hasCursor_of_refersTo wellFormed known (.inr (.inr (.inr listed))))
    simp [treeBelow, TranslationUnit.treeBelow, known, below]

theorem tree_eq : tree u = some u.tree := treeBelow_eq wellFormed _ (hasCursor_root wellFormed)

end

end Bindery.Strict
