/-! Sets that remember insertion order. The order of the elements is part of every answer built
from such a set, and inserting an element again changes nothing. -/

set_option autoImplicit false

namespace Bindery

/-- A list without repeats, read as a set in insertion order. -/
structure OrderedSet (α : Type) where
  toList : List α
  nodup : toList.Nodup

namespace OrderedSet

variable {α : Type}

@[ext] theorem ext {s t : OrderedSet α} (same : s.toList = t.toList) : s = t := by
  cases s; cases t; cases same; rfl

def empty : OrderedSet α := ⟨[], List.nodup_nil⟩

instance : EmptyCollection (OrderedSet α) := ⟨empty⟩

instance : Inhabited (OrderedSet α) := ⟨∅⟩

instance : Membership α (OrderedSet α) := ⟨fun s a => a ∈ s.toList⟩

theorem mem_def {s : OrderedSet α} {a : α} : a ∈ s ↔ a ∈ s.toList := Iff.rfl

@[simp] theorem toList_empty : (∅ : OrderedSet α).toList = [] := rfl

@[simp] theorem not_mem_empty (a : α) : a ∉ (∅ : OrderedSet α) := List.not_mem_nil

def size (s : OrderedSet α) : Nat := s.toList.length

def isEmpty (s : OrderedSet α) : Bool := s.toList.isEmpty

theorem isEmpty_iff {s : OrderedSet α} : s.isEmpty ↔ s = ∅ := by
  rw [isEmpty, List.isEmpty_iff]
  exact ⟨fun none => ext none, fun empty => empty ▸ rfl⟩

def filter (s : OrderedSet α) (keep : α → Bool) : OrderedSet α :=
  ⟨s.toList.filter keep, s.nodup.filter keep⟩

/-- The last element and the set before it. -/
def pop? (s : OrderedSet α) : Option (α × OrderedSet α) :=
  s.toList.getLast?.map fun last =>
    (last, ⟨s.toList.dropLast, s.nodup.sublist (List.dropLast_sublist _)⟩)

/-- Taking the last element off undoes putting it on. -/
theorem toList_of_pop? {s t : OrderedSet α} {a : α} (taken : s.pop? = some (a, t)) :
    s.toList = t.toList ++ [a] := by
  simp only [pop?, Option.map_eq_some_iff, Prod.mk.injEq] at taken
  obtain ⟨last, found, rfl, rfl⟩ := taken
  obtain ⟨front, split⟩ := List.getLast?_eq_some_iff.mp found
  simp [split]

theorem pop?_eq_none_iff {s : OrderedSet α} : s.pop? = none ↔ s.toList = [] := by
  simp [pop?]

variable [DecidableEq α]

instance : DecidableEq (OrderedSet α) := fun s t =>
  if same : s.toList = t.toList then .isTrue (ext same)
  else .isFalse fun equal => same (congrArg toList equal)

instance (a : α) (s : OrderedSet α) : Decidable (a ∈ s) :=
  inferInstanceAs (Decidable (a ∈ s.toList))

/-- Adds an element at the end, unless it is present. -/
def insert (s : OrderedSet α) (a : α) : OrderedSet α :=
  if present : a ∈ s.toList then s
  else ⟨s.toList ++ [a], by
    rw [List.nodup_append]
    refine ⟨s.nodup, by simp, ?_⟩
    intro b member c single same
    simp only [List.mem_singleton] at single
    subst single same
    exact present member⟩

def insertAll (s : OrderedSet α) (items : List α) : OrderedSet α := items.foldl insert s

def ofList (items : List α) : OrderedSet α := insertAll ∅ items

theorem toList_insert (s : OrderedSet α) (a : α) :
    (s.insert a).toList = if a ∈ s then s.toList else s.toList ++ [a] := by
  by_cases present : a ∈ s.toList <;> simp [insert, mem_def, present]

@[simp] theorem mem_insert {s : OrderedSet α} {a b : α} : b ∈ s.insert a ↔ b ∈ s ∨ b = a := by
  by_cases present : a ∈ s.toList
  · simp only [mem_def, insert, present, dite_true]
    constructor
    · exact Or.inl
    · rintro (member | rfl) <;> assumption
  · simp [mem_def, insert, present]

theorem prefix_insert (s : OrderedSet α) (a : α) : s.toList <+: (s.insert a).toList := by
  rw [toList_insert]
  split
  · exact List.prefix_rfl
  · exact List.prefix_append _ _

theorem filter_insert (s : OrderedSet α) (keep : α → Bool) (a : α) :
    (s.insert a).filter keep = if keep a then (s.filter keep).insert a else s.filter keep := by
  by_cases present : a ∈ s.toList <;> by_cases kept : keep a <;>
    simp [insert, filter, present, kept]

theorem insert_of_mem {s : OrderedSet α} {a : α} (present : a ∈ s) : s.insert a = s := by
  have inside : a ∈ s.toList := present
  simp [insert, inside]

@[simp] theorem mem_insertAll {s : OrderedSet α} {items : List α} {a : α} :
    a ∈ s.insertAll items ↔ a ∈ s ∨ a ∈ items := by
  induction items generalizing s with
  | nil => simp [insertAll]
  | cons first rest ih =>
    have step : s.insertAll (first :: rest) = (s.insert first).insertAll rest := rfl
    rw [step, ih, mem_insert, List.mem_cons, or_assoc]

theorem ofList_append_singleton (items : List α) (a : α) :
    ofList (items ++ [a]) = (ofList items).insert a := by
  simp [ofList, insertAll]

theorem mem_ofList {items : List α} {a : α} : a ∈ ofList items ↔ a ∈ items := by
  simp [ofList]

end OrderedSet

end Bindery
