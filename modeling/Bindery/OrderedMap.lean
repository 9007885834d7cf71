/-! Maps that remember the order in which their keys first appeared. Writing to a key that is
present replaces its value in place. -/

set_option autoImplicit false

namespace Bindery

/-- Key and value pairs in the order of the keys' first appearance; no key repeats. -/
structure OrderedMap (κ α : Type) where
  entries : List (κ × α)
  nodup : (entries.map Prod.fst).Nodup

namespace OrderedMap

variable {κ α : Type}

def empty : OrderedMap κ α := ⟨[], List.nodup_nil⟩

instance : EmptyCollection (OrderedMap κ α) := ⟨empty⟩

instance : Inhabited (OrderedMap κ α) := ⟨∅⟩

def keys (m : OrderedMap κ α) : List κ := m.entries.map Prod.fst

@[simp] theorem entries_empty : (∅ : OrderedMap κ α).entries = [] := rfl

@[simp] theorem keys_empty : (∅ : OrderedMap κ α).keys = [] := rfl

@[ext] theorem ext {m n : OrderedMap κ α} (same : m.entries = n.entries) : m = n := by
  cases m; cases n; cases same; rfl

instance [DecidableEq κ] [DecidableEq α] : DecidableEq (OrderedMap κ α) := fun m n =>
  if same : m.entries = n.entries then .isTrue (ext same)
  else .isFalse fun equal => same (congrArg entries equal)

variable [DecidableEq κ]

def get? (m : OrderedMap κ α) (key : κ) : Option α :=
  (m.entries.find? fun entry => entry.1 = key).map Prod.snd

def contains (m : OrderedMap κ α) (key : κ) : Bool := (m.get? key).isSome

/-- Replaces the value at a key, or adds the pair at the end. -/
def putList (key : κ) (value : α) : List (κ × α) → List (κ × α)
  | [] => [(key, value)]
  | entry :: rest => if entry.1 = key then (key, value) :: rest else entry :: putList key value rest

theorem map_fst_putList (key : κ) (value : α) (entries : List (κ × α)) :
    (putList key value entries).map Prod.fst =
      if key ∈ entries.map Prod.fst then entries.map Prod.fst
      else entries.map Prod.fst ++ [key] := by
  induction entries with
  | nil => simp [putList]
  | cons entry rest ih =>
    by_cases here : entry.1 = key
    · simp [putList, here]
    · have other : ¬ key = entry.1 := fun same => here same.symm
      simp only [putList, here, if_false, List.map_cons, ih, List.mem_cons, other, false_or]
      split <;> rfl

def put (m : OrderedMap κ α) (key : κ) (value : α) : OrderedMap κ α :=
  ⟨putList key value m.entries, by
    rw [map_fst_putList]
    split
    · exact m.nodup
    · next absent =>
      rw [List.nodup_append]
      refine ⟨m.nodup, by simp, ?_⟩
      intro a member b single same
      simp only [List.mem_singleton] at single
      subst single same
      exact absent member⟩

/-- A repeated key keeps its place and takes its last value. -/
def ofList (pairs : List (κ × α)) : OrderedMap κ α :=
  pairs.foldl (fun m pair => m.put pair.1 pair.2) ∅

theorem keys_put (m : OrderedMap κ α) (key : κ) (value : α) :
    (m.put key value).keys = if key ∈ m.keys then m.keys else m.keys ++ [key] :=
  map_fst_putList key value m.entries

theorem mem_keys_put {m : OrderedMap κ α} {key other : κ} {value : α} :
    other ∈ (m.put key value).keys ↔ other ∈ m.keys ∨ other = key := by
  rw [keys_put]
  split
  · next present => exact ⟨.inl, fun either => either.elim id fun same => same ▸ present⟩
  · rw [List.mem_append, List.mem_singleton]

theorem find?_putList (key other : κ) (value : α) (entries : List (κ × α)) :
    ((putList key value entries).find? fun entry => entry.1 = other).map Prod.snd =
      if other = key then some value
      else (entries.find? fun entry => entry.1 = other).map Prod.snd := by
  induction entries with
  | nil => by_cases same : other = key <;> simp [putList, same, eq_comm]
  | cons entry rest ih =>
    by_cases here : entry.1 = key
    · by_cases same : other = key
      · simp [putList, here, same]
      · have apart : ¬ key = other := fun equal => same equal.symm
        simp [putList, here, same, apart]
    · by_cases same : entry.1 = other
      · have apart : ¬ other = key := fun equal => here (same.trans equal)
        simp [putList, same, apart]
      · simp only [putList, here, if_false, List.find?_cons, same, decide_false, ih]

theorem get?_put (m : OrderedMap κ α) (key other : κ) (value : α) :
    (m.put key value).get? other = if other = key then some value else m.get? other :=
  find?_putList key other value m.entries

theorem mem_entries_iff {m : OrderedMap κ α} {key : κ} {value : α} :
    (key, value) ∈ m.entries ↔ m.get? key = some value := by
  obtain ⟨entries, distinct⟩ := m
  unfold get?
  induction entries with
  | nil => simp
  | cons entry rest ih =>
    obtain ⟨first, held⟩ := entry
    obtain ⟨fresh, distinct⟩ := List.nodup_cons.mp distinct
    by_cases here : first = key
    · have absent : (key, value) ∉ rest := fun member =>
        fresh (List.mem_map.mpr ⟨(key, value), member, here.symm⟩)
      simp [here, absent, eq_comm]
    · have other : ¬ key = first := fun same => here same.symm
      simp [here, other, ih distinct]

theorem mem_keys_iff {m : OrderedMap κ α} {key : κ} :
    key ∈ m.keys ↔ ∃ value, m.get? key = some value := by
  simp [keys, ← mem_entries_iff]

theorem putList_of_absent {key : κ} {entries : List (κ × α)}
    (absent : key ∉ entries.map Prod.fst) (value : α) :
    putList key value entries = entries ++ [(key, value)] := by
  induction entries with
  | nil => rfl
  | cons entry rest ih =>
    rw [List.map_cons, List.mem_cons, not_or] at absent
    rw [putList, if_neg fun same => absent.1 same.symm, ih absent.2, List.cons_append]

/-- Pairs without a repeated key are taken as they are. -/
theorem entries_ofList {pairs : List (κ × α)} (distinct : (pairs.map Prod.fst).Nodup) :
    (ofList pairs).entries = pairs := by
  have onto (m : OrderedMap κ α) (fresh : ((m.entries ++ pairs).map Prod.fst).Nodup) :
      (pairs.foldl (fun m pair => m.put pair.1 pair.2) m).entries = m.entries ++ pairs := by
    clear distinct
    induction pairs generalizing m with
    | nil => simp
    | cons pair rest ih =>
      have absent : pair.1 ∉ m.entries.map Prod.fst := by
        intro member
        rw [List.map_append, List.nodup_append] at fresh
        exact fresh.2.2 _ member _ List.mem_cons_self rfl
      have added : (m.put pair.1 pair.2).entries = m.entries ++ [pair] :=
        putList_of_absent absent pair.2
      rw [List.foldl_cons, ih, added, List.append_assoc]
      · rfl
      · rw [added, List.append_assoc]
        exact fresh
  exact onto ∅ distinct

end OrderedMap

end Bindery
