import Bindery.Binding.Sorting
import Mathlib.Data.List.Chain
import Mathlib.Data.List.Perm.Subperm

/-! Sorting ends in one of two ways. Either every element comes once and after all it depends on, or
there is a ring, and then no such order exists. The counters count what is not done, so that an
element is ready as soon as nothing keeps it back. -/

set_option autoImplicit false

namespace Bindery.Binding

variable {α : Type}

/-- The first element comes again at the end, and no other twice. -/
structure IsRing (edge : α → α → Prop) (ring : List α) : Prop where
  closed : ring.head? = ring.getLast?
  distinct : ring.dropLast.Nodup
  long : 3 ≤ ring.length
  chain : ring.IsChain edge

/-- Everything comes strictly after what it depends on. -/
def Ordered [DecidableEq α] (edge : α → α → Prop) (sorted : List α) : Prop :=
  ∀ a b, edge a b → sorted.idxOf b < sorted.idxOf a

/-- Nothing leads back to itself. -/
def Acyclic (edge : α → α → Prop) : Prop := ∀ a, ¬ Relation.TransGen edge a a

theorem Ordered.acyclic [DecidableEq α] {edge : α → α → Prop} {sorted : List α}
    (ordered : Ordered edge sorted) : Acyclic edge := by
  intro a around
  have before (b : α) (path : Relation.TransGen edge a b) : sorted.idxOf b < sorted.idxOf a := by
    induction path with
    | single step => exact ordered _ _ step
    | tail _ step ih => exact Nat.lt_trans (ordered _ _ step) ih
  exact Nat.lt_irrefl _ (before a around)

theorem IsRing.not_acyclic {edge : α → α → Prop} {ring : List α} (isRing : IsRing edge ring) :
    ¬ Acyclic edge := by
  intro acyclic
  obtain ⟨closed, _, long, chain⟩ := isRing
  match ring, long with
  | a :: b :: rest, _ =>
    rw [List.isChain_cons_cons] at chain
    have last : (b :: rest).getLast (List.cons_ne_nil b rest) = a := by
      rw [List.head?_cons, List.getLast?_cons_cons, List.getLast?_eq_some_getLast
        (List.cons_ne_nil b rest), Option.some.injEq] at closed
      exact closed.symm
    exact acyclic a (.head' chain.1
      (List.relationReflTransGen_of_exists_isChain_cons rest chain.2 last))

namespace Sorting

variable [DecidableEq α]

theorem done_release (s : Sorting α) (a : α) : (s.release a).done = s.done := by
  unfold release
  split <;> rfl

theorem done_releaseAll (s : Sorting α) (items : List α) :
    (items.foldl release s).done = s.done := by
  induction items generalizing s with
  | nil => rfl
  | cons a rest ih => rw [List.foldl_cons, ih, done_release]

end Sorting

namespace Graph

variable [DecidableEq α] {g : Graph α}

/-- Elements are listed once, and depend on other elements only. -/
structure Proper (g : Graph α) : Prop where
  distinct : g.elements.Nodup
  inside : ∀ a, ∀ b ∈ g.dependenciesOf a, b ∈ g.elements
  apart : ∀ a, a ∉ g.dependenciesOf a

/-! ## Counting dependents -/

theorem dependenciesOf_cons (entry : α × List α) (rest : Graph α) (a : α) :
    dependenciesOf (entry :: rest) a = if a = entry.1 then entry.2 else rest.dependenciesOf a := by
  obtain ⟨element, needed⟩ := entry
  unfold dependenciesOf
  rw [List.lookup_cons]
  by_cases same : a = element
  · simp [same]
  · simp [same, beq_false_of_ne same]

theorem dependenciesOf_eq_nil {a : α} (absent : a ∉ g.elements) : g.dependenciesOf a = [] := by
  induction g with
  | nil => rfl
  | cons entry rest ih =>
    rw [elements, List.map_cons, List.mem_cons, not_or] at absent
    rw [dependenciesOf_cons, if_neg absent.1]
    exact ih absent.2

theorem mem_elements_of_edge {a b : α} (edge : b ∈ g.dependenciesOf a) : a ∈ g.elements := by
  by_contra absent
  rw [dependenciesOf_eq_nil absent] at edge
  cases edge

theorem dependenciesOf_of_mem (distinct : g.elements.Nodup) {a : α} {needed : List α}
    (entry : (a, needed) ∈ g) : g.dependenciesOf a = needed := by
  induction g with
  | nil => cases entry
  | cons first rest ih =>
    obtain ⟨fresh, distinct⟩ := List.nodup_cons.mp distinct
    rw [dependenciesOf_cons]
    rcases List.mem_cons.mp entry with rfl | later
    · exact if_pos rfl
    · have other : a ≠ first.1 := fun same =>
        fresh (List.mem_map.mpr ⟨(a, needed), later, same⟩)
      rw [if_neg other]
      exact ih distinct later

theorem dependentsOf_cons (entry : α × List α) (rest : Graph α) (a : α) :
    dependentsOf (entry :: rest) a =
      (entry.2.filter (· = a)).map (fun _ => entry.1) ++ rest.dependentsOf a := by
  simp [dependentsOf, edges, List.filter_map, Function.comp_def]

-- An element occurs among the dependents of another as often as it names it.
theorem count_dependentsOf (distinct : g.elements.Nodup) (a b : α) :
    (g.dependentsOf a).count b = (g.dependenciesOf b).count a := by
  induction g with
  | nil => rfl
  | cons entry rest ih =>
    obtain ⟨element, needed⟩ := entry
    obtain ⟨fresh, distinct⟩ := List.nodup_cons.mp distinct
    rw [dependentsOf_cons, List.count_append, ih distinct, dependenciesOf_cons]
    dsimp only
    by_cases same : b = element
    · have none : dependenciesOf rest element = [] := dependenciesOf_eq_nil fresh
      simp [same, none, List.count, List.countP_eq_length_filter, beq_eq_decide]
    · have absent : b ∉ (needed.filter (· = a)).map fun _ => element := by
        rw [List.mem_map]
        rintro ⟨_, _, rfl⟩
        exact same rfl
      rw [List.count_eq_zero.mpr absent, Nat.zero_add, if_neg same]

theorem mem_dependentsOf (distinct : g.elements.Nodup) {a b : α} :
    b ∈ g.dependentsOf a ↔ a ∈ g.dependenciesOf b := by
  rw [← List.count_pos_iff, count_dependentsOf distinct, List.count_pos_iff]

/-! ## The counters -/

/-- How many dependencies of an element are not done. -/
def owed (g : Graph α) (done : List α) (a : α) : Nat := (g.dependenciesOf a).countP (· ∉ done)

theorem owed_eq_zero_iff {done : List α} {a : α} :
    g.owed done a = 0 ↔ ∀ b ∈ g.dependenciesOf a, b ∈ done := by
  simp [owed, List.countP_eq_zero]

-- Doing one more element settles what is owed to it.
theorem owed_eq_add_count {done : List α} {a : α} (new : a ∉ done) (b : α) :
    g.owed done b = g.owed (done ++ [a]) b + (g.dependenciesOf b).count a := by
  unfold owed
  induction g.dependenciesOf b with
  | nil => rfl
  | cons c rest ih =>
    rw [List.countP_cons, List.countP_cons, List.count_cons, ih]
    by_cases same : c = a
    · subst same
      simp [new]
      omega
    · by_cases known : c ∈ done <;> simp [same, known]
      omega

/-- The invariant of sorting. Each counter says what is owed to its element and how often the
element is still to be told of the one done last. -/
structure Counts (g : Graph α) (untold : List α) (s : Sorting α) : Prop where
  keys : s.degrees.keys = g.elements
  degrees : ∀ a ∈ g.elements, s.degrees.get? a = some (g.owed s.done a + untold.count a)
  waits : ∀ a ∈ untold, a ∈ g.elements ∧ a ∉ s.done
  ready : ∀ a, a ∈ s.ready ↔ a ∈ g.elements ∧ a ∉ s.done ∧ s.degrees.get? a = some 0
  distinct : (s.done ++ s.ready).Nodup
  inside : ∀ a ∈ s.done, a ∈ g.elements
  ordered : ∀ front a back, s.done = front ++ a :: back → ∀ b ∈ g.dependenciesOf a, b ∈ front

namespace Counts

variable {s : Sorting α} {untold : List α} {a : α}

theorem owed_of_done (counts : Counts g untold s) (done : a ∈ s.done) : g.owed s.done a = 0 := by
  obtain ⟨front, back, split⟩ := List.append_of_mem done
  refine owed_eq_zero_iff.mpr fun b needed => ?_
  rw [split]
  exact List.mem_append_left _ (counts.ordered front a back split b needed)

theorem owed_of_ready (counts : Counts g [] s) (ready : a ∈ s.ready) : g.owed s.done a = 0 := by
  obtain ⟨element, _, free⟩ := (counts.ready a).mp ready
  rwa [counts.degrees a element, List.count_nil, Nat.add_zero, Option.some.injEq] at free

theorem entries_start (distinct : g.elements.Nodup) :
    g.start.degrees.entries = g.map fun entry => (entry.1, entry.2.length) := by
  apply OrderedMap.entries_ofList
  rw [List.map_map]
  exact distinct

theorem start (proper : g.Proper) : Counts g [] g.start := by
  have pairs := entries_start proper.distinct
  have keys : g.start.degrees.keys = g.elements := by
    rw [OrderedMap.keys, pairs, List.map_map]
    rfl
  have degrees (a : α) (element : a ∈ g.elements) :
      g.start.degrees.get? a = some (g.owed [] a) := by
    obtain ⟨⟨_, needed⟩, entry, rfl⟩ := List.mem_map.mp element
    rw [← OrderedMap.mem_entries_iff, pairs, List.mem_map]
    refine ⟨_, entry, ?_⟩
    simp [owed, dependenciesOf_of_mem proper.distinct entry]
  have nothing (a : α) : a ∉ ([] : List α) := List.not_mem_nil
  refine ⟨keys, degrees, fun a waiting => absurd waiting (nothing a), fun a => ?_, ?_,
    fun a done => absurd done (nothing a), ?_⟩
  · have listed : a ∈ g.start.ready ↔ g.start.degrees.get? a = some 0 := by
      rw [← OrderedMap.mem_entries_iff]
      simp [Graph.start]
    rw [listed]
    refine ⟨fun free => ⟨?_, List.not_mem_nil, free⟩, fun all => all.2.2⟩
    rw [← keys]
    exact List.mem_map.mpr ⟨_, OrderedMap.mem_entries_iff.mpr free, rfl⟩
  · exact g.start.degrees.nodup.sublist (List.filter_sublist.map Prod.fst)
  · intro front a back split
    cases front <;> cases split

theorem release (counts : Counts g (a :: untold) s) : Counts g untold (s.release a) := by
  obtain ⟨element, unfinished⟩ := counts.waits a List.mem_cons_self
  have degree : s.degrees.get? a = some (g.owed s.done a + untold.count a + 1) := by
    rw [counts.degrees a element, List.count_cons_self, Nat.add_assoc]
  -- Its counter is not zero, for it is yet to be told of the element done last.
  have unready : a ∉ s.ready := by
    intro ready
    have free := ((counts.ready a).mp ready).2.2
    rw [degree] at free
    cases free
  have present : a ∈ s.degrees.keys := counts.keys ▸ element
  have released : s.release a = { s with
      degrees := s.degrees.put a (g.owed s.done a + untold.count a)
      ready := if g.owed s.done a + untold.count a = 0 then s.ready ++ [a] else s.ready } := by
    simp only [Sorting.release, degree, Nat.add_sub_cancel]
  rw [released]
  refine ⟨?_, ?_, ?_, ?_, ?_, counts.inside, counts.ordered⟩
  · rw [OrderedMap.keys_put, if_pos present]
    exact counts.keys
  · intro b other
    rw [OrderedMap.get?_put]
    by_cases same : b = a
    · rw [if_pos same, same]
    · rw [if_neg same, counts.degrees b other, List.count_cons_of_ne fun equal => same equal.symm]
  · exact fun b later => counts.waits b (List.mem_cons_of_mem a later)
  · intro b
    dsimp only
    rw [OrderedMap.get?_put]
    by_cases same : b = a
    · subst same
      rw [if_pos rfl, Option.some.injEq]
      split
      · next free => simp [free, element, unfinished]
      · next kept => exact iff_of_false unready fun all => kept all.2.2
    · rw [if_neg same, ← counts.ready b]
      split
      · simp [same]
      · rfl
  · dsimp only
    split
    · rw [← List.append_assoc, List.nodup_append]
      refine ⟨counts.distinct, List.pairwise_singleton _ a, ?_⟩
      rintro b member _ single rfl
      rw [List.mem_singleton.mp single, List.mem_append] at member
      exact member.elim unfinished unready
    · exact counts.distinct

theorem releaseAll (counts : Counts g untold s) : Counts g [] (untold.foldl .release s) := by
  induction untold generalizing s with
  | nil => exact counts
  | cons a rest ih => exact ih counts.release

/-- Taking the first ready element; all that depends on it is to be told. -/
theorem take (counts : Counts g [] s) (proper : g.Proper) {rest : List α}
    (first : s.ready = a :: rest) :
    Counts g (g.dependentsOf a) { s with ready := rest, done := s.done ++ [a] } := by
  have head : a ∈ s.ready := first ▸ List.mem_cons_self
  obtain ⟨element, new, _⟩ := (counts.ready a).mp head
  have fulfilled : ∀ b ∈ g.dependenciesOf a, b ∈ s.done :=
    owed_eq_zero_iff.mp (counts.owed_of_ready head)
  have distinct := counts.distinct
  rw [first] at distinct
  have once : a ∉ rest := (List.nodup_cons.mp (List.nodup_append.mp distinct).2.1).1
  refine ⟨counts.keys, ?_, ?_, ?_, ?_, ?_, ?_⟩
  · intro b other
    rw [counts.degrees b other, List.count_nil, Nat.add_zero, owed_eq_add_count new,
      count_dependentsOf proper.distinct]
  · intro b dependent
    rw [mem_dependentsOf proper.distinct] at dependent
    constructor
    · exact mem_elements_of_edge dependent
    · rw [List.mem_append, List.mem_singleton]
      -- Had the dependent been done before, so had the element.
      rintro (done | rfl)
      · exact new (owed_eq_zero_iff.mp (counts.owed_of_done done) a dependent)
      · exact proper.apart b dependent
  · intro b
    have before := counts.ready b
    rw [first, List.mem_cons] at before
    by_cases same : b = a
    · simp [same, once]
    · simpa [same] using before
  · rw [List.append_assoc]
    exact distinct
  · intro b done
    rcases List.mem_append.mp done with earlier | last
    · exact counts.inside b earlier
    · exact List.mem_singleton.mp last ▸ element
  · intro front b back split c needed
    -- Either the element is the last one done, or it was done before.
    rcases List.eq_nil_or_concat back with rfl | ⟨back, last, rfl⟩
    · obtain ⟨rfl, same⟩ := List.append_inj' split rfl
      cases same
      exact fulfilled c needed
    · have earlier : s.done ++ [a] = (front ++ b :: back) ++ [last] := by simpa using split
      exact counts.ordered front b back (List.append_inj' earlier rfl).1 c needed

theorem drain (proper : g.Proper) (bound : Nat) (counts : Counts g [] s) :
    Counts g [] (g.drain bound s) := by
  induction bound generalizing s with
  | zero => exact counts
  | succ bound ih =>
    unfold Graph.drain
    split
    · exact counts
    · next a rest first => exact ih (counts.take proper first).releaseAll

theorem nodup_done (counts : Counts g untold s) : s.done.Nodup :=
  (List.nodup_append.mp counts.distinct).1

theorem length_done_le (counts : Counts g untold s) : s.done.length ≤ g.length := by
  have fewer := (counts.nodup_done.subperm counts.inside).length_le
  rwa [elements, List.length_map] at fewer

theorem perm_of_length (counts : Counts g untold s) (all : g.length ≤ s.done.length) :
    s.done.Perm g.elements :=
  (counts.nodup_done.subperm counts.inside).perm_of_length_le (by rwa [elements, List.length_map])

theorem ready_eq_nil (counts : Counts g untold s) (all : g.length ≤ s.done.length) :
    s.ready = [] := by
  rw [List.eq_nil_iff_forall_not_mem]
  intro a ready
  obtain ⟨element, new, _⟩ := (counts.ready a).mp ready
  exact new ((counts.perm_of_length all).mem_iff.mpr element)

theorem ready_drain (proper : g.Proper) {bound : Nat} (counts : Counts g [] s)
    (enough : g.length ≤ bound + s.done.length) : (g.drain bound s).ready = [] := by
  induction bound generalizing s with
  | zero => exact counts.ready_eq_nil (by omega)
  | succ bound ih =>
    unfold Graph.drain
    split
    · next empty => exact empty
    · next a rest first =>
      apply ih (counts.take proper first).releaseAll
      rw [Sorting.done_releaseAll, List.length_append, List.length_singleton]
      omega

-- What is not done when nothing is ready waits for something.
theorem owed_ne_zero (counts : Counts g [] s) (empty : s.ready = []) (element : a ∈ g.elements)
    (unfinished : a ∉ s.done) : g.owed s.done a ≠ 0 := by
  intro free
  have ready : a ∈ s.ready := by
    rw [counts.ready, counts.degrees a element, free]
    exact ⟨element, unfinished, rfl⟩
  rw [empty] at ready
  cases ready

theorem mem_waiting_iff (counts : Counts g [] s) (empty : s.ready = []) :
    a ∈ s.waiting ↔ a ∈ g.elements ∧ a ∉ s.done := by
  have listed : a ∈ s.waiting ↔ ∃ degree, s.degrees.get? a = some degree ∧ 0 < degree := by
    simp [Sorting.waiting, ← OrderedMap.mem_entries_iff]
  rw [listed]
  constructor
  · rintro ⟨degree, known, positive⟩
    have element : a ∈ g.elements := by
      rw [← counts.keys]
      exact List.mem_map.mpr ⟨_, OrderedMap.mem_entries_iff.mpr known, rfl⟩
    refine ⟨element, fun done => ?_⟩
    rw [counts.degrees a element, counts.owed_of_done done, List.count_nil] at known
    cases known
    exact Nat.lt_irrefl 0 positive
  · rintro ⟨element, unfinished⟩
    exact ⟨_, counts.degrees a element,
      Nat.pos_of_ne_zero (counts.owed_ne_zero empty element unfinished)⟩

-- What waits waits for something else that does.
theorem exists_waiting (counts : Counts g [] s) (proper : g.Proper) (empty : s.ready = [])
    (waits : a ∈ s.waiting) : ∃ b ∈ s.waiting, b ∈ g.dependenciesOf a := by
  obtain ⟨element, unfinished⟩ := (counts.mem_waiting_iff empty).mp waits
  have owes := counts.owed_ne_zero empty element unfinished
  rw [Ne, owed_eq_zero_iff] at owes
  push Not at owes
  obtain ⟨b, edge, missing⟩ := owes
  exact ⟨b, (counts.mem_waiting_iff empty).mpr ⟨proper.inside a b edge, missing⟩, edge⟩

theorem waiting_ne_nil (counts : Counts g [] s) (proper : g.Proper) (empty : s.ready = [])
    (short : s.done.length ≠ g.length) : s.waiting ≠ [] := by
  intro none
  apply short
  have all : g.elements ⊆ s.done := by
    intro a element
    by_contra unfinished
    have waits := (counts.mem_waiting_iff empty).mpr ⟨element, unfinished⟩
    rw [none] at waits
    cases waits
  have enough := (proper.distinct.subperm all).length_le
  rw [elements, List.length_map] at enough
  exact Nat.le_antisymm counts.length_done_le enough

-- With everything done, every element stands after all it depends on.
theorem ordered_done (counts : Counts g untold s) (perm : s.done.Perm g.elements) :
    Ordered (fun a b => b ∈ g.dependenciesOf a) s.done := by
  intro a b edge
  have done := perm.mem_iff.mpr (mem_elements_of_edge edge)
  obtain ⟨front, back, split⟩ := List.append_of_mem done
  have before : b ∈ front := counts.ordered front a back split b edge
  have once := counts.nodup_done
  rw [split] at once ⊢
  have new : a ∉ front := fun member =>
    (List.nodup_append.mp once).2.2 a member a List.mem_cons_self rfl
  rw [List.idxOf_append_of_mem before, List.idxOf_append_of_notMem new]
  exact Nat.lt_of_lt_of_le (List.idxOf_lt_length_of_mem before) (Nat.le_add_right _ _)

end Counts

/-! ## Tracing a ring -/

/-- Where everything in a set depends on something in it, following dependencies goes around. -/
theorem traceRing_isRing (proper : g.Proper) {within : List α}
    (blocked : ∀ a ∈ within, ∃ b ∈ within, b ∈ g.dependenciesOf a) (bound : Nat) {path : List α}
    {current : α} (once : path.Nodup) (inside : ∀ a ∈ path, a ∈ within)
    (chain : path.IsChain fun a b => b ∈ g.dependenciesOf a)
    (last : path.getLast? = some current) (enough : within.length < bound + path.length) :
    IsRing (fun a b => b ∈ g.dependenciesOf a) (g.traceRing within bound path current) ∧
      ∀ a ∈ g.traceRing within bound path current, a ∈ within := by
  induction bound generalizing path current with
  | zero =>
    -- A path without repeats is no longer than the set it stays in.
    have := (once.subperm inside).length_le
    omega
  | succ bound ih =>
    have member : current ∈ path := List.mem_of_getLast? last
    obtain ⟨b, there, edge⟩ := blocked current (inside current member)
    unfold traceRing
    cases found : (g.dependenciesOf current).find? (· ∈ within) with
    | none => exact absurd there (by simpa using List.find?_eq_none.mp found b edge)
    | some next =>
      have step : next ∈ g.dependenciesOf current := List.mem_of_find?_eq_some found
      have stays : next ∈ within := by simpa using List.find?_some found
      dsimp only
      split
      · next again =>
        obtain ⟨front, back, rfl, new⟩ := List.eq_append_cons_of_mem again
        have cut : (front ++ next :: back).dropWhile (· ≠ next) = next :: back := by
          rw [List.dropWhile_append_of_pos fun a member => by
            simpa using fun same : a = next => new (same ▸ member)]
          simp
        rw [cut]
        rw [List.getLast?_append_of_ne_nil _ (List.cons_ne_nil next back)] at last
        refine ⟨⟨?_, ?_, ?_, ?_⟩, ?_⟩
        · exact (List.getLast?_concat ..).symm
        · rw [List.dropLast_concat]
          exact (List.nodup_append.mp once).2.1
        · -- The last of the path is not the first of the ring, for nothing depends on itself.
          cases back with
          | nil =>
            cases last
            exact absurd step (proper.apart next)
          | cons second rest => simp
        · refine chain.right_of_append.append (List.isChain_singleton next) ?_
          intro a isLast b isNext
          rw [last] at isLast
          cases isLast
          cases isNext
          exact step
        · intro a around
          rcases List.mem_append.mp around with onPath | again'
          · exact inside a (List.mem_append_right front onPath)
          · exact List.mem_singleton.mp again' ▸ stays
      · next new =>
        apply ih
        · rw [List.nodup_append]
          refine ⟨once, List.pairwise_singleton _ next, ?_⟩
          rintro a onPath _ single rfl
          exact new (List.mem_singleton.mp single ▸ onPath)
        · intro a onPath
          rcases List.mem_append.mp onPath with earlier | final
          · exact inside a earlier
          · exact List.mem_singleton.mp final ▸ stays
        · refine chain.append (List.isChain_singleton next) ?_
          intro a isLast b isNext
          rw [last] at isLast
          cases isLast
          cases isNext
          exact step
        · simp
        · rw [List.length_append, List.length_singleton]
          omega

theorem ringWithin_isRing (proper : g.Proper) {within : List α}
    (blocked : ∀ a ∈ within, ∃ b ∈ within, b ∈ g.dependenciesOf a) (some : within ≠ []) :
    IsRing (fun a b => b ∈ g.dependenciesOf a) (g.ringWithin within) ∧
      ∀ a ∈ g.ringWithin within, a ∈ within := by
  cases within with
  | nil => exact absurd rfl some
  | cons start rest =>
    refine traceRing_isRing proper blocked _ (List.pairwise_singleton _ start) ?_
      (List.isChain_singleton start) rfl (by simp)
    intro a single
    exact List.mem_singleton.mp single ▸ List.mem_cons_self

/-! ## The two outcomes -/

/-- A graph is sorted, or a ring is found in it. -/
theorem sort_cases (proper : g.Proper) :
    (∃ sorted, g.sort = .ok sorted ∧ sorted.Perm g.elements ∧
      Ordered (fun a b => b ∈ g.dependenciesOf a) sorted) ∨
    ∃ ring, g.sort = .error ring ∧ IsRing (fun a b => b ∈ g.dependenciesOf a) ring ∧
      ∀ a ∈ ring, a ∈ g.elements := by
  have counts : Counts g [] (g.drain g.length g.start) := (Counts.start proper).drain proper _
  have empty : (g.drain g.length g.start).ready = [] :=
    (Counts.start proper).ready_drain proper (Nat.le_add_right _ _)
  unfold sort
  dsimp only
  split
  · next all =>
    have perm := counts.perm_of_length all.ge
    exact .inl ⟨_, rfl, perm, counts.ordered_done perm⟩
  · next short =>
    obtain ⟨isRing, inside⟩ := ringWithin_isRing proper
      (fun a => counts.exists_waiting proper empty) (counts.waiting_ne_nil proper empty short)
    exact .inr ⟨_, rfl, isRing, fun a member =>
      ((counts.mem_waiting_iff empty).mp (inside a member)).1⟩

end Graph

end Bindery.Binding
