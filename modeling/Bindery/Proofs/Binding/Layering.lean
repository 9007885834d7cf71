import Bindery.Proofs.Binding.Order
import Mathlib.Order.Bounds.Basic

/-! How sorting breaks ties. An element joins the end of the queue when the last of what it depends
on is done, so that elements come in the order of these turns, and those of one turn as they are
listed. Hence nothing comes before what is of a lower level, and of what depends on the same things
the one listed first does. -/

set_option autoImplicit false

namespace Bindery.Binding

open Ast (TranslationUnit)

variable {α : Type}

/-! ## The largest of a list -/

/-- One more than the largest measure of some items; zero if there are none. -/
def above (measure : α → Nat) (items : List α) : Nat :=
  items.foldr (fun a least => max (measure a + 1) least) 0

section

variable {measure : α → Nat} {items : List α} {n : Nat}

theorem above_le_iff : above measure items ≤ n ↔ ∀ a ∈ items, measure a < n := by
  induction items with
  | nil => simp [above]
  | cons a rest ih =>
    rw [List.forall_mem_cons, ← ih]
    exact Nat.max_le

variable (measure) in
theorem lt_above {a : α} (member : a ∈ items) : measure a < above measure items :=
  above_le_iff.mp (Nat.le_refl _) a member

theorem exists_of_lt_above (below : n < above measure items) : ∃ a ∈ items, n ≤ measure a := by
  by_contra none
  push Not at none
  exact Nat.not_lt_of_le (above_le_iff.mpr none) below

theorem above_congr {other : α → Nat} (same : ∀ a ∈ items, measure a = other a) :
    above measure items = above other items := by
  apply eq_of_forall_ge_iff
  intro n
  rw [above_le_iff, above_le_iff]
  exact forall₂_congr fun a member => by rw [same a member]

theorem above_eq_of_mem_iff {others : List α} (same : ∀ a, a ∈ items ↔ a ∈ others) :
    above measure items = above measure others := by
  apply eq_of_forall_ge_iff
  intro n
  simp only [above_le_iff, same]

end

/-! ## Positions -/

section

variable [DecidableEq α] {items : List α}

theorem pairwise_idxOf (distinct : items.Nodup) :
    items.Pairwise fun a b => items.idxOf a < items.idxOf b := by
  rw [List.pairwise_iff_getElem]
  intro i j _ _ before
  rwa [distinct.idxOf_getElem, distinct.idxOf_getElem]

theorem of_idxOf_lt {related : α → α → Prop} (pairwise : items.Pairwise related) {a b : α}
    (member : b ∈ items) (before : items.idxOf a < items.idxOf b) : related a b := by
  have inside := List.idxOf_lt_length_of_mem member
  have both := List.pairwise_iff_getElem.mp pairwise _ _ (before.trans inside) inside before
  rwa [List.getElem_idxOf, List.getElem_idxOf] at both

end

/-! ## Levels -/

/-- What leads nowhere is on level zero, and everything else one above the highest level that it
leads to. -/
structure IsLevel (edge : α → α → Prop) (level : α → Nat) : Prop where
  ground : ∀ a, (∀ b, ¬ edge a b) → level a = 0
  raised : ∀ a, (∃ b, edge a b) → IsGreatest {n | ∃ b, edge a b ∧ n = level b + 1} (level a)

namespace IsLevel

variable {edge : α → α → Prop} {level : α → Nat}

theorem lt (isLevel : IsLevel edge level) {a b : α} (leads : edge a b) : level b < level a :=
  (isLevel.raised a ⟨b, leads⟩).2 ⟨b, leads, rfl⟩

theorem exists_edge (isLevel : IsLevel edge level) {a : α} {n : Nat} (high : n < level a) :
    ∃ b, edge a b ∧ n ≤ level b := by
  by_cases leads : ∃ b, edge a b
  · obtain ⟨b, step, top⟩ := (isLevel.raised a leads).1
    exact ⟨b, step, by omega⟩
  · push Not at leads
    have low := isLevel.ground a leads
    omega

theorem eq_zero_iff (isLevel : IsLevel edge level) {a : α} : level a = 0 ↔ ∀ b, ¬ edge a b := by
  constructor
  · intro low b leads
    have lower := isLevel.lt leads
    omega
  · exact isLevel.ground a

-- Where two levels part, they part further on as well, and on a lower level.
theorem le (isLevel : IsLevel edge level) {other : α → Nat} (isOther : IsLevel edge other) (a : α) :
    level a ≤ other a := by
  induction height : level a using Nat.strong_induction_on generalizing a with
  | _ n ih =>
    by_contra higher
    obtain ⟨b, leads, high⟩ : ∃ b, edge a b ∧ other a ≤ level b := isLevel.exists_edge (by omega)
    have lower := isLevel.lt leads
    have onwards := ih (level b) (by omega) b rfl
    have lower' := isOther.lt leads
    omega

theorem unique (isLevel : IsLevel edge level) {other : α → Nat} (isOther : IsLevel edge other) :
    other = level := by
  funext a
  exact Nat.le_antisymm (isOther.le isLevel a) (isLevel.le isOther a)

end IsLevel

namespace Sorting

variable [DecidableEq α]

theorem exists_ready_releaseAll (s : Sorting α) (items : List α) :
    ∃ new, new.Sublist items ∧ (items.foldl release s).ready = s.ready ++ new := by
  induction items generalizing s with
  | nil => exact ⟨[], .slnil, (List.append_nil _).symm⟩
  | cons a rest ih =>
    obtain ⟨new, listed, joined⟩ := ih (s.release a)
    rw [List.foldl_cons, joined]
    unfold release
    split
    · exact ⟨new, listed.cons a, rfl⟩
    · dsimp only
      split
      · exact ⟨a :: new, listed.cons_cons a, by simp⟩
      · exact ⟨new, listed.cons a, rfl⟩

end Sorting

namespace Graph

variable [DecidableEq α] {g : Graph α} {done : List α} {s : Sorting α} {a b : α}

/-! ## Turns -/

/-- How many elements are done as soon as everything that an element depends on is. -/
def turn (g : Graph α) (done : List α) (a : α) : Nat := above done.idxOf (g.dependenciesOf a)

/-- The turn of an element is earlier, or it is listed earlier for the same turn. -/
def GoesBefore (g : Graph α) (done : List α) (a b : α) : Prop :=
  g.turn done a < g.turn done b ∨
    g.turn done a = g.turn done b ∧ g.elements.idxOf a < g.elements.idxOf b

theorem GoesBefore.turn_le (before : g.GoesBefore done a b) : g.turn done a ≤ g.turn done b :=
  before.elim Nat.le_of_lt fun tied => Nat.le_of_eq tied.1

theorem GoesBefore.asymm (before : g.GoesBefore done a b) : ¬ g.GoesBefore done b a := by
  unfold GoesBefore at *
  omega

theorem lt_turn (edge : a ∈ g.dependenciesOf b) : done.idxOf a < g.turn done b :=
  lt_above done.idxOf edge

theorem turn_le (fulfilled : ∀ b ∈ g.dependenciesOf a, b ∈ done) : g.turn done a ≤ done.length :=
  above_le_iff.mpr fun b edge => List.idxOf_lt_length_of_mem (fulfilled b edge)

theorem turn_append (fulfilled : ∀ b ∈ g.dependenciesOf a, b ∈ done) (more : List α) :
    g.turn (done ++ more) a = g.turn done a :=
  above_congr fun b edge => List.idxOf_append_of_mem (fulfilled b edge)

theorem turn_of_last (new : a ∉ done) (edge : a ∈ g.dependenciesOf b)
    (fulfilled : ∀ c ∈ g.dependenciesOf b, c ∈ done ++ [a]) :
    g.turn (done ++ [a]) b = done.length + 1 := by
  apply Nat.le_antisymm
  · have early := turn_le fulfilled
    rwa [List.length_append, List.length_singleton] at early
  · have last : (done ++ [a]).idxOf a = done.length := by
      simp [List.idxOf_append_of_notMem new]
    exact last ▸ lt_turn edge

-- The edges are gone through element by element.
theorem pairwise_dependentsOf (distinct : g.elements.Nodup) (a : α) :
    (g.dependentsOf a).Pairwise fun b c => g.elements.idxOf b ≤ g.elements.idxOf c := by
  induction g with
  | nil => exact .nil
  | cons entry rest ih =>
    obtain ⟨fresh, distinct'⟩ := List.nodup_cons.mp distinct
    have head : elements (entry :: rest) = entry.1 :: elements rest := rfl
    have apart (b : α) (dependent : b ∈ dependentsOf rest a) : entry.1 ≠ b := by
      rintro rfl
      exact fresh (mem_elements_of_edge ((mem_dependentsOf distinct').mp dependent))
    rw [dependentsOf_cons, List.pairwise_append, head]
    refine ⟨?_, (ih distinct').imp_of_mem ?_, ?_⟩
    · simp
    · intro b c before after ordered
      rw [List.idxOf_cons_ne _ (apart b before), List.idxOf_cons_ne _ (apart c after)]
      exact Nat.succ_le_succ ordered
    · intro b first c _
      obtain ⟨_, _, rfl⟩ := List.mem_map.mp first
      simp

/-! ## The queue is in order -/

/-- What is done and what is ready to be done next stand in the order of their turns. -/
def InTurn (g : Graph α) (s : Sorting α) : Prop := (s.done ++ s.ready).Pairwise (g.GoesBefore s.done)

theorem Counts.fulfilled (counts : Counts g [] s) (member : a ∈ s.done ++ s.ready) :
    ∀ b ∈ g.dependenciesOf a, b ∈ s.done :=
  owed_eq_zero_iff.mp ((List.mem_append.mp member).elim counts.owed_of_done counts.owed_of_ready)

namespace InTurn

theorem start (proper : g.Proper) : InTurn g g.start := by
  have counts := Counts.start proper
  have listed : g.start.ready.Sublist g.elements :=
    counts.keys ▸ List.filter_sublist.map Prod.fst
  have positions := (pairwise_idxOf proper.distinct).sublist listed
  refine positions.imp_of_mem fun {a b} first second before => .inr ⟨?_, before⟩
  -- Nothing is done, so that what is ready depends on nothing.
  have none (c : α) (ready : c ∈ g.start.ready) : g.turn [] c = 0 :=
    Nat.le_zero.mp (turn_le (counts.fulfilled ready))
  exact (none a first).trans (none b second).symm

/-- What the element done next releases has a later turn than all that is in the queue. -/
theorem join (inTurn : InTurn g s) (proper : g.Proper) (counts : Counts g [] s) {rest new : List α}
    (first : s.ready = a :: rest) {t : Sorting α} (after : Counts g [] t)
    (done : t.done = s.done ++ [a]) (ready : t.ready = rest ++ new)
    (told : new.Sublist (g.dependentsOf a)) : InTurn g t := by
  have fresh : a ∉ s.done := ((counts.ready a).mp (first ▸ List.mem_cons_self)).2.1
  have old (b : α) (member : b ∈ s.done ++ s.ready) :
      g.turn t.done b = g.turn s.done b ∧ g.turn s.done b ≤ s.done.length := by
    rw [done]
    exact ⟨turn_append (counts.fulfilled member) [a], turn_le (counts.fulfilled member)⟩
  have edge (b : α) (member : b ∈ new) : a ∈ g.dependenciesOf b :=
    (mem_dependentsOf proper.distinct).mp (told.subset member)
  have whole : t.done ++ t.ready = (s.done ++ s.ready) ++ new := by simp [done, ready, first]
  have late (b : α) (member : b ∈ new) : g.turn t.done b = s.done.length + 1 := by
    have fulfilled := after.fulfilled (whole ▸ List.mem_append_right (s.done ++ s.ready) member)
    rw [done] at fulfilled ⊢
    exact turn_of_last fresh (edge b member) fulfilled
  have distinct := after.distinct
  unfold InTurn at inTurn ⊢
  rw [whole] at distinct ⊢
  refine List.pairwise_append.mpr ⟨?_, ?_, ?_⟩
  · refine inTurn.imp_of_mem fun {b c} before behind ordered => ?_
    unfold GoesBefore at ordered ⊢
    rwa [(old b before).1, (old c behind).1]
  · -- Its dependents are told in the order they are listed in.
    have positions := (pairwise_dependentsOf proper.distinct a).sublist told
    have once := (List.nodup_append.mp distinct).2.1
    refine (positions.and once).imp_of_mem fun {b c} before behind both => .inr ⟨?_, ?_⟩
    · rw [late b before, late c behind]
    · refine Nat.lt_of_le_of_ne both.1 fun same => both.2 ?_
      exact (List.idxOf_inj (mem_elements_of_edge (edge b before))).mp same
  · intro b before c behind
    left
    rw [(old b before).1, late c behind]
    exact Nat.lt_succ_of_le (old b before).2

theorem take (inTurn : InTurn g s) (proper : g.Proper) (counts : Counts g [] s) {rest : List α}
    (first : s.ready = a :: rest) :
    InTurn g ((g.dependentsOf a).foldl .release { s with ready := rest, done := s.done ++ [a] }) := by
  obtain ⟨new, told, joined⟩ := Sorting.exists_ready_releaseAll
    { s with ready := rest, done := s.done ++ [a] } (g.dependentsOf a)
  exact inTurn.join proper counts first (counts.take proper first).releaseAll
    (Sorting.done_releaseAll _ _) joined told

theorem drain (proper : g.Proper) (bound : Nat) (counts : Counts g [] s) (inTurn : InTurn g s) :
    InTurn g (g.drain bound s) := by
  induction bound generalizing s with
  | zero => exact inTurn
  | succ bound ih =>
    unfold Graph.drain
    split
    · exact inTurn
    · next a rest first =>
      exact ih (counts.take proper first).releaseAll (inTurn.take proper counts first)

end InTurn

/-! ## Sorted graphs -/

/-- The elements of a graph in an order that its turns give. -/
structure SortsInto (g : Graph α) (sorted : List α) : Prop where
  perm : sorted.Perm g.elements
  ordered : Ordered (fun a b => b ∈ g.dependenciesOf a) sorted
  inTurn : sorted.Pairwise (g.GoesBefore sorted)

theorem sortsInto_of_sort (proper : g.Proper) {sorted : List α} (sorts : g.sort = .ok sorted) :
    SortsInto g sorted := by
  have counts : Counts g [] (g.drain g.length g.start) := (Counts.start proper).drain proper _
  have empty : (g.drain g.length g.start).ready = [] :=
    (Counts.start proper).ready_drain proper (Nat.le_add_right _ _)
  have inTurn := (InTurn.start proper).drain proper g.length (Counts.start proper)
  unfold InTurn at inTurn
  rw [empty, List.append_nil] at inTurn
  unfold sort at sorts
  dsimp only at sorts
  split at sorts
  · next all =>
    cases sorts
    have perm := counts.perm_of_length all.ge
    exact ⟨perm, counts.ordered_done perm, inTurn⟩
  · cases sorts

/-- Levels as far as paths of bounded length tell. -/
def levelWithin (g : Graph α) : Nat → α → Nat
  | 0, _ => 0
  | bound + 1, a => above (g.levelWithin bound) (g.dependenciesOf a)

namespace SortsInto

variable {sorted : List α} (sortsInto : SortsInto g sorted) {level : α → Nat}
  (isLevel : IsLevel (fun a b => b ∈ g.dependenciesOf a) level)

include sortsInto

-- A path from an element stays in front of it.
theorem levelWithin_eq {bound larger : Nat} (enough : sorted.idxOf a < bound)
    (more : sorted.idxOf a < larger) : g.levelWithin bound a = g.levelWithin larger a := by
  induction bound generalizing larger a with
  | zero => omega
  | succ bound ih =>
    cases larger with
    | zero => omega
    | succ larger =>
      refine above_congr fun b edge => ?_
      have before := sortsInto.ordered a b edge
      exact ih (by omega) (by omega)

theorem exists_isLevel : ∃ level, IsLevel (fun a b => b ∈ g.dependenciesOf a) level := by
  let level := g.levelWithin (sorted.length + 1)
  have step (a : α) : level a = above level (g.dependenciesOf a) := by
    refine above_congr fun b edge => ?_
    have before := sortsInto.ordered a b edge
    have inside : sorted.idxOf a ≤ sorted.length := List.idxOf_le_length
    exact sortsInto.levelWithin_eq (by omega) (by omega)
  refine ⟨level, fun a nothing => ?_, fun a something => ⟨?_, ?_⟩⟩
  · rw [step, ← Nat.le_zero, above_le_iff]
    exact fun b edge => absurd edge (nothing b)
  · obtain ⟨b, edge⟩ := something
    have positive : level a - 1 < above level (g.dependenciesOf a) := by
      have higher := lt_above level edge
      rw [← step] at higher ⊢
      omega
    obtain ⟨c, edge', top⟩ := exists_of_lt_above positive
    have higher := lt_above level edge'
    rw [← step] at higher
    exact ⟨c, edge', by omega⟩
  · rintro _ ⟨b, edge, rfl⟩
    exact (step a).symm ▸ lt_above level edge

theorem idxOf_lt_of_goesBefore (member : a ∈ sorted) (before : g.GoesBefore sorted a b) :
    sorted.idxOf a < sorted.idxOf b := by
  by_contra behind
  rcases Nat.lt_or_eq_of_le (Nat.le_of_not_lt behind) with earlier | same
  · exact before.asymm (of_idxOf_lt sortsInto.inTurn member earlier)
  · have equal := (List.idxOf_inj member).mp same.symm
    subst equal
    exact before.asymm before

/-- Of elements with the same dependencies the one listed first comes first. -/
theorem idxOf_lt_of_same (listed : b ∈ g.elements)
    (before : g.elements.idxOf a < g.elements.idxOf b)
    (same : ∀ c, c ∈ g.dependenciesOf a ↔ c ∈ g.dependenciesOf b) :
    sorted.idxOf a < sorted.idxOf b := by
  have element : a ∈ g.elements :=
    List.idxOf_lt_length_iff.mp (before.trans (List.idxOf_lt_length_of_mem listed))
  apply sortsInto.idxOf_lt_of_goesBefore (sortsInto.perm.mem_iff.mpr element)
  exact .inr ⟨above_eq_of_mem_iff same, before⟩

include isLevel

/-- What an element on a level depends on has been done by the turn of the element, and the last
thing done by then is nowhere lower than the others. -/
theorem level_le_of_turn_le (proper : g.Proper) (before : g.turn sorted a ≤ g.turn sorted b) :
    level a ≤ level b := by
  induction height : level a using Nat.strong_induction_on generalizing a b with
  | _ n ih =>
    by_contra higher
    obtain ⟨c, edge, high⟩ : ∃ c ∈ g.dependenciesOf a, level b ≤ level c :=
      isLevel.exists_edge (by omega)
    have early : sorted.idxOf c < g.turn sorted b := (lt_turn edge).trans_le before
    obtain ⟨last, edge', behind⟩ := exists_of_lt_above early
    have done : last ∈ sorted := sortsInto.perm.mem_iff.mpr (proper.inside b last edge')
    have turns : g.turn sorted c ≤ g.turn sorted last := by
      rcases Nat.lt_or_eq_of_le behind with earlier | same
      · exact (of_idxOf_lt sortsInto.inTurn done earlier).turn_le
      · rw [(List.idxOf_inj (sortsInto.perm.mem_iff.mpr (proper.inside a c edge))).mp same]
    have lower := isLevel.lt edge
    have lower' := isLevel.lt edge'
    have onwards := ih (level c) (by omega) turns rfl
    omega

theorem pairwise_level (proper : g.Proper) : sorted.Pairwise fun a b => level a ≤ level b :=
  sortsInto.inTurn.imp fun before =>
    sortsInto.level_le_of_turn_le isLevel proper before.turn_le

/-- On the lowest level elements stay as they are listed. -/
theorem filter_level_eq_zero (proper : g.Proper) :
    sorted.filter (level · = 0) = g.elements.filter (level · = 0) := by
  have free (a : α) (low : level a = 0) : g.turn sorted a = 0 := by
    rw [← Nat.le_zero]
    exact above_le_iff.mpr fun b edge => absurd edge (isLevel.eq_zero_iff.mp low b)
  have apart : ∀ a b, a ∈ sorted.filter (level · = 0) → b ∈ g.elements.filter (level · = 0) →
      g.elements.idxOf a < g.elements.idxOf b → g.elements.idxOf b < g.elements.idxOf a → a = b :=
    fun _ _ _ _ before behind => absurd before behind.asymm
  refine List.Perm.eq_of_pairwise apart ?_ ?_ (sortsInto.perm.filter _)
  · refine (sortsInto.inTurn.filter _).imp_of_mem fun {a b} first second before => ?_
    have low := free a (by simpa using (List.mem_filter.mp first).2)
    have low' := free b (by simpa using (List.mem_filter.mp second).2)
    unfold GoesBefore at before
    omega
  · exact (pairwise_idxOf proper.distinct).filter _

end SortsInto

end Graph

/-! ## Orders -/

variable {u : TranslationUnit} {d e : Draft} {c : Closure} {sorted : List NodeId}

theorem exists_sortsInto (reached : Reached u d) (ran : order u c d = .ok (.ok sorted, e)) :
    ∃ g, Depicts u d c g ∧ g.SortsInto sorted := by
  obtain ⟨_, _, g, depicts, same⟩ := (meets_sort reached reached.coherent.1).of_ok ran
  refine ⟨g, depicts, Graph.sortsInto_of_sort depicts.proper ?_⟩
  cases sorts : g.sort with
  | ok _ =>
    rw [sorts] at same
    cases same
    rfl
  | error _ =>
    rw [sorts] at same
    cases same

/-- Entities with the same needs, neither of them among these, come after the same entities. -/
theorem edge_congr {id other : NodeId} (settled : id ∈ c.settled) (settled' : other ∈ c.settled)
    (same : ∀ needed ∈ c.settled, Needs u d id needed ↔ Needs u d other needed)
    (own : ¬ Needs u d id id) (apart : ¬ Needs u d id other) (needed : NodeId) :
    Edge u d c id needed ↔ Edge u d c other needed := by
  constructor
  · rintro ⟨_, needs, inside, _⟩
    refine ⟨settled', (same needed inside).mp needs, inside, ?_⟩
    rintro rfl
    exact apart needs
  · rintro ⟨_, needs, inside, _⟩
    have needs' := (same needed inside).mpr needs
    refine ⟨settled, needs', inside, ?_⟩
    rintro rfl
    exact own needs'

/-- An order lists what is settled by levels, of which there is one way to give them. What is on
level zero stays in the order in which it was settled, and so do any two entities with the same
needs in the closure, whether or not what an entity needs of itself is counted among them: then one
that needs another is the only exception. Where nothing settled needs anything else that is, the
order is the one of settling. -/
theorem order_layered (reached : Reached u d) (ran : order u c d = .ok (.ok sorted, e)) :
    ∃ level : NodeId → Nat, IsLevel (Edge u d c) level ∧
      (∀ other, IsLevel (Edge u d c) other → other = level) ∧
      sorted.Perm c.settled.toList ∧
      sorted.Pairwise (fun id other => level id ≤ level other) ∧
      sorted.filter (level · = 0) = c.settled.toList.filter (level · = 0) ∧
      (∀ id, ∀ other ∈ c.settled,
        c.settled.toList.idxOf id < c.settled.toList.idxOf other →
        (∀ needed, Edge u d c id needed ↔ Edge u d c other needed) →
        sorted.idxOf id < sorted.idxOf other) ∧
      (∀ id, ∀ other ∈ c.settled,
        c.settled.toList.idxOf id < c.settled.toList.idxOf other →
        (∀ needed ∈ c.settled, Needs u d id needed ↔ Needs u d other needed) →
        ¬ Needs u d id other → sorted.idxOf id < sorted.idxOf other) ∧
      ((∀ id other, ¬ Edge u d c id other) → sorted = c.settled.toList) := by
  obtain ⟨g, depicts, sortsInto⟩ := exists_sortsInto reached ran
  have proper := depicts.proper
  obtain ⟨level, isLevel⟩ := sortsInto.exists_isLevel
  have rising := sortsInto.pairwise_level isLevel proper
  have ground := sortsInto.filter_level_eq_zero isLevel proper
  have perm := sortsInto.perm
  have ordered := sortsInto.ordered
  rw [depicts.edge_eq] at isLevel ordered
  rw [depicts.elements] at ground perm
  have stable (id other : NodeId) (settled : other ∈ c.settled)
      (before : c.settled.toList.idxOf id < c.settled.toList.idxOf other)
      (same : ∀ needed, Edge u d c id needed ↔ Edge u d c other needed) :
      sorted.idxOf id < sorted.idxOf other := by
    rw [← depicts.elements] at before
    refine sortsInto.idxOf_lt_of_same (depicts.elements ▸ settled) before fun needed => ?_
    rw [depicts.edges, depicts.edges, same]
  refine ⟨level, isLevel, fun other => isLevel.unique, perm, rising, ground, stable, ?_, ?_⟩
  · intro id other settled before same apart
    have settled' : id ∈ c.settled :=
      List.idxOf_lt_length_iff.mp (before.trans (List.idxOf_lt_length_of_mem settled))
    by_cases own : Needs u d id id
    · -- What needs itself is needed by the other as well.
      have different : id ≠ other := by
        rintro rfl
        exact apart own
      exact ordered other id ⟨settled, (same id settled').mp own, settled', different⟩
    · exact stable id other settled before (edge_congr settled' settled same own apart)
  · intro independent
    have low (id : NodeId) : level id = 0 := isLevel.ground id (independent id)
    simpa [low] using ground

/-- `struct Mast {}; struct Rope {}; struct Sail : Mast {}; struct Flag : Mast {};` -/
def rigging : TranslationUnit where
  path := "rigging.h"
  root := ⟨0⟩
  cursors := #[
    { kind := .translationUnit, children := [⟨1⟩, ⟨2⟩, ⟨3⟩, ⟨6⟩] },
    { kind := .structDecl, spelling := "Mast", usr := some "c:Mast", semanticParent := some ⟨0⟩ },
    { kind := .structDecl, spelling := "Rope", usr := some "c:Rope", semanticParent := some ⟨0⟩ },
    { kind := .structDecl, spelling := "Sail", usr := some "c:Sail", semanticParent := some ⟨0⟩,
      children := [⟨4⟩] },
    { kind := .cxxBaseSpecifier, spelling := "Mast", semanticParent := some ⟨3⟩, type := some ⟨0⟩,
      children := [⟨5⟩] },
    { kind := .typeRef, spelling := "Mast", definition := some ⟨1⟩, type := some ⟨0⟩ },
    { kind := .structDecl, spelling := "Flag", usr := some "c:Flag", semanticParent := some ⟨0⟩,
      children := [⟨7⟩] },
    { kind := .cxxBaseSpecifier, spelling := "Mast", semanticParent := some ⟨6⟩, type := some ⟨0⟩,
      children := [⟨8⟩] },
    { kind := .typeRef, spelling := "Mast", definition := some ⟨1⟩, type := some ⟨0⟩ }]
  types := #[{ kind := .record, spelling := "Mast", declaration := some ⟨1⟩ }]

def riggingDraft : Draft := (Session.start rigging).build.draft

/-- The flag and the sail are settled before the mast, and the flag before the sail. -/
def riggingClosure : Closure := { settled := .ofList [⟨6⟩, ⟨2⟩, ⟨3⟩, ⟨1⟩] }

/-- The rope and the mast need nothing and come first, in the order of settling. The flag and the sail
need the same, and the flag comes first. -/
theorem order_layered_rigging :
    ∃ e level, Reached rigging riggingDraft ∧
      order rigging riggingClosure riggingDraft = .ok (.ok [⟨2⟩, ⟨1⟩, ⟨6⟩, ⟨3⟩], e) ∧
      IsLevel (Edge rigging riggingDraft riggingClosure) level ∧
      [⟨2⟩, ⟨1⟩, ⟨6⟩, ⟨3⟩].Pairwise (fun id other => level id ≤ level other) ∧
      [⟨2⟩, ⟨1⟩, ⟨6⟩, ⟨3⟩].filter (level · = 0) = [⟨6⟩, ⟨2⟩, ⟨3⟩, ⟨1⟩].filter (level · = 0) ∧
      Edge rigging riggingDraft riggingClosure ⟨6⟩ ⟨1⟩ ∧
      (∀ needed, Edge rigging riggingDraft riggingClosure ⟨6⟩ needed ↔
        Edge rigging riggingDraft riggingClosure ⟨3⟩ needed) ∧
      [⟨2⟩, ⟨1⟩, ⟨6⟩, ⟨3⟩].idxOf (⟨6⟩ : NodeId) < [⟨2⟩, ⟨1⟩, ⟨6⟩, ⟨3⟩].idxOf (⟨3⟩ : NodeId) := by
  have reached : Reached rigging riggingDraft := .built .standard
  have flag : (⟨6⟩ : NodeId) ∈ riggingClosure.settled := by decide
  have sail : (⟨3⟩ : NodeId) ∈ riggingClosure.settled := by decide
  have mast : Needs rigging riggingDraft ⟨6⟩ ⟨1⟩ := by decide +kernel
  have same : ∀ needed ∈ riggingClosure.settled,
      Needs rigging riggingDraft ⟨6⟩ needed ↔ Needs rigging riggingDraft ⟨3⟩ needed := by
    decide +kernel
  have edges := edge_congr flag sail same (by decide +kernel) (by decide +kernel)
  have computed : (order rigging riggingClosure riggingDraft).toOption.bind
      (fun ended => ended.1.toOption) = some [⟨2⟩, ⟨1⟩, ⟨6⟩, ⟨3⟩] := by decide +kernel
  match ran : order rigging riggingClosure riggingDraft with
  | .error _ =>
    rw [ran] at computed
    cases computed
  | .ok (.error _, _) =>
    rw [ran] at computed
    cases computed
  | .ok (.ok sorted, e) =>
    rw [ran] at computed
    cases computed
    obtain ⟨level, isLevel, _, _, rising, ground, stable, _⟩ := order_layered reached ran
    exact ⟨e, level, reached, rfl, isLevel, rising, ground, ⟨flag, mast, by decide, by decide⟩, edges,
      stable ⟨6⟩ ⟨3⟩ sail (by decide) edges⟩

end Bindery.Binding
