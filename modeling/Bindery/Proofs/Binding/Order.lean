import Bindery.Proofs.Binding.Sorting
import Bindery.Proofs.Binding.Successor

/-! The order of a closure is a topological order of what is settled, or names a ring of needs. It
is asked for any set of settled entities, whether or not they are a closure of anything. -/

set_option autoImplicit false

namespace Bindery.Binding

open Ast (TranslationUnit)

variable {u : TranslationUnit} {d e : Draft} {c : Closure}

/-- One settled entity needs another one. -/
def Edge (u : TranslationUnit) (d : Draft) (c : Closure) (id other : NodeId) : Prop :=
  id ∈ c.settled ∧ Needs u d id other ∧ other ∈ c.settled ∧ other ≠ id

/-- The elements of a graph are what is settled, and its edges are the needs in between. -/
structure Depicts (u : TranslationUnit) (d : Draft) (c : Closure) (g : Graph NodeId) : Prop where
  elements : g.elements = c.settled.toList
  edges : ∀ id other, other ∈ g.dependenciesOf id ↔ Edge u d c id other

namespace Depicts

variable {g : Graph NodeId}

theorem proper (depicts : Depicts u d c g) : g.Proper where
  distinct := depicts.elements ▸ c.settled.nodup
  inside id other needed := by
    rw [depicts.elements]
    exact ((depicts.edges id other).mp needed).2.2.1
  apart id needed := ((depicts.edges id id).mp needed).2.2.2 rfl

theorem edge_eq (depicts : Depicts u d c g) :
    (fun id other => other ∈ g.dependenciesOf id) = Edge u d c := by
  funext id other
  exact propext (depicts.edges id other)

end Depicts

/-- The two ends of sorting. Names along a ring are those of the session that is asked. -/
inductive Outcome (u : TranslationUnit) (d : Draft) (c : Closure) :
    Except BindError (List NodeId) → Prop where
  | sorted {sorted : List NodeId} (perm : sorted.Perm c.settled.toList)
      (ordered : Ordered (Edge u d c) sorted) : Outcome u d c (.ok sorted)
  | ring {ring : List NodeId} (isRing : IsRing (Edge u d c) ring)
      (settled : ∀ id ∈ ring, id ∈ c.settled) :
      Outcome u d c (.error (.dependencyCycle (ring.map d.model.fullName)))

theorem IsRing.exists_edge {α : Type} {edge : α → α → Prop} {ring : List α}
    (isRing : IsRing edge ring) {a : α} (member : a ∈ ring) : ∃ b, edge a b := by
  obtain ⟨closed, _, long, chain⟩ := isRing
  obtain ⟨front, back, rfl⟩ := List.append_of_mem member
  cases back with
  | cons b rest => exact ⟨b, (List.isChain_append_cons_cons.mp chain).2.1⟩
  | nil =>
    match front, long with
    | first :: rest, long =>
      -- The last of a ring is the first again.
      have same : some first = some a := closed.trans List.getLast?_concat
      cases same
      cases rest with
      | nil => simp at long
      | cons b rest => exact ⟨b, (List.isChain_cons_cons.mp chain).1⟩

section

variable (reached : Reached u d) (coherent : Coherent u d.model [] e.model)

include reached coherent

theorem meets_dependencyGraph :
    Meets u d.model e (dependencyGraph u c) (Depicts u d c) := by
  let inside (id : NodeId) (needed : OrderedSet NodeId) : List NodeId :=
    needed.toList.filter fun other => other ≠ id && other ∈ c.settled
  let entryOf (id : NodeId) (entry : NodeId × List NodeId) : Prop :=
    ∃ needed, Meaning.needs? u d.model id = some needed ∧ entry = (id, inside id needed)
  have each : Meets u d.model e (dependencyGraph u c) (List.Forall₂ entryOf c.settled.toList) := by
    refine Meets.mapM _ coherent fun id _ e' coherent' _ => ?_
    refine (meets_dependencies coherent' id).bind ?_
    intro needed e'' coherent'' _ means
    exact .pure coherent'' ⟨needed, means, rfl⟩
  refine each.weaken fun g entries => ?_
  have elements : g.elements = c.settled.toList := by
    clear each
    generalize c.settled.toList = items at entries
    induction entries with
    | nil => rfl
    | cons right _ ih =>
      obtain ⟨_, _, rfl⟩ := right
      exact congrArg _ ih
  have distinct : g.elements.Nodup := elements ▸ c.settled.nodup
  have listed (id : NodeId) (settled : id ∈ c.settled) :
      ∃ needed, Meaning.needs? u d.model id = some needed ∧
        g.dependenciesOf id = inside id needed := by
    have element : id ∈ g.elements := elements ▸ settled
    obtain ⟨entry, present, rfl⟩ := List.mem_map.mp element
    obtain ⟨_, _, needed, means, rfl⟩ := exists_left_of_mem entries present
    exact ⟨needed, means, Graph.dependenciesOf_of_mem distinct present⟩
  refine ⟨elements, fun id other => ?_⟩
  by_cases settled : id ∈ c.settled
  · obtain ⟨needed, means, rest⟩ := listed id settled
    have same : Needs u d id other ↔ other ∈ needed := by
      rw [needs_iff reached, means]
      simp
    simp [rest, inside, Edge, settled, same, OrderedSet.mem_def, and_comm]
  · have absent : id ∉ g.elements := by
      rw [elements]
      exact settled
    have none : g.dependenciesOf id = [] := Graph.dependenciesOf_eq_nil absent
    simp [none, Edge, settled]

omit coherent in
-- What needs something was in the arena before any marker made since, so that names stay.
theorem Depicts.mapError_sort_eq {g : Graph NodeId} (depicts : Depicts u d c g) {n : Model}
    (grown : d.model.Extends n) :
    (g.sort.mapError fun ring => BindError.dependencyCycle (ring.map n.fullName)) =
      g.sort.mapError fun ring => .dependencyCycle (ring.map d.model.fullName) := by
  have cases_ := Graph.sort_cases depicts.proper
  rw [depicts.edge_eq] at cases_
  rcases cases_ with ⟨sorted, sorts, _⟩ | ⟨ring, sorts, isRing, _⟩
  · rw [sorts]
    rfl
  · have names : ring.map n.fullName = ring.map d.model.fullName := by
      apply List.map_congr_left
      intro id member
      obtain ⟨other, edge⟩ := isRing.exists_edge member
      exact grown.fullName_eq reached.coherent.2 (index_lt_of_needs edge.2.1)
    rw [sorts]
    exact congrArg (fun names => Except.error (BindError.dependencyCycle names)) names

/-- An order is what sorting the graph of needs comes to. -/
theorem meets_sort : Meets u d.model e (order u c) fun answer => ∃ g, Depicts u d c g ∧
    answer = g.sort.mapError fun ring => .dependencyCycle (ring.map d.model.fullName) := by
  unfold order
  refine (meets_dependencyGraph reached coherent).bind ?_
  intro g e' coherent' _ depicts
  apply Meets.model
  exact .pure coherent' ⟨g, depicts, depicts.mapError_sort_eq reached coherent'.grown⟩

theorem meets_order : Meets u d.model e (order u c) (Outcome u d c) := by
  refine (meets_sort reached coherent).weaken ?_
  rintro _ ⟨g, depicts, rfl⟩
  have cases_ := Graph.sort_cases depicts.proper
  rw [depicts.edge_eq, depicts.elements] at cases_
  rcases cases_ with ⟨sorted, sorts, perm, ordered⟩ | ⟨ring, sorts, isRing, settled⟩
  · rw [sorts]
    exact .sorted perm ordered
  · rw [sorts]
    exact .ring isRing settled

end

/-- Where every question for dependencies ends, so does the question for an order. Without a ring
among the settled entities the answer has each of them once and after all it needs; otherwise it
names such a ring, from its first element to the same again. -/
theorem order_topological (reached : Reached u d) (ends : NeedsEnd u d) (c : Closure) :
    (Acyclic (Edge u d c) →
      ∃ sorted e, order u c d = .ok (.ok sorted, e) ∧ sorted.Nodup ∧
        (∀ id, id ∈ sorted ↔ id ∈ c.settled) ∧
        ∀ id other, Edge u d c id other → sorted.idxOf other < sorted.idxOf id) ∧
    (¬ Acyclic (Edge u d c) →
      ∃ (ring : List NodeId) (e : Draft),
        order u c d = .ok (.error (.dependencyCycle (ring.map d.model.fullName)), e) ∧
        3 ≤ ring.length ∧ ring.head? = ring.getLast? ∧ ring.dropLast.Nodup ∧
        (∀ id ∈ ring, id ∈ c.settled) ∧ ring.IsChain (Edge u d c)) := by
  obtain ⟨outcome, e, ran, _, _, right⟩ :=
    (meets_order reached reached.coherent.1).exists_of_halting (ends.halting reached)
  cases right with
  | sorted perm ordered =>
    refine ⟨fun _ => ⟨_, e, ran, ?_, ?_, ordered⟩, fun cyclic => absurd ordered.acyclic cyclic⟩
    · exact perm.nodup_iff.mpr c.settled.nodup
    · exact fun id => perm.mem_iff
  | ring isRing settled =>
    exact ⟨fun acyclic => absurd acyclic isRing.not_acyclic, fun _ =>
      ⟨_, e, ran, isRing.long, isRing.closed, isRing.distinct, settled, isRing.chain⟩⟩

/-- A record is bound after its base. -/
theorem order_topological_shapes :
    Reached shapes shapesDraft ∧ NeedsEnd shapes shapesDraft ∧
      Acyclic (Edge shapes shapesDraft { settled := .ofList [⟨2⟩, ⟨1⟩] }) ∧
      ∃ e, order shapes { settled := .ofList [⟨2⟩, ⟨1⟩] } shapesDraft = .ok (.ok [⟨1⟩, ⟨2⟩], e) := by
  have ends : NeedsEnd shapes shapesDraft := by decide +kernel
  have both := order_topological reached_shapes ends { settled := .ofList [⟨2⟩, ⟨1⟩] }
  have computed : (order shapes { settled := .ofList [⟨2⟩, ⟨1⟩] } shapesDraft).toOption.bind
      (fun ended => ended.1.toOption) = some [⟨1⟩, ⟨2⟩] := by decide +kernel
  have acyclic : Acyclic (Edge shapes shapesDraft { settled := .ofList [⟨2⟩, ⟨1⟩] }) := by
    by_contra cyclic
    obtain ⟨ring, e, ran, _⟩ := both.2 cyclic
    rw [ran] at computed
    cases computed
  obtain ⟨sorted, e, ran, _⟩ := both.1 acyclic
  rw [ran] at computed
  cases computed
  exact ⟨reached_shapes, ends, acyclic, e, ran⟩

end Bindery.Binding
