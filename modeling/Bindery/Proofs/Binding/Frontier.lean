import Bindery.Proofs.Binding.Successor
import Mathlib.Data.Finset.Card

/-! What a closure in the making keeps true. Everything met is queued, settled or left out, nothing
is in two of these places, and no entity comes back to the queue, so that the queue runs empty. -/

set_option autoImplicit false

namespace Bindery.Binding

open Ast (TranslationUnit)

variable (u : TranslationUnit) (p : Policy) (d : Draft) (roots : List NodeId)

/-- What has to be settled: the roots that nothing blocks, and with every settled entity what it
brings in and nothing blocks. -/
inductive Wanted : NodeId → Prop where
  | root {id : NodeId} (member : id ∈ roots) (free : ∀ veto, ¬ Blocked u p d id veto) : Wanted id
  | next {id other : NodeId} (before : Wanted id) (edge : Successor u p d id other)
      (free : ∀ veto, ¬ Blocked u p d other veto) : Wanted other

/-- A root, or brought in by something settled. -/
def Met (settled : OrderedSet NodeId) (id : NodeId) : Prop :=
  id ∈ roots ∨ ∃ other ∈ settled, Successor u p d other id

def Frontier.Covers (f : Frontier) (id : NodeId) : Prop :=
  id ∈ f.queue ∨ id ∈ f.closure.settled ∨ ∃ veto, f.closure.veto? id = some veto

/-- The invariant of the loop. What the current entity brings in need not be covered yet. -/
structure Progress (current : Option NodeId) (f : Frontier) : Prop where
  inside : ∀ id ∈ f.queue, id.index < d.model.size
  waiting : ∀ id ∈ f.queue, id ∉ f.closure.settled ∧ f.closure.veto? id = none
  met : ∀ id ∈ f.queue, Met u p d roots f.closure.settled id
  wanted : ∀ id ∈ f.closure.settled, Wanted u p d roots id
  refused : ∀ id veto, f.closure.veto? id = some veto →
    Blocked u p d id veto ∧ Met u p d roots f.closure.settled id
  roots_covered : ∀ id ∈ roots, f.Covers id
  successors_covered : ∀ id ∈ f.closure.settled, some id ≠ current →
    ∀ other, Successor u p d id other → f.Covers other

/-- A later frontier with the same entities settled and no fewer met. -/
structure Frontier.Grows (f g : Frontier) : Prop where
  settled : g.closure.settled = f.closure.settled
  queue : ∀ id ∈ f.queue, id ∈ g.queue
  vetoed : ∀ id veto, f.closure.veto? id = some veto → g.closure.veto? id = some veto

def Frontier.leaveOut (f : Frontier) (id : NodeId) (veto : Veto) : Frontier :=
  { f with closure := { f.closure with vetoed := f.closure.vetoed.put id veto } }

variable {u p d roots}

namespace Frontier

variable {f g h : Frontier} {id other : NodeId} {veto : Veto}

theorem Grows.refl (f : Frontier) : f.Grows f := ⟨rfl, fun _ member => member, fun _ _ known => known⟩

theorem Grows.trans (first : f.Grows g) (second : g.Grows h) : f.Grows h :=
  ⟨second.settled.trans first.settled, fun id member => second.queue id (first.queue id member),
    fun id veto known => second.vetoed id veto (first.vetoed id veto known)⟩

theorem Covers.grows (grown : f.Grows g) (covered : f.Covers id) : g.Covers id := by
  rcases covered with queued | settled | ⟨veto, known⟩
  · exact .inl (grown.queue id queued)
  · exact .inr (.inl (grown.settled ▸ settled))
  · exact .inr (.inr ⟨veto, grown.vetoed id veto known⟩)

theorem veto?_leaveOut :
    (f.leaveOut id veto).closure.veto? other =
      if other = id then some veto else f.closure.veto? other :=
  OrderedMap.get?_put ..

theorem grows_leaveOut (unknown : f.closure.veto? id = none) : f.Grows (f.leaveOut id veto) := by
  refine ⟨rfl, fun _ member => member, fun other before known => ?_⟩
  have apart : other ≠ id := fun same => by
    rw [same, unknown] at known
    cases known
  rw [veto?_leaveOut, if_neg apart]
  exact known

theorem grows_insert (f : Frontier) (id : NodeId) :
    f.Grows { f with queue := f.queue.insert id } :=
  ⟨rfl, fun _ member => OrderedSet.mem_insert.mpr (.inl member), fun _ _ known => known⟩

end Frontier

theorem Met.settle {settled : OrderedSet NodeId} {id other : NodeId}
    (met : Met u p d roots settled other) : Met u p d roots (settled.insert id) other := by
  rcases met with root | ⟨before, member, edge⟩
  · exact .inl root
  · exact .inr ⟨before, OrderedSet.mem_insert.mpr (.inl member), edge⟩

namespace Progress

variable {f : Frontier} {current : Option NodeId} {id : NodeId} {veto : Veto}

theorem leaveOut (progress : Progress u p d roots current f) (unqueued : id ∉ f.queue)
    (unknown : f.closure.veto? id = none) (blocked : Blocked u p d id veto)
    (met : Met u p d roots f.closure.settled id) :
    Progress u p d roots current (f.leaveOut id veto) := by
  have grown : f.Grows (f.leaveOut id veto) := Frontier.grows_leaveOut unknown
  refine ⟨progress.inside, ?_, progress.met, progress.wanted, ?_, ?_, ?_⟩
  · intro other queued
    have apart : other ≠ id := fun same => unqueued (same ▸ queued)
    rw [Frontier.veto?_leaveOut, if_neg apart]
    exact progress.waiting other queued
  · intro other reason known
    rw [Frontier.veto?_leaveOut] at known
    split at known
    · next same =>
      cases known
      subst same
      exact ⟨blocked, met⟩
    · exact progress.refused other reason known
  · exact fun other member => (progress.roots_covered other member).grows grown
  · exact fun other settled apart next edge =>
      (progress.successors_covered other settled apart next edge).grows grown

theorem push (progress : Progress u p d roots current f) (inside : id.index < d.model.size)
    (unsettled : id ∉ f.closure.settled) (unknown : f.closure.veto? id = none)
    (met : Met u p d roots f.closure.settled id) :
    Progress u p d roots current { f with queue := f.queue.insert id } := by
  have grown := Frontier.grows_insert f id
  refine ⟨?_, ?_, ?_, progress.wanted, progress.refused, ?_, ?_⟩
  · intro other queued
    rcases OrderedSet.mem_insert.mp queued with earlier | rfl
    · exact progress.inside other earlier
    · exact inside
  · intro other queued
    rcases OrderedSet.mem_insert.mp queued with earlier | rfl
    · exact progress.waiting other earlier
    · exact ⟨unsettled, unknown⟩
  · intro other queued
    rcases OrderedSet.mem_insert.mp queued with earlier | rfl
    · exact progress.met other earlier
    · exact met
  · exact fun other member => (progress.roots_covered other member).grows grown
  · exact fun other settled apart next edge =>
      (progress.successors_covered other settled apart next edge).grows grown

section

variable {rest : OrderedSet NodeId}

-- What is left of a queue does not hold the entity taken from it.
theorem mem_queue_iff (taken : f.queue.pop? = some (id, rest)) (other : NodeId) :
    other ∈ f.queue ↔ other ∈ rest ∨ other = id := by
  rw [OrderedSet.mem_def, OrderedSet.toList_of_pop? taken, List.mem_append, List.mem_singleton]
  rfl

theorem not_mem_rest (taken : f.queue.pop? = some (id, rest)) : id ∉ rest := by
  intro member
  have distinct := f.queue.nodup
  rw [OrderedSet.toList_of_pop? taken] at distinct
  exact (List.nodup_append.mp distinct).2.2 id member id (List.mem_singleton.mpr rfl) rfl

theorem popBlocked (progress : Progress u p d roots none f)
    (taken : f.queue.pop? = some (id, rest)) (blocked : Blocked u p d id veto) :
    Progress u p d roots none (Frontier.leaveOut { f with queue := rest } id veto) := by
  have queued : id ∈ f.queue := (mem_queue_iff taken id).mpr (.inr rfl)
  have covers {other : NodeId} (covered : f.Covers other) :
      (Frontier.leaveOut { f with queue := rest } id veto).Covers other := by
    by_cases same : other = id
    -- It was covered by its place in the queue, and is by its veto now.
    · exact .inr (.inr ⟨veto, by rw [Frontier.veto?_leaveOut, if_pos same]⟩)
    · rcases covered with waiting | settled | ⟨reason, known⟩
      · exact .inl (((mem_queue_iff taken other).mp waiting).resolve_right same)
      · exact .inr (.inl settled)
      · exact .inr (.inr ⟨reason, by rw [Frontier.veto?_leaveOut, if_neg same]; exact known⟩)
  refine ⟨?_, ?_, ?_, progress.wanted, ?_, ?_, ?_⟩
  · exact fun other member => progress.inside other ((mem_queue_iff taken other).mpr (.inl member))
  · intro other member
    -- The queue holds nothing twice.
    have apart : other ≠ id := fun same => not_mem_rest taken (same ▸ member)
    rw [Frontier.veto?_leaveOut, if_neg apart]
    exact progress.waiting other ((mem_queue_iff taken other).mpr (.inl member))
  · exact fun other member => progress.met other ((mem_queue_iff taken other).mpr (.inl member))
  · intro other reason known
    rw [Frontier.veto?_leaveOut] at known
    split at known
    · next same =>
      cases known
      subst same
      exact ⟨blocked, progress.met other queued⟩
    · exact progress.refused other reason known
  · exact fun other member => covers (progress.roots_covered other member)
  · exact fun other settled apart next edge =>
      covers (progress.successors_covered other settled apart next edge)

-- Taking a free entity from the queue and settling it. What it brings in is still to come.
theorem popFree (progress : Progress u p d roots none f)
    (taken : f.queue.pop? = some (id, rest)) (free : ∀ veto, ¬ Blocked u p d id veto) :
    Progress u p d roots (some id) { queue := rest, closure := f.closure.settle id } := by
  have queued : id ∈ f.queue := (mem_queue_iff taken id).mpr (.inr rfl)
  have wanted : Wanted u p d roots id := by
    rcases progress.met id queued with root | ⟨before, member, edge⟩
    · exact .root root free
    · exact .next (progress.wanted before member) edge free
  have covers {other : NodeId} (covered : f.Covers other) :
      Frontier.Covers { queue := rest, closure := f.closure.settle id } other := by
    rcases covered with waiting | settled | known
    · rcases (mem_queue_iff taken other).mp waiting with member | rfl
      · exact .inl member
      · exact .inr (.inl (OrderedSet.mem_insert.mpr (.inr rfl)))
    · exact .inr (.inl (OrderedSet.mem_insert.mpr (.inl settled)))
    · exact .inr (.inr known)
  refine ⟨?_, ?_, ?_, ?_, ?_, ?_, ?_⟩
  · exact fun other member => progress.inside other ((mem_queue_iff taken other).mpr (.inl member))
  · intro other member
    obtain ⟨unsettled, unknown⟩ :=
      progress.waiting other ((mem_queue_iff taken other).mpr (.inl member))
    refine ⟨fun settled => ?_, unknown⟩
    rcases OrderedSet.mem_insert.mp settled with earlier | rfl
    · exact unsettled earlier
    · exact not_mem_rest taken member
  · exact fun other member =>
      (progress.met other ((mem_queue_iff taken other).mpr (.inl member))).settle
  · intro other settled
    rcases OrderedSet.mem_insert.mp settled with earlier | rfl
    · exact progress.wanted other earlier
    · exact wanted
  · intro other reason known
    obtain ⟨blocked, met⟩ := progress.refused other reason known
    exact ⟨blocked, met.settle⟩
  · exact fun other member => covers (progress.roots_covered other member)
  · intro other settled apart next edge
    rcases OrderedSet.mem_insert.mp settled with earlier | rfl
    · exact covers (progress.successors_covered other earlier nofun next edge)
    -- The entity just settled is the current one.
    · exact absurd rfl apart

end

end Progress

end Bindery.Binding
