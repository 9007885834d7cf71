import Bindery.Proofs.History

/-! A stronger policy settles less. What it lets through was let through before, and so was the way
that leads there. What entities need is no matter of policy, so that a ring among what is settled was
a ring before as well. -/

set_option autoImplicit false

namespace Bindery.Binding

open Ast (TranslationUnit)
open Relation (TransGen)

/-- A policy that refuses at least what another one does. Whether a type has a caster is compared for
the nodes of a model, since casters are named or detected. -/
structure Policy.Strengthens (q : Policy) (m : Model) (p : Policy) : Prop where
  excluded : ∀ key ∈ p.excluded, key ∈ q.excluded
  casters : ∀ id, id.index < m.size → p.isCaster m id → q.isCaster m id
  drops : p.dropsUnresolvedBases → q.dropsUnresolvedBases

/-- A draft of the same session, after further questions or none. -/
def Later (u : TranslationUnit) (d e : Draft) : Prop :=
  ∃ asked, Question.askAll u asked d = .ok ((), e)

variable {u : TranslationUnit} {d e : Draft} {p q : Policy} {roots : List NodeId}

theorem Later.refl (u : TranslationUnit) (d : Draft) : Later u d d := ⟨[], rfl⟩

theorem Later.coherent (later : Later u d e) (reached : Reached u d) :
    Coherent u d.model [] e.model := by
  obtain ⟨asked, ran⟩ := later
  exact (keeps_askAll asked d reached.coherent.1 () e ran).1

namespace Policy.Strengthens

/-- Nothing has to be asked about a model where the casters are listed. -/
theorem of_listed (m : Model) (excluded : ∀ key ∈ p.excluded, key ∈ q.excluded)
    (named : ∀ name ∈ p.casters, name ∈ q.casters)
    (detected : ∀ id, p.detected.contains id → q.detected.contains id)
    (drops : p.dropsUnresolvedBases → q.dropsUnresolvedBases) : q.Strengthens m p := by
  refine ⟨excluded, fun id _ caster => ?_, drops⟩
  simp only [isCaster, Bool.or_eq_true, decide_eq_true_eq] at caster ⊢
  exact caster.imp (detected id) (named _)

variable {m : Model} {id : NodeId}

theorem excludes (stronger : q.Strengthens m p) (excluded : p.excludes m id) : q.excludes m id := by
  have key (name : String) : p.excludesKey name → q.excludesKey name := by
    simp only [excludesKey, decide_eq_true_eq]
    exact stronger.excluded name
  simp only [Policy.excludes, Bool.or_eq_true, Bool.and_eq_true] at excluded ⊢
  exact excluded.imp (key _) (And.imp_right (key _))

theorem shows (stronger : q.Strengthens m p) (shown : q.shows m id) : p.shows m id := by
  simp only [Policy.shows, Bool.and_eq_true, Bool.not_eq_true', ← Bool.not_eq_true] at shown ⊢
  exact ⟨shown.1, fun excluded => shown.2 (stronger.excludes excluded)⟩

end Policy.Strengthens

/-- Something blocks an entity if and only if one of the reasons applies, whichever comes first. -/
theorem exists_blocked_iff {id : NodeId} :
    (∃ veto, Blocked u p d id veto) ↔ p.isCaster d.model id ∨ p.excludes d.model id ∨
      (p.dropsUnresolvedBases ∧ (d.model.kind id).isRecord ∧ LacksBase u d id) := by
  constructor
  · rintro ⟨veto, blocked⟩
    cases veto with
    | caster => exact .inl blocked
    | excluded => exact .inr (.inl blocked.2)
    | unresolvedBase => exact .inr (.inr blocked.2)
  · intro reasons
    by_cases caster : p.isCaster d.model id
    · exact ⟨.caster, caster⟩
    · by_cases excluded : p.excludes d.model id
      · exact ⟨.excluded, caster, excluded⟩
      · exact ⟨.unresolvedBase, ⟨caster, excluded⟩,
          (reasons.resolve_left caster).resolve_left excluded⟩

section

variable (stronger : q.Strengthens d.model p) {id other : NodeId}

include stronger

theorem free_of_strengthens (inside : id.index < d.model.size)
    (free : ∀ veto, ¬ Blocked u q d id veto) (veto : Veto) : ¬ Blocked u p d id veto := by
  intro blocked
  have refused : ∃ veto, Blocked u q d id veto := by
    rw [exists_blocked_iff]
    exact (exists_blocked_iff.mp ⟨veto, blocked⟩).imp (stronger.casters id inside)
      (.imp stronger.excludes (And.imp_left stronger.drops))
  obtain ⟨veto', blocked'⟩ := refused
  exact free veto' blocked'

-- Of what an entity brings in, only the part that shows depends on the policy.
theorem successor_of_strengthens (edge : Successor u q d id other) : Successor u p d id other := by
  obtain ⟨bindable, needs | ⟨isRecord, inner⟩⟩ := edge
  · exact ⟨bindable, .inl needs⟩
  · refine ⟨bindable, .inr ⟨isRecord, ?_⟩⟩
    rcases inner with nested | ⟨member, planned, needs⟩
    · exact .inl ⟨nested.1, stronger.shows nested.2⟩
    · exact .inr ⟨member, ⟨planned.1, stronger.shows planned.2⟩, needs⟩

theorem wanted_of_strengthens (known : ∀ id ∈ roots, id.index < d.model.size)
    (wanted : Wanted u q d roots id) : Wanted u p d roots id := by
  induction wanted with
  | @root id member free =>
    exact .root member (free_of_strengthens stronger (known id member) free)
  | @next id other _ edge free ih =>
    exact .next ih (successor_of_strengthens stronger edge)
      (free_of_strengthens stronger (index_lt_of_isBindable edge.1) free)

end

theorem Acyclic.mono {α : Type} {edge edge' : α → α → Prop} (acyclic : Acyclic edge)
    (fewer : ∀ a b, edge' a b → edge a b) : Acyclic edge' :=
  fun a around => acyclic a (TransGen.mono fewer a a around)

-- An edge asks nothing of a closure but that both of its ends be settled.
theorem Edge.mono {c c' : Closure} (fewer : ∀ id ∈ c'.settled, id ∈ c.settled) {id other : NodeId}
    (edge : Edge u d c' id other) : Edge u d c id other :=
  ⟨fewer id edge.1, edge.2.1, fewer other edge.2.2.1, edge.2.2.2⟩

theorem order_succeeds_iff (reached : Reached u d) (ends : NeedsEnd u d) (c : Closure) :
    (∃ sorted, (order u c).answer? d = some (.ok sorted)) ↔ Acyclic (Edge u d c) := by
  obtain ⟨outcome, e, ran, _, _, right⟩ :=
    (meets_order (c := c) reached reached.coherent.1).exists_of_halting (ends.halting reached)
  have answered : (order u c).answer? d = some outcome := by
    simp [Query.answer?, ran, Except.toOption]
  rw [answered]
  cases right with
  | sorted _ ordered => exact ⟨fun _ => ordered.acyclic, fun _ => ⟨_, rfl⟩⟩
  | ring isRing _ =>
    refine ⟨?_, fun acyclic => absurd acyclic isRing.not_acyclic⟩
    rintro ⟨sorted, same⟩
    cases same

/-- Under a stronger policy the closure of the same roots settles nothing that it did not settle
before, and if what was settled before can be put into an order, so can what is settled now. It makes
no difference which other questions come in between. -/
theorem closure_shrinks (reached : Reached u d) (ends : NeedsEnd u d)
    (stronger : q.Strengthens d.model p) (roots : List NodeId)
    (known : ∀ id ∈ roots, id.index < d.model.size) :
    ∃ c c' : Closure,
      (∀ e, Later u d e →
        (closure u p roots).answer? e = some c ∧ (closure u q roots).answer? e = some c') ∧
      (∀ id ∈ c'.settled, id ∈ c.settled) ∧
      ∀ e sorted, Later u d e → (order u c).answer? e = some (.ok sorted) →
        ∃ sorted', ∀ e', Later u d e' → (order u c').answer? e' = some (.ok sorted') := by
  have runs (policy : Policy) : ∃ c, (closure u policy roots).answer? d = some c ∧
      IsClosure u policy d roots c := by
    obtain ⟨c, e, ran, _, _, spec⟩ :=
      (meets_closure (p := policy) reached known).exists_of_halting (ends.halting reached)
    exact ⟨c, by simp [Query.answer?, ran, Except.toOption], spec⟩
  have alike {e : Draft} (later : Later u d e) : AnswersAlike u d e :=
    answersAlike reached (later.coherent reached)
  obtain ⟨c, answered, spec⟩ := runs p
  obtain ⟨c', answered', spec'⟩ := runs q
  have fewer : ∀ id ∈ c'.settled, id ∈ c.settled := by
    intro id settled
    rw [spec.mem_settled_iff]
    exact wanted_of_strengthens stronger known (spec'.mem_settled_iff.mp settled)
  refine ⟨c, c', fun e later => ?_, fewer, fun e sorted later orders => ?_⟩
  · exact ⟨((alike later).closure p roots known).trans answered,
      ((alike later).closure q roots known).trans answered'⟩
  · rw [(alike later).order c] at orders
    have acyclic := (order_succeeds_iff reached ends c).mp ⟨sorted, orders⟩
    obtain ⟨sorted', orders'⟩ :=
      (order_succeeds_iff reached ends c').mpr (acyclic.mono fun _ _ => Edge.mono fewer)
    exact ⟨sorted', fun e' later' => ((alike later').order c').trans orders'⟩

/-- A record and its base. -/
def shapesClosure : Closure := { settled := .ofList [⟨2⟩, ⟨1⟩] }

/-- The record without its base, which is refused. -/
def baselessClosure : Closure := { settled := .ofList [⟨2⟩], vetoed := .ofList [(⟨1⟩, .excluded)] }

/-- The base of a record is excluded as well. Then the record alone is settled, and the order is that
of the two without the base. -/
theorem closure_shrinks_shapes :
    Reached shapes shapesDraft ∧ NeedsEnd shapes shapesDraft ∧
      Policy.Strengthens { excluded := ["Base"] } shapesDraft.model {} ∧
      (closure shapes {} [⟨2⟩]).answer? shapesDraft = some shapesClosure ∧
      (closure shapes { excluded := ["Base"] } [⟨2⟩]).answer? shapesDraft = some baselessClosure ∧
      (∀ id ∈ baselessClosure.settled, id ∈ shapesClosure.settled) ∧
      (order shapes shapesClosure).answer? shapesDraft = some (.ok [⟨1⟩, ⟨2⟩]) ∧
      (order shapes baselessClosure).answer? shapesDraft = some (.ok [⟨2⟩]) := by
  have ends : NeedsEnd shapes shapesDraft := by decide +kernel
  have stronger : Policy.Strengthens { excluded := ["Base"] } shapesDraft.model {} :=
    .of_listed _ nofun nofun (fun _ detected => detected) nofun
  have known : ∀ id ∈ [(⟨2⟩ : NodeId)], id.index < shapesDraft.model.size := by decide +kernel
  obtain ⟨c, c', answered, fewer, orders⟩ :=
    closure_shrinks reached_shapes ends stronger [⟨2⟩] known
  obtain ⟨closed, closed'⟩ := answered _ (.refl ..)
  have settles : (closure shapes {} [⟨2⟩]).answer? shapesDraft = some shapesClosure := by
    decide +kernel
  have settles' : (closure shapes { excluded := ["Base"] } [⟨2⟩]).answer? shapesDraft =
      some baselessClosure := by decide +kernel
  cases closed.symm.trans settles
  cases closed'.symm.trans settles'
  have sorts : (order shapes shapesClosure).answer? shapesDraft = some (.ok [⟨1⟩, ⟨2⟩]) := by
    decide +kernel
  obtain ⟨sorted, sorts'⟩ := orders _ _ (.refl ..) sorts
  have alone : sorted = [⟨2⟩] := by
    have computed : (order shapes baselessClosure).answer? shapesDraft = some (.ok [⟨2⟩]) := by
      decide +kernel
    cases (sorts' _ (.refl ..)).symm.trans computed
    rfl
  exact ⟨reached_shapes, ends, stronger, closed, closed', fewer, sorts, alone ▸ sorts' _ (.refl ..)⟩

end Bindery.Binding
