import Bindery.Model.Resolution
import Bindery.Proofs.Model.Coherence
import Bindery.Proofs.Strict.Build

/-! Strict questions. One that looks up what is not there has no result, which is not the same as a
search without an end. A strict question succeeds for a plain one if it has its result on every
ranged draft, and leaves the draft ranged. -/

set_option autoImplicit false

namespace Bindery

open Ast (TranslationUnit)

/-- A question that has no result where a look-up has none. -/
abbrev Guarded := StateT Draft (ExceptT Endless Option)

namespace Guarded

variable {α : Type}

/-- A plain question that looks nothing up. -/
def ask (question : Query α) : Guarded α := fun d => some (question d)

def model : Guarded Model := ask Query.model

def report (diagnostic : Diagnostic) : Guarded Unit := ask (Query.report diagnostic)

def marker (spelling : String) : Guarded NodeId := ask (Query.marker spelling)

def update (id : NodeId) (change : Node → Node) : Guarded Unit := do
  let m ← model
  let _ ← m.node? id
  ask (Query.update id change)

variable {β : Type} {strict : Guarded α} {next : α → Guarded β} {d : Draft}

theorem bind_ok {answer : α} {e : Draft} (ran : strict d = some (.ok (answer, e))) :
    (strict >>= next) d = next answer e := by
  change Option.bind (strict d) _ = _
  rw [ran]
  rfl

theorem bind_error {endless : Endless} (ran : strict d = some (.error endless)) :
    (strict >>= next) d = some (.error endless) := by
  change Option.bind (strict d) _ = _
  rw [ran]
  rfl

@[simp] theorem lift_some_bind (value : α) (next : α → Guarded β) :
    (liftM (some value) : Guarded α) >>= next = next value := rfl

end Guarded

theorem Model.Ranged.mark {u : TranslationUnit} {m : Model} (ranged : m.Ranged u)
    (spelling : String) : Model.Ranged u { (m.add (.builtin spelling)).1 with
      markers := m.markers.put spelling (m.add (.builtin spelling)).2 } := by
  obtain ⟨root, nodes, symbols, _⟩ := ranged.enroll (Node.ranged_builtin spelling (m.size + 1))
  refine ⟨root, nodes, symbols, fun other id found => ?_⟩
  change id ∈ (m.markers.put spelling ⟨m.size⟩).get? other at found
  change id.index < (m.add (.builtin spelling)).1.size
  rw [size_add]
  rw [OrderedMap.get?_put] at found
  split at found
  · cases found
    exact Nat.lt_succ_self _
  · exact Nat.lt_succ_of_lt (ranged.markers other id found)

/-- Asked of a ranged draft with an arena of some size, a strict question has the result of a plain
one. What it leaves is ranged and no smaller, and the answer fits it. -/
def Succeeds {α : Type} (u : TranslationUnit) (n : Nat) (strict : Guarded α) (plain : Query α)
    (fits : Nat → α → Prop) : Prop :=
  ∀ d : Draft, d.model.Ranged u → d.model.size = n → strict d = some (plain d) ∧
    ∀ answer e, plain d = .ok (answer, e) →
      e.model.Ranged u ∧ n ≤ e.model.size ∧ fits e.model.size answer

namespace Succeeds

variable {α β : Type} {u : TranslationUnit} {n : Nat} {strict : Guarded α} {plain : Query α}
  {fits : Nat → α → Prop} {final : Nat → β → Prop}

theorem pure {answer : α} (fit : fits n answer) :
    Succeeds u n (Pure.pure answer) (Pure.pure answer) fits := by
  intro d ranged size
  refine ⟨rfl, fun answer e same => ?_⟩
  cases same
  exact ⟨ranged, Nat.le_of_eq size.symm, size.symm ▸ fit⟩

theorem bind {next : α → Guarded β} {next' : α → Query β} (first : Succeeds u n strict plain fits)
    (rest : ∀ answer larger, n ≤ larger → fits larger answer →
      Succeeds u larger (next answer) (next' answer) final) :
    Succeeds u n (strict >>= next) (plain >>= next') final := by
  intro d ranged size
  obtain ⟨ran, keeps⟩ := first d ranged size
  rw [Query.bind_apply]
  cases answered : plain d with
  | error endless => exact ⟨Guarded.bind_error (ran.trans (congrArg some answered)), by simp⟩
  | ok result =>
    obtain ⟨answer, e⟩ := result
    obtain ⟨kept, grown, fit⟩ := keeps answer e answered
    obtain ⟨ran', keeps'⟩ := rest answer _ grown fit e kept rfl
    refine ⟨(Guarded.bind_ok (ran.trans (congrArg some answered))).trans ran', ?_⟩
    intro answer' e' ended
    obtain ⟨kept', further, fit'⟩ := keeps' answer' e' ended
    exact ⟨kept', Nat.le_trans grown further, fit'⟩

theorem model {next : Model → Guarded α} {next' : Model → Query α}
    (rest : ∀ m : Model, m.Ranged u → m.size = n → Succeeds u n (next m) (next' m) fits) :
    Succeeds u n (Guarded.model >>= next) (Query.model >>= next') fits :=
  fun d ranged size => rest d.model ranged size d ranged size

theorem weaken {other : Nat → α → Prop} (succeeds : Succeeds u n strict plain fits)
    (weaker : ∀ size answer, n ≤ size → fits size answer → other size answer) :
    Succeeds u n strict plain other := by
  intro d ranged size
  obtain ⟨ran, keeps⟩ := succeeds d ranged size
  refine ⟨ran, fun answer e ended => ?_⟩
  obtain ⟨kept, grown, fit⟩ := keeps answer e ended
  exact ⟨kept, grown, weaker _ answer grown fit⟩

theorem throw (endless : Endless) :
    Succeeds u n (Guarded.ask (throw endless)) (MonadExcept.throw endless) fits :=
  fun _ _ _ => ⟨rfl, fun _ _ same => by cases same⟩

theorem report (diagnostic : Diagnostic) :
    Succeeds u n (Guarded.report diagnostic) (Query.report diagnostic) fun _ _ => True := by
  intro d ranged size
  refine ⟨rfl, fun answer e same => ?_⟩
  cases same
  exact ⟨ranged, Nat.le_of_eq size.symm, trivial⟩

theorem marker (spelling : String) :
    Succeeds u n (Guarded.marker spelling) (Query.marker spelling)
      fun size id => id.index < size := by
  intro d ranged size
  subst size
  refine ⟨rfl, fun id e answered => ?_⟩
  unfold Query.marker at answered
  split at answered
  · next id known =>
    cases answered
    exact ⟨ranged, Nat.le_refl _, ranged.markers spelling id known⟩
  · cases answered
    have size : d.model.size < (d.model.add (.builtin spelling)).1.size := by simp
    exact ⟨ranged.mark spelling, Nat.le_of_lt size, size⟩

theorem update {id : NodeId} {change : Node → Node} (inside : id.index < n)
    (kept : ∀ node, node.Ranged u n → (change node).Ranged u n) :
    Succeeds u n (Guarded.update id change) (Query.update id change) fun _ _ => True := by
  intro d ranged size
  subst size
  refine ⟨?_, fun answer e same => ?_⟩
  · change (liftM (d.model.node? id) >>= fun _ => Guarded.ask (Query.update id change)) d = _
    rw [Strict.node?_eq inside, Guarded.lift_some_bind]
    rfl
  · cases same
    exact ⟨ranged.update id kept, Nat.le_of_eq (Model.size_update _ _ _).symm, trivial⟩

/-- What every step of a fold keeps, the fold keeps. -/
theorem foldlM {items : List α} {step : β → α → Guarded β} {step' : β → α → Query β}
    (each : ∀ item ∈ items, ∀ larger s, n ≤ larger → final larger s →
      Succeeds u larger (step s item) (step' s item) final) (s : β) (first : final n s) :
    Succeeds u n (items.foldlM step s) (items.foldlM step' s) final := by
  induction items generalizing n s with
  | nil => exact .pure first
  | cons item rest ih =>
    refine (each item List.mem_cons_self n s (Nat.le_refl n) first).bind ?_
    intro s' larger grown held
    exact ih (fun other member size s' grown' => each other (List.mem_cons_of_mem _ member) size s'
      (Nat.le_trans grown grown')) s' held

/-- Answers to a list of questions fit together if what fits at some time fits later on. -/
theorem mapM {related : Nat → α → β → Prop} {items : List α} {each : α → Guarded β}
    {each' : α → Query β}
    (steady : ∀ item answer size larger, size ≤ larger → related size item answer →
      related larger item answer)
    (one : ∀ item ∈ items, ∀ larger, n ≤ larger →
      Succeeds u larger (each item) (each' item) fun size => related size item) :
    Succeeds u n (items.mapM each) (items.mapM each')
      fun size => List.Forall₂ (related size) items := by
  induction items generalizing n with
  | nil => exact .pure .nil
  | cons item rest ih =>
    rw [List.mapM_cons, List.mapM_cons]
    refine (one item List.mem_cons_self n (Nat.le_refl n)).bind fun answer larger grown fit => ?_
    refine (ih fun other member size grown' => one other (List.mem_cons_of_mem _ member) size
      (Nat.le_trans grown grown')).bind fun answers size grown' fits => .pure ?_
    exact .cons (steady item answer _ _ grown' fit) fits

end Succeeds

end Bindery
