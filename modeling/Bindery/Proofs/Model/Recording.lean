import Bindery.Proofs.Model.Coherence
import Bindery.Proofs.Model.Composition
import Bindery.Proofs.Model.Placement

/-! Who records which conditions. A build records the messages of the front end and what it meets with
owners and children. Questions record the rest, behind what is there, whenever they are asked. -/

set_option autoImplicit false

namespace Bindery

open Ast (Cursor CursorId TranslationUnit)

/-! ## Questions -/

/-- What questions leave of a draft: the model has the nodes it had, and the conditions are those it
had and some that questions meet. -/
structure Draft.Grows (d e : Draft) : Prop where
  model : d.model.Extends e.model
  recorded : ∃ late, e.diagnostics = d.diagnostics ++ late ∧ ∀ found ∈ late, found.isLate

namespace Draft.Grows

variable {d e : Draft}

theorem of_extends (grown : d.model.Extends e.model) (same : e.diagnostics = d.diagnostics) :
    d.Grows e where
  model := grown
  recorded := ⟨[], by rw [same, List.append_nil], fun _ member => by cases member⟩

theorem refl (d : Draft) : d.Grows d := of_extends (.refl _) rfl

theorem trans {f : Draft} (first : d.Grows e) (second : e.Grows f) : d.Grows f where
  model := first.model.trans second.model
  recorded := by
    obtain ⟨early, started, asked⟩ := first.recorded
    obtain ⟨later, ended, asked'⟩ := second.recorded
    refine ⟨early ++ later, by rw [ended, started, List.append_assoc], fun found member => ?_⟩
    exact (List.mem_append.mp member).elim (asked found) (asked' found)

theorem report (d : Draft) {found : Diagnostic} (late : found.isLate) : d.Grows (d.report found) where
  model := .refl _
  recorded := ⟨[found], rfl, fun _ only => List.mem_singleton.mp only ▸ late⟩

end Draft.Grows

namespace Query

def Grows {α : Type} (question : Query α) : Prop :=
  ∀ (d : Draft) answer e, question d = .ok (answer, e) → d.Grows e

theorem grows_marker (spelling : String) : Grows (marker spelling) := by
  intro d id e ran
  unfold marker at ran
  split at ran
  · cases ran
    exact .refl d
  · next absent =>
    cases ran
    exact .of_extends (.mark absent) rfl

/-- Whatever is asked only adds to a draft. -/
theorem pervades_grows : Pervades fun _ question => Grows question where
  pure answer := by
    intro d given e ran
    cases ran
    exact .refl d
  model := by
    intro d given e ran
    cases ran
    exact .refl d
  bind first rest := by
    intro d final e' ran
    obtain ⟨answer, e, started, ended⟩ := exists_of_bind_eq_ok ran
    exact (first d answer e started).trans (rest answer e final e' ended)
  throw endless := by
    intro d answer e ran
    cases ran
  report found late := by
    intro d given e ran
    cases ran
    exact .report d late
  marker := grows_marker
  resolution id resolution := by
    intro d given e ran
    cases ran
    exact .of_extends (.update _ _ _ fun _ => rfl) rfl
  bases id found := by
    intro d given e ran
    cases ran
    exact .of_extends (.update _ _ _ fun _ => rfl) rfl

end Query

/-! ## The build -/

namespace Draft

variable {u : TranslationUnit} {f : Factory} {d entered : Draft} {container item : NodeId}
  {id : CursorId} {c : Cursor}

theorem Enters.diagnostics (enters : Enters u f d id c item entered) :
    entered.diagnostics = d.diagnostics := by
  cases enters <;> rfl

theorem early_accept (early : ∀ found ∈ d.diagnostics, found.isLate = false) :
    ∀ found ∈ (d.accept u container item c).diagnostics, found.isLate = false := by
  intro found member
  unfold accept at member
  cases verdict : d.model.judge u container item c with
  | accepted owner | elaborated owner =>
    rw [verdict] at member
    exact early found member
  | rejected owner | ownerless =>
    rw [verdict] at member
    rcases List.mem_append.mp member with before | now
    · exact early found before
    · rw [List.mem_singleton.mp now]
      rfl

end Draft

/-- A build meets none of the conditions that questions meet. -/
theorem early_build (u : TranslationUnit) (f : Factory) :
    ∀ stage ∈ opening u f :: (buildVisits u f).map Visit.after,
      ∀ found ∈ stage.diagnostics, found.isLate = false := by
  refine holds_build u f (fun calls early => ?_) ?_
  · exact Draft.early_accept (calls.enters.diagnostics ▸ early)
  · intro found member
    obtain ⟨message, _, rfl⟩ := List.mem_map.mp (show found ∈ Session.messages u from member)
    rfl

end Bindery
