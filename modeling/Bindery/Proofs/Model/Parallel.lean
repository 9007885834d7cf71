import Bindery.Proofs.Model.Coherence

/-! Questions asked side by side, each of a draft of its own. What relates the two drafts is kept, and
the answers are related as well, so that of two sessions with different histories one tells what becomes
of the other. -/

set_option autoImplicit false

namespace Bindery

open Ast (TranslationUnit)

variable {α β γ δ : Type}

/-- Two runs end with related answers in related drafts, or neither ends. -/
inductive Paired (related : Draft → Draft → Prop) (same : α → β → Prop) :
    Except Endless (α × Draft) → Except Endless (β × Draft) → Prop
  | ended {left : α} {right : β} {d e : Draft} (answers : same left right) (drafts : related d e) :
    Paired related same (.ok (left, d)) (.ok (right, e))
  | endless {reason other : Endless} : Paired related same (.error reason) (.error other)

-- Which way a run does not end makes no difference.
theorem Paired.of_toOption {related : Draft → Draft → Prop} {same : α → β → Prop}
    {left left' : Except Endless (α × Draft)} {right right' : Except Endless (β × Draft)}
    (paired : Paired related same left right) (first : left'.toOption = left.toOption)
    (second : right'.toOption = right.toOption) : Paired related same left' right' := by
  cases paired with
  | ended answers drafts =>
    cases left' with
    | error _ => cases first
    | ok _ =>
      cases right' with
      | error _ => cases second
      | ok _ =>
        cases first
        cases second
        exact .ended answers drafts
  | endless =>
    cases left' with
    | ok _ => cases first
    | error _ =>
      cases right' with
      | ok _ => cases second
      | error _ => exact .endless

/-- Two questions asked of related drafts come to the same. -/
def Parallel (related : Draft → Draft → Prop) (same : α → β → Prop) (left : Query α)
    (right : Query β) : Prop :=
  ∀ d e, related d e → Paired related same (left d) (right e)

namespace Parallel

variable {related : Draft → Draft → Prop} {same : α → β → Prop} {same' : γ → δ → Prop}
  {left : Query α} {right : Query β}

theorem pure {a : α} {b : β} (answers : same a b) :
    Parallel related same (Pure.pure a) (Pure.pure b) :=
  fun _ _ drafts => .ended answers drafts

theorem bind {next : α → Query γ} {next' : β → Query δ} (first : Parallel related same left right)
    (rest : ∀ a b, same a b → Parallel related same' (next a) (next' b)) :
    Parallel related same' (left >>= next) (right >>= next') := by
  intro d e drafts
  rw [Query.bind_apply, Query.bind_apply]
  have started := first d e drafts
  generalize left d = ran, right e = other at started
  cases started with
  | ended answers drafts' => exact rest _ _ answers _ _ drafts'
  | endless => exact .endless

/-- What is asked next does not depend on what was answered. -/
theorem andThen {next : α → Query γ} {next' : β → Query δ}
    (first : Parallel related (fun _ _ => True) left right)
    (rest : ∀ a b, Parallel related same' (next a) (next' b)) :
    Parallel related same' (left >>= next) (right >>= next') :=
  first.bind fun a b _ => rest a b

theorem model {next : Model → Query α} {next' : Model → Query β}
    (rest : ∀ d e, related d e → Parallel related same (next d.model) (next' e.model)) :
    Parallel related same (Query.model >>= next) (Query.model >>= next') :=
  fun d e drafts => rest d e drafts d e drafts

theorem mono {weaker : α → β → Prop} (parallel : Parallel related same left right)
    (weaken : ∀ a b, same a b → weaker a b) : Parallel related weaker left right := by
  intro d e drafts
  have both := parallel d e drafts
  generalize left d = ran, right e = other at both ⊢
  cases both with
  | ended answers drafts' => exact .ended (weaken _ _ answers) drafts'
  | endless => exact .endless

theorem foldlM {ι : Type} {step : γ → ι → Query γ} {step' : δ → ι → Query δ} {items : List ι}
    (each : ∀ s t, same' s t → ∀ item ∈ items, Parallel related same' (step s item) (step' t item))
    {s : γ} {t : δ} (start : same' s t) :
    Parallel related same' (items.foldlM step s) (items.foldlM step' t) := by
  induction items generalizing s t with
  | nil => exact .pure start
  | cons item rest ih =>
    rw [List.foldlM_cons, List.foldlM_cons]
    refine (each s t start item List.mem_cons_self).bind fun s t met => ?_
    exact ih (fun s t met other member =>
      each s t met other (List.mem_cons_of_mem item member)) met

end Parallel

/-- A question has one answer on related drafts, which meets a condition, or ends on neither. -/
def Concur (related : Draft → Draft → Prop) (question : Query α) (post : α → Prop) : Prop :=
  Parallel related (fun left right => left = right ∧ post left) question question

namespace Concur

variable {related : Draft → Draft → Prop} {question : Query α} {post : α → Prop}

theorem pure {answer : α} (met : post answer) : Concur related (Pure.pure answer) post :=
  Parallel.pure ⟨rfl, met⟩

theorem bind {next : α → Query β} {final : β → Prop} (first : Concur related question post)
    (rest : ∀ answer, post answer → Concur related (next answer) final) :
    Concur related (question >>= next) final := by
  refine Parallel.bind first ?_
  rintro answer _ ⟨rfl, met⟩
  exact rest answer met

theorem foldlM {ι : Type} {step : α → ι → Query α} {items : List ι}
    (each : ∀ s, post s → ∀ item ∈ items, Concur related (step s item) post) {s : α}
    (start : post s) : Concur related (items.foldlM step s) post := by
  refine Parallel.foldlM ?_ ⟨rfl, start⟩
  rintro s _ ⟨rfl, met⟩ item member
  exact each s met item member

theorem mapM {ι : Type} {each : ι → Query α} {items : List ι}
    (one : ∀ item ∈ items, Concur related (each item) fun _ => True) :
    Concur related (items.mapM each) fun _ => True := by
  induction items with
  | nil => exact .pure trivial
  | cons item rest ih =>
    rw [List.mapM_cons]
    refine (one item List.mem_cons_self).bind fun answer _ => ?_
    refine (ih fun other member => one other (List.mem_cons_of_mem item member)).bind ?_
    exact fun answers _ => .pure trivial

end Concur

end Bindery
