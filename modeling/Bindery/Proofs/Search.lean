import Mathlib.Data.Fintype.Card
import Mathlib.Data.Finset.Card
import Mathlib.Logic.Relation

/-! Searches that go from element to element until one answers. A bound on their length that exceeds
the number of elements that lead on is as good as none: a search that uses it up goes around. -/

set_option autoImplicit false

namespace Bindery

variable {α β : Type} (step : α → β ⊕ α) (wrap : α → β → β) (stuck : β)

/-- Goes from element to element at most a number of times. On the way back, each element that the
search went on to may change the answer. -/
def chase : Nat → α → β
  | 0, _ => stuck
  | bound + 1, a =>
    match step a with
    | .inl answer => answer
    | .inr next => wrap next (chase bound next)

/-- The element that a number of steps leads to. -/
def trail : Nat → α → Option α
  | 0, a => some a
  | count + 1, a =>
    match step a with
    | .inl _ => none
    | .inr next => trail count next

theorem trail_add (first second : Nat) (a : α) :
    trail step (first + second) a = (trail step first a).bind (trail step second) := by
  induction first generalizing a with
  | zero => simp [trail]
  | succ first ih =>
    rw [Nat.succ_add, trail, trail]
    split
    · rfl
    · exact ih _

theorem trail_isSome_of_le {first second : Nat} {a : α} (before : first ≤ second)
    (long : (trail step second a).isSome) : (trail step first a).isSome := by
  obtain ⟨rest, rfl⟩ := Nat.exists_eq_add_of_le before
  by_contra ended
  rw [trail_add, Option.not_isSome_iff_eq_none.mp ended] at long
  cases long

-- A search that comes back to where it started goes on for ever.
theorem trail_isSome_of_ring {length : Nat} {a : α} (positive : 0 < length)
    (ring : trail step length a = some a) (count : Nat) : (trail step count a).isSome := by
  induction count using Nat.strong_induction_on with
  | _ count ih =>
    by_cases within : count ≤ length
    · exact trail_isSome_of_le step within (by rw [ring]; rfl)
    · -- Once around the ring is a number of steps less to go.
      obtain ⟨rest, rfl⟩ := Nat.exists_eq_add_of_le (Nat.le_of_not_le within)
      rw [trail_add, ring]
      exact ih rest (by omega)

-- Wherever a search can go one step further, it stands on an element that leads on.
theorem exists_mem_of_trail_isSome (carrier : List α) {a : α}
    (inside : ∀ b next, step b = .inr next → b ∈ carrier) {count : Nat}
    (further : (trail step (count + 1) a).isSome) :
    ∃ b ∈ carrier, trail step count a = some b := by
  rw [trail_add] at further
  cases here : trail step count a with
  | none => simp [here] at further
  | some b =>
    cases on : step b with
    | inl answer => simp [here, trail, on] at further
    | inr next => exact ⟨b, inside b next on, rfl⟩

/-- More steps than there are elements that lead on meet an element again. -/
theorem exists_ring (carrier : List α) {a : α}
    (inside : ∀ b next, step b = .inr next → b ∈ carrier)
    (long : (trail step (carrier.length + 1) a).isSome) :
    ∃ lead length b, 0 < length ∧ trail step lead a = some b ∧ trail step length b = some b := by
  classical
  have leads (i : Nat) (early : i ≤ carrier.length) : ∃ b ∈ carrier, trail step i a = some b :=
    exists_mem_of_trail_isSome step carrier inside
      (trail_isSome_of_le step (Nat.succ_le_succ early) long)
  -- Steps are counted from zero, so that there is one more place than there are elements.
  have crowded : (carrier.toFinset.image some).card < (Finset.range (carrier.length + 1)).card := by
    rw [Finset.card_range]
    exact Nat.lt_succ_of_le (Finset.card_image_le.trans carrier.toFinset_card_le)
  obtain ⟨i, low, j, high, apart, same⟩ :=
    Finset.exists_ne_map_eq_of_card_lt_of_maps_to crowded (f := fun i => trail step i a) (by
      intro i member
      obtain ⟨b, present, here⟩ := leads i (Nat.le_of_lt_succ (Finset.mem_range.mp member))
      simp [here, present])
  wlog ordered : i < j generalizing i j
  · exact this j high i low apart.symm same.symm (by omega)
  obtain ⟨b, _, here⟩ := leads i (Nat.le_of_lt_succ (Finset.mem_range.mp low))
  obtain ⟨length, rfl⟩ := Nat.exists_eq_add_of_le (Nat.le_of_lt ordered)
  refine ⟨i, length, b, by omega, here, ?_⟩
  have around : trail step (i + length) a = some b := same.symm.trans here
  rwa [trail_add, here] at around

/-- A search that takes more steps than there are elements that lead on takes any number. -/
theorem trail_isSome (carrier : List α) {a : α}
    (inside : ∀ b next, step b = .inr next → b ∈ carrier)
    (long : (trail step (carrier.length + 1) a).isSome) (count : Nat) :
    (trail step count a).isSome := by
  obtain ⟨lead, length, b, positive, here, ring⟩ := exists_ring step carrier inside long
  apply trail_isSome_of_le step (Nat.le_add_left count lead)
  rw [trail_add, here]
  exact trail_isSome_of_ring step positive ring count

variable {step wrap stuck}

theorem chase_of_trail_isSome (keeps : ∀ a, wrap a stuck = stuck) :
    ∀ {bound : Nat} {a : α}, (trail step bound a).isSome → chase step wrap stuck bound a = stuck
  | 0, _, _ => rfl
  | bound + 1, a, going => by
    cases on : step a with
    | inl answer => simp [trail, on] at going
    | inr next =>
      simp only [trail, on] at going
      simp only [chase, on]
      rw [chase_of_trail_isSome keeps going, keeps]

theorem chase_of_trail_eq_none :
    ∀ {bound larger : Nat} {a : α}, trail step bound a = none → bound ≤ larger →
      chase step wrap stuck larger a = chase step wrap stuck bound a
  | 0, _, _, ended, _ => by cases ended
  | bound + 1, 0, _, _, enough => by omega
  | bound + 1, larger + 1, a, ended, enough => by
    cases on : step a with
    | inl answer => simp only [chase, on]
    | inr next =>
      simp only [trail, on] at ended
      simp only [chase, on]
      rw [chase_of_trail_eq_none ended (Nat.le_of_succ_le_succ enough)]

/-- Bounds that exceed the number of elements that lead on give the same answer. -/
theorem chase_eq (carrier : List α) (keeps : ∀ a, wrap a stuck = stuck)
    (inside : ∀ b next, step b = .inr next → b ∈ carrier) {bound larger : Nat}
    (enough : carrier.length < bound) (more : carrier.length < larger) (a : α) :
    chase step wrap stuck larger a = chase step wrap stuck bound a := by
  cases ended : trail step (carrier.length + 1) a with
  | none => rw [chase_of_trail_eq_none ended enough, chase_of_trail_eq_none ended more]
  | some b =>
    have going := trail_isSome step carrier inside (by rw [ended]; rfl)
    rw [chase_of_trail_isSome keeps (going bound), chase_of_trail_isSome keeps (going larger)]

/-- What holds of every answer, of giving up and of an answer changed on the way back, holds of what
a search comes to. -/
theorem chase_induct {motive : β → Prop} (gaveUp : motive stuck)
    (answered : ∀ a answer, step a = .inl answer → motive answer)
    (changed : ∀ a next answer, step a = .inr next → motive answer → motive (wrap next answer))
    (bound : Nat) (a : α) : motive (chase step wrap stuck bound a) := by
  induction bound generalizing a with
  | zero => exact gaveUp
  | succ bound ih =>
    unfold chase
    split
    · next answer on => exact answered a answer on
    · next next on => exact changed a next _ on (ih next)

-- A search that is over within its bound has not given up.
theorem chase_ne_stuck (answers : ∀ a answer, step a = .inl answer → answer ≠ stuck)
    (passes : ∀ a answer, answer ≠ stuck → wrap a answer ≠ stuck) :
    ∀ {bound : Nat} {a : α}, trail step bound a = none → chase step wrap stuck bound a ≠ stuck
  | 0, _, ended => by cases ended
  | bound + 1, a, ended => by
    cases on : step a with
    | inl answer =>
      simp only [chase, on]
      exact answers a answer on
    | inr next =>
      simp only [trail, on] at ended
      simp only [chase, on]
      exact passes next _ (chase_ne_stuck answers passes ended)

/-! ## Rings -/

/-- One element leads on to the next. -/
def LeadsTo (step : α → β ⊕ α) (a b : α) : Prop := step a = .inr b

theorem reflTransGen_of_trail {count : Nat} {a b : α} (here : trail step count a = some b) :
    Relation.ReflTransGen (LeadsTo step) a b := by
  induction count generalizing a with
  | zero =>
    cases here
    exact .refl
  | succ count ih =>
    cases on : step a with
    | inl answer => simp [trail, on] at here
    | inr next =>
      simp only [trail, on] at here
      exact .head on (ih here)

theorem transGen_of_trail {count : Nat} {a b : α} (positive : 0 < count)
    (here : trail step count a = some b) : Relation.TransGen (LeadsTo step) a b := by
  cases count with
  | zero => cases positive
  | succ count =>
    cases on : step a with
    | inl answer => simp [trail, on] at here
    | inr next =>
      simp only [trail, on] at here
      exact .head' on (reflTransGen_of_trail here)

theorem exists_trail_of_reflTransGen {a b : α} (leads : Relation.ReflTransGen (LeadsTo step) a b) :
    ∃ count, trail step count a = some b := by
  induction leads using Relation.ReflTransGen.head_induction_on with
  | refl => exact ⟨0, rfl⟩
  | head on _ ih =>
    obtain ⟨count, here⟩ := ih
    exact ⟨count + 1, by rw [trail, show step _ = .inr _ from on]; exact here⟩

theorem exists_trail_of_transGen {a b : α} (leads : Relation.TransGen (LeadsTo step) a b) :
    ∃ count, 0 < count ∧ trail step count a = some b := by
  obtain ⟨next, on, further⟩ := Relation.TransGen.head'_iff.mp leads
  obtain ⟨count, here⟩ := exists_trail_of_reflTransGen further
  exact ⟨count + 1, Nat.succ_pos count, by rw [trail, show step a = .inr next from on]; exact here⟩

/-- A search uses up a bound that exceeds the number of elements that lead on if and only if it runs
into a ring. -/
theorem trail_isSome_iff (carrier : List α) (inside : ∀ b next, step b = .inr next → b ∈ carrier)
    {bound : Nat} (enough : carrier.length < bound) (a : α) :
    (trail step bound a).isSome ↔
      ∃ b, Relation.ReflTransGen (LeadsTo step) a b ∧ Relation.TransGen (LeadsTo step) b b := by
  constructor
  · intro long
    obtain ⟨lead, length, b, positive, here, ring⟩ :=
      exists_ring step carrier inside (trail_isSome_of_le step enough long)
    exact ⟨b, reflTransGen_of_trail here, transGen_of_trail positive ring⟩
  · rintro ⟨b, leads, around⟩
    obtain ⟨lead, here⟩ := exists_trail_of_reflTransGen leads
    obtain ⟨length, positive, ring⟩ := exists_trail_of_transGen around
    apply trail_isSome_of_le step (Nat.le_add_left bound lead)
    rw [trail_add, here]
    exact trail_isSome_of_ring step positive ring bound

theorem exists_answer_of_trail_eq_none {bound : Nat} {a : α} (ended : trail step bound a = none) :
    ∃ last answer, Relation.ReflTransGen (LeadsTo step) a last ∧ step last = .inl answer := by
  induction bound generalizing a with
  | zero => cases ended
  | succ bound ih =>
    cases on : step a with
    | inl answer => exact ⟨a, answer, .refl, on⟩
    | inr next =>
      simp only [trail, on] at ended
      obtain ⟨last, answer, leads, answers⟩ := ih ended
      exact ⟨last, answer, .head on leads, answers⟩

/-- A search comes to an answer or runs into a ring. -/
theorem exists_answer_or_ring (carrier : List α)
    (inside : ∀ b next, step b = .inr next → b ∈ carrier) (a : α) :
    (∃ last answer, Relation.ReflTransGen (LeadsTo step) a last ∧ step last = .inl answer) ∨
      ∃ b, Relation.ReflTransGen (LeadsTo step) a b ∧ Relation.TransGen (LeadsTo step) b b := by
  cases ended : trail step (carrier.length + 1) a with
  | none => exact .inl (exists_answer_of_trail_eq_none ended)
  | some b =>
    right
    rw [← trail_isSome_iff carrier inside (Nat.lt_succ_self _), ended]
    rfl

/-- A search whose answers are told from giving up gives up if and only if it runs into a ring. -/
theorem chase_eq_stuck_iff (carrier : List α) (keeps : ∀ a, wrap a stuck = stuck)
    (answers : ∀ a answer, step a = .inl answer → answer ≠ stuck)
    (passes : ∀ a answer, answer ≠ stuck → wrap a answer ≠ stuck)
    (inside : ∀ b next, step b = .inr next → b ∈ carrier) {bound : Nat}
    (enough : carrier.length < bound) (a : α) :
    chase step wrap stuck bound a = stuck ↔
      ∃ b, Relation.ReflTransGen (LeadsTo step) a b ∧ Relation.TransGen (LeadsTo step) b b := by
  rw [← trail_isSome_iff carrier inside enough]
  constructor
  · intro gaveUp
    by_contra ended
    exact chase_ne_stuck answers passes (Option.not_isSome_iff_eq_none.mp ended) gaveUp
  · exact chase_of_trail_isSome keeps

end Bindery
