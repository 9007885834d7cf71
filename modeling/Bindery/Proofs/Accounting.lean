import Bindery.Proofs.Model.Recording
import Bindery.Proofs.Offer

/-! No occurrence is lost without a word. Every cursor that a build visits is offered to an owner once;
it is a member of its owner from then on, or the refusal is recorded where the cursor stands. The
diagnostics of a build are the messages of the front end and these refusals, in the order of the
walk. -/

set_option autoImplicit false

namespace Bindery

open Ast (Cursor CursorId TranslationUnit)

variable {u : TranslationUnit} {f : Factory}

namespace Offer

variable {offer : Offer} {d : Draft}

theorem after_of_refusal {refusal : Diagnostic} (refused : offer.refusal? u = some refusal) :
    offer.after u = offer.entered.report refusal := by
  unfold refusal? verdict at refused
  unfold after Draft.accept
  split at refused <;> cases refused <;> next judged => rw [judged]; rfl

theorem refusal_cases {refusal : Diagnostic} (refused : offer.refusal? u = some refusal) :
    (∃ name owner, refusal = .unresolvedOwner name owner offer.cursor.location) ∨
      ∃ name kind owner, refusal = .rejectedChild name kind owner offer.cursor.location := by
  unfold refusal? at refused
  split at refused <;> cases refused
  · exact .inr ⟨_, _, _, rfl⟩
  · exact .inl ⟨_, _, rfl⟩

theorem exists_owner
    (calls : Draft.CallsAt u f d offer.container offer.id offer.cursor offer.item offer.entered)
    (taken : offer.refusal? u = none) :
    ∃ owner, offer.item ∈ ((offer.after u).model.node owner).members ∧
      ((offer.after u).model.node offer.item).owner = some owner := by
  obtain ⟨owner, found⟩ := Option.isSome_iff_exists.mp (refusal?_eq_none_iff.mp taken)
  refine ⟨owner, ?_, ?_⟩
  · exact (Draft.mem_members_accept calls.takers_lt).mpr
      (.inr ⟨rfl, Verdict.mem_takers_of_owner? found⟩)
  · change ((offer.entered.accept u offer.container offer.item offer.cursor).model.node
      offer.item).owner = some owner
    rw [Draft.owner_accept calls.item_lt, if_pos rfl]
    exact congrArg (Option.or · _) found

end Offer

namespace Draft.Hands

variable {d e : Draft} {offers : List Offer}

theorem diagnostics (hands : Hands u f d offers e) :
    e.diagnostics = d.diagnostics ++ offers.filterMap (Offer.refusal? u) := by
  induction hands with
  | done => simp
  | @offer d e offer rest calls later ih =>
    rw [ih, Offer.diagnostics_after, calls.enters.diagnostics, List.append_assoc]
    cases refused : offer.refusal? u <;> simp [refused]

theorem owner_eq_none_iff (hands : Hands u f d offers e) (n : NodeId) :
    (e.model.node n).owner = none ↔ (d.model.node n).owner = none ∧
      ∀ offer ∈ offers, offer.item = n → (offer.refusal? u).isSome := by
  induction hands with
  | done => simp
  | @offer d e offer rest calls later ih =>
    have step : ((offer.after u).model.node n).owner = none ↔ (d.model.node n).owner = none ∧
        (offer.item = n → (offer.refusal? u).isSome) := by
      change ((offer.entered.accept u offer.container offer.item offer.cursor).model.node n).owner =
        none ↔ _
      rw [owner_accept calls.item_lt, calls.owner n, Offer.refusal?_isSome_iff, Option.or_eq_none_iff,
        and_comm]
      by_cases here : offer.item = n
      · simp [here, Offer.verdict]
      · simp [here, Ne.symm here]
    rw [ih, step, List.forall_mem_cons, and_assoc]

end Draft.Hands

/-- What a build tells of the occurrences that it visits. -/
structure AccountsForOccurrences (u : TranslationUnit) : Prop where
  /-- The build is the run of its offers, -/
  walk : Draft.Hands u .standard (opening u) (buildOffers u) (Session.start u).build.draft
  /-- one for each cursor that the unit exposes, in the order of the tree. -/
  exposed : ∀ id, id ∈ (buildOffers u).map Offer.id ↔ u.Exposed id
  once : ((buildOffers u).map Offer.id).Nodup
  ordered : ((buildOffers u).map Offer.id).Sublist u.tree.preorder
  cursors : ∀ offer ∈ buildOffers u, u.cursor? offer.id = some offer.cursor
  recorded : (Session.start u).build.diagnostics =
    Session.messages u ++ (buildOffers u).filterMap (Offer.refusal? u)
  /-- A refusal is told where the occurrence stands, and changes nothing else. -/
  refused : ∀ offer ∈ buildOffers u, ∀ refusal, offer.refusal? u = some refusal →
    ((∃ name owner, refusal = .unresolvedOwner name owner offer.cursor.location) ∨
      ∃ name kind owner, refusal = .rejectedChild name kind owner offer.cursor.location) ∧
    offer.after u = offer.entered.report refusal
  taken : ∀ offer ∈ buildOffers u, offer.refusal? u = none →
    ∃ owner, offer.item ∈ ((offer.after u).model.node owner).members ∧
      ((offer.after u).model.node offer.item).owner = some owner
  ownerless : ∀ n : NodeId, n.index < (Session.start u).build.model.size → n ≠ Model.root →
    (((Session.start u).build.model.node n).owner = none ↔
      ∀ offer ∈ buildOffers u, offer.item = n → (offer.refusal? u).isSome)
  housed : (Session.start u).build.diagnostics = Session.messages u →
    ∀ n : NodeId, n.index < (Session.start u).build.model.size → n ≠ Model.root →
      ((Session.start u).build.model.node n).owner.isSome

/-- In a unit without faults a build offers every exposed cursor once. The diagnostics are the messages
of the front end and the refusals in the order of the walk, and whatever is not refused is a member of
its owner. A node other than the root is without an owner if all its occurrences were refused, which
is to say never where nothing is recorded but the messages. -/
theorem build_accounts (u : TranslationUnit) (valid : u.firstFault? = none) :
    AccountsForOccurrences u := by
  have walk := hands_build u .standard
  have recorded : (Session.start u).build.diagnostics =
      Session.messages u ++ (buildOffers u).filterMap (Offer.refusal? u) := walk.diagnostics
  have ownerless (n : NodeId) : ((Session.start u).build.model.node n).owner = none ↔
      ∀ offer ∈ buildOffers u, offer.item = n → (offer.refusal? u).isSome := by
    have unowned := (household_opening u .standard n).2
    exact (walk.owner_eq_none_iff n).trans (and_iff_right unowned)
  obtain ⟨declares, _⟩ := build_declares u valid
  refine ⟨walk, ?_, ?_, ?_, ?_, recorded, ?_, ?_, fun n _ _ => ownerless n, ?_⟩
  · intro id
    rw [map_id_buildOffers]
    exact declares.exposed id
  · rw [map_id_buildOffers]
    exact declares.once
  · rw [Ast.CursorTree.preorder_eq]
    exact (buildOffers_sublist u .standard).cons _
  · intro offer member
    obtain ⟨_, calls⟩ := walk.exists_calls offer member
    exact calls.cursor
  · intro offer member refusal refused
    exact ⟨Offer.refusal_cases refused, Offer.after_of_refusal refused⟩
  · intro offer member taken
    obtain ⟨_, calls⟩ := walk.exists_calls offer member
    exact Offer.exists_owner calls taken
  · intro silent n inside proper
    have none : (buildOffers u).filterMap (Offer.refusal? u) = [] :=
      List.append_right_eq_self.mp (recorded.symm.trans silent)
    rw [Option.isSome_iff_ne_none, Ne, ownerless n]
    intro refused
    rcases walk.exists_offer inside with only | ⟨offer, member, here⟩
    · apply proper
      have first : n.index < 1 := only
      exact congrArg NodeId.mk (Nat.lt_one_iff.mp first)
    · have told := List.filterMap_eq_nil_iff.mp none offer member
      rw [← Option.not_isSome_iff_eq_none] at told
      exact told (refused offer member here)

/-- `void Absent::haul(int load) {}`, where the class is missing, an enum constant without an enum,
and then `struct Silo; struct Silo {};`, of which the declaration stands in the missing class. -/
def silo : TranslationUnit where
  path := "silo.h"
  root := ⟨0⟩
  cursors := #[
    { kind := .translationUnit, children := [⟨1⟩, ⟨3⟩, ⟨4⟩, ⟨5⟩] },
    { kind := .cxxMethod, spelling := "haul", usr := some "c:haul", semanticParent := some ⟨6⟩,
      location := ⟨some "silo.h", 1, 14⟩, children := [⟨2⟩] },
    { kind := .parmDecl, spelling := "load", usr := some "c:load", semanticParent := some ⟨1⟩ },
    { kind := .enumConstantDecl, spelling := "Full", usr := some "c:Full",
      semanticParent := some ⟨0⟩, location := ⟨some "silo.h", 2, 1⟩ },
    { kind := .structDecl, spelling := "Silo", usr := some "c:Silo", semanticParent := some ⟨6⟩,
      location := ⟨some "silo.h", 3, 8⟩ },
    { kind := .structDecl, spelling := "Silo", usr := some "c:Silo", semanticParent := some ⟨0⟩,
      location := ⟨some "silo.h", 4, 8⟩, flags := { isDefinition := true } },
    { kind := .classDecl, spelling := "Absent", usr := some "c:Absent" }]
  messages := [⟨.error, "unknown class", ⟨some "silo.h", 1, 6⟩⟩]

/-- Three of five occurrences are refused. The struct has an owner all the same, for its definition was
taken. -/
theorem build_accounts_silo :
    silo.firstFault? = none ∧ AccountsForOccurrences silo ∧
      (Session.start silo).build.diagnostics = [
        .parseMessage .error "unknown class" ⟨some "silo.h", 1, 6⟩,
        .unresolvedOwner "haul" "Absent" ⟨some "silo.h", 1, 14⟩,
        .rejectedChild "Full" "enum constant" "<anonymous translation unit>" ⟨some "silo.h", 2, 1⟩,
        .unresolvedOwner "Silo" "Absent" ⟨some "silo.h", 3, 8⟩] ∧
      (Session.start silo).build.model.ids.map
          (fun n => ((Session.start silo).build.model.node n).owner) =
        [none, none, some ⟨1⟩, none, some ⟨0⟩] := by
  have valid : silo.firstFault? = none := by decide +kernel
  exact ⟨valid, build_accounts silo valid, by decide +kernel, by decide +kernel⟩

end Bindery
