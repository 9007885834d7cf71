import Bindery.Proofs.Binding.Plan
import Bindery.Proofs.Model.Agreement

/-! Closures, orders and plans are the same whatever was asked before. They are put together from
questions that have the same answers on all drafts of a session, and read nothing of a model but
what questions leave alone. -/

set_option autoImplicit false

namespace Bindery.Binding

open Ast (TranslationUnit)
open Project (EmitConfig)

variable {u : TranslationUnit} {p : Policy} {emit : EmitConfig} {d e : Draft}
  {related : Draft → Draft → Prop}

/-! ## Closures -/

/-- Only nodes of the arena are queued. -/
def Frontier.Within (m : Model) (f : Frontier) : Prop := ∀ id ∈ f.queue, id.index < m.size

section

variable (reached : Reached u d) (unison : Unison u d.model related)

include reached unison

theorem concur_findVeto {id : NodeId} (inside : id.index < d.model.size) :
    Concur related (Frontier.findVeto u p id) fun _ => True := by
  refine .model unison.coherents (fun n grown => ?_) ?_
  · simp only [isCaster_eq reached grown inside, excludes_eq reached grown inside, grown.kind_eq]
  · split
    · exact .pure trivial
    · split
      · exact .pure trivial
      · split
        · exact (unison.unresolvedBases id).bind fun _ _ => .pure trivial
        · exact .pure trivial

theorem concur_refuses (f : Frontier) {id : NodeId} (inside : id.index < d.model.size) :
    Concur related (f.refuses u p id) fun refused => refused.2.queue = f.queue := by
  unfold Frontier.refuses
  split
  · exact .pure rfl
  · refine (concur_findVeto reached unison inside).bind fun veto _ => ?_
    split <;> exact .pure rfl

theorem concur_enqueue {f : Frontier} (within : f.Within d.model) (id : NodeId) :
    Concur related (f.enqueue u p id) (Frontier.Within d.model) := by
  refine .model unison.coherents (fun n grown => by simp only [grown.kind_eq]) ?_
  split
  · exact .pure within
  · next fresh =>
    simp only [Bool.or_eq_true, Bool.not_eq_true', not_or, Bool.not_eq_false] at fresh
    have inside := index_lt_of_isBindable fresh.1.1
    refine (concur_refuses reached unison f inside).bind ?_
    rintro ⟨refused, g⟩ same
    refine .pure fun other queued => ?_
    dsimp only at same queued
    split at queued
    · exact within other (same ▸ queued)
    · rcases OrderedSet.mem_insert.mp queued with earlier | rfl
      · exact within other (same ▸ earlier)
      · exact inside

theorem concur_enqueueNeeds {f : Frontier} (within : f.Within d.model) (id : NodeId) :
    Concur related (f.enqueueNeeds u p id) (Frontier.Within d.model) :=
  (unison.dependencies id).bind fun _ _ =>
    .foldlM (fun _ within other _ => concur_enqueue reached unison within other) within

theorem concur_visitMembers {f : Frontier} (within : f.Within d.model) (record : NodeId) :
    Concur related (f.visitMembers u p record) (Frontier.Within d.model) := by
  refine .model unison.coherents (fun n grown => ?_) ?_
  · simp only [List.filter_append, Model.records, Model.enums, Model.fields, Model.methods,
      Model.constructors]
    rw [filter_shows_eq reached grown rfl, filter_shows_eq reached grown rfl,
      filter_shows_eq reached grown rfl, filter_shows_eq reached grown rfl,
      filter_shows_eq reached grown rfl]
  · refine (Concur.foldlM (fun _ within other _ => concur_enqueue reached unison within other)
      within).bind fun g within' => ?_
    exact .foldlM (fun _ within member _ => concur_enqueueNeeds reached unison within member)
      within'

theorem concur_visit {f : Frontier} (within : f.Within d.model) {id : NodeId}
    (inside : id.index < d.model.size) :
    Concur related (f.visit u p id) (Frontier.Within d.model) := by
  refine (concur_refuses reached unison f inside).bind ?_
  rintro ⟨refused, g⟩ same
  have within' : g.Within d.model := fun other queued => within other (same ▸ queued)
  dsimp only
  split
  · exact .pure within'
  · refine (concur_enqueueNeeds reached unison (f := { g with closure := g.closure.settle id })
      within' id).bind fun h within'' => ?_
    refine .model unison.coherents (fun n grown => by simp only [grown.kind_eq]) ?_
    split
    · exact concur_visitMembers reached unison within'' id
    · exact .pure within''

theorem concur_run (bound : Nat) {f : Frontier} (within : f.Within d.model) :
    Concur related (Frontier.run u p bound f) fun _ => True := by
  induction bound generalizing f with
  | zero => exact .pure trivial
  | succ bound ih =>
    unfold Frontier.run
    split
    · exact .pure trivial
    · next id queue taken =>
      have member (other : NodeId) := Progress.mem_queue_iff taken other
      refine (concur_visit reached unison (f := { f with queue }) (fun other queued => ?_) ?_).bind
        fun _ within' => ih within'
      · exact within other ((member other).mpr (.inl queued))
      · exact within id ((member id).mpr (.inr rfl))

omit unison in
/-- Bounds that the loop does not use up give the same closure. -/
theorem run_eq {roots : List NodeId} {f : Frontier} (progress : Progress u p d roots none f)
    {bound larger : Nat} (enough : (f.undecided d.model).card < bound)
    (more : (f.undecided d.model).card < larger) (coherent : Coherent u d.model [] e.model) :
    Frontier.run u p larger f e = Frontier.run u p bound f e := by
  induction bound generalizing larger f e with
  | zero => omega
  | succ bound ih =>
    cases larger with
    | zero => omega
    | succ larger =>
      unfold Frontier.run
      cases taken : f.queue.pop? with
      | none => rfl
      | some pair =>
        obtain ⟨id, rest⟩ := pair
        dsimp only
        rw [Query.bind_apply, Query.bind_apply]
        cases ran : Frontier.visit u p { f with queue := rest } id e with
        | error endless => rfl
        | ok result =>
          obtain ⟨g, e'⟩ := result
          obtain ⟨coherent', _, progress', fewer⟩ :=
            (meets_visit reached coherent progress taken).of_ok ran
          exact ih progress' (by omega) (by omega) coherent'

theorem concur_closure {roots : List NodeId} (known : ∀ id ∈ roots, id.index < d.model.size) :
    Concur related (closure u p roots) fun _ => True := by
  -- The bound grows with the arena, and is never used up.
  have progress : Progress u p d roots none { queue := .ofList roots } := .start known
  have few := Frontier.card_undecided_le { queue := .ofList roots } d.model
  have fixed (n : Draft) (coherent : Coherent u d.model [] n.model) :
      closure u p roots n =
        Frontier.run u p (d.model.size + 1) { queue := .ofList roots } n := by
    have larger := coherent.grown.size_le
    exact run_eq reached progress (by omega) (by omega) coherent
  intro a b drafts
  obtain ⟨left, right⟩ := unison.coherents a b drafts
  rw [fixed a left, fixed b right]
  have within : Frontier.Within d.model { queue := .ofList roots } := fun id member =>
    known id (OrderedSet.mem_ofList.mp member)
  exact concur_run reached unison _ within a b drafts

end

/-! ## Orders -/

section

variable (reached : Reached u d) (unison : Unison u d.model related)

include reached unison

theorem concur_order (c : Closure) : Concur related (order u c) fun _ => True := by
  have graph : Concur related (dependencyGraph u c) (Depicts u d c) := by
    refine Concur.strengthen unison.coherents (.mapM fun id _ => ?_) fun _ coherent =>
      meets_dependencyGraph reached coherent
    exact (unison.dependencies id).bind fun _ _ => .pure trivial
  refine graph.bind fun g depicts => .model unison.coherents (fun n grown => ?_) (.pure trivial)
  exact congrArg Pure.pure (depicts.mapError_sort_eq reached grown)

end

/-! ## Plans -/

section

variable (reached : Reached u d) {bound : List NodeId}

include reached

theorem replacement?_eq {n : Model} (grown : d.model.Extends n) {id : NodeId}
    (inside : id.index < d.model.size) : p.replacement? n id = p.replacement? d.model id := by
  rw [Policy.replacement?, Policy.replacement?, grown.fullName_eq reached.coherent.2 inside,
    grown.signatureKey_eq reached.coherent.2 inside]

theorem returnPolicy?_eq {n : Model} (grown : d.model.Extends n) {id : NodeId}
    (inside : id.index < d.model.size) : p.returnPolicy? n id = p.returnPolicy? d.model id := by
  rw [Policy.returnPolicy?, Policy.returnPolicy?, grown.fullName_eq reached.coherent.2 inside,
    grown.signatureKey_eq reached.coherent.2 inside]

theorem planEnum_eq {n : Model} (grown : d.model.Extends n) {id : NodeId}
    (inside : id.index < d.model.size) : Plan.planEnum p n id = Plan.planEnum p d.model id := by
  have constants : (n.enumConstants id).map n.name =
      (d.model.enumConstants id).map d.model.name := grown.map_name_eq id rfl
  simp only [Plan.planEnum, constants, Node.isAnonymous, grown.name_eq inside,
    Policy.exportsValues, grown.fullName_eq reached.coherent.2 inside]

variable (unison : Unison u d.model related)

include unison

theorem concur_planMember {id : NodeId} (inside : id.index < d.model.size) :
    Concur related (Plan.planMember u p bound id) fun _ => True := by
  refine (unison.dependencies id).bind fun needed real =>
    .model unison.coherents (fun n grown => ?_) (.pure trivial)
  have missing : (needed.toList.filter fun other =>
      !(bound.contains other || p.isCaster n other || n.kind other = .builtin)) =
        needed.toList.filter fun other =>
          !(bound.contains other || p.isCaster d.model other || d.model.kind other = .builtin) := by
    apply List.filter_congr
    intro other member
    rw [isCaster_eq reached grown (Model.index_lt_of_kind_ne (real other member)), grown.kind_eq]
  have parameters : (n.parameters id).map n.name = (d.model.parameters id).map d.model.name :=
    grown.map_name_eq id rfl
  have kind : (n.node id).kind = (d.model.node id).kind := grown.kind_eq id
  have name : (n.node id).name = (d.model.node id).name := grown.name_eq inside
  simp only [missing, parameters, kind, name, grown.signature_eq inside,
    replacement?_eq reached grown inside, returnPolicy?_eq reached grown inside,
    grown.isOverloaded_eq inside, grown.flags_eq, grown.comment_eq]

-- The members of a record that are planned are in the arena.
theorem concur_planMembers {record : NodeId} {wanted : NodeKind → Bool} (asked : Bool)
    (real : wanted .builtin = false) :
    Concur related
      ((if asked then (d.model.membersWhere record wanted).filter (p.shows d.model)
        else []).mapM (Plan.planMember u p bound)) fun _ => True := by
  refine .mapM fun member present => concur_planMember reached unison ?_
  split at present
  · have kept := (List.mem_filter.mp (List.mem_filter.mp present).1).2
    apply Model.index_lt_of_kind_ne
    intro builtin
    rw [builtin, real] at kept
    cases kept
  · cases present

theorem concur_planRecord {id : NodeId} (inside : id.index < d.model.size) :
    Concur related (Plan.planRecord u p emit bound id) fun _ => True := by
  refine (unison.bases id).bind fun bases _ => .model unison.coherents (fun n grown => ?_) ?_
  · have addons : p.addonMethods n id = p.addonMethods d.model id := by
      rw [Policy.addonMethods, Policy.addonMethods, grown.fullName_eq reached.coherent.2 inside]
    simp only [Model.constructors, Model.fields, Model.methods, addons, grown.flags_eq]
    rw [filter_shows_eq reached grown rfl, filter_shows_eq reached grown rfl,
      filter_shows_eq reached grown rfl]
  · refine (concur_planMembers reached unison emit.constructors rfl).bind fun _ _ => ?_
    refine (concur_planMembers reached unison emit.fields rfl).bind fun _ _ => ?_
    refine (concur_planMembers reached unison emit.methods rfl).bind fun _ _ => .pure trivial

theorem concur_planItem (id : NodeId) :
    Concur related (Plan.planItem u p emit bound id) fun found =>
      found.isSome → id.index < d.model.size := by
  refine .model unison.coherents (fun n grown => ?_) ?_
  · rw [grown.kind_eq]
    split
    · rfl
    · next kind => rw [planEnum_eq reached grown (Model.index_lt_of_kind_ne (by simp [kind]))]
    · rfl
    · rfl
  · split
    · next kind =>
      have here : id.index < d.model.size := Model.index_lt_of_kind_ne (by simp [kind])
      exact (concur_planRecord reached unison here).bind fun _ _ => .pure fun _ => here
    · next kind => exact .pure fun _ => Model.index_lt_of_kind_ne (by simp [kind])
    · next kind =>
      have here : id.index < d.model.size := Model.index_lt_of_kind_ne (by simp [kind])
      exact (concur_planMember reached unison here).bind fun _ _ => .pure fun _ => here
    · exact .pure nofun

theorem concur_planEntry (id : NodeId) :
    Concur related (Plan.planEntry u p emit bound id) fun _ => True := by
  refine (concur_planItem reached unison id).bind fun found some => ?_
  cases found with
  | none => exact .pure trivial
  | some item =>
    have inside := some rfl
    refine (unison.dependencies id).bind fun needed _ =>
      .model unison.coherents (fun n grown => ?_) (.pure trivial)
    have name : n.name id = d.model.name id := grown.name_eq inside
    rw [name, grown.fullName_eq reached.coherent.2 inside]

theorem concur_ofOrder (sorted : List NodeId) :
    Concur related (Plan.ofOrder u p emit sorted) fun _ => True := by
  refine .model unison.coherents (fun n grown => by simp only [grown.isPublic_eq]) ?_
  refine (Concur.mapM fun id _ => ?_).bind fun _ _ => .pure trivial
  exact concur_planEntry reached unison id

theorem concur_ofRoots {roots : List NodeId} (known : ∀ id ∈ roots, id.index < d.model.size) :
    Concur related (Plan.ofRoots u p emit roots) fun _ => True := by
  refine (concur_closure reached unison known).bind fun c _ => ?_
  refine (concur_order reached unison c).bind fun outcome _ => ?_
  cases outcome with
  | error error => exact .pure trivial
  | ok sorted => exact (concur_ofOrder reached unison sorted).bind fun _ _ => .pure trivial

end

end Bindery.Binding
