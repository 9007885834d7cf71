import Bindery.Proofs.Binding.Agreement

/-! Roots outside the arena. There are only markers, which need nothing and are needed by nobody, so that
a closure of such roots and others asks the same as a closure of the others alone. -/

set_option autoImplicit false

namespace Bindery

/-- A node is in the arena. -/
def Model.holds (m : Model) (id : NodeId) : Bool := id.index < m.size

-- Putting an element on undoes taking it off.
theorem OrderedSet.pop?_of_toList {α : Type} {s t : OrderedSet α} {a : α}
    (same : s.toList = t.toList ++ [a]) : s.pop? = some (a, t) := by
  simp [pop?, same]

theorem OrderedSet.toList_filter {α : Type} (s : OrderedSet α) (keep : α → Bool) :
    (s.filter keep).toList = s.toList.filter keep := rfl

theorem OrderedSet.ofList_filter {α : Type} [DecidableEq α] (items : List α) (keep : α → Bool) :
    ofList (items.filter keep) = (ofList items).filter keep := by
  induction items using List.reverseRecOn with
  | nil => rfl
  | append_singleton items item ih =>
    rw [List.filter_append, ofList_append_singleton, filter_insert, ← ih]
    by_cases kept : keep item
    · simp [kept, ofList_append_singleton]
    · simp [kept]

namespace Binding

open Ast (TranslationUnit)

/-- One coherent draft, twice. -/
def OneDraft (u : TranslationUnit) (m : Model) (d e : Draft) : Prop :=
  d = e ∧ Coherent u m [] d.model

/-- Two closures in the making that do not differ on the nodes of a model. The first has some others in
its queue besides. -/
structure Frontier.Abridges (m : Model) (others : Nat) (f g : Frontier) : Prop where
  queue : g.queue = f.queue.filter m.holds
  others : f.queue.size = g.queue.size + others
  settled : ∀ id, id.index < m.size → (id ∈ g.closure.settled ↔ id ∈ f.closure.settled)
  vetoed : ∀ id, id.index < m.size → g.closure.veto? id = f.closure.veto? id

variable {u : TranslationUnit} {p : Policy} {d e : Draft} {f g : Frontier} {others : Nat}
  {id : NodeId}

namespace Frontier.Abridges

variable {m : Model} (abridges : Abridges m others f g)

include abridges

theorem mem_queue_iff (inside : id.index < m.size) : id ∈ g.queue ↔ id ∈ f.queue := by
  rw [abridges.queue]
  simp [OrderedSet.mem_def, OrderedSet.filter, Model.holds, inside]

theorem leaveOut (id : NodeId) (veto : Veto) :
    Abridges m others (f.leaveOut id veto) (g.leaveOut id veto) where
  queue := abridges.queue
  others := abridges.others
  settled := abridges.settled
  vetoed other inside := by
    rw [veto?_leaveOut, veto?_leaveOut, abridges.vetoed other inside]

theorem settle (id : NodeId) :
    Abridges m others { f with closure := f.closure.settle id }
      { g with closure := g.closure.settle id } where
  queue := abridges.queue
  others := abridges.others
  settled other inside := by
    simp only [Closure.settle, OrderedSet.mem_insert, abridges.settled other inside]
  vetoed := abridges.vetoed

theorem push (inside : id.index < m.size) (absent : id ∉ f.queue) :
    Abridges m others { f with queue := f.queue.insert id }
      { g with queue := g.queue.insert id } where
  queue := by
    rw [OrderedSet.filter_insert, if_pos (by simpa [Model.holds] using inside), abridges.queue]
  others := by
    have absent' : id ∉ g.queue := fun member => absent ((abridges.mem_queue_iff inside).mp member)
    have same := abridges.others
    simp only [OrderedSet.size, OrderedSet.toList_insert, absent, absent', if_false,
      List.length_append, List.length_singleton] at same ⊢
    omega
  settled := abridges.settled
  vetoed := abridges.vetoed

end Frontier.Abridges

theorem parallel_of_keeps {α : Type} {m : Model} {question : Query α} (keeps : Keeps u m question) :
    Parallel (OneDraft u m) (fun left right => left = right) question question := by
  rintro d _ ⟨rfl, coherent⟩
  cases ran : question d with
  | error endless => exact .endless
  | ok result => exact .ended rfl ⟨rfl, (keeps d coherent _ _ ran).1⟩

section

variable {m : Model} (abridges : f.Abridges m others g)

include abridges

theorem parallel_refuses (inside : id.index < m.size) :
    Parallel (OneDraft u m)
      (fun left right => left.1 = right.1 ∧ left.2.queue = f.queue ∧
        left.2.Abridges m others right.2) (f.refuses u p id) (g.refuses u p id) := by
  unfold Frontier.refuses
  rw [abridges.vetoed id inside]
  split
  · exact .pure ⟨rfl, rfl, abridges⟩
  · refine (parallel_of_keeps (Keeps.resolving.findVeto p id)).bind fun veto _ same => ?_
    subst same
    cases veto with
    | none => exact .pure ⟨rfl, rfl, abridges⟩
    | some veto => exact .pure ⟨rfl, rfl, abridges.leaveOut id veto⟩

theorem parallel_enqueue (id : NodeId) :
    Parallel (OneDraft u m) (Frontier.Abridges m others) (f.enqueue u p id) (g.enqueue u p id) := by
  refine Parallel.model ?_
  rintro d _ ⟨rfl, coherent⟩
  rw [coherent.grown.kind_eq]
  by_cases bindable : (m.kind id).isBindable
  · have inside := index_lt_of_isBindable bindable
    simp only [abridges.settled id inside, abridges.mem_queue_iff inside]
    split
    · exact .pure abridges
    · next fresh =>
      simp only [Bool.or_eq_true, decide_eq_true_eq, not_or] at fresh
      refine (parallel_refuses abridges inside).bind ?_
      rintro ⟨refused, f'⟩ ⟨_, g'⟩ ⟨rfl, same, abridges'⟩
      cases refused with
      | true => exact .pure abridges'
      | false =>
        have absent : id ∉ f'.queue := fun member => fresh.2 (same ▸ member)
        exact .pure (abridges'.push inside absent)
  · simp only [bindable]
    exact .pure abridges

theorem parallel_enqueueAll (ids : List NodeId) :
    Parallel (OneDraft u m) (Frontier.Abridges m others) (f.enqueueAll u p ids)
      (g.enqueueAll u p ids) :=
  .foldlM (fun _ _ abridges id _ => parallel_enqueue abridges id) abridges

theorem parallel_enqueueNeeds (id : NodeId) :
    Parallel (OneDraft u m) (Frontier.Abridges m others) (f.enqueueNeeds u p id)
      (g.enqueueNeeds u p id) := by
  refine (parallel_of_keeps (Keeps.resolving.needs id)).bind fun needed _ same => ?_
  subst same
  exact parallel_enqueueAll abridges needed.toList

theorem parallel_visitMembers (record : NodeId) :
    Parallel (OneDraft u m) (Frontier.Abridges m others) (f.visitMembers u p record)
      (g.visitMembers u p record) := by
  refine Parallel.model ?_
  rintro d _ ⟨rfl, _⟩
  refine (parallel_enqueueAll abridges _).bind fun f' g' abridges' => ?_
  exact .foldlM (fun _ _ abridges member _ => parallel_enqueueNeeds abridges member) abridges'

theorem parallel_visit (inside : id.index < m.size) :
    Parallel (OneDraft u m) (Frontier.Abridges m others) (f.visit u p id) (g.visit u p id) := by
  refine (parallel_refuses abridges inside).bind ?_
  rintro ⟨refused, f'⟩ ⟨_, g'⟩ ⟨rfl, _, abridges'⟩
  simp only [abridges'.settled id inside]
  split
  · exact .pure abridges'
  · refine (parallel_enqueueNeeds (abridges'.settle id) id).bind fun f'' g'' abridges'' => ?_
    refine Parallel.model ?_
    rintro d _ ⟨rfl, _⟩
    split
    · exact parallel_visitMembers abridges'' id
    · exact .pure abridges''

end

/-! ## Visiting a marker -/

section

variable {m : Model} (coherent : Coherent u m [] e.model) (outside : ¬ id.index < m.size)

include coherent outside

theorem kind_of_not_lt : e.model.kind id = .builtin := by
  by_contra real
  rw [coherent.grown.kind_eq] at real
  exact outside (Model.index_lt_of_kind_ne real)

theorem exists_refuses_outside (abridges : f.Abridges m others g) :
    ∃ refused f', f.refuses u p id e = .ok ((refused, f'), e) ∧ f'.Abridges m others g := by
  have builtin := kind_of_not_lt coherent outside
  have looked : ∃ veto, Frontier.findVeto u p id e = .ok (veto, e) := by
    unfold Frontier.findVeto
    rw [Query.bind_apply, show Query.model e = .ok (e.model, e) from rfl]
    simp only [builtin, NodeKind.isRecord, Bool.and_false]
    split
    · exact ⟨_, rfl⟩
    · split <;> exact ⟨_, rfl⟩
  obtain ⟨veto, looked⟩ := looked
  unfold Frontier.refuses
  split
  · exact ⟨true, f, rfl, abridges⟩
  · rw [Query.bind_apply, looked]
    cases veto with
    | none => exact ⟨false, f, rfl, abridges⟩
    | some veto =>
      refine ⟨true, f.leaveOut id veto, rfl, abridges.queue, abridges.others, abridges.settled, ?_⟩
      intro other inside
      have apart : other ≠ id := fun same => outside (same ▸ inside)
      rw [Frontier.veto?_leaveOut, if_neg apart, abridges.vetoed other inside]

-- A marker is settled or left out, and nothing comes of it.
theorem exists_visit_outside (abridges : f.Abridges m others g) :
    ∃ f', f.visit u p id e = .ok (f', e) ∧ f'.Abridges m others g := by
  have builtin := kind_of_not_lt coherent outside
  obtain ⟨refused, f', refuses, abridges'⟩ := exists_refuses_outside (p := p) coherent outside abridges
  unfold Frontier.visit
  rw [Query.bind_apply, refuses]
  dsimp only
  split
  · exact ⟨f', rfl, abridges'⟩
  · refine ⟨{ f' with closure := f'.closure.settle id }, ?_, abridges'.queue, abridges'.others, ?_,
      abridges'.vetoed⟩
    · rw [Query.bind_apply, Frontier.enqueueNeeds, Query.bind_apply, dependencies_of_builtin builtin]
      simp only [OrderedSet.toList_empty, Frontier.enqueueAll, List.foldlM_nil]
      change (if (e.model.kind id).isRecord then _ else _ : Query Frontier) e = _
      rw [builtin]
      rfl
    · intro other inside
      have apart : other ≠ id := fun same => outside (same ▸ inside)
      simp [Closure.settle, abridges'.settled other inside, apart]

end

/-! ## The loop -/

-- Taking an element off the longer queue takes it off the shorter one as well, if it is there.
theorem Frontier.Abridges.pop {m : Model} {rest : OrderedSet NodeId}
    (abridges : f.Abridges m others g) (taken : f.queue.pop? = some (id, rest)) :
    if id.index < m.size then
      g.queue.pop? = some (id, rest.filter m.holds) ∧
        Abridges m others { f with queue := rest } { g with queue := rest.filter m.holds }
    else 0 < others ∧ Abridges m (others - 1) { f with queue := rest } g := by
  have listed := OrderedSet.toList_of_pop? taken
  have counted := abridges.others
  have queue : g.queue.toList = (rest.toList ++ [id]).filter m.holds := by
    rw [abridges.queue, OrderedSet.toList_filter, listed]
  have short : (rest.toList.filter m.holds).length ≤ rest.toList.length := List.length_filter_le ..
  simp only [OrderedSet.size, listed, queue, List.length_append, List.length_singleton] at counted
  rw [List.filter_append] at queue counted
  split
  · next inside =>
    have held : [id].filter m.holds = [id] := by simp [Model.holds, inside]
    rw [held] at queue counted
    refine ⟨OrderedSet.pop?_of_toList queue, rfl, ?_, abridges.settled, abridges.vetoed⟩
    simp only [OrderedSet.size, OrderedSet.toList_filter, List.length_append,
      List.length_singleton] at counted ⊢
    omega
  · next outside =>
    have missing : [id].filter m.holds = [] := by simp [Model.holds, outside]
    rw [missing, List.append_nil] at queue counted
    refine ⟨by omega, OrderedSet.ext queue, ?_, abridges.settled, abridges.vetoed⟩
    simp only [OrderedSet.size, queue]
    omega

section

variable (reached : Reached u d) {roots : List NodeId}

include reached

theorem parallel_run {bound shorter : Nat} (progress : Progress u p d roots none g)
    (abridges : f.Abridges d.model others g)
    (enough : (g.undecided d.model).card + others < bound)
    (more : (g.undecided d.model).card < shorter) :
    Parallel (OneDraft u d.model) (fun _ _ => True) (Frontier.run u p bound f)
      (Frontier.run u p shorter g) := by
  induction bound generalizing shorter f g others with
  | zero => omega
  | succ bound ih =>
    rintro e _ ⟨rfl, coherent⟩
    rw [Frontier.run]
    cases taken : f.queue.pop? with
    | none =>
      have empty : g.queue.pop? = none := by
        rw [OrderedSet.pop?_eq_none_iff, abridges.queue, OrderedSet.toList_filter,
          OrderedSet.pop?_eq_none_iff.mp taken, List.filter_nil]
      cases shorter with
      | zero => omega
      | succ shorter =>
        rw [Frontier.run, empty]
        exact .ended trivial ⟨rfl, coherent⟩
    | some pair =>
      obtain ⟨id, rest⟩ := pair
      have popped := abridges.pop taken
      split at popped
      · next inside =>
        obtain ⟨taken', abridges'⟩ := popped
        cases shorter with
        | zero => omega
        | succ shorter =>
          rw [Frontier.run, taken']
          dsimp only
          rw [Query.bind_apply, Query.bind_apply]
          have both := parallel_visit (u := u) (p := p) abridges' inside e e ⟨rfl, coherent⟩
          generalize Frontier.visit u p { f with queue := rest } id e = ran,
            visits : Frontier.visit u p { g with queue := rest.filter d.model.holds } id e = other
            at both
          cases both with
          | endless => exact .endless
          | ended abridges'' drafts =>
            obtain ⟨rfl, coherent'⟩ := drafts
            obtain ⟨_, _, progress', fewer⟩ :=
              (meets_visit reached coherent progress taken').of_ok visits
            exact ih progress' abridges'' (by omega) (by omega) _ _ ⟨rfl, coherent'⟩
      · next outside =>
        obtain ⟨some_left, abridges'⟩ := popped
        obtain ⟨f', visits, abridges''⟩ := exists_visit_outside (p := p) coherent outside abridges'
        dsimp only
        rw [Query.bind_apply, visits]
        exact ih progress abridges'' (by omega) more e e ⟨rfl, coherent⟩

-- The markers among the roots are visited and nothing else is different.
theorem parallel_filter_roots (roots : List NodeId) :
    Parallel (OneDraft u d.model) (fun _ _ => True) (closure u p roots)
      (closure u p (roots.filter d.model.holds)) := by
  have known : ∀ id ∈ roots.filter d.model.holds, id.index < d.model.size := fun id member => by
    simpa [Model.holds] using (List.mem_filter.mp member).2
  have queues : OrderedSet.ofList (roots.filter d.model.holds) =
      (OrderedSet.ofList roots).filter d.model.holds := OrderedSet.ofList_filter ..
  have fewer : ((OrderedSet.ofList roots).filter d.model.holds).size ≤ (OrderedSet.ofList roots).size :=
    List.length_filter_le ..
  have short : (OrderedSet.ofList roots).size ≤ roots.length :=
    ((OrderedSet.ofList roots).nodup.subperm fun _ => OrderedSet.mem_ofList.mp).length_le
  have abridges : Frontier.Abridges d.model
      ((OrderedSet.ofList roots).size - ((OrderedSet.ofList roots).filter d.model.holds).size)
      { queue := .ofList roots } { queue := .ofList (roots.filter d.model.holds) } := by
    refine ⟨queues, ?_, fun _ _ => .rfl, fun _ _ => rfl⟩
    change (OrderedSet.ofList roots).size = (OrderedSet.ofList (roots.filter d.model.holds)).size + _
    rw [queues]
    omega
  have few := Frontier.card_undecided_le { queue := .ofList (roots.filter d.model.holds) } d.model
  refine Parallel.model ?_
  rintro e _ ⟨rfl, coherent⟩
  have large := coherent.grown.size_le
  exact parallel_run reached (.start known) abridges (by omega) (by omega)

/-- Whatever the roots, a closure ends on both of two related drafts or on neither, and leaves them
related. -/
theorem parallel_closure {related : Draft → Draft → Prop} (unison : Unison u d.model related)
    (roots : List NodeId) :
    Parallel related (fun _ _ => True) (closure u p roots) (closure u p roots) := by
  intro a b drafts
  have known : ∀ id ∈ roots.filter d.model.holds, id.index < d.model.size := fun id member => by
    simpa [Model.holds] using (List.mem_filter.mp member).2
  obtain ⟨left, right⟩ := unison.coherents a b drafts
  have first := parallel_filter_roots (p := p) reached roots a a ⟨rfl, left⟩
  have second := parallel_filter_roots (p := p) reached roots b b ⟨rfl, right⟩
  have both := concur_closure (p := p) reached unison known a b drafts
  generalize closure u p (roots.filter d.model.holds) a = ran,
    closure u p (roots.filter d.model.holds) b = other at first second both
  generalize closure u p roots a = ran', closure u p roots b = other' at first second ⊢
  cases both with
  | endless =>
    cases first
    cases second
    exact .endless
  | ended _ drafts' =>
    cases first with
    | ended _ one =>
      cases second with
      | ended _ other =>
        obtain ⟨rfl, _⟩ := one
        obtain ⟨rfl, _⟩ := other
        exact .ended trivial drafts'

end

end Binding

end Bindery
