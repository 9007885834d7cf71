import Bindery.Proofs.Binding.Frontier
import Mathlib.Order.Bounds.Basic

/-! The closure of a list of roots is the least set that holds the roots and is closed under what
its members bring in, less what is blocked; and what is blocked among all that was met is left out
for the first reason that applies. -/

set_option autoImplicit false

namespace Bindery.Binding

open Ast (TranslationUnit)

variable {u : TranslationUnit} {p : Policy} {d e : Draft} {roots : List NodeId}

/-! ## One step of the loop -/

/-- What queueing an entity, or several, brings about. -/
def Queued (u : TranslationUnit) (p : Policy) (d : Draft) (roots : List NodeId)
    (current : Option NodeId) (f : Frontier) (these : NodeId → Prop) (g : Frontier) : Prop :=
  Progress u p d roots current g ∧ f.Grows g ∧
    ∀ id, (d.model.kind id).isBindable → these id → g.Covers id

theorem Queued.trans {current : Option NodeId} {f g h : Frontier} {these those : NodeId → Prop}
    (first : Queued u p d roots current f these g) (second : Queued u p d roots current g those h) :
    Queued u p d roots current f (fun id => these id ∨ those id) h := by
  obtain ⟨_, grown, covered⟩ := first
  obtain ⟨progress, further, covered'⟩ := second
  refine ⟨progress, grown.trans further, fun id bindable either => ?_⟩
  rcases either with this | that
  · exact (covered id bindable this).grows further
  · exact covered' id bindable that

theorem Queued.imp {current : Option NodeId} {f g : Frontier} {these those : NodeId → Prop}
    (queued : Queued u p d roots current f these g) (fewer : ∀ id, those id → these id) :
    Queued u p d roots current f those g :=
  ⟨queued.1, queued.2.1, fun id bindable that => queued.2.2 id bindable (fewer id that)⟩

section

variable (reached : Reached u d) (coherent : Coherent u d.model [] e.model) {id : NodeId}

include reached coherent

theorem meets_findVeto (inside : id.index < d.model.size) :
    Meets u d.model e (Frontier.findVeto u p id) fun found =>
      ∀ veto, found = some veto ↔ Blocked u p d id veto := by
  unfold Frontier.findVeto
  apply Meets.model
  rw [isCaster_eq reached coherent.grown inside, excludes_eq reached coherent.grown inside,
    coherent.grown.kind_eq]
  -- The reasons are looked for in turn, and each case leaves the ones before it behind.
  split
  · next caster =>
    refine .pure coherent fun veto => ?_
    cases veto <;> simp [Blocked, caster]
  · next uncast =>
    split
    · next excluded =>
      refine .pure coherent fun veto => ?_
      cases veto <;> simp [Blocked, uncast, excluded]
    · next included =>
      split
      · next dropped =>
        simp only [Bool.and_eq_true] at dropped
        refine (meets_hasUnresolvedBases coherent dropped.2).bind ?_
        intro lacks e' coherent' _ known
        refine .pure coherent' fun veto => ?_
        have lacking : LacksBase u d id ↔ lacks = true := by
          rw [lacksBase_iff reached, known, Option.some.injEq]
        cases veto <;> simp [Blocked, uncast, included, dropped, lacking]
      · next undropped =>
        refine .pure coherent fun veto => ?_
        simp only [Bool.and_eq_true, not_and, Bool.not_eq_true] at undropped
        cases veto with
        | unresolvedBase =>
          simp only [Blocked, reduceCtorEq, false_iff, not_and]
          exact fun _ dropping isRecord => by simp [undropped dropping] at isRecord
        | _ => simp [Blocked, uncast, included]

/-- What comes of the question whether an entity is left out. -/
inductive Judged (u : TranslationUnit) (p : Policy) (d : Draft) (f : Frontier) (id : NodeId) :
    Bool × Frontier → Prop where
  | known {veto : Veto} (before : f.closure.veto? id = some veto) : Judged u p d f id (true, f)
  | blocked {veto : Veto} (unknown : f.closure.veto? id = none) (reason : Blocked u p d id veto) :
    Judged u p d f id (true, f.leaveOut id veto)
  | free (unknown : f.closure.veto? id = none) (free : ∀ veto, ¬ Blocked u p d id veto) :
    Judged u p d f id (false, f)

theorem meets_refuses (inside : id.index < d.model.size) (f : Frontier) :
    Meets u d.model e (f.refuses u p id) (Judged u p d f id) := by
  unfold Frontier.refuses
  cases before : f.closure.veto? id with
  | some veto => exact .pure coherent (.known before)
  | none =>
    refine (meets_findVeto reached coherent inside).bind ?_
    intro found e' coherent' _ reasons
    cases found with
    | none =>
      refine .pure coherent' (.free before fun veto blocked => ?_)
      cases (reasons veto).mpr blocked
    | some veto => exact .pure coherent' (.blocked before ((reasons veto).mp rfl))

theorem meets_enqueue {current : Option NodeId} {f : Frontier}
    (progress : Progress u p d roots current f)
    (met : (d.model.kind id).isBindable → Met u p d roots f.closure.settled id) :
    Meets u d.model e (f.enqueue u p id) (Queued u p d roots current f (· = id)) := by
  unfold Frontier.enqueue
  apply Meets.model
  rw [coherent.grown.kind_eq]
  split
  · next skipped =>
    refine .pure coherent ⟨progress, .refl f, ?_⟩
    -- What is passed over is no entity, or covered already.
    rintro _ bindable rfl
    simp only [bindable, Bool.or_eq_true, Bool.not_true, Bool.false_eq_true, false_or,
      decide_eq_true_eq] at skipped
    exact skipped.elim (fun settled => .inr (.inl settled)) .inl
  · next fresh =>
    simp only [Bool.or_eq_true, Bool.not_eq_true', decide_eq_true_eq, not_or,
      Bool.not_eq_false] at fresh
    obtain ⟨⟨bindable, unsettled⟩, unqueued⟩ := fresh
    have inside := index_lt_of_isBindable bindable
    refine (meets_refuses reached coherent inside f).bind ?_
    intro judged e' coherent' _ outcome
    cases outcome with
    | known before =>
      refine .pure coherent' ⟨progress, .refl f, ?_⟩
      rintro _ _ rfl
      exact .inr (.inr ⟨_, before⟩)
    | blocked unknown reason =>
      refine .pure coherent' ⟨progress.leaveOut unqueued unknown reason (met bindable),
        Frontier.grows_leaveOut unknown, ?_⟩
      rintro _ _ rfl
      exact .inr (.inr ⟨_, Frontier.veto?_leaveOut.trans (if_pos rfl)⟩)
    | free unknown _ =>
      refine .pure coherent' ⟨progress.push inside unsettled unknown (met bindable),
        Frontier.grows_insert f id, ?_⟩
      rintro _ _ rfl
      exact .inl (OrderedSet.mem_insert.mpr (.inr rfl))

theorem meets_enqueueAll {current : Option NodeId} {f : Frontier} (ids : List NodeId)
    (progress : Progress u p d roots current f)
    (met : ∀ id ∈ ids, (d.model.kind id).isBindable → Met u p d roots f.closure.settled id) :
    Meets u d.model e (f.enqueueAll u p ids) (Queued u p d roots current f (· ∈ ids)) := by
  unfold Frontier.enqueueAll
  induction ids generalizing e f with
  | nil =>
    refine .pure coherent ⟨progress, .refl f, fun id _ member => ?_⟩
    cases member
  | cons id rest ih =>
    rw [List.foldlM_cons]
    refine (meets_enqueue reached coherent progress (met id List.mem_cons_self)).bind ?_
    intro g e' coherent' _ queued
    refine (ih coherent' queued.1 fun other member bindable => ?_).weaken fun h later =>
      (queued.trans later).imp fun other => List.mem_cons.mp
    -- Queueing settles nothing, so that the rest is still met by the same entities.
    rw [queued.2.1.settled]
    exact met other (List.mem_cons_of_mem id member) bindable

theorem meets_enqueueNeeds {current : Option NodeId} {f : Frontier}
    (progress : Progress u p d roots current f) (id : NodeId)
    (met : ∀ other, (d.model.kind other).isBindable → Needs u d id other →
      Met u p d roots f.closure.settled other) :
    Meets u d.model e (f.enqueueNeeds u p id) (Queued u p d roots current f (Needs u d id)) := by
  refine (meets_dependencies coherent id).bind ?_
  intro needed e' coherent' _ means
  have same (other : NodeId) : other ∈ needed.toList ↔ Needs u d id other := by
    rw [needs_iff reached]
    constructor
    · exact fun member => ⟨needed, means, member⟩
    · rintro ⟨_, means', member⟩
      cases means.symm.trans means'
      exact member
  exact (meets_enqueueAll reached coherent' needed.toList progress fun other member bindable =>
    met other bindable ((same other).mp member)).weaken fun g queued =>
      queued.imp fun other => (same other).mpr

theorem meets_enqueueNeedsOf {current : Option NodeId} {f : Frontier} (members : List NodeId)
    (progress : Progress u p d roots current f)
    (met : ∀ member ∈ members, ∀ other, (d.model.kind other).isBindable → Needs u d member other →
      Met u p d roots f.closure.settled other) :
    Meets u d.model e (members.foldlM (Frontier.enqueueNeeds u p) f)
      (Queued u p d roots current f fun other => ∃ member ∈ members, Needs u d member other) := by
  induction members generalizing e f with
  | nil =>
    refine .pure coherent ⟨progress, .refl f, ?_⟩
    rintro other _ ⟨_, member, _⟩
    cases member
  | cons member rest ih =>
    rw [List.foldlM_cons]
    have first := met member List.mem_cons_self
    refine (meets_enqueueNeeds reached coherent progress member first).bind ?_
    intro g e' coherent' _ queued
    refine (ih coherent' queued.1 fun later inside other bindable needs => ?_).weaken
      fun h rested => (queued.trans rested).imp ?_
    · rw [queued.2.1.settled]
      exact met later (List.mem_cons_of_mem member inside) other bindable needs
    · rintro other ⟨which, inside, needs⟩
      rcases List.mem_cons.mp inside with rfl | inside
      · exact .inl needs
      · exact .inr ⟨which, inside, needs⟩

omit coherent in
theorem mem_nested_iff {n : Model} (grown : d.model.Extends n) (record nested : NodeId) :
    nested ∈ (n.records record ++ n.enums record).filter (p.shows n) ↔
      NestedType p d record nested := by
  rw [List.filter_append, Model.records, Model.enums, filter_shows_eq reached grown rfl,
    filter_shows_eq reached grown rfl, ← List.filter_append, List.mem_filter, List.mem_append]
  rfl

omit coherent in
theorem mem_plannedMembers_iff {n : Model} (grown : d.model.Extends n) (record member : NodeId) :
    member ∈ (n.fields record ++ n.methods record ++ n.constructors record).filter (p.shows n) ↔
      PlannedMember p d record member := by
  rw [List.filter_append, List.filter_append, Model.fields, Model.methods, Model.constructors,
    filter_shows_eq reached grown rfl, filter_shows_eq reached grown rfl,
    filter_shows_eq reached grown rfl, ← List.filter_append, ← List.filter_append,
    List.mem_filter, List.mem_append, List.mem_append, or_assoc]
  rfl

theorem meets_visitMembers {current : Option NodeId} {f : Frontier} {record : NodeId}
    (progress : Progress u p d roots current f) (settled : record ∈ f.closure.settled)
    (isRecord : (d.model.kind record).isRecord) :
    Meets u d.model e (f.visitMembers u p record)
      (Queued u p d roots current f fun other => NestedType p d record other ∨
        ∃ member, PlannedMember p d record member ∧ Needs u d member other) := by
  unfold Frontier.visitMembers
  apply Meets.model
  refine (meets_enqueueAll reached coherent _ progress ?_).bind ?_
  · intro other member bindable
    have nested := (mem_nested_iff reached coherent.grown record other).mp member
    exact .inr ⟨record, settled, bindable, .inr ⟨isRecord, .inl nested⟩⟩
  · intro g e' coherent' _ queued
    refine (meets_enqueueNeedsOf reached coherent' _ queued.1 ?_).weaken fun h later =>
      (queued.trans later).imp ?_
    · intro member inside other bindable needs
      have planned := (mem_plannedMembers_iff reached coherent.grown record member).mp inside
      refine .inr ⟨record, ?_, bindable, .inr ⟨isRecord, .inr ⟨member, planned, needs⟩⟩⟩
      rw [queued.2.1.settled]
      exact settled
    · rintro other (nested | ⟨member, planned, needs⟩)
      · exact .inl ((mem_nested_iff reached coherent.grown record other).mpr nested)
      · exact .inr
          ⟨member, (mem_plannedMembers_iff reached coherent.grown record member).mpr planned, needs⟩

end

/-! ## The loop -/

/-- The nodes that are neither settled nor left out yet. -/
def Frontier.undecided (f : Frontier) (m : Model) : Finset NodeId :=
  m.ids.toFinset.filter fun id => id ∉ f.closure.settled ∧ f.closure.veto? id = none

theorem Frontier.mem_undecided {f : Frontier} {m : Model} {id : NodeId} :
    id ∈ f.undecided m ↔
      id.index < m.size ∧ id ∉ f.closure.settled ∧ f.closure.veto? id = none := by
  rw [undecided, Finset.mem_filter, List.mem_toFinset, Model.mem_ids]

theorem Frontier.card_undecided_le (f : Frontier) (m : Model) : (f.undecided m).card ≤ m.size :=
  calc (f.undecided m).card
      ≤ m.ids.toFinset.card := Finset.card_filter_le ..
    _ ≤ m.ids.length := List.toFinset_card_le _
    _ = m.size := Model.length_ids m

-- Deciding one more node leaves fewer undecided.
theorem Frontier.card_undecided_lt {f g : Frontier} {m : Model} {id : NodeId}
    (before : id ∈ f.undecided m) (after : id ∉ g.undecided m)
    (kept : ∀ other ∈ g.undecided m, other ∈ f.undecided m) :
    (g.undecided m).card < (f.undecided m).card :=
  Finset.card_lt_card ⟨kept, fun back => after (back before)⟩

theorem Frontier.Grows.undecided {f g : Frontier} (grown : f.Grows g) {m : Model} {id : NodeId}
    (after : id ∈ g.undecided m) : id ∈ f.undecided m := by
  obtain ⟨inside, unsettled, unknown⟩ := mem_undecided.mp after
  refine mem_undecided.mpr ⟨inside, grown.settled ▸ unsettled, ?_⟩
  cases known : f.closure.veto? id with
  | none => rfl
  | some veto => exact absurd (grown.vetoed id veto known) (by simp [unknown])

-- Everything an entity brings in is met, so that no entity is current any more.
theorem Progress.finish {f : Frontier} {id : NodeId} (progress : Progress u p d roots (some id) f)
    (covered : ∀ other, Successor u p d id other → f.Covers other) :
    Progress u p d roots none f := by
  refine ⟨progress.inside, progress.waiting, progress.met, progress.wanted, progress.refused,
    progress.roots_covered, ?_⟩
  intro before settled _ other edge
  by_cases same : before = id
  · exact covered other (same ▸ edge)
  · exact progress.successors_covered before settled (by simpa using same) other edge

section

variable (reached : Reached u d) (coherent : Coherent u d.model [] e.model)

include reached coherent

theorem meets_settle {f : Frontier} {id : NodeId} (progress : Progress u p d roots (some id) f)
    (settled : id ∈ f.closure.settled) :
    Meets u d.model e
      (do
        let g ← f.enqueueNeeds u p id
        if ((← Query.model).kind id).isRecord then g.visitMembers u p id else return g)
      fun g => Progress u p d roots none g ∧ f.Grows g := by
  refine (meets_enqueueNeeds reached coherent progress id fun other bindable needs =>
    .inr ⟨id, settled, bindable, .inl needs⟩).bind ?_
  rintro g e' coherent' _ ⟨progress', grown, covered⟩
  apply Meets.model
  rw [coherent'.grown.kind_eq]
  split
  · next isRecord =>
    refine (meets_visitMembers reached coherent' progress' (grown.settled ▸ settled)
      isRecord).weaken ?_
    rintro h ⟨progress'', further, covered'⟩
    refine ⟨progress''.finish ?_, grown.trans further⟩
    rintro other ⟨bindable, needs | ⟨_, inner⟩⟩
    · exact (covered other bindable needs).grows further
    · exact covered' other bindable inner
  · next plain =>
    refine .pure coherent' ⟨progress'.finish ?_, grown⟩
    rintro other ⟨bindable, needs | ⟨isRecord, _⟩⟩
    · exact covered other bindable needs
    · exact absurd isRecord plain

-- One round keeps the invariant and decides the entity taken from the queue.
theorem meets_visit {f : Frontier} {id : NodeId} {rest : OrderedSet NodeId}
    (progress : Progress u p d roots none f) (taken : f.queue.pop? = some (id, rest)) :
    Meets u d.model e (Frontier.visit u p { f with queue := rest } id) fun g =>
      Progress u p d roots none g ∧ (g.undecided d.model).card < (f.undecided d.model).card := by
  have queued : id ∈ f.queue := (Progress.mem_queue_iff taken id).mpr (.inr rfl)
  have inside := progress.inside id queued
  obtain ⟨unsettled, unknown⟩ := progress.waiting id queued
  have before : id ∈ f.undecided d.model := Frontier.mem_undecided.mpr ⟨inside, unsettled, unknown⟩
  unfold Frontier.visit
  refine (meets_refuses reached coherent inside _).bind ?_
  intro judged e' coherent' _ outcome
  cases outcome with
  -- Nothing queued was left out before, and of the other two answers each decides the entity.
  | known left =>
    rw [show f.closure.veto? id = none from unknown] at left
    cases left
  | @blocked veto _ reason =>
    have grown : f.Grows (f.leaveOut id veto) := Frontier.grows_leaveOut unknown
    refine .pure coherent' ⟨progress.popBlocked taken reason,
      Frontier.card_undecided_lt before ?_ fun other => grown.undecided⟩
    intro after
    have still := (Frontier.mem_undecided.mp after).2.2
    rw [Frontier.veto?_leaveOut, if_pos rfl] at still
    cases still
  | free _ free =>
    dsimp only
    rw [if_neg (by simpa using unsettled)]
    -- The entity is settled first, so that it cannot queue itself again.
    have now : id ∈ f.closure.settled.insert id := OrderedSet.mem_insert.mpr (.inr rfl)
    refine (meets_settle reached coherent' (progress.popFree taken free) now).weaken ?_
    rintro g ⟨progress', grown⟩
    refine ⟨progress', Frontier.card_undecided_lt before ?_ ?_⟩
    · intro after
      apply (Frontier.mem_undecided.mp after).2.1
      rw [grown.settled]
      exact now
    · intro other after
      obtain ⟨within, apart, open_⟩ := Frontier.mem_undecided.mp (grown.undecided after)
      exact Frontier.mem_undecided.mpr
        ⟨within, fun settled => apart (OrderedSet.mem_insert.mpr (.inl settled)), open_⟩

/-- The loop ends with an empty queue. -/
theorem meets_run (bound : Nat) {f : Frontier} (progress : Progress u p d roots none f)
    (enough : (f.undecided d.model).card < bound) :
    Meets u d.model e (Frontier.run u p bound f) fun c =>
      Progress u p d roots none { queue := ∅, closure := c } := by
  -- A round decides a node, and there are no more undecided nodes than rounds.
  induction bound generalizing e f with
  | zero => omega
  | succ bound ih =>
    unfold Frontier.run
    cases taken : f.queue.pop? with
    | none =>
      have drained : f.queue = ∅ := OrderedSet.ext (OrderedSet.pop?_eq_none_iff.mp taken)
      refine .pure coherent ?_
      rw [← drained]
      exact progress
    | some pair =>
      obtain ⟨id, rest⟩ := pair
      refine (meets_visit reached coherent progress taken).bind ?_
      rintro g e' coherent' _ ⟨progress', fewer⟩
      exact ih coherent' progress' (by omega)

end

/-! ## What the loop computes -/

variable (u p d roots)

/-- A set that holds the roots and is closed under what its members bring in, less what is
blocked. -/
structure Closed (s : Set NodeId) : Prop where
  root : ∀ id ∈ roots, (∀ veto, ¬ Blocked u p d id veto) → id ∈ s
  next : ∀ id ∈ s, ∀ other, Successor u p d id other → (∀ veto, ¬ Blocked u p d other veto) →
    other ∈ s

structure IsClosure (c : Closure) : Prop where
  least : IsLeast {s | Closed u p d roots s} {id | id ∈ c.settled}
  vetoed : ∀ id veto, c.veto? id = some veto ↔
    Blocked u p d id veto ∧ Met u p d roots c.settled id

variable {u p d roots}

theorem Wanted.mem_of_closed {s : Set NodeId} (closed : Closed u p d roots s) {id : NodeId}
    (wanted : Wanted u p d roots id) : id ∈ s := by
  induction wanted with
  | root member free => exact closed.root _ member free
  | next _ edge free ih => exact closed.next _ ih _ edge free

theorem Wanted.free {id : NodeId} (wanted : Wanted u p d roots id) (veto : Veto) :
    ¬ Blocked u p d id veto := by
  cases wanted with
  | root _ free => exact free veto
  | next _ _ free => exact free veto

theorem Wanted.isBindable {id : NodeId} (wanted : Wanted u p d roots id)
    (bindable : ∀ root ∈ roots, (d.model.kind root).isBindable) : (d.model.kind id).isBindable := by
  cases wanted with
  | root member _ => exact bindable id member
  | next _ edge _ => exact edge.1

-- With the queue empty, what the invariant covers is settled or left out.
theorem Progress.isClosure {c : Closure}
    (progress : Progress u p d roots none { queue := ∅, closure := c }) :
    IsClosure u p d roots c := by
  have decided {id : NodeId} (covered : Frontier.Covers { queue := ∅, closure := c } id) :
      id ∈ c.settled ∨ ∃ veto, c.veto? id = some veto :=
    covered.resolve_left (OrderedSet.not_mem_empty id)
  have settles {id : NodeId} (covered : Frontier.Covers { queue := ∅, closure := c } id)
      (free : ∀ veto, ¬ Blocked u p d id veto) : id ∈ c.settled :=
    (decided covered).resolve_right fun ⟨veto, known⟩ =>
      free veto (progress.refused id veto known).1
  refine ⟨⟨⟨?_, ?_⟩, ?_⟩, ?_⟩
  · exact fun id member => settles (progress.roots_covered id member)
  · exact fun id settled other edge =>
      settles (progress.successors_covered id settled nofun other edge)
  · exact fun s closed id settled => (progress.wanted id settled).mem_of_closed closed
  · intro id veto
    refine ⟨progress.refused id veto, fun ⟨blocked, met⟩ => ?_⟩
    have covered : Frontier.Covers { queue := ∅, closure := c } id := by
      rcases met with member | ⟨before, settled, edge⟩
      · exact progress.roots_covered id member
      · exact progress.successors_covered before settled nofun id edge
    rcases decided covered with settled | ⟨other, known⟩
    · exact absurd blocked ((progress.wanted id settled).free veto)
    · rw [known, (progress.refused id other known).1.unique blocked]

theorem Progress.start (known : ∀ id ∈ roots, id.index < d.model.size) :
    Progress u p d roots none { queue := .ofList roots } where
  inside id queued := known id (OrderedSet.mem_ofList.mp queued)
  waiting _ _ := ⟨OrderedSet.not_mem_empty _, rfl⟩
  met _ queued := .inl (OrderedSet.mem_ofList.mp queued)
  wanted id settled := absurd settled (OrderedSet.not_mem_empty id)
  refused _ _ known := by cases known
  roots_covered _ member := .inl (OrderedSet.mem_ofList.mpr member)
  successors_covered id settled := absurd settled (OrderedSet.not_mem_empty id)

theorem meets_closure (reached : Reached u d) (known : ∀ id ∈ roots, id.index < d.model.size) :
    Meets u d.model d (closure u p roots) (IsClosure u p d roots) := by
  unfold closure
  apply Meets.model
  have start : Progress u p d roots none { queue := .ofList roots } := .start known
  refine (meets_run reached reached.coherent.1 _ start ?_).weaken fun c ended => ended.isClosure
  have := Frontier.card_undecided_le { queue := .ofList roots } d.model
  omega

namespace IsClosure

variable {c : Closure} {id : NodeId} {veto : Veto}

theorem mem_settled_iff (spec : IsClosure u p d roots c) :
    id ∈ c.settled ↔ Wanted u p d roots id := by
  constructor
  · intro settled
    -- What is wanted is closed itself, and a least set is below it.
    have closed : Closed u p d roots {id | Wanted u p d roots id} :=
      ⟨fun _ member free => .root member free, fun _ before _ edge free => .next before edge free⟩
    exact spec.least.2 closed settled
  · exact Wanted.mem_of_closed spec.least.1

theorem disjoint (spec : IsClosure u p d roots c) (settled : id ∈ c.settled) :
    c.veto? id = none := by
  cases known : c.veto? id with
  | none => rfl
  | some veto =>
    exact absurd ((spec.vetoed id veto).mp known).1 ((spec.mem_settled_iff.mp settled).free veto)

end IsClosure

theorem Wanted.mono {front : List NodeId} (fewer : ∀ id ∈ front, id ∈ roots) {id : NodeId}
    (wanted : Wanted u p d front id) : Wanted u p d roots id := by
  induction wanted with
  | root member free => exact .root (fewer _ member) free
  | next _ edge free ih => exact .next ih edge free

theorem wanted_append_iff {front back : List NodeId} {id : NodeId} :
    Wanted u p d (front ++ back) id ↔ Wanted u p d front id ∨ Wanted u p d back id := by
  constructor
  · intro wanted
    induction wanted with
    | root member free =>
      rcases List.mem_append.mp member with first | last
      · exact .inl (.root first free)
      · exact .inr (.root last free)
    | next _ edge free ih => exact ih.imp (.next · edge free) (.next · edge free)
  · rintro (wanted | wanted)
    · exact wanted.mono fun _ => List.mem_append_left back
    · exact wanted.mono fun _ => List.mem_append_right front

theorem IsClosure.settled_congr {same : List NodeId} {c c' : Closure}
    (spec : IsClosure u p d roots c) (spec' : IsClosure u p d same c')
    (members : ∀ id, id ∈ same ↔ id ∈ roots) (id : NodeId) : id ∈ c'.settled ↔ id ∈ c.settled := by
  rw [spec.mem_settled_iff, spec'.mem_settled_iff]
  exact ⟨.mono fun id => (members id).mp, .mono fun id => (members id).mpr⟩

theorem IsClosure.veto?_congr {same : List NodeId} {c c' : Closure}
    (spec : IsClosure u p d roots c) (spec' : IsClosure u p d same c')
    (members : ∀ id, id ∈ same ↔ id ∈ roots) (id : NodeId) : c'.veto? id = c.veto? id := by
  apply Option.ext
  intro veto
  rw [spec.vetoed, spec'.vetoed, Met, Met, members id]
  simp only [spec.settled_congr spec' members]

theorem IsClosure.settled_append {front back : List NodeId} {c first last : Closure}
    (spec : IsClosure u p d (front ++ back) c) (spec₁ : IsClosure u p d front first)
    (spec₂ : IsClosure u p d back last) (id : NodeId) :
    id ∈ c.settled ↔ id ∈ first.settled ∨ id ∈ last.settled := by
  rw [spec.mem_settled_iff, spec₁.mem_settled_iff, spec₂.mem_settled_iff, wanted_append_iff]

theorem IsClosure.veto?_append {front back : List NodeId} {c first last : Closure}
    (spec : IsClosure u p d (front ++ back) c) (spec₁ : IsClosure u p d front first)
    (spec₂ : IsClosure u p d back last) (id : NodeId) (veto : Veto) :
    c.veto? id = some veto ↔ first.veto? id = some veto ∨ last.veto? id = some veto := by
  rw [spec.vetoed, spec₁.vetoed, spec₂.vetoed, ← and_or_left]
  refine and_congr_right fun _ => ?_
  unfold Met
  simp only [List.mem_append, spec.settled_append spec₁ spec₂, or_and_right, exists_or]
  exact or_or_or_comm

/-- Where every question for dependencies ends, so does the closure of any roots, and it is what it
is specified to be. It depends on the set of the roots alone and takes unions to unions. -/
theorem closure_isLeast (reached : Reached u d) (ends : NeedsEnd u d) (p : Policy)
    (roots : List NodeId) (known : ∀ id ∈ roots, id.index < d.model.size) :
    ∃ c e, closure u p roots d = .ok (c, e) ∧
      IsLeast {s | Closed u p d roots s} {id | id ∈ c.settled} ∧
      (∀ id veto, c.veto? id = some veto ↔ Blocked u p d id veto ∧
        (id ∈ roots ∨ ∃ other ∈ c.settled, Successor u p d other id)) ∧
      (∀ id ∈ c.settled, c.veto? id = none) ∧
      (∀ same : List NodeId, (∀ id, id ∈ same ↔ id ∈ roots) →
        ∃ c' e', closure u p same d = .ok (c', e') ∧
          (∀ id, id ∈ c'.settled ↔ id ∈ c.settled) ∧ ∀ id, c'.veto? id = c.veto? id) ∧
      ∀ front back : List NodeId, roots = front ++ back →
        ∃ first e₁ last e₂, closure u p front d = .ok (first, e₁) ∧
          closure u p back d = .ok (last, e₂) ∧
          (∀ id, id ∈ c.settled ↔ id ∈ first.settled ∨ id ∈ last.settled) ∧
          ∀ id veto,
            c.veto? id = some veto ↔ first.veto? id = some veto ∨ last.veto? id = some veto := by
  have runs {some : List NodeId} (inside : ∀ id ∈ some, id.index < d.model.size) :
      ∃ c e, closure u p some d = .ok (c, e) ∧ IsClosure u p d some c := by
    obtain ⟨c, e, ran, _, _, spec⟩ :=
      (meets_closure reached inside).exists_of_halting (ends.halting reached)
    exact ⟨c, e, ran, spec⟩
  obtain ⟨c, e, ran, spec⟩ := runs known
  refine ⟨c, e, ran, spec.least, spec.vetoed, fun _ => spec.disjoint, ?_, ?_⟩
  · intro same members
    obtain ⟨c', e', ran', spec'⟩ := runs fun id member => known id ((members id).mp member)
    exact ⟨c', e', ran', spec.settled_congr spec' members, spec.veto?_congr spec' members⟩
  · rintro front back rfl
    obtain ⟨first, e₁, ran₁, spec₁⟩ :=
      runs fun id member => known id (List.mem_append_left back member)
    obtain ⟨last, e₂, ran₂, spec₂⟩ :=
      runs fun id member => known id (List.mem_append_right front member)
    exact ⟨first, e₁, last, e₂, ran₁, ran₂, spec.settled_append spec₁ spec₂,
      spec.veto?_append spec₁ spec₂⟩

/-- A base that is excluded is left out of the closure of what derives from it. -/
theorem closure_isLeast_shapes :
    Reached shapes shapesDraft ∧ NeedsEnd shapes shapesDraft ∧
      ∃ c e, closure shapes { excluded := ["Base"] } [⟨2⟩] shapesDraft = .ok (c, e) ∧
        IsLeast {s | Closed shapes { excluded := ["Base"] } shapesDraft [⟨2⟩] s}
          {id | id ∈ c.settled} ∧
        c.settled.toList = [⟨2⟩] ∧ c.veto? ⟨1⟩ = some .excluded := by
  have ends : NeedsEnd shapes shapesDraft := by decide +kernel
  have known : ∀ id ∈ [(⟨2⟩ : NodeId)], id.index < shapesDraft.model.size := by decide +kernel
  obtain ⟨c, e, ran, least, _⟩ :=
    closure_isLeast reached_shapes ends { excluded := ["Base"] } [⟨2⟩] known
  refine ⟨reached_shapes, ends, c, e, ran, least, ?_⟩
  have computed : (closure shapes { excluded := ["Base"] } [⟨2⟩] shapesDraft).toOption.map
      (fun ended => (ended.1.settled.toList, ended.1.veto? ⟨1⟩)) =
        some ([⟨2⟩], some .excluded) := by decide +kernel
  rw [ran] at computed
  simpa [Except.toOption] using computed

end Bindery.Binding
