import Bindery.Proofs.Model.Meaning

/-! Where a model has no meaning. Pointer types that lead back to themselves keep a parameter from
being resolved, and fields whose types are declared by one another keep a field from having
dependencies. Nothing else does: every other meaning is there. -/

set_option autoImplicit false

namespace Bindery

open Ast (Cursor CursorId TranslationUnit TypeId)
open Relation (ReflTransGen TransGen)

/-! ## Pointers -/

namespace Ast.TranslationUnit

variable (u : TranslationUnit)

/-- A type names another as what it points at. -/
def PointsAt (type target : TypeId) : Prop := (u.type? type).bind (·.pointee) = some target

/-- No chain of pointees comes back to where it started. -/
def AcyclicPointees : Prop := ∀ type, ¬ TransGen u.PointsAt type type

/-- From a pointer to its target; any other type answers. -/
def pointerStep (type : TypeId) : Option TypeId ⊕ TypeId :=
  match u.pointerTarget? type with
  | none => .inl (some type)
  | some target => .inr target

def typeIds : List TypeId := (List.range u.types.size).map .ofIndex

variable {u}

theorem followPointers_eq_chase (bound : Nat) (type : TypeId) :
    u.followPointers bound type = chase u.pointerStep (fun _ answer => answer) none bound type := by
  induction bound generalizing type with
  | zero => rfl
  | succ bound ih =>
    rw [followPointers, chase, pointerStep]
    cases u.pointerTarget? type with
    | none => rfl
    | some target => exact ih target

theorem pointsAt_of_leadsTo {type target : TypeId} (leads : LeadsTo u.pointerStep type target) :
    u.PointsAt type target := by
  unfold LeadsTo pointerStep at leads
  cases found : u.pointerTarget? type with
  | none => simp [found] at leads
  | some other =>
    simp only [found, Sum.inr.injEq] at leads
    subst leads
    simp only [pointerTarget?, pointee?, Option.bind_eq_bind, Option.bind_eq_some_iff,
      Option.ite_none_right_eq_some] at found
    obtain ⟨t, known, _, t', known', _, found⟩ := found
    cases known.symm.trans known'
    simp [PointsAt, known, (Option.filter_eq_some_iff.mp found).1]

theorem mem_typeIds_of_pointerStep {type target : TypeId} (on : u.pointerStep type = .inr target) :
    type ∈ u.typeIds := by
  have known : u.type? type ≠ none := by
    intro missing
    simp [pointerStep, pointerTarget?, missing] at on
  have inside : type.index < u.types.size := by
    by_contra outside
    exact known (Array.getElem?_eq_none (Nat.le_of_not_lt outside))
  refine List.mem_map.mpr ⟨type.index, List.mem_range.mpr inside, ?_⟩
  cases type
  simp [TypeId.ofIndex, TypeId.index]

/-- Taking all pointers away goes on for ever if and only if pointers lead into a ring. -/
theorem stripPointers?_eq_none_iff (type : TypeId) :
    u.stripPointers? type = none ↔
      ∃ target, ReflTransGen (LeadsTo u.pointerStep) type target ∧
        TransGen (LeadsTo u.pointerStep) target target := by
  rw [stripPointers?, followPointers_eq_chase]
  apply chase_eq_stuck_iff u.typeIds (fun _ => rfl) ?_ (fun _ _ given => given)
    fun _ _ on => mem_typeIds_of_pointerStep on
  · simp [typeIds]
  · intro start answer on
    unfold pointerStep at on
    split at on <;> cases on
    simp

theorem AcyclicPointees.stripPointers? (acyclic : u.AcyclicPointees) (type : TypeId) :
    u.stripPointers? type ≠ none := by
  intro endless
  obtain ⟨target, _, around⟩ := (stripPointers?_eq_none_iff type).mp endless
  exact acyclic target (TransGen.mono (fun _ _ => pointsAt_of_leadsTo) _ _ around)

/-- Types that point only at types listed before them form no ring. -/
theorem acyclicPointees_of_lt
    (earlier : ∀ t ∈ u.types.toList.zipIdx, ∀ target ∈ t.1.pointee, target.index < t.2) :
    u.AcyclicPointees := by
  have falls (type target : TypeId) (points : u.PointsAt type target) :
      target.index < type.index := by
    obtain ⟨t, known, points⟩ := Option.bind_eq_some_iff.mp points
    refine earlier (t, type.index) (List.mem_zipIdx_iff_getElem?.mpr ?_) target points
    rw [Array.getElem?_toList]
    exact known
  intro type around
  have falling : TransGen (fun a b : TypeId => b.index < a.index) type type :=
    TransGen.mono falls _ _ around
  have lower {a b : TypeId} (chain : TransGen (fun a b : TypeId => b.index < a.index) a b) :
      b.index < a.index := by
    induction chain with
    | single below => exact below
    | tail _ below ih => exact Nat.lt_trans below ih
  exact Nat.lt_irrefl _ (lower falling)

end Ast.TranslationUnit

namespace Meaning

variable {u : TranslationUnit} {m : Model}

/-! ## Everything but the needs of fields -/

theorem foldlM_ne_none {σ ι : Type} {step : σ → ι → Option σ} (each : ∀ s i, step s i ≠ none)
    (items : List ι) (s : σ) : items.foldlM step s ≠ none := by
  induction items generalizing s with
  | nil => exact nofun
  | cons item rest ih =>
    obtain ⟨next, stepped⟩ := Option.ne_none_iff_exists'.mp (each s item)
    rw [List.foldlM_cons, stepped]
    exact ih next

section

variable (acyclic : u.AcyclicPointees)

include acyclic

theorem startingType?_ne_none (id : NodeId) (occurrence : CursorId) :
    startingType? u m id occurrence ≠ none := by
  unfold startingType?
  cases m.kind id with
  | param =>
    cases known : (u.cursor? occurrence).bind (·.type) with
    | none => simp [known]
    | some type =>
      -- Only a parameter has its pointers taken away.
      obtain ⟨target, stripped⟩ := Option.ne_none_iff_exists'.mp (acyclic.stripPointers? type)
      simp [known, stripped]
  | _ => simp

theorem ofNode?_ne_none (id : NodeId) : ofNode? u m id ≠ none := by
  unfold ofNode?
  split
  · split
    · simp
    · next occurrence _ =>
      split
      · simp
      · simpa [ofOccurrence?] using startingType?_ne_none acyclic id occurrence
  · simp

theorem behind?_ne_none (id : NodeId) : behind? u m id ≠ none := by
  unfold behind? chainEnd?
  refine chase_induct (motive := (· ≠ none)) ?_ ?_ ?_ (m.size + 1) id
  · simp
  · intro start answer on
    unfold chainStep at on
    split at on
    · cases on
      simp
    · split at on
      · split at on
        · next endless => exact absurd endless (ofNode?_ne_none acyclic start)
        · cases on
        · cases on
          simp
      · cases on
        simp
  · exact fun _ _ _ _ given => given

theorem typeDependency?_ne_none (id : NodeId) : typeDependency? u m id ≠ none := by
  obtain ⟨target, means⟩ := Option.ne_none_iff_exists'.mp (ofNode?_ne_none (m := m) acyclic id)
  rw [typeDependency?, means]
  rcases target with _ | _ | _
  · simp
  · exact behind?_ne_none acyclic _
  · simp

theorem base?_ne_none (specifier : NodeId) : base? u m specifier ≠ none := by
  unfold base?
  split
  · simp
  · split
    · simp
    · obtain ⟨target, means⟩ :=
        Option.ne_none_iff_exists'.mp (ofNode?_ne_none (m := m) acyclic specifier)
      rw [means]
      rcases target with _ | target | _
      · simp
      · by_cases isAlias : (m.kind target).isAlias
        · simpa [recordBehind?, isAlias] using behind?_ne_none acyclic target
        · simp [recordBehind?, isAlias]
      · simp

theorem bases?_ne_none (record : NodeId) : bases? u m record ≠ none := by
  apply foldlM_ne_none
  intro found specifier
  obtain ⟨base, means⟩ := Option.ne_none_iff_exists'.mp (base?_ne_none (m := m) acyclic specifier)
  rw [addBase?, means]
  cases base with
  | none => simp
  | some base =>
    dsimp only [Option.bind_eq_bind, Option.bind_some]
    split <;> simp

theorem plain?_ne_none (id : NodeId) : plain? u m id ≠ none := by
  have types (id : NodeId) : typeDependencies? u m id ≠ none := by
    simpa [typeDependencies?] using typeDependency?_ne_none acyclic id
  unfold plain?
  cases m.kind id with
  | record _ =>
    obtain ⟨found, means⟩ := Option.ne_none_iff_exists'.mp (bases?_ne_none (m := m) acyclic id)
    simp [means]
  | callable _ =>
    obtain ⟨returned, means⟩ := Option.ne_none_iff_exists'.mp (types id)
    dsimp only
    rw [means]
    apply foldlM_ne_none
    intro needed param
    obtain ⟨found, means⟩ := Option.ne_none_iff_exists'.mp (types param)
    simp [means]
  | baseSpecifier => simpa using base?_ne_none acyclic id
  | param => exact types id
  | field => exact types id
  | «variable» => exact types id
  | typeDef => exact types id
  | typeAlias => exact types id
  | typeRef => exact types id
  | templateRef => exact types id
  | _ => simp

/-! ## Fields -/

theorem fieldNeeds?_eq_none_iff (id : NodeId) :
    fieldNeeds? u m (m.size + 1) id = none ↔
      ∃ field, ReflTransGen (LeadsTo (fieldStep u m)) id field ∧
        TransGen (LeadsTo (fieldStep u m)) field field := by
  unfold fieldNeeds?
  refine chase_eq_stuck_iff m.ids (fun _ => rfl) ?_ ?_ (fun _ _ on => mem_ids_of_fieldStep on) ?_ id
  · intro start answer on
    unfold fieldStep at on
    split at on
    · next endless => exact absurd endless (typeDependency?_ne_none acyclic start)
    · cases on
      simp
    · split at on
      · cases on
        simp
      · split at on
        · cases on
        · cases on
          simpa using plain?_ne_none acyclic _
  · exact fun _ _ given => by simpa [throughField] using given
  · rw [Model.length_ids]
    omega

/-- A field has no dependencies to speak of if and only if the declarations of types lead from it
into a ring of fields. -/
theorem needs?_eq_none_iff (id : NodeId) :
    needs? u m id = none ↔ m.kind id = .field ∧
      ∃ field, ReflTransGen (LeadsTo (fieldStep u m)) id field ∧
        TransGen (LeadsTo (fieldStep u m)) field field := by
  rw [← fieldNeeds?_eq_none_iff acyclic, needs?]
  split
  · next isField => exact ⟨fun endless => ⟨isField, endless⟩, And.right⟩
  · next other =>
    constructor
    · exact fun endless => absurd endless (plain?_ne_none acyclic id)
    · exact fun both => absurd both.1 other

end

theorem leadsTo_fieldStep_iff {id other : NodeId} :
    LeadsTo (fieldStep u m) id other ↔
      typeDependency? u m id = some (some other) ∧ other ≠ id ∧ m.kind other = .field := by
  unfold LeadsTo fieldStep
  constructor
  · intro on
    split at on
    · cases on
    · cases on
    · next target found =>
      split at on
      · cases on
      · next apart =>
        split at on
        · next isField =>
          cases on
          exact ⟨found, apart, isField⟩
        · cases on
  · rintro ⟨found, apart, isField⟩
    simp [found, apart, isField]

end Meaning

end Bindery
