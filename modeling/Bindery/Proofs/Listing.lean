import Bindery.Model.Build
import Bindery.Model.Listing
import Bindery.Proofs.Model.Frame
import Mathlib.Data.List.Chain
import Mathlib.Data.List.Nodup
import Mathlib.Logic.Relation

/-! A listing has one line for each walk down through members that meets no node twice before its
end. However members are shared, and even where nodes contain themselves, these walks are finitely
many, and every node below the start is at the end of one of them. -/

set_option autoImplicit false

namespace Bindery.Model

open Ast (TranslationUnit)
open Relation (ReflTransGen)

variable (m : Model)

def Holds (holder member : NodeId) : Prop := member ∈ m.membersOf holder

instance : DecidableRel m.Holds := fun holder member =>
  inferInstanceAs (Decidable (member ∈ m.membersOf holder))

/-- A way down from a start through members, which ends where it meets a node again, if it has not
ended before. -/
structure IsWalk (start : NodeId) (walk : List NodeId) : Prop where
  starts : walk.head? = some start
  descends : walk.IsChain m.Holds
  distinct : walk.dropLast.Nodup

/-- The depth-first order of walks from one start: a walk comes before those that go on from it, and
where two walks part, the order of the members decides. -/
inductive Precedes : List NodeId → List NodeId → Prop
  | goesOn {id : NodeId} {rest : List NodeId} (more : rest ≠ []) : Precedes [id] (id :: rest)
  | parts {id first second : NodeId} {front back : List NodeId}
      (before : [first, second].Sublist (m.membersOf id)) :
      Precedes (id :: first :: front) (id :: second :: back)
  | further {id : NodeId} {front back : List NodeId} (precedes : Precedes front back) :
      Precedes (id :: front) (id :: back)

/-- Below a start everything is a member of one node alone, and the start is a member of none. -/
structure BranchesFrom (start : NodeId) : Prop where
  top : ∀ holder, ReflTransGen m.Holds start holder → ¬ m.Holds holder start
  once : ∀ holder other member, ReflTransGen m.Holds start holder →
    ReflTransGen m.Holds start other → m.Holds holder member → m.Holds other member →
    holder = other

/-- The line that shows the last node of a walk, two spaces further in for every step. -/
def walkLine (walk : List NodeId) : String :=
  String.ofList (List.replicate (2 * (walk.length - 1)) ' ') ++
    m.listingLine 0 (walk.getLast?.getD root)

/-- The walks from a node that do not meet again what is above it, in depth-first order. -/
def walks : Nat → List NodeId → NodeId → List (List NodeId)
  | 0, _, _ => []
  | bound + 1, way, id =>
    [id] :: if id ∈ way then []
      else (m.membersOf id).flatMap fun member => (walks bound (id :: way) member).map (id :: ·)

/-- What is above a node does not repeat, and a bound reaches for the rest of the arena. -/
structure Roomy (bound : Nat) (way : List NodeId) : Prop where
  distinct : way.Nodup
  inside : ∀ above ∈ way, above.index < m.size
  room : m.size < bound + way.length

variable {m} {start id : NodeId} {way walk : List NodeId} {bound : Nat}

theorem index_lt_of_holds {member : NodeId} (holds : m.Holds id member) : id.index < m.size := by
  by_contra outside
  simp [Holds, membersOf, node_of_size_le (Nat.le_of_not_lt outside), Node.builtin] at holds

namespace Roomy

theorem ne_zero (roomy : m.Roomy bound way) : bound ≠ 0 := by
  have few := length_le_size roomy.distinct roomy.inside
  have room := roomy.room
  omega

theorem enter {member : NodeId} (roomy : m.Roomy (bound + 1) way) (fresh : id ∉ way)
    (holds : m.Holds id member) : m.Roomy bound (id :: way) where
  distinct := List.nodup_cons.mpr ⟨fresh, roomy.distinct⟩
  inside := List.forall_mem_cons.mpr ⟨index_lt_of_holds holds, roomy.inside⟩
  room := by
    have room := roomy.room
    rw [List.length_cons]
    omega

end Roomy

/-! ## Lines and walks -/

theorem listingLine_eq (depth : Nat) (id : NodeId) :
    m.listingLine depth id =
      String.ofList (List.replicate (2 * depth) ' ') ++ m.listingLine 0 id := by
  simp [listingLine]

theorem mem_walks_succ_iff : walk ∈ m.walks (bound + 1) way id ↔
    walk = [id] ∨ id ∉ way ∧ ∃ member ∈ m.membersOf id,
      ∃ rest ∈ m.walks bound (id :: way) member, walk = id :: rest := by
  rw [walks, List.mem_cons]
  by_cases met : id ∈ way
  · simp [met]
  · simp [met, List.mem_flatMap, eq_comm]

theorem exists_of_mem_walks (found : walk ∈ m.walks bound way id) : ∃ rest, walk = id :: rest := by
  cases bound with
  | zero => cases found
  | succ bound =>
    rcases mem_walks_succ_iff.mp found with rfl | ⟨_, _, _, rest, _, rfl⟩
    · exact ⟨[], rfl⟩
    · exact ⟨rest, rfl⟩

theorem ne_nil_of_mem_walks (found : walk ∈ m.walks bound way id) : walk ≠ [] := by
  obtain ⟨rest, rfl⟩ := exists_of_mem_walks found
  exact List.cons_ne_nil id rest

/-- What is listed below a node are the ends of the walks from there. -/
theorem listingLines_eq_map (bound : Nat) (way : List NodeId) (id : NodeId) :
    m.listingLines bound way id = (m.walks bound way id).map fun walk =>
      m.listingLine (way.length + (walk.length - 1)) (walk.getLast?.getD root) := by
  induction bound generalizing way id with
  | zero => rfl
  | succ bound ih =>
    rw [listingLines, walks, List.map_cons]
    congr 1
    split
    · rfl
    · rw [List.map_flatMap]
      refine List.flatMap_congr fun member _ => ?_
      rw [ih, List.map_map]
      refine List.map_congr_left fun walk present => ?_
      -- The same walk, counted from one node further up.
      cases walk with
      | nil => exact absurd rfl (ne_nil_of_mem_walks present)
      | cons first rest =>
        simp only [Function.comp_apply, List.length_cons, List.getLast?_cons_cons]
        congr 1
        omega

/-- A bound that reaches far enough cuts nothing off. -/
theorem walks_eq {larger : Nat} (roomy : m.Roomy bound way) (wider : m.Roomy larger way) :
    m.walks larger way id = m.walks bound way id := by
  induction bound generalizing larger way id with
  | zero => exact absurd rfl roomy.ne_zero
  | succ bound ih =>
    cases larger with
    | zero => exact absurd rfl wider.ne_zero
    | succ larger =>
      rw [walks, walks]
      split
      · rfl
      · next fresh =>
        congr 1
        refine List.flatMap_congr fun member holds => ?_
        rw [ih (roomy.enter fresh holds) (wider.enter fresh holds)]

/-! ## All walks -/

theorem isWalk_iff : m.IsWalk id walk ↔ walk = [id] ∨ ∃ member ∈ m.membersOf id, ∃ rest,
    m.IsWalk member rest ∧ id ∉ rest.dropLast ∧ walk = id :: rest := by
  constructor
  · rintro ⟨starts, descends, distinct⟩
    match walk with
    | [] => cases starts
    | [first] => exact .inl (by simpa using starts)
    | first :: second :: rest =>
      obtain rfl : first = id := by simpa using starts
      obtain ⟨holds, below⟩ := List.isChain_cons_cons.mp descends
      rw [List.dropLast_cons_cons, List.nodup_cons] at distinct
      exact .inr ⟨second, holds, _, ⟨rfl, below, distinct.2⟩, distinct.1, rfl⟩
  · rintro (rfl | ⟨member, holds, rest, below, fresh, rfl⟩)
    · exact ⟨rfl, .singleton _, List.nodup_nil⟩
    · match rest, below with
      | first :: rest, ⟨starts, descends, distinct⟩ =>
        obtain rfl : first = member := by simpa using starts
        exact ⟨rfl, .cons_cons holds descends, List.nodup_cons.mpr ⟨fresh, distinct⟩⟩

/-- With a bound that reaches far enough, all walks are found that keep away from what is above. -/
theorem mem_walks_iff (roomy : m.Roomy bound way) :
    walk ∈ m.walks bound way id ↔ m.IsWalk id walk ∧ ∀ other ∈ walk.dropLast, other ∉ way := by
  induction bound generalizing way id walk with
  | zero => exact absurd rfl roomy.ne_zero
  | succ bound ih =>
    rw [mem_walks_succ_iff, isWalk_iff]
    constructor
    · rintro (rfl | ⟨fresh, member, holds, rest, found, rfl⟩)
      · exact ⟨.inl rfl, nofun⟩
      · have filled := ne_nil_of_mem_walks found
        obtain ⟨below, away⟩ := (ih (roomy.enter fresh holds)).mp found
        refine ⟨.inr ⟨member, holds, rest, below, ?_, rfl⟩, ?_⟩
        · exact fun again => away id again List.mem_cons_self
        · rw [List.dropLast_cons_of_ne_nil filled, List.forall_mem_cons]
          exact ⟨fresh, fun other passed above => away other passed (List.mem_cons_of_mem id above)⟩
    · rintro ⟨rfl | ⟨member, holds, rest, below, once, rfl⟩, away⟩
      · exact .inl rfl
      · have filled : rest ≠ [] := by
          rintro rfl
          cases below.starts
        rw [List.dropLast_cons_of_ne_nil filled, List.forall_mem_cons] at away
        refine .inr ⟨away.1, member, holds, rest, ?_, rfl⟩
        refine (ih (roomy.enter away.1 holds)).mpr ⟨below, fun other passed => ?_⟩
        rw [List.mem_cons, not_or]
        exact ⟨fun same => once (same ▸ passed), away.2 other passed⟩

/-! ## Depth first -/

theorem not_precedes_self (walk : List NodeId) : ¬ m.Precedes walk walk := by
  induction walk with
  | nil => nofun
  | cons id rest ih =>
    intro precedes
    cases precedes with
    | goesOn more => exact more rfl
    | parts before =>
      have distinct := (m.node id).members.nodup.sublist before
      simp at distinct
    | further precedes => exact ih precedes

theorem pairwise_walks (bound : Nat) (way : List NodeId) (id : NodeId) :
    (m.walks bound way id).Pairwise m.Precedes := by
  induction bound generalizing way id with
  | zero => exact .nil
  | succ bound ih =>
    rw [walks, List.pairwise_cons]
    split
    · exact ⟨nofun, .nil⟩
    · simp only [List.mem_flatMap, List.mem_map, List.pairwise_flatMap, List.pairwise_map]
      refine ⟨?_, fun member _ => (ih (id :: way) member).imp .further, ?_⟩
      · rintro _ ⟨member, _, rest, found, rfl⟩
        exact .goesOn (ne_nil_of_mem_walks found)
      · rw [List.pairwise_iff_forall_sublist]
        rintro first second before _ ⟨front, found, rfl⟩ _ ⟨back, found', rfl⟩
        obtain ⟨front, rfl⟩ := exists_of_mem_walks found
        obtain ⟨back, rfl⟩ := exists_of_mem_walks found'
        exact .parts before

/-! ## The ends of walks -/

/-- What can be reached at all can be reached without meeting anything twice. -/
theorem exists_walk (reaches : ReflTransGen m.Holds start id) :
    ∃ walk, m.IsWalk start walk ∧ walk.Nodup ∧ walk.getLast? = some id := by
  induction reaches with
  | refl => exact ⟨[start], isWalk_iff.mpr (.inl rfl), List.nodup_singleton start, rfl⟩
  | @tail holder member _ holds ih =>
    obtain ⟨walk, ⟨starts, descends, _⟩, distinct, ends⟩ := ih
    by_cases met : member ∈ walk
    -- The walk is cut off where it meets the member.
    · obtain ⟨front, back, rfl⟩ := List.append_of_mem met
      have cut : front ++ [member] <+: front ++ member :: back := ⟨back, by simp⟩
      have apart := distinct.sublist cut.sublist
      refine ⟨front ++ [member], ⟨?_, descends.prefix cut, ?_⟩, apart, by simp⟩
      · rw [← starts]
        cases front <;> rfl
      · exact apart.sublist (List.dropLast_sublist _)
    · refine ⟨walk ++ [member], ⟨?_, ?_, ?_⟩, ?_, by simp⟩
      · simp [starts]
      · refine List.isChain_append.mpr ⟨descends, .singleton _, ?_⟩
        simpa [ends] using holds
      · simpa using distinct
      · rw [List.nodup_append_comm, List.singleton_append, List.nodup_cons]
        exact ⟨met, distinct⟩

theorem reaches_of_getLast? (starts : walk.head? = some start) (descends : walk.IsChain m.Holds)
    (ends : walk.getLast? = some id) : ReflTransGen m.Holds start id := by
  have filled : walk ≠ [] := by
    rintro rfl
    cases starts
  have reaches := List.relationReflTransGen_of_exists_isChain walk descends filled
  rw [List.head?_eq_some_head filled, Option.some.injEq] at starts
  rw [List.getLast?_eq_some_getLast filled, Option.some.injEq] at ends
  rwa [starts, ends] at reaches

theorem head?_of_append_singleton {front : List NodeId} {last : NodeId}
    (starts : (front ++ [last]).head? = some start) :
    front = [] ∧ last = start ∨ front.head? = some start ∧ front ≠ [] := by
  cases front with
  | nil => exact .inl ⟨rfl, by simpa using starts⟩
  | cons first rest => exact .inr ⟨starts, List.cons_ne_nil _ _⟩

-- The last step of a walk comes from a node below the start.
theorem exists_holder {front : List NodeId} {last : NodeId} (filled : front ≠ [])
    (starts : front.head? = some start) (descends : (front ++ [last]).IsChain m.Holds) :
    ∃ holder, front.getLast? = some holder ∧ ReflTransGen m.Holds start holder ∧
      m.Holds holder last := by
  obtain ⟨above, _, step⟩ := List.isChain_append.mp descends
  have ends := List.getLast?_eq_some_getLast filled
  exact ⟨_, ends, reaches_of_getLast? starts above ends, step _ ends last rfl⟩

/-- Where members form a tree, there is one way to each of them. -/
theorem BranchesFrom.unique (branches : m.BranchesFrom start) {other : List NodeId}
    (starts : walk.head? = some start) (descends : walk.IsChain m.Holds)
    (starts' : other.head? = some start) (descends' : other.IsChain m.Holds)
    (same : walk.getLast? = other.getLast?) : walk = other := by
  -- Back from the end, where both come from the same holder.
  induction walk using List.reverseRecOn generalizing other with
  | nil => cases starts
  | append_singleton front last ih =>
    obtain ⟨back, rfl⟩ : ∃ back, other = back ++ [last] := by
      rw [List.getLast?_append, List.getLast?_singleton, Option.some_or] at same
      obtain ⟨back, split⟩ := List.getLast?_eq_some_iff.mp same.symm
      exact ⟨back, split⟩
    rcases head?_of_append_singleton starts with ⟨rfl, rfl⟩ | ⟨above, filled⟩
    · rcases head?_of_append_singleton starts' with ⟨rfl, _⟩ | ⟨above', filled'⟩
      · rfl
      · obtain ⟨holder, _, reaches, holds⟩ := exists_holder filled' above' descends'
        exact absurd holds (branches.top holder reaches)
    · obtain ⟨holder, ends, reaches, holds⟩ := exists_holder filled above descends
      rcases head?_of_append_singleton starts' with ⟨rfl, rfl⟩ | ⟨above', filled'⟩
      · exact absurd holds (branches.top holder reaches)
      · obtain ⟨holder', ends', reaches', holds'⟩ := exists_holder filled' above' descends'
        have meets := branches.once holder holder' last reaches reaches' holds holds'
        have shorter := (List.isChain_append.mp descends).1
        have shorter' := (List.isChain_append.mp descends').1
        rw [ih above shorter above' shorter' (by rw [ends, ends', meets])]

/-- A burrow holds a den in which it is declared again, so that each is a member of the other. The hill
is a plain tree. -/
def burrow : TranslationUnit where
  path := "burrow.h"
  root := ⟨0⟩
  cursors := #[
    { kind := .translationUnit, children := [⟨1⟩, ⟨5⟩] },
    { kind := .classDecl, spelling := "Burrow", usr := some "c:Burrow", semanticParent := some ⟨0⟩,
      children := [⟨2⟩, ⟨4⟩] },
    { kind := .classDecl, spelling := "Den", usr := some "c:Den", semanticParent := some ⟨1⟩,
      access := .privateMember, children := [⟨3⟩] },
    { kind := .classDecl, spelling := "Burrow", usr := some "c:Burrow", semanticParent := some ⟨2⟩ },
    { kind := .fieldDecl, spelling := "depth", semanticParent := some ⟨1⟩ },
    { kind := .structDecl, spelling := "Hill", usr := some "c:Hill", semanticParent := some ⟨0⟩,
      children := [⟨6⟩, ⟨7⟩] },
    { kind := .fieldDecl, spelling := "height", semanticParent := some ⟨5⟩ },
    { kind := .fieldDecl, spelling := "slope", semanticParent := some ⟨5⟩ }]

def burrowModel : Model := (Session.start burrow).build.model

example : burrowModel.listingFrom ⟨1⟩ =
    "class Burrow\n  class Den [Private]\n    class Burrow\n  field depth\n" := by decide +kernel

end Bindery.Model
