import Bindery.Proofs.Session
import Bindery.Proofs.Strict.Plan

/-! Strict sessions. Between the start of a session and any later moment it may be built and may be
asked about the nodes that it has named. As long as its unit is well formed it never looks up what is
not there. -/

set_option autoImplicit false

namespace Bindery

open Ast (TranslationUnit)
open Binding (BindError Closure Plan Policy VetoNotice)
open Project (EmitConfig)

/-! ## Operations -/

def Node.ids (node : Node) : List NodeId :=
  node.owner.toList ++ node.members.toList ++ node.content.entries.flatMap (·.2.toList) ++
    node.refType.toList ++
    (match node.resolution with
      | .done target => target.toList
      | .pending | .inProgress => []) ++
    (node.bases.elim [] (·.resolved.toList))

/-- What can be read from a model. -/
def Query.read {α : Type} (view : Model → α) : Query α := do return view (← Query.model)

def Guarded.read {α : Type} (look : Model → Option α) : Guarded α := do
  let m ← Guarded.model
  liftM (look m)

inductive Operation where
  | all
  | node (id : NodeId)
  | members (id : NodeId) (wanted : NodeKind → Bool)
  | fullName (id : NodeId)
  | signatureKey (id : NodeId)
  | overloads (id : NodeId)
  | symbol (usr : String)
  | spelled (spelling : String)
  | lookup (scope : NodeId) (path : String)
  | lookupOne (scope : NodeId) (path : String)
  | listing (id : NodeId)
  | type (id : NodeId)
  | returned (id : NodeId)
  | typeNeeds (id : NodeId)
  | needs (id : NodeId)
  | bases (id : NodeId)
  | unresolvedBases (id : NodeId)
  | marker (spelling : String)
  | excludes (p : Policy) (id : NodeId)
  | returnPolicy (p : Policy) (id : NodeId)
  | isCaster (p : Policy) (id : NodeId)
  | casters (p : Policy)
  | roots (names : List String)
  | closure (p : Policy) (roots : List NodeId)
  | notices (closure : Closure)
  | order (closure : Closure)
  | plan (p : Policy) (emit : EmitConfig) (sorted : List NodeId)
  | planOf (p : Policy) (emit : EmitConfig) (roots : List NodeId)
  | outline (plan : Plan)

namespace Operation

def ids : Operation → List NodeId
  | .all | .symbol _ | .spelled _ | .marker _ | .casters _ | .roots _ => []
  | .node id | .members id _ | .fullName id | .signatureKey id | .overloads id | .lookup id _
  | .lookupOne id _ | .listing id | .type id | .returned id | .typeNeeds id | .needs id | .bases id
  | .unresolvedBases id | .excludes _ id | .returnPolicy _ id | .isCaster _ id => [id]
  | .closure _ ids | .planOf _ _ ids | .plan _ _ ids => ids
  | .notices found => found.vetoed.keys
  | .order found => found.settled.toList
  | .outline made => made.ids

def Answer : Operation → Type
  | .all | .members _ _ | .overloads _ | .bases _ => List NodeId
  | .node _ => Node
  | .fullName _ | .signatureKey _ | .listing _ | .outline _ => String
  | .symbol _ | .spelled _ | .type _ | .returned _ => Option NodeId
  | .lookup _ _ => Except LookupError (OrderedSet NodeId)
  | .lookupOne _ _ => Except LookupError NodeId
  | .typeNeeds _ | .needs _ => OrderedSet NodeId
  | .unresolvedBases _ | .excludes _ _ | .isCaster _ _ => Bool
  | .returnPolicy _ _ => Option String
  | .marker _ => NodeId
  | .casters _ => Policy × Nat
  | .roots _ => OrderedSet NodeId × List BindError
  | .closure _ _ => Closure
  | .notices _ => List VetoNotice
  | .order _ => Except BindError (List NodeId)
  | .plan _ _ _ => Plan
  | .planOf _ _ _ => Except BindError Plan

/-- The nodes that an answer names. What a policy knew before it is not counted. -/
def named : (operation : Operation) → operation.Answer → List NodeId
  | .all, ids | .members _ _, ids | .overloads _, ids | .bases _, ids => ids
  | .node _, view => view.ids
  | .symbol _, id | .spelled _, id | .type _, id | .returned _, id => id.toList
  | .lookup _ _, .ok set | .typeNeeds _, set | .needs _, set => set.toList
  | .lookupOne _ _, .ok id | .marker _, id => [id]
  | .casters p, (found, _) => found.detected.keys.filter (· ∉ p.detected.keys)
  | .roots _, (found, _) => found.toList
  | .closure _ _, found => found.settled.toList ++ found.vetoed.keys
  | .order _, .ok sorted => sorted
  | .plan _ _ _, made | .planOf _ _ _, .ok made => made.ids
  | _, _ => []

def ask (u : TranslationUnit) : (operation : Operation) → Query operation.Answer
  | .all => Query.read Model.ids
  | .node id => Query.read fun m => m.node id
  | .members id wanted => Query.read fun m => m.membersWhere id wanted
  | .fullName id => Query.read fun m => m.fullName id
  | .signatureKey id => Query.read fun m => m.signatureKey id
  | .overloads id => Query.read fun m => m.overloads id
  | .symbol usr => Query.read fun m => m.byUsr? usr
  | .spelled spelling => Query.read fun m => m.marker? spelling
  | .lookup scope path => Query.read fun m => m.lookup scope path
  | .lookupOne scope path => Query.read fun m => m.lookupOne scope path
  | .listing id => Query.read fun m => m.listingFrom id
  | .type id => Query.resolveType u id
  | .returned id => Query.returnType u id
  | .typeNeeds id => Query.typeDependencies u id
  | .needs id => Query.dependencies u id
  | .bases id => Query.bases u id
  | .unresolvedBases id => Query.hasUnresolvedBases u id
  | .marker spelling => Query.marker spelling
  | .excludes p id => Query.read fun m => p.excludes m id
  | .returnPolicy p id => Query.read fun m => p.returnPolicy? m id
  | .isCaster p id => Query.read fun m => p.isCaster m id
  | .casters p => p.detectCasters u
  | .roots names => Query.read fun m => Binding.resolveRoots m names
  | .closure p ids => Binding.closure u p ids
  | .notices found => Query.read found.notices
  | .order found => Binding.order u found
  | .plan p emit sorted => Plan.ofOrder u p emit sorted
  | .planOf p emit ids => Plan.ofRoots u p emit ids
  | .outline made => Query.read fun m => Binding.Outline.text m made

/-- Asks a session, with no result where something is looked up that is not there. -/
def askStrictly (u : TranslationUnit) : (operation : Operation) → Guarded operation.Answer
  | .all => Guarded.read fun m => some m.ids
  | .node id => Guarded.read fun m => m.node? id
  | .members id wanted => Guarded.read fun m => Strict.membersWhere m id wanted
  | .fullName id => Guarded.read fun m => Strict.fullName m id
  | .signatureKey id => Guarded.read fun m => Strict.signatureKey m id
  | .overloads id => Guarded.read fun m => Strict.overloads m id
  | .symbol usr => Guarded.read fun m => some (m.byUsr? usr)
  | .spelled spelling => Guarded.read fun m => some (m.marker? spelling)
  | .lookup scope path => Guarded.read fun m => Strict.lookup m scope path
  | .lookupOne scope path => Guarded.read fun m => Strict.lookupOne m scope path
  | .listing id => Guarded.read fun m => Strict.listingFrom m id
  | .type id => Guarded.resolveType u id
  | .returned id => Guarded.returnType u id
  | .typeNeeds id => Guarded.typeDependencies u id
  | .needs id => Guarded.dependencies u id
  | .bases id => Guarded.bases u id
  | .unresolvedBases id => Guarded.hasUnresolvedBases u id
  | .marker spelling => Guarded.marker spelling
  | .excludes p id => Guarded.read fun m => Strict.excludes m p id
  | .returnPolicy p id => Guarded.read fun m => Strict.returnPolicy m p id
  | .isCaster p id => Guarded.read fun m => Strict.isCaster m p id
  | .casters p => Guarded.detectCasters u p
  | .roots names => Guarded.read fun m => Strict.resolveRoots m names
  | .closure p ids => Guarded.closure u p ids
  | .notices found => Guarded.read fun m => Strict.notices m found
  | .order found => Guarded.order u found
  | .plan p emit sorted => Guarded.ofOrder u p emit sorted
  | .planOf p emit ids => Guarded.ofRoots u p emit ids
  | .outline made => Guarded.read fun m => Strict.outline m made

end Operation

/-! ## Histories -/

/-- The sessions of a unit that were built and asked in some order, with the nodes that they have
named. At first that is the root. -/
inductive History (u : TranslationUnit) (f : Factory) : Session → List NodeId → Prop where
  | start : History u f (Session.start u f) [Model.root]
  | built {s : Session} {known : List NodeId} (earlier : History u f s known) :
    History u f s.build known
  | asked {s : Session} {known : List NodeId} (earlier : History u f s known)
    (operation : Operation) (given : ∀ id ∈ operation.ids, id ∈ known)
    {answer : operation.Answer} {e : Draft} (answered : operation.ask u s.draft = .ok (answer, e)) :
    History u f { s with draft := e } (known ++ operation.named answer)

/-! ## Answers -/

section
variable {u : TranslationUnit} {n : Nat}

theorem Node.Ranged.inside_ids {node : Node} (ranged : node.Ranged u n) : Inside n node.ids := by
  have content : Inside n (node.content.entries.flatMap (·.2.toList)) := by
    intro id member
    obtain ⟨⟨name, set⟩, listed, member⟩ := List.mem_flatMap.mp member
    exact ranged.content name set (OrderedMap.mem_entries_iff.mp listed) id member
  unfold ids
  refine ((((ranged.owner.toList.append ranged.members).append content).append
    ranged.refType.toList).append ?_).append ?_
  · cases known : node.resolution with
    | done target => exact (ranged.target target known).toList
    | pending | inProgress => exact .nil
  · cases known : node.bases with
    | none => exact .nil
    | some found => exact ranged.bases found known

theorem Succeeds.read {α : Type} {look : Model → Option α} {view : Model → α}
    {fits : Nat → α → Prop}
    (each : ∀ m : Model, m.Ranged u → m.size = n → look m = some (view m) ∧ fits n (view m)) :
    Succeeds u n (Guarded.read look) (Query.read view) fits := by
  refine .model fun m ranged size => ?_
  obtain ⟨looked, fit⟩ := each m ranged size
  rw [looked]
  exact .pure fit

open Strict

/-- Every operation on nodes of the arena succeeds, and names nodes of the arena. -/
theorem succeeds_operation (wellFormed : u.WellFormed) (operation : Operation)
    (inside : Inside n operation.ids) :
    Succeeds u n (operation.askStrictly u) (operation.ask u)
      fun size answer => Inside size (operation.named answer) := by
  have here (id : NodeId) (only : operation.ids = [id]) : id.index < n :=
    inside id (only ▸ List.mem_cons_self)
  cases operation with
  | all => exact .read fun m _ size => ⟨rfl, fun id listed => size ▸ Model.mem_ids.mp listed⟩
  | node id =>
    refine .read fun m ranged size => ?_
    subst size
    exact ⟨node?_eq (here id rfl), (ranged.nodes id).inside_ids⟩
  | members id wanted =>
    refine .read fun m ranged size => ?_
    subst size
    exact ⟨membersWhere_eq ranged (here id rfl) wanted, inside_membersWhere ranged id wanted⟩
  | fullName id =>
    refine .read fun m ranged size => ?_
    subst size
    exact ⟨fullName_eq ranged (here id rfl), .nil⟩
  | signatureKey id =>
    refine .read fun m ranged size => ?_
    subst size
    exact ⟨signatureKey_eq ranged (here id rfl), .nil⟩
  | overloads id =>
    refine .read fun m ranged size => ?_
    subst size
    exact ⟨overloads_eq ranged (here id rfl), inside_overloads ranged id⟩
  | symbol usr => exact .read fun m ranged size => ⟨rfl, size ▸ (ranged.symbols usr).toList⟩
  | spelled spelling =>
    exact .read fun m ranged size => ⟨rfl, size ▸ (ranged.markers spelling).toList⟩
  | lookup scope path =>
    refine .read fun m ranged size => ?_
    subst size
    obtain ⟨looked, finds⟩ := lookup_eq ranged (here scope rfl) path
    refine ⟨looked, ?_⟩
    cases found : m.lookup scope path with
    | error => exact .nil
    | ok set => exact (finds set found).2
  | lookupOne scope path =>
    refine .read fun m ranged size => ?_
    subst size
    obtain ⟨looked, within⟩ := lookupOne_eq ranged (here scope rfl) path
    refine ⟨looked, ?_⟩
    cases found : m.lookupOne scope path with
    | error => exact .nil
    | ok id => exact .single (within id found)
  | listing id =>
    refine .read fun m ranged size => ?_
    subst size
    exact ⟨listingFrom_eq ranged (here id rfl), .nil⟩
  | type id =>
    exact (succeeds_resolveType wellFormed (here id rfl)).weaken fun _ _ _ => Inside.toList
  | returned id =>
    exact (succeeds_returnType wellFormed (here id rfl)).weaken fun _ _ _ => Inside.toList
  | typeNeeds id => exact succeeds_typeDependencies wellFormed (here id rfl)
  | needs id => exact succeeds_dependencies wellFormed (here id rfl)
  | bases id => exact succeeds_bases wellFormed (here id rfl)
  | unresolvedBases id =>
    exact (succeeds_hasUnresolvedBases wellFormed (here id rfl)).weaken fun _ _ _ _ => .nil
  | marker spelling => exact (Succeeds.marker spelling).weaken fun _ _ _ => Inside.single
  | excludes p id =>
    refine .read fun m ranged size => ?_
    subst size
    exact ⟨excludes_eq ranged p (here id rfl), .nil⟩
  | returnPolicy p id =>
    refine .read fun m ranged size => ?_
    subst size
    exact ⟨returnPolicy_eq ranged p (here id rfl), .nil⟩
  | isCaster p id =>
    refine .read fun m ranged size => ?_
    subst size
    exact ⟨isCaster_eq ranged p (here id rfl), .nil⟩
  | casters p =>
    refine (succeeds_detectCasters wellFormed).weaken fun size answer _ marks id named => ?_
    obtain ⟨found, new⟩ := List.mem_filter.mp named
    exact (marks id found).resolve_left (of_decide_eq_true new)
  | roots names =>
    refine .read fun m ranged size => ?_
    subst size
    exact resolveRoots_eq ranged names
  | closure p ids =>
    exact (succeeds_closure wellFormed inside).weaken fun _ _ _ within =>
      Inside.append within.settled within.vetoed
  | notices found =>
    refine .read fun m ranged size => ?_
    subst size
    exact ⟨notices_eq ranged inside, .nil⟩
  | order found =>
    refine (succeeds_order wellFormed inside).weaken fun size answer _ within => ?_
    cases answer with
    | error => exact .nil
    | ok sorted => exact within sorted rfl
  | plan p emit sorted => exact succeeds_ofOrder wellFormed inside
  | planOf p emit ids =>
    refine (succeeds_ofRoots wellFormed inside).weaken fun size answer _ within => ?_
    cases answer with
    | error => exact .nil
    | ok made => exact within made rfl
  | outline made =>
    refine .read fun m ranged size => ?_
    subst size
    exact ⟨outline_eq ranged inside, .nil⟩

/-! ## Sessions -/

variable {f : Factory} {s : Session} {known : List NodeId}

/-- Whatever was done with a session, all that it stores and all that it has named is in range. -/
theorem History.ranged (wellFormed : u.WellFormed) (history : History u f s known) :
    s.unit = u ∧ s.model.Ranged u ∧ Inside s.model.size known := by
  induction history with
  | start =>
    have ranged := Session.ranged_start wellFormed f
    exact ⟨rfl, ranged, .single ranged.root⟩
  | @built s known _ ih =>
    obtain ⟨reads, ranged, inside⟩ := ih
    obtain ⟨_, kept, grown⟩ := build_eq wellFormed reads ranged
    have same : s.build.unit = s.unit := by
      unfold Session.build
      split <;> rfl
    exact ⟨same.trans reads, kept, inside.mono grown⟩
  | @asked s known _ operation given answer e answered ih =>
    obtain ⟨reads, ranged, inside⟩ := ih
    have succeeds := succeeds_operation wellFormed operation fun id about =>
      inside id (given id about)
    obtain ⟨kept, grown, names⟩ := (succeeds s.draft ranged rfl).2 answer e answered
    exact ⟨reads, kept, (inside.mono grown).append names⟩

/-- No index dangles. Whatever was done with a session of a unit without faults, the nodes and cursors
that it stores are there, and so are the nodes that it has named. Neither its start nor its build nor
any operation on nodes that it has named looks up what is not. -/
theorem Session.never_dangles (valid : u.firstFault? = none) (history : History u f s known) :
    Strict.start u f = some (Session.start u f) ∧ s.model.Ranged u ∧ Inside s.model.size known ∧
      Strict.build s = some s.build ∧
      ∀ operation : Operation, (∀ id ∈ operation.ids, id ∈ known) →
        operation.askStrictly u s.draft = some (operation.ask u s.draft) := by
  have wellFormed := Ast.TranslationUnit.wellFormed_of_valid valid
  obtain ⟨reads, ranged, inside⟩ := history.ranged wellFormed
  refine ⟨start_eq wellFormed f, ranged, inside, (build_eq wellFormed reads ranged).1, ?_⟩
  intro operation given
  have succeeds := succeeds_operation wellFormed operation fun id about =>
    inside id (given id about)
  exact (succeeds s.draft ranged rfl).1

/-- Once all nodes of the shapes have been listed, a plan can be asked for that starts with the class
that is derived. -/
theorem Session.never_dangles_shapes :
    shapes.firstFault? = none ∧
      History shapes .standard { (Session.start shapes).build with draft := shapesDraft }
        ([Model.root] ++ shapesDraft.model.ids) ∧
      (Operation.planOf {} {} [⟨2⟩]).askStrictly shapes shapesDraft =
        some ((Operation.planOf {} {} [⟨2⟩]).ask shapes shapesDraft) := by
  have valid : shapes.firstFault? = none := by decide
  have listed : History shapes .standard
      { (Session.start shapes).build with draft := shapesDraft }
      ([Model.root] ++ shapesDraft.model.ids) :=
    .asked (.built .start) .all (by simp [Operation.ids]) rfl
  refine ⟨valid, listed, (Session.never_dangles valid listed).2.2.2.2 _ fun id given => ?_⟩
  rw [List.mem_singleton.mp given]
  decide

-- A node that is not there keeps a strict question from its result, though not a plain one.
example : (Operation.needs ⟨7⟩).askStrictly shapes shapesDraft = none := rfl

end

end Bindery
