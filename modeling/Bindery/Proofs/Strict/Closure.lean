import Bindery.Binding.Order
import Bindery.Proofs.Binding.Order
import Bindery.Proofs.Strict.Dependency

/-! Strict closures and orders. The queue holds roots and dependencies, the policy is asked for names
of these alone, and a ring is made of settled entities. -/

set_option autoImplicit false

namespace Bindery

open Ast (TranslationUnit)
open Binding (BindError Closure Frontier Graph Policy Veto VetoNotice)

namespace Strict

/-! ## Policies -/

section
variable (m : Model) (p : Policy)

def excludes (id : NodeId) : Option Bool := do
  if p.excludesKey (← fullName m id) then return true
  else if (← kind m id).isCallable then return p.excludesKey (← signatureKey m id)
  else return false

def replacement (id : NodeId) : Option (Option String) := do
  let key ← signatureKey m id
  let name ← fullName m id
  return p.config.replacements.get? key <|> p.config.replacements.get? name

def returnPolicy (id : NodeId) : Option (Option String) := do
  let name ← fullName m id
  let key ← signatureKey m id
  return p.config.returnPolicies.get? name <|> p.config.returnPolicies.get? key

def isCaster (id : NodeId) : Option Bool := do
  if p.detected.contains id then return true
  else
    let name ← fullName m id
    return name ∈ p.casters

def addonMethods (id : NodeId) : Option (List (String × String)) := do
  let name ← fullName m id
  return ((p.config.addonMethods.get? name).getD ∅).entries

def exportsValues (id : NodeId) : Option Bool := do
  let name ← fullName m id
  return name ∈ p.config.exportedEnums

def shows (id : NodeId) : Option Bool := do
  if (← m.node? id).isPublic then return !(← excludes m p id) else return false

def shown (ids : List NodeId) : Option (List NodeId) := ids.filterM (shows m p)

def specializations (template : String) : Option (Option (List NodeId)) := do
  match ← lookup m Model.root template with
  | .error _ => return none
  | .ok set => return some (← set.toList.filterM fun id => return (← kind m id).isRecord)

end

def notice (m : Model) (entry : NodeId × Veto) : Option VetoNotice := do
  let name ← fullName m entry.1
  let node ← m.node? entry.1
  return { name, veto := entry.2, location := node.location }

def notices (m : Model) (closure : Closure) : Option (List VetoNotice) :=
  closure.vetoed.entries.mapM (notice m)

def fullNames (m : Model) (ids : List NodeId) : Option (List String) := ids.mapM (fullName m)

end Strict

/-! ## Questions -/

namespace Guarded

variable (u : TranslationUnit) (p : Policy)

def detectIn (p : Policy) (specialization : NodeId) : Guarded Policy := do
  let m ← model
  match (← Strict.membersWhere m specialization (· = .typeRef)).head? with
  | none => return p
  | some reference =>
    match ← resolveType u reference with
    | none => return p
    | some target => return { p with detected := p.detected.put target specialization }

def detectCasters : Guarded (Policy × Nat) := do
  let m ← model
  match p.config.casterTemplate with
  | none => return (p, 0)
  | some template =>
    match ← Strict.specializations m template with
    | none => return (p, 0)
    | some specializations =>
      let p ← specializations.foldlM (detectIn u) p
      return (p, p.detected.entries.length)

def findVeto (id : NodeId) : Guarded (Option Veto) := do
  let m ← model
  if ← Strict.isCaster m p id then return some .caster
  else if ← Strict.excludes m p id then return some .excluded
  else if p.dropsUnresolvedBases && (← Strict.kind m id).isRecord then
    return if ← hasUnresolvedBases u id then some .unresolvedBase else none
  else return none

def refuses (f : Frontier) (id : NodeId) : Guarded (Bool × Frontier) := do
  if (f.closure.veto? id).isSome then return (true, f)
  else
    match ← findVeto u p id with
    | none => return (false, f)
    | some veto =>
      return (true, { f with closure := { f.closure with vetoed := f.closure.vetoed.put id veto } })

def enqueue (f : Frontier) (id : NodeId) : Guarded Frontier := do
  let m ← model
  if !(← Strict.kind m id).isBindable || id ∈ f.closure.settled || id ∈ f.queue then return f
  else
    let (refused, f) ← refuses u p f id
    return if refused then f else { f with queue := f.queue.insert id }

def enqueueAll (f : Frontier) (ids : List NodeId) : Guarded Frontier := ids.foldlM (enqueue u p) f

def enqueueNeeds (f : Frontier) (id : NodeId) : Guarded Frontier := do
  enqueueAll u p f (← dependencies u id).toList

def visitMembers (f : Frontier) (record : NodeId) : Guarded Frontier := do
  let m ← model
  let records ← Strict.membersWhere m record (·.isRecord)
  let enums ← Strict.membersWhere m record (· = .enumeration)
  let nested ← Strict.shown m p (records ++ enums)
  let fields ← Strict.membersWhere m record (· = .field)
  let methods ← Strict.membersWhere m record (· = .callable .method)
  let constructors ← Strict.membersWhere m record (· = .callable .constructor)
  let members ← Strict.shown m p (fields ++ methods ++ constructors)
  let f ← enqueueAll u p f nested
  members.foldlM (enqueueNeeds u p) f

def visit (f : Frontier) (id : NodeId) : Guarded Frontier := do
  let (refused, f) ← refuses u p f id
  if refused || id ∈ f.closure.settled then return f
  else
    let f ← enqueueNeeds u p { f with closure := f.closure.settle id } id
    let m ← model
    if (← Strict.kind m id).isRecord then visitMembers u p f id else return f

def run : Nat → Frontier → Guarded Closure
  | 0, f => return f.closure
  | bound + 1, f =>
    match f.queue.pop? with
    | none => return f.closure
    | some (id, queue) => do run bound (← visit u p { f with queue } id)

def closure (roots : List NodeId) : Guarded Closure := do
  let m ← model
  run u p (m.size + roots.length + 1) { queue := .ofList roots }

def dependencyGraph (closure : Closure) : Guarded (Graph NodeId) :=
  closure.settled.toList.mapM fun id => do
    let needed ← dependencies u id
    return (id, needed.toList.filter fun other => other ≠ id && other ∈ closure.settled)

def order (closure : Closure) : Guarded (Except BindError (List NodeId)) := do
  let graph ← dependencyGraph u closure
  let m ← model
  match graph.sort with
  | .ok sorted => return .ok sorted
  | .error ring => return .error (.dependencyCycle (← Strict.fullNames m ring))

end Guarded

/-! ## Answers -/

section
variable {u : TranslationUnit} {m : Model} {n : Nat} {id : NodeId}

namespace Strict

section
variable (ranged : m.Ranged u) (p : Policy)

include ranged

theorem excludes_eq (inside : id.index < m.size) : excludes m p id = some (p.excludes m id) := by
  simp only [excludes, Policy.excludes, fullName_eq ranged inside, kind_eq inside,
    signatureKey_eq ranged inside, Option.bind_eq_bind, Option.bind_some]
  cases p.excludesKey (m.fullName id) <;> cases (m.kind id).isCallable <;> rfl

theorem replacement_eq (inside : id.index < m.size) :
    replacement m p id = some (p.replacement? m id) := by
  simp only [replacement, Policy.replacement?, fullName_eq ranged inside,
    signatureKey_eq ranged inside, Option.bind_eq_bind, Option.bind_some]
  rfl

theorem returnPolicy_eq (inside : id.index < m.size) :
    returnPolicy m p id = some (p.returnPolicy? m id) := by
  simp only [returnPolicy, Policy.returnPolicy?, fullName_eq ranged inside,
    signatureKey_eq ranged inside, Option.bind_eq_bind, Option.bind_some]
  rfl

theorem isCaster_eq (inside : id.index < m.size) : isCaster m p id = some (p.isCaster m id) := by
  simp only [isCaster, Policy.isCaster, fullName_eq ranged inside, Option.bind_eq_bind,
    Option.bind_some]
  cases p.detected.contains id <;> simp

theorem addonMethods_eq (inside : id.index < m.size) :
    addonMethods m p id = some (p.addonMethods m id) := by
  simp [addonMethods, Policy.addonMethods, fullName_eq ranged inside]

theorem exportsValues_eq (inside : id.index < m.size) :
    exportsValues m p id = some (p.exportsValues m id) := by
  simp [exportsValues, Policy.exportsValues, fullName_eq ranged inside]

theorem shows_eq (inside : id.index < m.size) : shows m p id = some (p.shows m id) := by
  simp only [shows, Policy.shows, node?_eq inside, excludes_eq ranged p inside,
    Option.bind_eq_bind, Option.bind_some]
  cases (m.node id).isPublic <;> rfl

theorem shown_eq {ids : List NodeId} (inside : Inside m.size ids) :
    shown m p ids = some (ids.filter (p.shows m)) :=
  filterM_eq_some fun id listed => shows_eq ranged p (inside id listed)

theorem specializations_eq (template : String) :
    specializations m template = some (Policy.specializations? m template) ∧
      ∀ ids ∈ Policy.specializations? m template, Inside m.size ids := by
  have within : Model.root.index < m.size := ranged.root
  obtain ⟨looked, finds⟩ := lookup_eq ranged within template
  simp only [specializations, Policy.specializations?, looked, Option.bind_eq_bind,
    Option.bind_some]
  cases found : m.lookup Model.root template with
  | error => exact ⟨rfl, by simp⟩
  | ok set =>
    obtain ⟨_, inside⟩ := finds set found
    have kinds := filterM_kind_eq inside fun _ kind => kind.isRecord
    simp only [Option.bind_eq_bind] at kinds
    simp only [kinds, Option.bind_some]
    refine ⟨rfl, fun ids same => ?_⟩
    cases same
    exact Inside.filter inside _

theorem fullNames_eq {ids : List NodeId} (inside : Inside m.size ids) :
    fullNames m ids = some (ids.map m.fullName) :=
  mapM_eq_some fun id listed => fullName_eq ranged (inside id listed)

theorem notices_eq {closure : Closure} (vetoed : Inside m.size closure.vetoed.keys) :
    notices m closure = some (closure.notices m) := by
  refine mapM_eq_some fun entry listed => ?_
  have inside := vetoed entry.1 (List.mem_map_of_mem listed)
  simp [notice, fullName_eq ranged inside, node?_eq inside]

end

end Strict

open Strict

/-- All nodes of a closure are within an arena of some size. -/
structure Binding.Closure.Ranged (n : Nat) (closure : Closure) : Prop where
  settled : Inside n closure.settled
  vetoed : Inside n closure.vetoed.keys

structure Binding.Frontier.Ranged (n : Nat) (f : Frontier) : Prop where
  queue : Inside n f.queue
  closure : f.closure.Ranged n

theorem Binding.Frontier.Ranged.mono {f : Frontier} {larger : Nat} (ranged : f.Ranged n)
    (grown : n ≤ larger) : f.Ranged larger where
  queue := ranged.queue.mono grown
  closure := ⟨ranged.closure.settled.mono grown, ranged.closure.vetoed.mono grown⟩

theorem Binding.Closure.Ranged.put {closure : Closure} (ranged : closure.Ranged n)
    (inside : id.index < n) (veto : Veto) :
    Closure.Ranged n { closure with vetoed := closure.vetoed.put id veto } where
  settled := ranged.settled
  vetoed other member :=
    (OrderedMap.mem_keys_put.mp member).elim (ranged.vetoed other) fun same => same ▸ inside

variable (wellFormed : u.WellFormed) {p : Policy}

include wellFormed

/-! ## Casters -/

/-- Of the types that a policy says to have a caster, those that were added are in the arena. -/
def Marks (n : Nat) (p q : Policy) : Prop :=
  ∀ id ∈ q.detected.keys, id ∈ p.detected.keys ∨ id.index < n

theorem succeeds_detectIn {q : Policy} (marks : Marks n p q) (inside : id.index < n) :
    Succeeds u n (Guarded.detectIn u q id) (Policy.detectIn u q id) fun size => Marks size p := by
  refine .model fun m ranged size => ?_
  subst size
  simp only [membersWhere_eq ranged inside, Guarded.lift_some_bind]
  cases first : (m.membersWhere id (· = .typeRef)).head? with
  | none => exact .pure marks
  | some reference =>
    have listed := List.mem_of_mem_head? (Option.mem_def.mpr first)
    have there := inside_membersWhere ranged id _ reference listed
    refine (succeeds_resolveType wellFormed there).bind fun found larger grown within => ?_
    have kept : Marks larger p q := fun id member =>
      (marks id member).imp_right fun inside => Nat.lt_of_lt_of_le inside grown
    cases found with
    | none => exact .pure kept
    | some target =>
      refine .pure fun other member => ?_
      rcases OrderedMap.mem_keys_put.mp member with earlier | rfl
      · exact kept other earlier
      · exact .inr (within other rfl)

theorem succeeds_detectCasters :
    Succeeds u n (Guarded.detectCasters u p) (Policy.detectCasters p u)
      fun size found => Marks size p found.1 := by
  refine .model fun m ranged size => ?_
  subst size
  have same : Marks m.size p p := fun _ => .inl
  cases p.config.casterTemplate with
  | none => exact .pure same
  | some template =>
    obtain ⟨looked, inside⟩ := specializations_eq ranged template
    simp only [looked, Guarded.lift_some_bind, Option.bind_some]
    cases found : Policy.specializations? m template with
    | none => exact .pure same
    | some specializations =>
      have detected : Succeeds u m.size (specializations.foldlM (Guarded.detectIn u) p)
          (specializations.foldlM (Policy.detectIn u) p) fun size => Marks size p :=
        .foldlM (fun id listed _ _ grown marks => succeeds_detectIn wellFormed marks
          (Nat.lt_of_lt_of_le (inside _ found id listed) grown)) p same
      exact detected.bind fun _ _ _ marks => .pure marks

/-! ## Closures -/

theorem succeeds_findVeto (inside : id.index < n) :
    Succeeds u n (Guarded.findVeto u p id) (Frontier.findVeto u p id) fun _ _ => True := by
  refine .model fun m ranged size => ?_
  subst size
  simp only [isCaster_eq ranged p inside, excludes_eq ranged p inside, kind_eq inside,
    Guarded.lift_some_bind]
  split
  · exact .pure trivial
  · split
    · exact .pure trivial
    · split
      · exact (succeeds_hasUnresolvedBases wellFormed inside).bind fun _ _ _ _ => .pure trivial
      · exact .pure trivial

theorem succeeds_refuses {f : Frontier} (ranged : f.Ranged n) (inside : id.index < n) :
    Succeeds u n (Guarded.refuses u p f id) (Frontier.refuses u p f id)
      fun size result => result.2.Ranged size := by
  unfold Guarded.refuses Frontier.refuses
  split
  · exact .pure ranged
  · refine (succeeds_findVeto wellFormed inside).bind fun veto larger grown _ => ?_
    have kept := ranged.mono grown
    cases veto with
    | none => exact .pure kept
    | some veto => exact .pure ⟨kept.queue, kept.closure.put (Nat.lt_of_lt_of_le inside grown) veto⟩

theorem succeeds_enqueue {f : Frontier} (ranged : f.Ranged n) (inside : id.index < n) :
    Succeeds u n (Guarded.enqueue u p f id) (Frontier.enqueue u p f id)
      fun size f => f.Ranged size := by
  refine .model fun m _ size => ?_
  subst size
  simp only [kind_eq inside, Guarded.lift_some_bind]
  split
  · exact .pure ranged
  · refine (succeeds_refuses wellFormed ranged inside).bind fun result larger grown kept => ?_
    obtain ⟨refused, f⟩ := result
    refine .pure ?_
    split
    · exact kept
    · exact ⟨kept.queue.insert (Nat.lt_of_lt_of_le inside grown), kept.closure⟩

theorem succeeds_enqueueAll {f : Frontier} {ids : List NodeId} (ranged : f.Ranged n)
    (inside : Inside n ids) :
    Succeeds u n (Guarded.enqueueAll u p f ids) (Frontier.enqueueAll u p f ids)
      fun size f => f.Ranged size :=
  .foldlM (fun id listed _ _ grown kept => succeeds_enqueue wellFormed kept
    (Nat.lt_of_lt_of_le (inside id listed) grown)) f ranged

theorem succeeds_enqueueNeeds {f : Frontier} (ranged : f.Ranged n) (inside : id.index < n) :
    Succeeds u n (Guarded.enqueueNeeds u p f id) (Frontier.enqueueNeeds u p f id)
      fun size f => f.Ranged size :=
  (succeeds_dependencies wellFormed inside).bind fun _ _ grown needed =>
    succeeds_enqueueAll wellFormed (ranged.mono grown) needed

theorem succeeds_visitMembers {f : Frontier} (ranged : f.Ranged n) (inside : id.index < n) :
    Succeeds u n (Guarded.visitMembers u p f id) (Frontier.visitMembers u p f id)
      fun size f => f.Ranged size := by
  refine .model fun m here size => ?_
  subst size
  have members (wanted : NodeKind → Bool) := inside_membersWhere here id wanted
  have nested := (members (·.isRecord)).append (members (· = .enumeration))
  have others := ((members (· = .field)).append (members (· = .callable .method))).append
    (members (· = .callable .constructor))
  simp only [membersWhere_eq here inside, shown_eq here p nested, shown_eq here p others,
    Guarded.lift_some_bind]
  refine (succeeds_enqueueAll wellFormed ranged (nested.filter _)).bind fun f _ grown kept => ?_
  exact .foldlM (fun id listed _ _ grown' kept => succeeds_enqueueNeeds wellFormed kept
    (Nat.lt_of_lt_of_le (others.filter _ id listed) (grown.trans grown'))) f kept

theorem succeeds_visit {f : Frontier} (ranged : f.Ranged n) (inside : id.index < n) :
    Succeeds u n (Guarded.visit u p f id) (Frontier.visit u p f id)
      fun size f => f.Ranged size := by
  refine (succeeds_refuses wellFormed ranged inside).bind fun result larger grown kept => ?_
  obtain ⟨refused, f⟩ := result
  have there := Nat.lt_of_lt_of_le inside grown
  dsimp only
  split
  · exact .pure kept
  · have settled : Frontier.Ranged larger { f with closure := f.closure.settle id } :=
      ⟨kept.queue, kept.closure.settled.insert there, kept.closure.vetoed⟩
    refine (succeeds_enqueueNeeds wellFormed settled there).bind fun f larger' grown' kept => ?_
    refine .model fun m _ size => ?_
    subst size
    have there := Nat.lt_of_lt_of_le there grown'
    simp only [kind_eq there, Guarded.lift_some_bind]
    split
    · exact succeeds_visitMembers wellFormed kept there
    · exact .pure kept

theorem succeeds_run (bound : Nat) {f : Frontier} (ranged : f.Ranged n) :
    Succeeds u n (Guarded.run u p bound f) (Frontier.run u p bound f)
      fun size closure => closure.Ranged size := by
  induction bound generalizing f n with
  | zero => exact .pure ranged.closure
  | succ bound ih =>
    unfold Guarded.run Frontier.run
    cases popped : f.queue.pop? with
    | none => exact .pure ranged.closure
    | some result =>
      obtain ⟨id, queue⟩ := result
      have listed := OrderedSet.toList_of_pop? popped
      have within : Inside n (queue.toList ++ [id]) := listed ▸ ranged.queue
      have kept : Frontier.Ranged n { f with queue } :=
        ⟨fun other member => within other (List.mem_append_left _ member), ranged.closure⟩
      exact (succeeds_visit wellFormed kept (within id (by simp))).bind fun _ _ _ => ih

theorem succeeds_closure {roots : List NodeId} (inside : Inside n roots) :
    Succeeds u n (Guarded.closure u p roots) (Binding.closure u p roots)
      fun size closure => closure.Ranged size :=
  .model fun _ _ _ => succeeds_run wellFormed _ ⟨inside.ofList, .empty, .nil⟩

/-! ## Orders -/

/-- The elements of the graph of a closure are settled, and so is what they depend on. -/
theorem succeeds_dependencyGraph {closure : Closure} (settled : Inside n closure.settled) :
    Succeeds u n (Guarded.dependencyGraph u closure) (Binding.dependencyGraph u closure)
      fun _ g => g.elements = closure.settled.toList ∧ g.Proper := by
  let inside (id : NodeId) (needed : OrderedSet NodeId) : List NodeId :=
    needed.toList.filter fun other => other ≠ id && other ∈ closure.settled
  have each : Succeeds u n (Guarded.dependencyGraph u closure) (Binding.dependencyGraph u closure)
      fun _ => List.Forall₂ (fun id entry => ∃ needed, entry = (id, inside id needed))
        closure.settled.toList := by
    refine .mapM (fun _ _ _ _ _ entry => entry) fun id listed larger grown => ?_
    refine (succeeds_dependencies wellFormed (Nat.lt_of_lt_of_le (settled id listed) grown)).bind ?_
    exact fun needed _ _ _ => .pure ⟨needed, rfl⟩
  refine each.weaken fun _ g _ entries => ?_
  have elements : g.elements = closure.settled.toList := by
    clear each
    generalize closure.settled.toList = items at entries
    induction entries with
    | nil => rfl
    | cons right _ ih =>
      obtain ⟨_, rfl⟩ := right
      exact congrArg _ ih
  have distinct : g.elements.Nodup := elements ▸ closure.settled.nodup
  have needs (a b : NodeId) (needed : b ∈ g.dependenciesOf a) : b ≠ a ∧ b ∈ closure.settled := by
    obtain ⟨entry, present, rfl⟩ := List.mem_map.mp (Graph.mem_elements_of_edge needed)
    obtain ⟨_, _, kept, rfl⟩ := exists_left_of_mem entries present
    rw [Graph.dependenciesOf_of_mem distinct present] at needed
    simpa using (List.mem_filter.mp needed).2
  refine ⟨elements, distinct, fun a b needed => ?_, fun a needed => (needs a a needed).1 rfl⟩
  exact elements ▸ (needs a b needed).2

theorem succeeds_order {closure : Closure} (settled : Inside n closure.settled) :
    Succeeds u n (Guarded.order u closure) (Binding.order u closure)
      fun size sorted => ∀ ids, sorted = .ok ids → Inside size ids := by
  refine (succeeds_dependencyGraph wellFormed settled).bind fun g larger grown facts => ?_
  obtain ⟨elements, proper⟩ := facts
  refine .model fun m ranged size => ?_
  subst size
  have inside : Inside m.size g.elements := elements ▸ settled.mono grown
  rcases Graph.sort_cases proper with ⟨sorted, sorts, perm, _⟩ | ⟨ring, sorts, _, listed⟩
  · rw [sorts]
    refine .pure fun ids same => ?_
    cases same
    exact fun id member => inside id (perm.mem_iff.mp member)
  · rw [sorts]
    have within : Inside m.size ring := fun id member => inside id (listed id member)
    simp only [fullNames_eq ranged within, Guarded.lift_some_bind]
    exact .pure (by simp)

end

end Bindery
