import Bindery.Binding.Policy
import Bindery.Model.Dependency

/-! The closure of a set of roots: everything that has to be bound along with them. An entity that
the policy refuses is left out, and what only it would need is not looked at. -/

set_option autoImplicit false

namespace Bindery.Binding

open Ast (Location TranslationUnit)

inductive Veto where
  /-- The runtime converts the type by itself. -/
  | caster
  | excluded
  /-- A base is not resolved, and such records are to be dropped. -/
  | unresolvedBase
  deriving DecidableEq, Repr

def Veto.text : Veto → String
  | .caster => "caster"
  | .excluded => "excluded"
  | .unresolvedBase => "unresolved base"

structure Closure where
  /-- What is to be bound, in the order in which it was settled. -/
  settled : OrderedSet NodeId := ∅
  /-- What was met and left out. -/
  vetoed : OrderedMap NodeId Veto := ∅
  deriving DecidableEq

/-- An entity that was met and not bound. -/
structure VetoNotice where
  name : String
  veto : Veto
  location : Location
  deriving DecidableEq, Repr

def VetoNotice.report (notice : VetoNotice) : Report :=
  { message := s!"{notice.location.text}: `{notice.name}` is not bound ({notice.veto.text})"
    code := "hydra_bind::vetoed"
    severity := some .advice
    help := some "members that need it are emitted disabled unless it is a caster" }

namespace Closure

def veto? (closure : Closure) (id : NodeId) : Option Veto := closure.vetoed.get? id

def settle (closure : Closure) (id : NodeId) : Closure :=
  { closure with settled := closure.settled.insert id }

def notices (closure : Closure) (m : Model) : List VetoNotice :=
  closure.vetoed.entries.map fun (id, veto) =>
    { name := m.fullName id, veto, location := (m.node id).location }

end Closure

/-- A closure in the making, with what is still to be looked at. -/
structure Frontier where
  queue : OrderedSet NodeId
  closure : Closure := {}

namespace Frontier

variable (u : TranslationUnit) (p : Policy)

/-- The first reason against an entity. -/
def findVeto (id : NodeId) : Query (Option Veto) := do
  let m ← Query.model
  if p.isCaster m id then return some .caster
  else if p.excludes m id then return some .excluded
  else if p.dropsUnresolvedBases && (m.kind id).isRecord then
    return if ← Query.hasUnresolvedBases u id then some .unresolvedBase else none
  else return none

/-- Whether an entity is left out; a reason once found is kept. -/
def refuses (f : Frontier) (id : NodeId) : Query (Bool × Frontier) := do
  if (f.closure.veto? id).isSome then return (true, f)
  else
    match ← findVeto u p id with
    | none => return (false, f)
    | some veto =>
      return (true, { f with closure := { f.closure with vetoed := f.closure.vetoed.put id veto } })

def enqueue (f : Frontier) (id : NodeId) : Query Frontier := do
  let m ← Query.model
  if !(m.kind id).isBindable || id ∈ f.closure.settled || id ∈ f.queue then return f
  else
    let (refused, f) ← f.refuses u p id
    return if refused then f else { f with queue := f.queue.insert id }

def enqueueAll (f : Frontier) (ids : List NodeId) : Query Frontier := ids.foldlM (enqueue u p) f

def enqueueNeeds (f : Frontier) (id : NodeId) : Query Frontier := do
  f.enqueueAll u p (← Query.dependencies u id).toList

/-- Queues what is nested in a record and what its members need, as far as it shows. -/
def visitMembers (f : Frontier) (record : NodeId) : Query Frontier := do
  let m ← Query.model
  let nested := (m.records record ++ m.enums record).filter (p.shows m)
  let members :=
    (m.fields record ++ m.methods record ++ m.constructors record).filter (p.shows m)
  let f ← f.enqueueAll u p nested
  members.foldlM (enqueueNeeds u p) f

/-- Settles an entity taken from the queue, unless it is left out or settled already. -/
def visit (f : Frontier) (id : NodeId) : Query Frontier := do
  let (refused, f) ← f.refuses u p id
  if refused || id ∈ f.closure.settled then return f
  else
    let f ← enqueueNeeds u p { f with closure := f.closure.settle id } id
    if ((← Query.model).kind id).isRecord then f.visitMembers u p id else return f

/-- Takes entities from the end of the queue until it is empty. -/
def run : Nat → Frontier → Query Closure
  | 0, f => return f.closure
  | bound + 1, f =>
    match f.queue.pop? with
    | none => return f.closure
    | some (id, queue) => do run bound (← visit u p { f with queue } id)

end Frontier

/-- The closure of a list of roots. No entity is taken from the queue twice, so that the bound is
not used up. -/
def closure (u : TranslationUnit) (p : Policy) (roots : List NodeId) : Query Closure := do
  let m ← Query.model
  Frontier.run u p (m.size + roots.length + 1) { queue := .ofList roots }

end Bindery.Binding
