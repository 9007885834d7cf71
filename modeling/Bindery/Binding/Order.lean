import Bindery.Binding.Closure
import Bindery.Binding.Root
import Bindery.Binding.Sorting

/-! The order of binding: everything in a closure after what it depends on inside the closure. -/

set_option autoImplicit false

namespace Bindery.Binding

open Ast (TranslationUnit)

/-- The settled entities with the settled ones that each depends on, itself left aside. -/
def dependencyGraph (u : TranslationUnit) (closure : Closure) : Query (Graph NodeId) :=
  closure.settled.toList.mapM fun id => do
    let needed ← Query.dependencies u id
    return (id, needed.toList.filter fun other => other ≠ id && other ∈ closure.settled)

def order (u : TranslationUnit) (closure : Closure) : Query (Except BindError (List NodeId)) := do
  let graph ← dependencyGraph u closure
  let m ← Query.model
  return graph.sort.mapError fun ring => .dependencyCycle (ring.map m.fullName)

end Bindery.Binding
