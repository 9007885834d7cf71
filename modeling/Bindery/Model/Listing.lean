import Bindery.Model.Query

/-! The model as an indented tree, one line for each node on each way down through members. A node
that is met again below itself is listed once more and not entered. -/

set_option autoImplicit false

namespace Bindery.Model

variable (m : Model)

def listingLabel (node : Node) : String :=
  if node.kind.isCallable then node.displayName
  else if node.isAnonymous then "<anonymous>"
  else node.name

def listingLine (depth : Nat) (id : NodeId) : String :=
  let node := m.node id
  let access := if node.kind.isRecord && !node.isPublic then s!" [{node.access.label}]" else ""
  String.ofList (List.replicate (2 * depth) ' ') ++
    s!"{node.kind.label} {listingLabel node}{access}\n"

/-- The lines for a node below a way of nodes. No way without repeats is longer than the arena, so
that a bound of one more than its size cuts nothing. -/
def listingLines : Nat → List NodeId → NodeId → List String
  | 0, _, _ => []
  | bound + 1, way, id =>
    m.listingLine way.length id ::
      if id ∈ way then [] else (m.membersOf id).flatMap (listingLines bound (id :: way))

def listingFrom (id : NodeId) : String := String.join (m.listingLines (m.size + 1) [] id)

def listing : String := m.listingFrom root

end Bindery.Model
