import Bindery.Model.Query
import Bindery.Report

/-! Looking a qualified path up in a model. The last segment may name several nodes, such as
overloads; every segment before it must name exactly one. -/

set_option autoImplicit false

namespace Bindery

inductive LookupError where
  | notFound (path segment : String)
  | ambiguous (path segment : String) (count : Nat)
  | emptyPath
  deriving DecidableEq, Repr

def LookupError.report : LookupError → Report
  | .notFound path segment =>
    { message := s!"`{segment}` not found while looking up `{path}`"
      code := "hydra_dom::not_found" }
  | .ambiguous path segment count =>
    { message := s!"`{segment}` is ambiguous while looking up `{path}` ({count} candidates)"
      code := "hydra_dom::ambiguous"
      help := some "overloaded names can only be the last segment of a path" }
  | .emptyPath =>
    { message := "empty lookup path"
      code := "hydra_dom::empty_path" }

namespace Model

variable (m : Model)

def named (scope : NodeId) (path segment : String) : Except LookupError (OrderedSet NodeId) :=
  match (m.node scope).content.get? segment with
  | none => .error (.notFound path segment)
  | some set => if set.isEmpty then .error (.notFound path segment) else .ok set

/-- The one node that a scope holds under a name. -/
def namedOne (scope : NodeId) (path segment : String) : Except LookupError NodeId :=
  match m.named scope path segment with
  | .error error => .error error
  | .ok set =>
    match set.toList with
    | [id] => .ok id
    | _ => .error (.ambiguous path segment set.size)

/-- Follows all segments but the last from a scope. -/
def follow (path : String) (scope : NodeId) : List String → Except LookupError (OrderedSet NodeId)
  | [] => .error .emptyPath
  | [last] => m.named scope path last
  | segment :: rest =>
    match m.namedOne scope path segment with
    | .error error => .error error
    | .ok next => follow path next rest

/-- The nodes at a path from a scope; a path that starts with a double colon is taken from the
root. -/
def lookup (scope : NodeId) (path : String) : Except LookupError (OrderedSet NodeId) :=
  let segments := Text.segments path
  let (scope, segments) :=
    if segments.head? = some "" then (root, segments.drop 1) else (scope, segments)
  if segments.getLast?.getD "" = "" then .error .emptyPath else m.follow path scope segments

def lookupOne (scope : NodeId) (path : String) : Except LookupError NodeId :=
  match m.lookup scope path with
  | .error error => .error error
  | .ok set =>
    match set.toList with
    | [id] => .ok id
    | _ => .error (.ambiguous path (Text.lastSegment path) set.size)

/-- The one node at a path from the root. -/
def resolvePath (path : String) : Except LookupError NodeId := m.lookupOne root path

end Model

end Bindery
