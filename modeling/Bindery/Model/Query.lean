import Bindery.Model.Basic
import Bindery.Text.Qualified
import Bindery.Text.Signature

/-! Questions about a model that change nothing: qualified names, members by kind, signatures and
overloads. -/

set_option autoImplicit false

namespace Bindery.Model

variable (m : Model)

/-- The names of the owners from a node outward, up to the translation unit, the first anonymous
owner, or an owner met before. -/
def ownerNames : Nat → List NodeId → Option NodeId → List String
  | 0, _, _ => []
  | _ + 1, _, none => []
  | bound + 1, met, some owner =>
    let node := m.node owner
    if node.kind = .translationUnit || node.isAnonymous || owner ∈ met then []
    else node.name :: ownerNames bound (owner :: met) node.owner

def fullName (id : NodeId) : String :=
  let node := m.node id
  Text.qualified (node.name :: m.ownerNames (m.size + 1) [id] node.owner).reverse

def membersOf (id : NodeId) : List NodeId := (m.node id).members.toList

def membersWhere (id : NodeId) (wanted : NodeKind → Bool) : List NodeId :=
  (m.membersOf id).filter fun member => wanted (m.kind member)

def fields (id : NodeId) : List NodeId := m.membersWhere id (· = .field)

def methods (id : NodeId) : List NodeId := m.membersWhere id (· = .callable .method)

def constructors (id : NodeId) : List NodeId := m.membersWhere id (· = .callable .constructor)

def destructors (id : NodeId) : List NodeId := m.membersWhere id (· = .callable .destructor)

def records (id : NodeId) : List NodeId := m.membersWhere id (·.isRecord)

def enums (id : NodeId) : List NodeId := m.membersWhere id (· = .enumeration)

def enumConstants (id : NodeId) : List NodeId := m.membersWhere id (· = .enumConstant)

def parameters (id : NodeId) : List NodeId := m.membersWhere id (· = .param)

def baseSpecifiers (id : NodeId) : List NodeId := m.membersWhere id (· = .baseSpecifier)

def namespaces (id : NodeId) : List NodeId := m.membersWhere id (· = .namespaceScope)

def references (id : NodeId) : List NodeId := m.membersWhere id (·.isReference)

/-- The parameter list of a callable as written in its display name. -/
def signature (id : NodeId) : String := Text.signature (m.node id).displayName

def signatureKey (id : NodeId) : String := s!"{m.fullName id}({m.signature id})"

/-- The other callables of the same name in the same owner. -/
def overloads (id : NodeId) : List NodeId :=
  let node := m.node id
  match node.owner with
  | none => []
  | some owner =>
    (((m.node owner).content.get? node.name).getD ∅).toList.filter fun other =>
      other ≠ id && (m.kind other).isCallable

def isOverloaded (id : NodeId) : Bool := !(m.overloads id).isEmpty

end Bindery.Model
