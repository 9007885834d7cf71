import Bindery.Binding.Plan
import Bindery.Text.Blank

/-! The outline of a plan, one line for each entity and each of its members. -/

set_option autoImplicit false

namespace Bindery.Binding.Outline

variable (m : Model)

def commaSeparated (ids : List NodeId) : String := ", ".intercalate (ids.map m.fullName)

/-- What follows the name of a callable or field: its parameters and what is to be noted. -/
def remarks (member : Member) : String :=
  (if (m.kind member.node).isCallable then s!"({member.signature})" else "") ++
  (if member.overloaded then " [overloaded]" else "") ++
  (match member.returnPolicy with
    | some policy => s!" [{policy}]"
    | none => "") ++
  (if member.replacement.isSome then " [replaced]" else "") ++
  (if member.missing.isEmpty then "" else s!" [needs {commaSeparated m member.missing}]")

inductive Role where
  | constructor
  | field
  | method
  deriving DecidableEq, Repr

/-- Constructors have no name of their own. -/
def Role.heading (member : Member) : Role → String
  | .constructor => "init"
  | .field => s!"field {member.name}"
  | .method => s!"method {member.name}"

/-- The line of a member; a number sign marks it as disabled. -/
def memberLine (role : Role) (member : Member) : String :=
  let mark := if member.isSkipped then "  # " else "  "
  let static := if member.isStatic then "static " else ""
  mark ++ static ++ role.heading member ++ remarks m member

def recordLines (entry : Entry) (item : RecordItem) : List String :=
  let abstract := if item.isAbstract then "abstract " else ""
  let bases := if item.bases.isEmpty then "" else s!" : {commaSeparated m item.bases}"
  (abstract ++ s!"{(m.kind entry.node).label} {entry.fullName}" ++ bases) ::
    item.constructors.map (memberLine m .constructor) ++
    item.fields.map (memberLine m .field) ++
    item.methods.map (memberLine m .method) ++
    item.addonMethods.map fun addon => s!"  addon {addon.1}"

def enumLines (entry : Entry) (item : EnumItem) : List String :=
  let name := if entry.name.isEmpty then "<anonymous>" else entry.fullName
  (s!"enum {name}" ++ if item.exportValues then " [export]" else "") ::
    item.constants.map fun constant => s!"  {constant}"

def entryLines (entry : Entry) : List String :=
  match entry.item with
  | .record item => recordLines m entry item
  | .enumeration item => enumLines entry item
  | .function member => [s!"function {entry.fullName}" ++ remarks m member]

def lines (plan : Plan) : List String :=
  s!"module {plan.moduleName}" ::
    plan.prolog.map (fun fragment => s!"| {Text.trimEnd fragment}") ++
    plan.entries.flatMap (entryLines m)

def text (plan : Plan) : String := String.join ((lines m plan).map fun line => line ++ "\n")

end Bindery.Binding.Outline
