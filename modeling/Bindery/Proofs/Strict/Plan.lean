import Bindery.Binding.Outline
import Bindery.Proofs.Strict.Closure

/-! Strict plans and their outlines. A plan names nodes by what is planned, what that needs and what
it derives from, all of which an outline can name. -/

set_option autoImplicit false

namespace Bindery

open Ast (TranslationUnit)
open Binding (BindError Entry EnumItem Item Member Plan Policy RecordItem)
open Project (EmitConfig)

namespace Strict

section
variable (m : Model) (p : Policy)

def names (ids : List NodeId) : Option (List String) := ids.mapM (name m)

def missing (bound ids : List NodeId) : Option (List NodeId) :=
  ids.filterM fun other => do
    if bound.contains other then return false
    else if ← isCaster m p other then return false
    else return (← kind m other) ≠ .builtin

def overloaded (id : NodeId) : Option Bool := do
  if (← kind m id).isCallable then isOverloaded m id else return false

def shownMembers (wanted : Bool) (kind : NodeKind) (id : NodeId) : Option (List NodeId) := do
  let members ← membersWhere m id (· = kind)
  if wanted then shown m p members else return []

def planEnum (id : NodeId) : Option EnumItem := do
  let node ← m.node? id
  let constants ← names m (← membersWhere m id (· = .enumConstant))
  return { constants, exportValues := node.isAnonymous || (← exportsValues m p id) }

def publicOf (ids : List NodeId) : Option (List NodeId) :=
  ids.filterM fun id => return (← m.node? id).isPublic

end

/-! ## Outlines -/

section
variable (m : Model)

def commaSeparated (ids : List NodeId) : Option String := do
  return ", ".intercalate (← fullNames m ids)

def remarks (member : Member) : Option String := do
  let kind ← kind m member.node
  let missing ← commaSeparated m member.missing
  return (if kind.isCallable then s!"({member.signature})" else "") ++
    (if member.overloaded then " [overloaded]" else "") ++
    (match member.returnPolicy with
      | some policy => s!" [{policy}]"
      | none => "") ++
    (if member.replacement.isSome then " [replaced]" else "") ++
    (if member.missing.isEmpty then "" else s!" [needs {missing}]")

def memberLine (role : Binding.Outline.Role) (member : Member) : Option String := do
  let remarks ← remarks m member
  let mark := if member.isSkipped then "  # " else "  "
  let static := if member.isStatic then "static " else ""
  return mark ++ static ++ role.heading member ++ remarks

def recordLines (entry : Entry) (item : RecordItem) : Option (List String) := do
  let kind ← kind m entry.node
  let named ← commaSeparated m item.bases
  let constructors ← item.constructors.mapM (memberLine m .constructor)
  let fields ← item.fields.mapM (memberLine m .field)
  let methods ← item.methods.mapM (memberLine m .method)
  let abstract := if item.isAbstract then "abstract " else ""
  let bases := if item.bases.isEmpty then "" else s!" : {named}"
  return (abstract ++ s!"{kind.label} {entry.fullName}" ++ bases) ::
    constructors ++ fields ++ methods ++ item.addonMethods.map fun addon => s!"  addon {addon.1}"

def entryLines (entry : Entry) : Option (List String) := do
  match entry.item with
  | .record item => recordLines m entry item
  | .enumeration item => return Binding.Outline.enumLines entry item
  | .function member =>
    let remarks ← remarks m member
    return [s!"function {entry.fullName}" ++ remarks]

def outline (plan : Plan) : Option String := do
  let entries ← plan.entries.mapM (entryLines m)
  let lines := s!"module {plan.moduleName}" ::
    plan.prolog.map (fun fragment => s!"| {Text.trimEnd fragment}") ++ entries.flatten
  return String.join (lines.map fun line => line ++ "\n")

end

end Strict

/-! ## Questions -/

namespace Guarded

variable (u : TranslationUnit) (p : Policy) (emit : EmitConfig) (bound : List NodeId)

def planMember (id : NodeId) : Guarded Member := do
  let needed ← dependencies u id
  let m ← model
  let node ← m.node? id
  let signature ← Strict.signature m id
  let parameters ← Strict.names m (← Strict.membersWhere m id (· = .param))
  let missing ← Strict.missing m p bound needed.toList
  let replacement ← Strict.replacement m p id
  let returnPolicy ← Strict.returnPolicy m p id
  let overloaded ← Strict.overloaded m id
  return {
    node := id
    name := node.name
    signature
    parameters
    missing
    replacement
    returnPolicy
    overloaded
    isStatic := node.flags.isStatic
    doc := node.comment }

def planRecord (id : NodeId) : Guarded RecordItem := do
  let bases ← bases u id
  let m ← model
  let node ← m.node? id
  let constructors ← Strict.shownMembers m p emit.constructors (.callable .constructor) id
  let fields ← Strict.shownMembers m p emit.fields .field id
  let methods ← Strict.shownMembers m p emit.methods (.callable .method) id
  let addonMethods ← Strict.addonMethods m p id
  return {
    bases := bases.filter bound.contains
    isAbstract := node.flags.isAbstract
    constructors := ← constructors.mapM (planMember u p bound)
    fields := ← fields.mapM (planMember u p bound)
    methods := ← methods.mapM (planMember u p bound)
    addonMethods }

def planItem (id : NodeId) : Guarded (Option Item) := do
  let m ← model
  match ← Strict.kind m id with
  | .record _ => return some (.record (← planRecord u p emit bound id))
  | .enumeration => return some (.enumeration (← Strict.planEnum m p id))
  | .callable .function => return some (.function (← planMember u p bound id))
  | _ => return none

def planEntry (id : NodeId) : Guarded (Option Entry) := do
  match ← planItem u p emit bound id with
  | none => return none
  | some item =>
    let needed ← dependencies u id
    let m ← model
    let name ← Strict.name m id
    let fullName ← Strict.fullName m id
    return some { node := id, name, fullName, dependencies := needed.toList, item }

def ofOrder (order : List NodeId) : Guarded Plan := do
  let m ← model
  let bound ← Strict.publicOf m order
  let entries ← bound.mapM (planEntry u p emit bound)
  return { moduleName := emit.moduleName, prolog := emit.prolog, entries := entries.filterMap id }

def ofRoots (roots : List NodeId) : Guarded (Except BindError Plan) := do
  match ← order u (← closure u p roots) with
  | .error error => return .error error
  | .ok order => return .ok (← ofOrder u p emit order)

end Guarded

/-! ## Nodes of plans -/

namespace Binding

def Member.ids (member : Member) : List NodeId := member.node :: member.missing

def RecordItem.ids (item : RecordItem) : List NodeId :=
  item.bases ++ (item.constructors ++ item.fields ++ item.methods).flatMap Member.ids

def Item.ids : Item → List NodeId
  | .record item => item.ids
  | .enumeration _ => []
  | .function member => member.ids

def Entry.ids (entry : Entry) : List NodeId := entry.node :: entry.dependencies ++ entry.item.ids

def Plan.ids (plan : Plan) : List NodeId := plan.entries.flatMap Entry.ids

end Binding

/-! ## Answers -/

section
variable {u : TranslationUnit} {m : Model} {n : Nat} {id : NodeId}

namespace Strict

theorem names_eq {ids : List NodeId} (inside : Inside m.size ids) :
    names m ids = some (ids.map m.name) :=
  mapM_eq_some fun id listed => name_eq (inside id listed)

theorem publicOf_eq {ids : List NodeId} (inside : Inside m.size ids) :
    publicOf m ids = some (ids.filter fun id => (m.node id).isPublic) :=
  filterM_eq_some fun id listed => by simp [node?_eq (inside id listed)]

section
variable (ranged : m.Ranged u) (p : Policy)

include ranged

theorem missing_eq (bound : List NodeId) {ids : List NodeId} (inside : Inside m.size ids) :
    missing m p bound ids = some (ids.filter fun other =>
      !(bound.contains other || p.isCaster m other || m.kind other = .builtin)) := by
  refine filterM_eq_some fun id listed => ?_
  simp only [isCaster_eq ranged p (inside id listed), kind_eq (inside id listed),
    Option.bind_eq_bind, Option.bind_some]
  cases bound.contains id <;> cases p.isCaster m id <;> simp

theorem overloaded_eq (inside : id.index < m.size) :
    overloaded m id = some ((m.kind id).isCallable && m.isOverloaded id) := by
  simp only [overloaded, kind_eq inside, isOverloaded_eq ranged inside, Option.bind_eq_bind,
    Option.bind_some]
  cases (m.kind id).isCallable <;> rfl

theorem shownMembers_eq (wanted : Bool) (kind : NodeKind) (inside : id.index < m.size) :
    shownMembers m p wanted kind id =
      some (if wanted then (m.membersWhere id (· = kind)).filter (p.shows m) else []) := by
  simp only [shownMembers, membersWhere_eq ranged inside,
    shown_eq ranged p (inside_membersWhere ranged id (· = kind)), Option.bind_eq_bind,
    Option.bind_some]
  cases wanted <;> rfl

theorem planEnum_eq (inside : id.index < m.size) :
    planEnum m p id = some (Plan.planEnum p m id) := by
  simp only [planEnum, node?_eq inside, membersWhere_eq ranged inside,
    names_eq (inside_membersWhere ranged id (· = .enumConstant)), exportsValues_eq ranged p inside,
    Option.bind_eq_bind, Option.bind_some]
  rfl

/-! ## Outlines -/

theorem commaSeparated_eq {ids : List NodeId} (inside : Inside m.size ids) :
    commaSeparated m ids = some (Binding.Outline.commaSeparated m ids) := by
  simp only [commaSeparated, fullNames_eq ranged inside, Option.bind_eq_bind, Option.bind_some]
  rfl

theorem remarks_eq {member : Member} (inside : Inside m.size member.ids) :
    remarks m member = some (Binding.Outline.remarks m member) := by
  have here : member.node.index < m.size := inside _ List.mem_cons_self
  have missing : Inside m.size member.missing := fun id listed =>
    inside id (List.mem_cons_of_mem _ listed)
  simp only [remarks, kind_eq here, commaSeparated_eq ranged missing, Option.bind_eq_bind,
    Option.bind_some]
  rfl

theorem memberLines_eq (role : Binding.Outline.Role) {members : List Member}
    (inside : Inside m.size (members.flatMap Member.ids)) :
    members.mapM (memberLine m role) = some (members.map (Binding.Outline.memberLine m role)) := by
  refine mapM_eq_some fun member listed => ?_
  have within : Inside m.size member.ids := fun id named =>
    inside id (List.mem_flatMap.mpr ⟨member, listed, named⟩)
  simp only [memberLine, remarks_eq ranged within, Option.bind_eq_bind, Option.bind_some]
  rfl

theorem recordLines_eq {entry : Entry} {item : RecordItem} (here : entry.node.index < m.size)
    (inside : Inside m.size item.ids) :
    recordLines m entry item = some (Binding.Outline.recordLines m entry item) := by
  unfold RecordItem.ids at inside
  simp only [List.flatMap_append] at inside
  have bases : Inside m.size item.bases := fun id listed =>
    inside id (List.mem_append_left _ listed)
  have constructors : Inside m.size (item.constructors.flatMap Member.ids) := fun id named =>
    inside id (by simp only [List.mem_append]; exact .inr (.inl (.inl named)))
  have fields : Inside m.size (item.fields.flatMap Member.ids) := fun id named =>
    inside id (by simp only [List.mem_append]; exact .inr (.inl (.inr named)))
  have methods : Inside m.size (item.methods.flatMap Member.ids) := fun id named =>
    inside id (by simp only [List.mem_append]; exact .inr (.inr named))
  simp only [recordLines, kind_eq here, commaSeparated_eq ranged bases,
    memberLines_eq ranged _ constructors, memberLines_eq ranged _ fields,
    memberLines_eq ranged _ methods, Option.bind_eq_bind, Option.bind_some]
  rfl

theorem entryLines_eq {entry : Entry} (inside : Inside m.size entry.ids) :
    entryLines m entry = some (Binding.Outline.entryLines m entry) := by
  have here : entry.node.index < m.size := inside _ List.mem_cons_self
  have within : Inside m.size entry.item.ids := fun id named =>
    inside id (List.mem_cons_of_mem _ (List.mem_append_right _ named))
  unfold entryLines Binding.Outline.entryLines
  cases planned : entry.item with
  | record item =>
    rw [planned] at within
    exact recordLines_eq ranged here within
  | enumeration => rfl
  | function member =>
    rw [planned] at within
    have named : Inside m.size member.ids := within
    simp only [remarks_eq ranged named, Option.bind_eq_bind, Option.bind_some]
    rfl

/-- An outline can be written of every plan whose nodes are in the arena. -/
theorem outline_eq {plan : Plan} (inside : Inside m.size plan.ids) :
    outline m plan = some (Binding.Outline.text m plan) := by
  have lines : plan.entries.mapM (entryLines m) =
      some (plan.entries.map (Binding.Outline.entryLines m)) :=
    mapM_eq_some fun entry listed => entryLines_eq ranged fun id named =>
      inside id (List.mem_flatMap.mpr ⟨entry, listed, named⟩)
  simp only [outline, Binding.Outline.text, Binding.Outline.lines, lines, Option.bind_eq_bind,
    Option.bind_some, List.flatMap_def]
  rfl

end

end Strict

open Strict

/-- What answers to a list of questions name is in the arena if it is for each of them. -/
theorem inside_flatMap {α : Type} {ids : α → List NodeId} {items : List NodeId} {answers : List α}
    (fits : List.Forall₂ (fun _ answer => Inside n (ids answer)) items answers) :
    Inside n (answers.flatMap ids) := by
  intro id named
  obtain ⟨answer, given, named⟩ := List.mem_flatMap.mp named
  obtain ⟨_, _, inside⟩ := exists_left_of_mem fits given
  exact inside id named

variable (wellFormed : u.WellFormed) {p : Policy} {emit : EmitConfig} {bound : List NodeId}

include wellFormed

theorem succeeds_planMember (inside : id.index < n) :
    Succeeds u n (Guarded.planMember u p bound id) (Plan.planMember u p bound id)
      fun size member => Inside size member.ids := by
  refine (succeeds_dependencies wellFormed inside).bind fun needed larger grown within => ?_
  refine .model fun m ranged size => ?_
  subst size
  have here := Nat.lt_of_lt_of_le inside grown
  have others : Inside m.size needed.toList := within
  simp only [node?_eq here, signature_eq here, membersWhere_eq ranged here,
    names_eq (inside_membersWhere ranged id (· = .param)), missing_eq ranged p bound others,
    replacement_eq ranged p here, returnPolicy_eq ranged p here, overloaded_eq ranged here,
    Guarded.lift_some_bind]
  refine .pure fun other named => ?_
  rcases List.mem_cons.mp named with rfl | missed
  · exact here
  · exact others.filter _ other missed

theorem succeeds_planMembers {ids : List NodeId} (inside : Inside n ids) :
    Succeeds u n (ids.mapM (Guarded.planMember u p bound)) (ids.mapM (Plan.planMember u p bound))
      fun size members => Inside size (members.flatMap Member.ids) := by
  refine (Succeeds.mapM (fun _ _ _ _ grown within => within.mono grown) ?_).weaken
    fun _ _ _ fits => inside_flatMap fits
  exact fun id listed _ grown => succeeds_planMember wellFormed
    (Nat.lt_of_lt_of_le (inside id listed) grown)

theorem succeeds_planRecord (inside : id.index < n) :
    Succeeds u n (Guarded.planRecord u p emit bound id) (Plan.planRecord u p emit bound id)
      fun size item => Inside size item.ids := by
  refine (succeeds_bases wellFormed inside).bind fun bases larger grown found => ?_
  refine .model fun m ranged size => ?_
  subst size
  have here := Nat.lt_of_lt_of_le inside grown
  have shown (wanted : Bool) (kind : NodeKind) : Inside m.size
      (if wanted then (m.membersWhere id (· = kind)).filter (p.shows m) else []) := by
    split
    · exact (inside_membersWhere ranged id _).filter _
    · exact .nil
  simp only [node?_eq here, shownMembers_eq ranged p _ _ here, addonMethods_eq ranged p here,
    Guarded.lift_some_bind]
  refine (succeeds_planMembers wellFormed (shown _ _)).bind fun constructors _ grown₁ first => ?_
  refine (succeeds_planMembers wellFormed ((shown _ _).mono grown₁)).bind
    fun fields _ grown₂ second => ?_
  refine (succeeds_planMembers wellFormed ((shown _ _).mono (grown₁.trans grown₂))).bind
    fun methods _ grown₃ third => .pure ?_
  unfold RecordItem.ids
  simp only [List.flatMap_append]
  refine ((found.filter _).mono (grown₁.trans (grown₂.trans grown₃))).append ?_
  exact ((first.mono (grown₂.trans grown₃)).append (second.mono grown₃)).append third

theorem succeeds_planItem (inside : id.index < n) :
    Succeeds u n (Guarded.planItem u p emit bound id) (Plan.planItem u p emit bound id)
      fun size found => ∀ item ∈ found, Inside size item.ids := by
  refine .model fun m ranged size => ?_
  subst size
  simp only [kind_eq inside, planEnum_eq ranged p inside, Guarded.lift_some_bind]
  cases m.kind id with
  | record _ =>
    refine (succeeds_planRecord wellFormed inside).bind fun item _ _ within => .pure ?_
    exact fun _ same => Option.some.inj same ▸ within
  | enumeration => exact .pure fun _ same => Option.some.inj same ▸ .nil
  | callable kind =>
    cases kind with
    | function =>
      refine (succeeds_planMember wellFormed inside).bind fun member _ _ within => .pure ?_
      exact fun _ same => Option.some.inj same ▸ within
    | _ => exact .pure (by simp)
  | _ => exact .pure (by simp)

theorem succeeds_planEntry (inside : id.index < n) :
    Succeeds u n (Guarded.planEntry u p emit bound id) (Plan.planEntry u p emit bound id)
      fun size found => ∀ entry ∈ found, Inside size entry.ids := by
  refine (succeeds_planItem wellFormed inside).bind fun found larger grown within => ?_
  cases found with
  | none => exact .pure (by simp)
  | some item =>
    refine (succeeds_dependencies wellFormed (Nat.lt_of_lt_of_le inside grown)).bind ?_
    intro needed larger' grown' others
    refine .model fun m ranged size => ?_
    subst size
    have here := Nat.lt_of_lt_of_le inside (grown.trans grown')
    simp only [name_eq here, fullName_eq ranged here, Guarded.lift_some_bind]
    refine .pure fun entry same => ?_
    cases same
    have items : Inside m.size item.ids := (within item rfl).mono grown'
    have named := Inside.append others items
    exact fun other member => (List.mem_cons.mp member).elim (fun same => same ▸ here) (named other)

theorem succeeds_ofOrder {order : List NodeId} (inside : Inside n order) :
    Succeeds u n (Guarded.ofOrder u p emit order) (Plan.ofOrder u p emit order)
      fun size plan => Inside size plan.ids := by
  refine .model fun m ranged size => ?_
  subst size
  simp only [publicOf_eq inside, Guarded.lift_some_bind]
  refine Succeeds.bind (.mapM ?_ fun id listed larger grown => succeeds_planEntry wellFormed
    (Nat.lt_of_lt_of_le (inside.filter _ id listed) grown)) fun entries _ _ fits => .pure ?_
  · exact fun _ _ _ _ grown within entry given => (within entry given).mono grown
  · intro id named
    obtain ⟨entry, planned, named⟩ := List.mem_flatMap.mp named
    obtain ⟨found, given, same⟩ := List.mem_filterMap.mp planned
    obtain ⟨_, _, within⟩ := exists_left_of_mem fits given
    exact within entry same id named

theorem succeeds_ofRoots {roots : List NodeId} (inside : Inside n roots) :
    Succeeds u n (Guarded.ofRoots u p emit roots) (Plan.ofRoots u p emit roots)
      fun size plan => ∀ made, plan = .ok made → Inside size made.ids := by
  refine (succeeds_closure wellFormed inside).bind fun closure _ _ within => ?_
  refine (succeeds_order wellFormed within.settled).bind fun sorted _ _ within => ?_
  cases sorted with
  | error => exact .pure (by simp)
  | ok order =>
    refine (succeeds_ofOrder wellFormed (within order rfl)).bind fun plan _ _ named => .pure ?_
    exact fun made same => Except.ok.inj same ▸ named

end

end Bindery
