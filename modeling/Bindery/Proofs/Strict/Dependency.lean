import Bindery.Model.Dependency
import Bindery.Proofs.Strict.Resolution

/-! Strict dependencies. Chains of aliases, bases and fields go from node to node by resolved types,
which stay in the arena. -/

set_option autoImplicit false

namespace Bindery

open Ast (TranslationUnit TypeId)

namespace Strict

def isInvalid (u : TranslationUnit) (type : Option TypeId) : Option Bool := do
  match type with
  | none => return false
  | some type => return !(← isValidType u type)

def onlyRecord (m : Model) (found : Option NodeId) : Option (Option NodeId) :=
  found.filterM fun id => return (← kind m id).isRecord

def recordOwner (m : Model) (id : NodeId) : Option (Option NodeId) := do
  onlyRecord m (← m.node? id).owner

end Strict

/-! ## Questions -/

namespace Guarded

variable (u : TranslationUnit)

def chainEnd : Nat → NodeId → Guarded (Option NodeId)
  | 0, _ => return none
  | bound + 1, id => do
    let m ← model
    let kind ← Strict.kind m id
    if kind = .builtin then return none
    else if kind.isReference || kind.isAlias then
      match ← resolveType u id with
      | none => return none
      | some next => chainEnd bound next
    else return some id

def declarationBehind (id : NodeId) : Guarded (Option NodeId) := do
  let m ← model
  chainEnd u (m.size + 1) id

def typeDependency (id : NodeId) : Guarded (Option NodeId) := do
  match ← resolveType u id with
  | none => return none
  | some target => declarationBehind u target

def typeDependencies (id : NodeId) : Guarded (OrderedSet NodeId) := do
  return .ofList (← typeDependency u id).toList

def onlyRecord (found : Option NodeId) : Guarded (Option NodeId) := do
  let m ← model
  liftM (Strict.onlyRecord m found)

def recordBehind (target : NodeId) : Guarded (Option NodeId) := do
  let m ← model
  if (← Strict.kind m target).isAlias then onlyRecord (← declarationBehind u target)
  else onlyRecord (some target)

def resolveBase (specifier : NodeId) : Guarded (Option NodeId) := do
  let m ← model
  match ← Strict.firstReference m specifier with
  | none => return none
  | some first =>
    if ← Strict.isInvalid u (← Strict.typeAt u first) then return none
    else
      match ← resolveType u specifier with
      | none => return none
      | some target => recordBehind u target

def addBase (record : NodeId) (found : BaseList) (specifier : NodeId) : Guarded BaseList := do
  let base ← resolveBase u specifier
  let m ← model
  let node ← m.node? specifier
  match base with
  | some base =>
    if base = record then
      let name ← Strict.fullName m record
      report (.selfBase name node.location)
      return found
    else return { found with resolved := found.resolved.insert base }
  | none =>
    let name ← Strict.fullName m record
    report (.unresolvedBase name node.displayName node.location)
    return { found with unresolved := found.unresolved + 1 }

def baseList (record : NodeId) : Guarded BaseList := do
  let m ← model
  match (← m.node? record).bases with
  | some found => return found
  | none =>
    let specifiers ← Strict.membersWhere m record (· = .baseSpecifier)
    let found ← specifiers.foldlM (addBase u record) {}
    update record fun node => { node with bases := some found }
    return found

def bases (record : NodeId) : Guarded (List NodeId) := do
  return (← baseList u record).resolved.toList

def hasUnresolvedBases (record : NodeId) : Guarded Bool := do
  return 0 < (← baseList u record).unresolved

def plainDependencies (id : NodeId) : Guarded (OrderedSet NodeId) := do
  let m ← model
  match ← Strict.kind m id with
  | .record _ =>
    let bases ← bases u id
    let owner ← Strict.recordOwner m id
    return (OrderedSet.ofList owner.toList).insertAll (bases.filter (· ≠ id))
  | .enumeration => return .ofList (← Strict.recordOwner m id).toList
  | .callable _ =>
    let returned ← typeDependencies u id
    let parameters ← Strict.membersWhere m id (· = .param)
    parameters.foldlM (fun needed param => do
      return needed.insertAll (← typeDependencies u param).toList) returned
  | .baseSpecifier => return .ofList (← resolveBase u id).toList
  | .param | .field | .variable | .typeDef | .typeAlias | .typeRef | .templateRef =>
    typeDependencies u id
  | .translationUnit | .namespaceScope | .enumConstant | .aliasTemplate | .templateTypeParam
  | .templateNonTypeParam | .builtin => return ∅

def fieldDependencies : Nat → NodeId → Guarded (OrderedSet NodeId)
  | 0, id => ask (throw (.fields id))
  | bound + 1, id => do
    match ← typeDependency u id with
    | none => return ∅
    | some target =>
      let needed := OrderedSet.ofList [target]
      if target = id then return needed
      else
        let m ← model
        let kind ← Strict.kind m target
        let further ←
          if kind = .field then fieldDependencies bound target else plainDependencies u target
        return needed.insertAll further.toList

def dependencies (id : NodeId) : Guarded (OrderedSet NodeId) := do
  let m ← model
  if (← Strict.kind m id) = .field then fieldDependencies u (m.size + 1) id
  else plainDependencies u id

end Guarded

/-! ## Answers -/

section
variable {u : TranslationUnit} {m : Model} {n : Nat} {id : NodeId}

namespace Strict

theorem isInvalid_eq {type : Option TypeId} (inside : ∀ id ∈ type, u.HasType id) :
    isInvalid u type = some (type.any fun type => !u.isValidType type) := by
  cases type with
  | none => rfl
  | some type => simp [isInvalid, isValidType_eq (inside type rfl)]

theorem onlyRecord_eq {found : Option NodeId} (inside : Inside m.size found) :
    onlyRecord m found = some (found.filter fun id => (m.kind id).isRecord) := by
  cases found with
  | none => rfl
  | some id => simp [onlyRecord, Option.filterM, kind_eq (inside id rfl), Option.filter]

theorem recordOwner_eq (ranged : m.Ranged u) (inside : id.index < m.size) :
    recordOwner m id = some (Query.recordOwner? m id) ∧
      Inside m.size (Query.recordOwner? m id) := by
  have owners := (ranged.nodes id).owner
  refine ⟨?_, fun owner kept => owners owner (Option.filter_eq_some_iff.mp kept).1⟩
  simp only [recordOwner, node?_eq inside, Option.bind_eq_bind, Option.bind_some]
  exact onlyRecord_eq owners

end Strict

open Strict

variable (wellFormed : u.WellFormed)

include wellFormed

theorem succeeds_chainEnd (bound : Nat) (inside : id.index < n) :
    Succeeds u n (Guarded.chainEnd u bound id) (Query.chainEnd u bound id) Inside := by
  induction bound generalizing id n with
  | zero => exact .pure .none
  | succ bound ih =>
    refine .model fun m ranged size => ?_
    subst size
    simp only [kind_eq inside, Guarded.lift_some_bind]
    split
    · exact .pure .none
    · split
      · refine (succeeds_resolveType wellFormed inside).bind fun found larger _ within => ?_
        cases found with
        | none => exact .pure .none
        | some next => exact ih (within next rfl)
      · exact .pure (.some inside)

theorem succeeds_declarationBehind (inside : id.index < n) :
    Succeeds u n (Guarded.declarationBehind u id) (Query.declarationBehind u id) Inside :=
  .model fun _ _ _ => succeeds_chainEnd wellFormed _ inside

theorem succeeds_typeDependency (inside : id.index < n) :
    Succeeds u n (Guarded.typeDependency u id) (Query.typeDependency u id) Inside := by
  refine (succeeds_resolveType wellFormed inside).bind fun found larger _ within => ?_
  cases found with
  | none => exact .pure .none
  | some target => exact succeeds_declarationBehind wellFormed (within target rfl)

theorem succeeds_typeDependencies (inside : id.index < n) :
    Succeeds u n (Guarded.typeDependencies u id) (Query.typeDependencies u id) Inside :=
  (succeeds_typeDependency wellFormed inside).bind fun _ _ _ within => .pure (.ofList within.toList)

/-! ## Bases -/

omit wellFormed in
theorem succeeds_onlyRecord {found : Option NodeId} (inside : Inside n found) :
    Succeeds u n (Guarded.onlyRecord found) (Query.onlyRecord found) Inside := by
  refine .model fun m ranged size => ?_
  subst size
  rw [onlyRecord_eq inside]
  exact .pure fun id kept => inside id (Option.filter_eq_some_iff.mp kept).1

theorem succeeds_recordBehind (inside : id.index < n) :
    Succeeds u n (Guarded.recordBehind u id) (Query.recordBehind u id) Inside := by
  refine .model fun m ranged size => ?_
  subst size
  simp only [kind_eq inside, Guarded.lift_some_bind]
  split
  · exact (succeeds_declarationBehind wellFormed inside).bind fun _ _ _ => succeeds_onlyRecord
  · exact succeeds_onlyRecord (.some inside)

theorem succeeds_resolveBase (inside : id.index < n) :
    Succeeds u n (Guarded.resolveBase u id) (Query.resolveBase u id) Inside := by
  refine .model fun m ranged size => ?_
  subst size
  simp only [firstReference_eq ranged inside, Guarded.lift_some_bind]
  cases first : Query.firstReference? m id with
  | none => exact .pure .none
  | some reference =>
    have refers := hasCursor_of_firstReference ranged first
    simp only [typeAt_eq refers, isInvalid_eq (hasType_of_typeAt wellFormed refers),
      Guarded.lift_some_bind]
    split
    · exact .pure .none
    · refine (succeeds_resolveType wellFormed inside).bind fun found larger _ within => ?_
      cases found with
      | none => exact .pure .none
      | some target => exact succeeds_recordBehind wellFormed (within target rfl)

theorem succeeds_addBase {record specifier : NodeId} (owns : record.index < n)
    (inside : specifier.index < n) {found : BaseList} (within : Inside n found.resolved) :
    Succeeds u n (Guarded.addBase u record found specifier) (Query.addBase u record found specifier)
      fun size found => Inside size found.resolved := by
  refine (succeeds_resolveBase wellFormed inside).bind fun base larger grown there => ?_
  refine .model fun m ranged size => ?_
  subst size
  simp only [node?_eq (Nat.lt_of_lt_of_le inside grown),
    fullName_eq ranged (Nat.lt_of_lt_of_le owns grown), Guarded.lift_some_bind]
  cases base with
  | none =>
    exact (Succeeds.report _).bind fun _ _ grown' _ => .pure (within.mono (grown.trans grown'))
  | some base =>
    dsimp only
    split
    · exact (Succeeds.report _).bind fun _ _ grown' _ => .pure (within.mono (grown.trans grown'))
    · exact .pure ((within.mono grown).insert (there base rfl))

theorem succeeds_baseList (inside : id.index < n) :
    Succeeds u n (Guarded.baseList u id) (Query.baseList u id)
      fun size found => Inside size found.resolved := by
  refine .model fun m ranged size => ?_
  subst size
  simp only [node?_eq inside, Guarded.lift_some_bind]
  cases known : (m.node id).bases with
  | some found => exact .pure ((ranged.nodes id).bases found known)
  | none =>
    simp only [membersWhere_eq ranged inside, Guarded.lift_some_bind]
    have added : Succeeds u m.size ((m.baseSpecifiers id).foldlM (Guarded.addBase u id) {})
        ((m.baseSpecifiers id).foldlM (Query.addBase u id) {})
        fun size found => Inside size found.resolved := by
      apply Succeeds.foldlM
      · intro specifier listed larger found grown within
        have there := inside_membersWhere ranged id _ specifier listed
        exact succeeds_addBase wellFormed (Nat.lt_of_lt_of_le inside grown)
          (Nat.lt_of_lt_of_le there grown) within
      · exact Inside.empty
    refine added.bind fun found larger grown within => ?_
    refine Succeeds.bind (.update (Nat.lt_of_lt_of_le inside grown) fun _ kept => ?_) ?_
    · exact { kept with bases := fun _ same => Option.some.inj same ▸ within }
    · exact fun _ _ grown' _ => .pure (within.mono grown')

theorem succeeds_bases (inside : id.index < n) :
    Succeeds u n (Guarded.bases u id) (Query.bases u id) Inside :=
  (succeeds_baseList wellFormed inside).bind fun _ _ _ within => .pure within

theorem succeeds_hasUnresolvedBases (inside : id.index < n) :
    Succeeds u n (Guarded.hasUnresolvedBases u id) (Query.hasUnresolvedBases u id)
      fun _ _ => True :=
  (succeeds_baseList wellFormed inside).bind fun _ _ _ _ => .pure trivial

/-! ## What nodes need -/

theorem succeeds_plainDependencies (inside : id.index < n) :
    Succeeds u n (Guarded.plainDependencies u id) (Query.plainDependencies u id) Inside := by
  refine .model fun m ranged size => ?_
  subst size
  obtain ⟨owned, within⟩ := recordOwner_eq ranged inside
  simp only [kind_eq inside, owned, membersWhere_eq ranged inside, Guarded.lift_some_bind]
  cases m.kind id with
  | record _ =>
    refine (succeeds_bases wellFormed inside).bind fun bases larger grown found => .pure ?_
    exact (Inside.ofList (within.mono grown).toList).insertAll (found.filter _)
  | enumeration => exact .pure (.ofList within.toList)
  | callable _ =>
    refine (succeeds_typeDependencies wellFormed inside).bind fun returned larger grown found => ?_
    refine .foldlM (fun param listed larger' needed grown' found => ?_) returned found
    have there := inside_membersWhere ranged id _ param listed
    refine (succeeds_typeDependencies wellFormed
      (Nat.lt_of_lt_of_le there (grown.trans grown'))).bind ?_
    exact fun further _ grown'' added => .pure ((found.mono grown'').insertAll added)
  | baseSpecifier =>
    exact (succeeds_resolveBase wellFormed inside).bind fun _ _ _ found =>
      .pure (.ofList found.toList)
  | translationUnit | namespaceScope | enumConstant | aliasTemplate | templateTypeParam
  | templateNonTypeParam | builtin => exact .pure .empty
  | _ => exact succeeds_typeDependencies wellFormed inside

theorem succeeds_fieldDependencies (bound : Nat) (inside : id.index < n) :
    Succeeds u n (Guarded.fieldDependencies u bound id) (Query.fieldDependencies u bound id)
      Inside := by
  induction bound generalizing id n with
  | zero => exact .throw _
  | succ bound ih =>
    refine (succeeds_typeDependency wellFormed inside).bind fun found larger _ within => ?_
    cases found with
    | none => exact .pure .empty
    | some target =>
      have there := within target rfl
      have needed : Inside larger [target] := .single there
      dsimp only
      split
      · exact .pure needed.ofList
      · refine .model fun m ranged size => ?_
        subst size
        simp only [kind_eq there, Guarded.lift_some_bind]
        split
        · exact (ih there).bind fun further _ grown added =>
            .pure ((needed.ofList.mono grown).insertAll added)
        · exact (succeeds_plainDependencies wellFormed there).bind fun further _ grown added =>
            .pure ((needed.ofList.mono grown).insertAll added)

theorem succeeds_dependencies (inside : id.index < n) :
    Succeeds u n (Guarded.dependencies u id) (Query.dependencies u id) Inside := by
  refine .model fun m ranged size => ?_
  subst size
  simp only [kind_eq inside, Guarded.lift_some_bind]
  split
  · exact succeeds_fieldDependencies wellFormed _ inside
  · exact succeeds_plainDependencies wellFormed inside

end

end Bindery
