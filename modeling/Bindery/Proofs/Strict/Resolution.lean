import Bindery.Proofs.Strict.Question

/-! Strict resolution of types. Every cursor and type that it passes through comes from the unit or
from a node, and every node from the tables of the model, so that it succeeds on well-formed units. -/

set_option autoImplicit false

namespace Bindery

open Ast (Cursor CursorId TranslationUnit TypeId)

namespace Strict

/-- The type of the entity at a cursor, valid or not. -/
def typeAt (u : TranslationUnit) (id : CursorId) : Option (Option TypeId) := do
  return (← u.cursor? id).type

/-- The type that the aliases at a cursor stand for. -/
def canonicalAt (u : TranslationUnit) (id : CursorId) : Option (Option TypeId) := do
  (← typeAt u id).mapM (canonical u)

def spelling (u : TranslationUnit) (id : TypeId) : Option String := do
  return (← u.type? id).spelling

/-- The name of a type to be reported, which may be missing. -/
def spellingOf (u : TranslationUnit) (type : Option TypeId) : Option String := do
  match type with
  | none => return ""
  | some id => spelling u id

def references (m : Model) (id : NodeId) : Option (List NodeId) := membersWhere m id (·.isReference)

def firstReference (m : Model) (id : NodeId) : Option (Option CursorId) := do
  match (← references m id).head? with
  | none => return none
  | some reference => return (← m.node? reference).occurrence

end Strict

/-! ## Questions -/

namespace Guarded

variable (u : TranslationUnit)

def nodeAt (id : Option CursorId) : Guarded (Option NodeId) := do
  let m ← model
  match id with
  | none => return none
  | some id => return (← u.cursor? id).usr?.bind m.byUsr?

def resolveDescriptor (type : TypeId) : Guarded (Option NodeId) := do
  let target := (← Strict.pointee u type).getD type
  match ← Strict.declaration u target with
  | none => return some (← marker (← Strict.spelling u target))
  | some declaration =>
    if (← u.cursor? declaration).kind = .noDeclFound then
      return some (← marker (← Strict.spelling u target))
    else
      match ← nodeAt u (← Strict.definition u declaration) with
      | some node => return some node
      | none => nodeAt u (some declaration)

def resolveReference (id : CursorId) : Guarded (Option NodeId) := do
  match ← nodeAt u (← Strict.definition u id) with
  | some node => return some node
  | none =>
    match ← Strict.validType u (← Strict.typeAt u id) with
    | none => return none
    | some type => resolveDescriptor u type

def noteResolution (id : NodeId) (resolution : Resolution) : Guarded Unit :=
  update id fun node => { node with resolution }

def remember (id : NodeId) (compute : Guarded (Option NodeId)) : Guarded (Option NodeId) := do
  let m ← model
  let node ← m.node? id
  match node.resolution with
  | .done target => return target
  | .inProgress => return none
  | .pending =>
    if node.kind.holdsType then
      noteResolution id .inProgress
      let target ← compute
      noteResolution id (.done target)
      return target
    else
      noteResolution id (.done none)
      return none

def referenceTarget (id : NodeId) : Guarded (Option NodeId) := remember id do
  let m ← model
  match (← m.node? id).occurrence with
  | none => return none
  | some occurrence => resolveReference u occurrence

def stripPointers (type : TypeId) : Guarded TypeId := do
  match ← Strict.stripPointers u type with
  | some target => return target
  | none => ask (throw (.pointers type))

def startingType (id : NodeId) (occurrence : CursorId) : Guarded (Option TypeId) := do
  let m ← model
  let type ← match ← Strict.kind m id with
    | .callable _ => pure (← u.cursor? occurrence).resultType
    | .param => (← Strict.typeAt u occurrence).mapM (stripPointers u)
    | .field => liftM (Strict.typeAt u ((← Strict.definition u occurrence).getD occurrence))
    | .typeDef | .typeAlias => liftM (Strict.canonicalAt u occurrence)
    | .baseSpecifier =>
      match ← Strict.firstReference m id with
      | none => pure none
      | some reference => liftM (Strict.typeAt u reference)
    | _ => liftM (Strict.typeAt u occurrence)
  Strict.validType u type

def fallback (id : NodeId) (type : Option TypeId) : Guarded (Option NodeId) := do
  let m ← model
  if (← Strict.kind m id) = .param then
    match type with
    | none => nodeAt u none
    | some type => nodeAt u (← Strict.declaration u type)
  else return none

def reportUnresolved (id : NodeId) (type : Option TypeId) : Guarded Unit := do
  let m ← model
  let node ← m.node? id
  if node.kind ≠ .baseSpecifier then
    let spelling ← Strict.spellingOf u type
    let name ← Strict.fullName m id
    report (.unresolvedType name spelling node.location)

def conclude (id : NodeId) (type : Option TypeId) (found : Option NodeId) :
    Guarded (Option NodeId) := do
  match found with
  | some target => return some target
  | none =>
    match ← fallback u id type with
    | some target => return some target
    | none =>
      reportUnresolved u id type
      return none

def computeTarget (id : NodeId) (occurrence : CursorId) : Guarded (Option NodeId) := do
  let m ← model
  let type ← startingType u id occurrence
  match (← Strict.references m id).getLast?, type with
  | some reference, _ => conclude u id type (← referenceTarget u reference)
  | none, some known => conclude u id type (← resolveDescriptor u known)
  | none, none => return none

def resolveType (id : NodeId) : Guarded (Option NodeId) := do
  let m ← model
  if (← Strict.kind m id).isReference then referenceTarget u id
  else remember id do
    let m ← model
    match (← m.node? id).occurrence with
    | none => return none
    | some occurrence => computeTarget u id occurrence

def returnType (id : NodeId) : Guarded (Option NodeId) := do
  let m ← model
  if (← Strict.kind m id).isCallable then resolveType u id else return none

end Guarded

/-! ## Answers -/

section
variable {u : TranslationUnit} {m : Model} {n : Nat} {id : NodeId}

namespace Strict

theorem typeAt_eq {id : CursorId} (inside : u.HasCursor id) :
    typeAt u id = some ((u.cursor? id).bind (·.type)) := by
  obtain ⟨c, known⟩ := exists_cursor inside
  simp [typeAt, known]

theorem spelling_eq {id : TypeId} (inside : u.HasType id) :
    spelling u id = some (((u.type? id).map (·.spelling)).getD "") := by
  obtain ⟨t, known⟩ := exists_type inside
  simp [spelling, known]

theorem references_eq (ranged : m.Ranged u) (inside : id.index < m.size) :
    references m id = some (m.references id) :=
  membersWhere_eq ranged inside _

theorem firstReference_eq (ranged : m.Ranged u) (inside : id.index < m.size) :
    firstReference m id = some (Query.firstReference? m id) := by
  simp only [firstReference, Query.firstReference?, references_eq ranged inside,
    Option.bind_eq_bind, Option.bind_some]
  cases first : (m.references id).head? with
  | none => rfl
  | some reference =>
    have listed := List.mem_of_mem_head? (Option.mem_def.mpr first)
    simp [node?_eq (inside_membersWhere ranged id _ reference listed)]

theorem hasCursor_of_firstReference (ranged : m.Ranged u) {reference : CursorId}
    (first : Query.firstReference? m id = some reference) : u.HasCursor reference := by
  obtain ⟨member, _, known⟩ := Option.bind_eq_some_iff.mp first
  exact (ranged.nodes member).occurrence reference known

variable (wellFormed : u.WellFormed)

include wellFormed

theorem hasType_of_typeAt {id : CursorId} (inside : u.HasCursor id) :
    ∀ type ∈ (u.cursor? id).bind (·.type), u.HasType type := by
  obtain ⟨c, known⟩ := exists_cursor inside
  rw [known]
  exact fun type has => hasType_of_hasType wellFormed known (.inl has)

theorem canonicalAt_eq {id : CursorId} (inside : u.HasCursor id) :
    canonicalAt u id = some (((u.cursor? id).bind (·.type)).map u.canonical) := by
  unfold canonicalAt
  rw [typeAt_eq inside]
  cases has : (u.cursor? id).bind (·.type) with
  | none => rfl
  | some type =>
    simp [Option.mapM_some, canonical_eq (hasType_of_typeAt wellFormed inside type has)]

end Strict

open Strict

theorem inside_byUsr? (ranged : m.Ranged u) (usr : Option String) :
    Inside m.size (usr.bind m.byUsr?) := by
  intro id found
  obtain ⟨usr, _, found⟩ := Option.bind_eq_some_iff.mp found
  exact ranged.symbols usr id found

theorem succeeds_nodeAt {cursor : Option CursorId} (inside : ∀ id ∈ cursor, u.HasCursor id) :
    Succeeds u n (Guarded.nodeAt u cursor) (Query.nodeAt u cursor) Inside := by
  refine .model fun m ranged size => ?_
  subst size
  cases cursor with
  | none => exact .pure .none
  | some id =>
    obtain ⟨c, known⟩ := exists_cursor (inside id rfl)
    simp only [known, Guarded.lift_some_bind, Option.bind_some]
    exact .pure (inside_byUsr? ranged c.usr?)

variable (wellFormed : u.WellFormed)

include wellFormed

omit wellFormed in
theorem succeeds_marked (spelling : String) :
    Succeeds u n (some <$> Guarded.marker spelling) (some <$> Query.marker spelling) Inside := by
  exact (Succeeds.marker spelling).bind fun id larger _ inside => .pure (.some inside)

theorem succeeds_descriptor {type : TypeId} (inside : u.HasType type) :
    Succeeds u n (Guarded.resolveDescriptor u type) (Query.resolveDescriptor u type) Inside := by
  obtain ⟨pointed, further⟩ := pointee_eq wellFormed inside
  have there : u.HasType ((u.pointee? type).getD type) := by
    cases points : u.pointee? type with
    | none => exact inside
    | some target => exact further target points
  unfold Guarded.resolveDescriptor Query.resolveDescriptor
  simp only [pointed, Guarded.lift_some_bind, declaration_eq there, spelling_eq there]
  cases declared : u.declaration? ((u.pointee? type).getD type) with
  | none => exact succeeds_marked _
  | some declaration =>
    have declares := hasCursor_of_declaration? wellFormed declared
    obtain ⟨c, known⟩ := exists_cursor declares
    simp only [known, definition_eq declares, Guarded.lift_some_bind, Option.map_some,
      Option.getD_some]
    split
    · exact succeeds_marked _
    · refine (succeeds_nodeAt fun id => hasCursor_of_definition? wellFormed declares).bind ?_
      intro found larger _ within
      cases found with
      | some node => exact .pure within
      | none => exact succeeds_nodeAt fun id same => Option.some.inj same ▸ declares

theorem succeeds_reference {cursor : CursorId} (inside : u.HasCursor cursor) :
    Succeeds u n (Guarded.resolveReference u cursor) (Query.resolveReference u cursor) Inside := by
  have types := hasType_of_typeAt wellFormed inside
  unfold Guarded.resolveReference Query.resolveReference
  simp only [definition_eq inside, typeAt_eq inside, validType_eq types, Guarded.lift_some_bind]
  refine (succeeds_nodeAt fun id => hasCursor_of_definition? wellFormed inside).bind ?_
  intro found larger _ within
  cases found with
  | some node => exact .pure within
  | none =>
    cases valid : ((u.cursor? cursor).bind (·.type)).filter u.isValidType with
    | none => exact .pure .none
    | some type =>
      exact succeeds_descriptor wellFormed (types type (Option.filter_eq_some_iff.mp valid).1)

/-! ## Remembered answers -/

omit wellFormed in
theorem succeeds_noteResolution (inside : id.index < n) {resolution : Resolution}
    (fits : ∀ found, resolution = .done found → Inside n found) :
    Succeeds u n (Guarded.noteResolution id resolution) (Query.noteResolution id resolution)
      fun _ _ => True :=
  .update inside fun _ kept => { kept with target := fits }

omit wellFormed in
theorem succeeds_remember {compute : Guarded (Option NodeId)} {compute' : Query (Option NodeId)}
    (inside : id.index < n)
    (computes : ∀ larger, n ≤ larger → Succeeds u larger compute compute' Inside) :
    Succeeds u n (Guarded.remember id compute) (Query.remember id compute') Inside := by
  refine .model fun m ranged size => ?_
  subst size
  simp only [node?_eq inside, Guarded.lift_some_bind]
  cases known : (m.node id).resolution with
  | done target => exact .pure ((ranged.nodes id).target target known)
  | inProgress => exact .pure .none
  | pending =>
    dsimp only
    change Succeeds _ _ (if (m.node id).kind.holdsType then _ else _)
      (if (m.node id).kind.holdsType then _ else _) _
    split
    · refine (succeeds_noteResolution inside ?_).bind fun _ larger grown _ => ?_
      · exact fun _ same => by cases same
      refine (computes larger grown).bind fun target larger' grown' within => ?_
      have there := Nat.lt_of_lt_of_le inside (Nat.le_trans grown grown')
      refine (succeeds_noteResolution there ?_).bind fun _ larger'' grown'' _ => ?_
      · exact fun found same => Resolution.done.inj same ▸ within
      · exact .pure (within.mono grown'')
    · refine (succeeds_noteResolution inside ?_).bind fun _ _ _ _ => .pure .none
      exact fun found same => Resolution.done.inj same ▸ .none

theorem succeeds_referenceTarget (inside : id.index < n) :
    Succeeds u n (Guarded.referenceTarget u id) (Query.referenceTarget u id) Inside := by
  refine succeeds_remember inside fun larger grown => ?_
  refine .model fun m ranged size => ?_
  subst size
  simp only [node?_eq (Nat.lt_of_lt_of_le inside grown), Guarded.lift_some_bind]
  cases known : (m.node id).occurrence with
  | none => exact .pure .none
  | some occurrence =>
    exact succeeds_reference wellFormed ((ranged.nodes id).occurrence occurrence known)

/-! ## Types of nodes -/

theorem succeeds_stripPointers {type : TypeId} (inside : u.HasType type) :
    Succeeds u n (Guarded.stripPointers u type) (Query.stripPointers u type)
      fun _ target => u.HasType target := by
  obtain ⟨followed, further⟩ := followPointers_eq wellFormed (u.types.size + 1) inside
  unfold Guarded.stripPointers Query.stripPointers Strict.stripPointers TranslationUnit.stripPointers?
  simp only [followed, Guarded.lift_some_bind]
  cases ends : u.followPointers (u.types.size + 1) type with
  | none => exact .throw _
  | some target => exact .pure (further target ends)

omit wellFormed in
theorem succeeds_valid {type : Option TypeId} (inside : ∀ id ∈ type, u.HasType id) :
    Succeeds u n (liftM (validType u type)) (Pure.pure (type.filter u.isValidType))
      fun _ type => ∀ id ∈ type, u.HasType id := by
  rw [validType_eq inside]
  exact .pure fun id valid => inside id (Option.filter_eq_some_iff.mp valid).1

theorem succeeds_startingType (inside : id.index < n) {occurrence : CursorId}
    (known : u.HasCursor occurrence) :
    Succeeds u n (Guarded.startingType u id occurrence) (Query.startingType u id occurrence)
      fun _ type => ∀ id ∈ type, u.HasType id := by
  refine .model fun m ranged size => ?_
  subst size
  obtain ⟨c, found⟩ := exists_cursor known
  have types := hasType_of_typeAt wellFormed known
  simp only [kind_eq inside, typeAt_eq known, definition_eq known, firstReference_eq ranged inside,
    canonicalAt_eq wellFormed known, Guarded.lift_some_bind]
  cases m.kind id with
  | callable _ =>
    simp only [found, Guarded.lift_some_bind, pure_bind]
    exact succeeds_valid fun type has => hasType_of_hasType wellFormed found (.inr has)
  | param =>
    refine Succeeds.bind ?_ fun type _ _ valid => succeeds_valid valid
    cases has : (u.cursor? occurrence).bind (·.type) with
    | none => exact .pure (by simp)
    | some type =>
      simp only [Option.mapM_some, map_eq_pure_bind]
      refine (succeeds_stripPointers wellFormed (types type has)).bind fun target _ _ valid => ?_
      exact .pure fun _ same => Option.some.inj same ▸ valid
  | field =>
    have declares : u.HasCursor ((u.definition? occurrence).getD occurrence) := by
      cases defined : u.definition? occurrence with
      | none => exact known
      | some other => exact hasCursor_of_definition? wellFormed known defined
    simp only [typeAt_eq declares, Guarded.lift_some_bind, pure_bind]
    exact succeeds_valid (hasType_of_typeAt wellFormed declares)
  | typeDef | typeAlias =>
    simp only [pure_bind]
    refine succeeds_valid fun type unwrapped => ?_
    obtain ⟨named, has, rfl⟩ := Option.map_eq_some_iff.mp unwrapped
    exact hasType_canonical wellFormed (types named has)
  | baseSpecifier =>
    cases first : Query.firstReference? m id with
    | none =>
      simp only [pure_bind]
      exact succeeds_valid (by simp)
    | some reference =>
      have refers := hasCursor_of_firstReference ranged first
      simp only [typeAt_eq refers, Guarded.lift_some_bind, pure_bind]
      exact succeeds_valid (hasType_of_typeAt wellFormed refers)
  | _ =>
    simp only [pure_bind]
    exact succeeds_valid types

theorem succeeds_fallback (inside : id.index < n) {type : Option TypeId}
    (valid : ∀ id ∈ type, u.HasType id) :
    Succeeds u n (Guarded.fallback u id type) (Query.fallback u id type) Inside := by
  refine .model fun m ranged size => ?_
  subst size
  simp only [kind_eq inside, Guarded.lift_some_bind]
  split
  · cases type with
    | none => exact succeeds_nodeAt (by simp)
    | some type =>
      simp only [declaration_eq (valid type rfl), Guarded.lift_some_bind, Option.bind_some]
      exact succeeds_nodeAt fun id => hasCursor_of_declaration? wellFormed
  · exact .pure .none

omit wellFormed in
theorem spellingOf_eq {type : Option TypeId} (valid : ∀ id ∈ type, u.HasType id) :
    spellingOf u type = some (((type.bind u.type?).map (·.spelling)).getD "") := by
  cases type with
  | none => rfl
  | some type => exact spelling_eq (valid type rfl)

omit wellFormed in
theorem succeeds_reportUnresolved (inside : id.index < n) {type : Option TypeId}
    (valid : ∀ id ∈ type, u.HasType id) :
    Succeeds u n (Guarded.reportUnresolved u id type) (Query.reportUnresolved u id type)
      fun _ _ => True := by
  refine .model fun m ranged size => ?_
  subst size
  simp only [node?_eq inside, Guarded.lift_some_bind, spellingOf_eq valid,
    fullName_eq ranged inside]
  change Succeeds _ _ _ (if (m.node id).kind ≠ .baseSpecifier then _ else _) _
  split
  · exact .report _
  · exact .pure trivial

theorem succeeds_conclude (inside : id.index < n) {type : Option TypeId}
    (valid : ∀ id ∈ type, u.HasType id) {found : Option NodeId} (within : Inside n found) :
    Succeeds u n (Guarded.conclude u id type found) (Query.conclude u id type found) Inside := by
  unfold Guarded.conclude Query.conclude
  cases found with
  | some target => exact .pure within
  | none =>
    refine (succeeds_fallback wellFormed inside valid).bind fun given larger grown within => ?_
    cases given with
    | some target => exact .pure within
    | none =>
      have there := Nat.lt_of_lt_of_le inside grown
      exact (succeeds_reportUnresolved there valid).bind fun _ _ _ _ => .pure .none

theorem succeeds_computeTarget (inside : id.index < n) {occurrence : CursorId}
    (known : u.HasCursor occurrence) :
    Succeeds u n (Guarded.computeTarget u id occurrence) (Query.computeTarget u id occurrence)
      Inside := by
  refine .model fun m ranged size => ?_
  subst size
  refine (succeeds_startingType wellFormed inside known).bind fun type larger grown valid => ?_
  have there := Nat.lt_of_lt_of_le inside grown
  simp only [references_eq ranged inside, Guarded.lift_some_bind]
  cases last : (m.references id).getLast? with
  | some reference =>
    have within := inside_membersWhere ranged id _ reference (List.mem_of_getLast? last)
    refine (succeeds_referenceTarget wellFormed (Nat.lt_of_lt_of_le within grown)).bind ?_
    intro found larger' grown' within
    exact succeeds_conclude wellFormed (Nat.lt_of_lt_of_le there grown') valid within
  | none =>
    cases type with
    | none => exact .pure .none
    | some type =>
      refine (succeeds_descriptor wellFormed (valid type rfl)).bind ?_
      intro found larger' grown' within
      exact succeeds_conclude wellFormed (Nat.lt_of_lt_of_le there grown') valid within

theorem succeeds_resolveType (inside : id.index < n) :
    Succeeds u n (Guarded.resolveType u id) (Query.resolveType u id) Inside := by
  refine .model fun m ranged size => ?_
  subst size
  simp only [kind_eq inside, Guarded.lift_some_bind]
  split
  · exact succeeds_referenceTarget wellFormed inside
  · refine succeeds_remember inside fun larger grown => .model fun m' ranged size => ?_
    subst size
    have there := Nat.lt_of_lt_of_le inside grown
    simp only [node?_eq there, Guarded.lift_some_bind]
    cases known : (m'.node id).occurrence with
    | none => exact .pure .none
    | some occurrence =>
      exact succeeds_computeTarget wellFormed there ((ranged.nodes id).occurrence occurrence known)

theorem succeeds_returnType (inside : id.index < n) :
    Succeeds u n (Guarded.returnType u id) (Query.returnType u id) Inside := by
  refine .model fun m ranged size => ?_
  subst size
  simp only [kind_eq inside, Guarded.lift_some_bind]
  split
  · exact succeeds_resolveType wellFormed inside
  · exact .pure .none

end

end Bindery
