import Bindery.Proofs.Model.Asking

/-! What nodes need, asked and meant: bases and dependencies are the same whatever was asked before,
and a question for them ends if and only if they have a meaning. -/

set_option autoImplicit false

namespace Bindery

open Ast (Cursor CursorId TranslationUnit TypeId)

variable {u : TranslationUnit} {m : Model} {d : Draft}

/-! ## Chains of aliases -/

theorem chainEnd?_succ (bound : Nat) (id : NodeId) :
    Meaning.chainEnd? u m (bound + 1) id =
      if m.kind id = .builtin then some none
      else if (m.kind id).isReference || (m.kind id).isAlias then
        (Meaning.ofNode? u m id).bind fun target =>
          match target with
          | some (.node next) => Meaning.chainEnd? u m bound next
          | _ => some none
      else some (some id) := by
  unfold Meaning.chainEnd?
  by_cases builtin : m.kind id = .builtin
  · simp [chase, Meaning.chainStep, builtin]
  · by_cases leads : (m.kind id).isReference || (m.kind id).isAlias
    · rcases means : Meaning.ofNode? u m id with _ | _ | _ | _ <;>
        simp [chase, Meaning.chainStep, builtin, leads, means]
    · simp [chase, Meaning.chainStep, builtin, leads]

-- A marker is no declaration.
theorem answers_chainEnd_builtin (coherent : Coherent u m [] d.model) {id : NodeId}
    (builtin : d.model.kind id = .builtin) (bound : Nat) :
    Answers u m [] d (Query.chainEnd u bound id) (some none) Exactly := by
  cases bound with
  | zero => exact .pure coherent rfl
  | succ bound =>
    unfold Query.chainEnd
    apply Answers.model
    simp only [builtin, if_true]
    exact .pure coherent rfl

theorem answers_chainEnd (bound : Nat) (coherent : Coherent u m [] d.model) (id : NodeId) :
    Answers u m [] d (Query.chainEnd u bound id) (Meaning.chainEnd? u m bound id) Exactly := by
  induction bound generalizing d id with
  | zero => exact .pure coherent rfl
  | succ bound ih =>
    rw [chainEnd?_succ]
    unfold Query.chainEnd
    apply Answers.model
    dsimp only
    rw [coherent.grown.kind_eq]
    split
    · exact .pure coherent rfl
    · split
      · refine (answers_resolveType coherent id).bind ?_
        intro given target e _ coherent' _ right
        match given, target, right with
        | none, none, _ => exact .pure coherent' rfl
        | some next, some (.node _), rfl => exact ih coherent' next
        | some next, some (.marker _), right =>
          exact answers_chainEnd_builtin coherent' right.2 bound
      · exact .pure coherent rfl

theorem answers_declarationBehind (coherent : Coherent u m [] d.model) (id : NodeId) :
    Answers u m [] d (Query.declarationBehind u id) (Meaning.behind? u m id) Exactly := by
  have enough : m.size < d.model.size + 1 := Nat.lt_succ_of_le coherent.grown.size_le
  rw [← Meaning.chainEnd?_eq enough]
  exact answers_chainEnd (d.model.size + 1) coherent id

theorem answers_typeDependency (coherent : Coherent u m [] d.model) (id : NodeId) :
    Answers u m [] d (Query.typeDependency u id) (Meaning.typeDependency? u m id) Exactly := by
  refine (answers_resolveType coherent id).bind ?_
  intro given target e _ coherent' _ right
  match given, target, right with
  | none, none, _ => exact .pure coherent' rfl
  | some next, some (.node _), rfl => exact answers_declarationBehind coherent' next
  | some next, some (.marker _), right =>
    exact answers_chainEnd_builtin coherent' right.2 (e.model.size + 1)

theorem answers_typeDependencies (coherent : Coherent u m [] d.model) (id : NodeId) :
    Answers u m [] d (Query.typeDependencies u id) (Meaning.typeDependencies? u m id) Exactly :=
  (answers_typeDependency coherent id).map fun _ _ _ same => by
    cases same
    rfl

/-! ## Bases -/

theorem answers_onlyRecord (coherent : Coherent u m [] d.model) (found : Option NodeId) :
    Answers u m [] d (Query.onlyRecord found) (some (Meaning.onlyRecord m found)) Exactly := by
  have kinds : d.model.kind = m.kind := funext coherent.grown.kind_eq
  unfold Query.onlyRecord Meaning.onlyRecord
  apply Answers.model
  rw [kinds]
  exact .pure coherent rfl

theorem answers_recordBehind (coherent : Coherent u m [] d.model) (target : NodeId) :
    Answers u m [] d (Query.recordBehind u target) (Meaning.recordBehind? u m target) Exactly := by
  unfold Query.recordBehind Meaning.recordBehind?
  apply Answers.model
  rw [coherent.grown.kind_eq]
  split
  · rw [Option.map_eq_bind]
    refine (answers_declarationBehind coherent target).bind ?_
    intro found _ e _ coherent' _ same
    cases same
    exact answers_onlyRecord coherent' found
  · exact answers_onlyRecord coherent (some target)

theorem answers_recordBehind_builtin (coherent : Coherent u m [] d.model) {target : NodeId}
    (builtin : d.model.kind target = .builtin) :
    Answers u m [] d (Query.recordBehind u target) (some none) Exactly := by
  have means : Meaning.recordBehind? u m target = some none := by
    rw [coherent.grown.kind_eq] at builtin
    simp [Meaning.recordBehind?, Meaning.onlyRecord, Option.filter, builtin, NodeKind.isAlias,
      NodeKind.isRecord]
  rw [← means]
  exact answers_recordBehind coherent target

theorem answers_resolveBase (coherent : Coherent u m [] d.model) (specifier : NodeId) :
    Answers u m [] d (Query.resolveBase u specifier) (Meaning.base? u m specifier) Exactly := by
  unfold Query.resolveBase Meaning.base?
  apply Answers.model
  rw [Meaning.firstReference?_extends coherent.grown]
  cases Query.firstReference? m specifier with
  | none => exact .pure coherent rfl
  | some first =>
    dsimp only
    split
    · exact .pure coherent rfl
    · refine (answers_resolveType coherent specifier).bind ?_
      intro given target e _ coherent' _ right
      match given, target, right with
      | none, none, _ => exact .pure coherent' rfl
      | some next, some (.node _), rfl => exact answers_recordBehind coherent' next
      | some next, some (.marker _), right => exact answers_recordBehind_builtin coherent' right.2

theorem answers_addBase (coherent : Coherent u m [] d.model) (record : NodeId) (found : BaseList)
    (specifier : NodeId) :
    Answers u m [] d (Query.addBase u record found specifier)
      (Meaning.addBase? u m record found specifier) Exactly := by
  refine (answers_resolveBase coherent specifier).bind ?_
  intro base _ e _ coherent' _ same
  cases same
  apply Answers.model
  cases base with
  | none =>
    exact (answers_report coherent' _).bind_some fun _ _ later _ _ => .pure later rfl
  | some base =>
    dsimp only
    split
    · exact (answers_report coherent' _).bind_some fun _ _ later _ _ => .pure later rfl
    · exact .pure coherent' rfl

theorem answers_baseList (coherent : Coherent u m [] d.model) (record : NodeId) :
    Answers u m [] d (Query.baseList u record) (Meaning.bases? u m record) Exactly := by
  unfold Query.baseList
  apply Answers.model
  split
  · next found remembered =>
    -- The list was found before and is its meaning.
    rw [coherent.bases record found remembered]
    exact .pure coherent rfl
  · have specifiers : d.model.baseSpecifiers record = m.baseSpecifiers record :=
      coherent.grown.membersWhere_eq ..
    rw [specifiers, ← Option.bind_fun_some (Meaning.bases? u m record)]
    refine (Answers.foldlM (fun found specifier e coherent' _ =>
      answers_addBase coherent' record found specifier) coherent _ _).bind ?_
    intro found _ e means coherent' _ same
    cases same
    have noted := coherent'.noteBases means
    exact Answers.after (e := { e with model := _ }) rfl (.update _ record _ fun _ => rfl)
      (.pure noted rfl)

theorem answers_bases (coherent : Coherent u m [] d.model) (record : NodeId) :
    Answers u m [] d (Query.bases u record)
      ((Meaning.bases? u m record).map (·.resolved.toList)) Exactly :=
  (answers_baseList coherent record).map fun _ _ _ same => by
    cases same
    rfl

theorem answers_hasUnresolvedBases (coherent : Coherent u m [] d.model) (record : NodeId) :
    Answers u m [] d (Query.hasUnresolvedBases u record)
      ((Meaning.bases? u m record).map fun found => decide (0 < found.unresolved)) Exactly :=
  (answers_baseList coherent record).map fun _ _ _ same => by
    cases same
    rfl

/-! ## Dependencies -/

theorem answers_plainDependencies (coherent : Coherent u m [] d.model) (id : NodeId) :
    Answers u m [] d (Query.plainDependencies u id) (Meaning.plain? u m id) Exactly := by
  have owners : Query.recordOwner? d.model id = Query.recordOwner? m id := by
    simp only [Query.recordOwner?, coherent.grown.owner_eq, coherent.grown.kind_eq]
  have parameters : d.model.parameters id = m.parameters id := coherent.grown.membersWhere_eq ..
  unfold Query.plainDependencies Meaning.plain?
  apply Answers.model
  rw [owners, parameters, coherent.grown.kind_eq]
  cases m.kind id with
  | record _ =>
    refine (answers_bases coherent id).bind ?_
    intro bases _ e _ coherent' _ same
    cases same
    exact .pure coherent' rfl
  | callable _ =>
    refine (answers_typeDependencies coherent id).bind ?_
    intro returned _ e _ coherent' _ same
    cases same
    refine Answers.foldlM ?_ coherent' (m.parameters id) returned
    intro needed param e' later _
    refine (answers_typeDependencies later param).bind ?_
    intro found _ e'' _ last _ same
    cases same
    exact .pure last rfl
  | baseSpecifier =>
    refine (answers_resolveBase coherent id).map ?_
    intro found _ _ same
    cases same
    rfl
  | param => exact answers_typeDependencies coherent id
  | field => exact answers_typeDependencies coherent id
  | «variable» => exact answers_typeDependencies coherent id
  | typeDef => exact answers_typeDependencies coherent id
  | typeAlias => exact answers_typeDependencies coherent id
  | typeRef => exact answers_typeDependencies coherent id
  | templateRef => exact answers_typeDependencies coherent id
  | _ => exact .pure coherent rfl

theorem fieldNeeds?_succ (bound : Nat) (id : NodeId) :
    Meaning.fieldNeeds? u m (bound + 1) id =
      (Meaning.typeDependency? u m id).bind fun found =>
        match found with
        | none => some ∅
        | some target =>
          if target = id then some (.ofList [target])
          else
            (if m.kind target = .field then Meaning.fieldNeeds? u m bound target
              else Meaning.plain? u m target).map fun further =>
              (OrderedSet.ofList [target]).insertAll further.toList := by
  unfold Meaning.fieldNeeds?
  rcases found : Meaning.typeDependency? u m id with _ | _ | target
  · simp [chase, Meaning.fieldStep, found]
  · simp [chase, Meaning.fieldStep, found]
  · by_cases here : target = id
    · simp [chase, Meaning.fieldStep, found, here]
    · by_cases field : m.kind target = .field
      · simp [chase, Meaning.fieldStep, found, here, field, Meaning.throughField]
      · simp [chase, Meaning.fieldStep, found, here, field]

theorem answers_fieldDependencies (bound : Nat) (coherent : Coherent u m [] d.model)
    (id : NodeId) :
    Answers u m [] d (Query.fieldDependencies u bound id) (Meaning.fieldNeeds? u m bound id)
      Exactly := by
  induction bound generalizing d id with
  | zero => exact ⟨.fields id, rfl⟩
  | succ bound ih =>
    rw [fieldNeeds?_succ]
    refine (answers_typeDependency coherent id).bind ?_
    intro found _ e _ coherent' _ same
    cases same
    cases found with
    | none => exact .pure coherent' rfl
    | some target =>
      dsimp only
      split
      · exact .pure coherent' rfl
      · apply Answers.model
        rw [coherent'.grown.kind_eq]
        split
        · refine (ih coherent' target).map ?_
          intro further _ _ same
          cases same
          rfl
        · refine (answers_plainDependencies coherent' target).map ?_
          intro further _ _ same
          cases same
          rfl

theorem answers_dependencies (coherent : Coherent u m [] d.model) (id : NodeId) :
    Answers u m [] d (Query.dependencies u id) (Meaning.needs? u m id) Exactly := by
  have enough : m.size < d.model.size + 1 := Nat.lt_succ_of_le coherent.grown.size_le
  unfold Query.dependencies Meaning.needs?
  apply Answers.model
  rw [coherent.grown.kind_eq, ← Meaning.fieldNeeds?_eq enough]
  split
  · exact answers_fieldDependencies (d.model.size + 1) coherent id
  · exact answers_plainDependencies coherent id

end Bindery
