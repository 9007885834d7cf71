import Bindery.Proofs.Model.Coherence

/-! One law for each question: of a coherent draft it gives what the model means. -/

set_option autoImplicit false

namespace Bindery

open Ast (Cursor CursorId TranslationUnit TypeId)

variable {u : TranslationUnit} {m : Model} {busy : List NodeId} {d : Draft}

/-! ## Nodes at cursors -/

theorem Answers.nodeAt {α β : Type} {id : Option CursorId} {next : Option NodeId → Query α}
    {expected : Option β} {fits : Model → α → β → Prop} (coherent : Coherent u m busy d.model)
    (rest : Answers u m busy d (next (Meaning.nodeAt? u m id)) expected fits) :
    Answers u m busy d (Query.nodeAt u id >>= next) expected fits := by
  unfold Answers at rest ⊢
  rw [nodeAt_bind coherent]
  exact rest

theorem answers_nodeAt (coherent : Coherent u m busy d.model) (id : Option CursorId) :
    Answers u m busy d (Query.nodeAt u id) (some ((Meaning.nodeAt? u m id).map .node))
      Represents := by
  rw [← bind_pure (Query.nodeAt u id)]
  refine Answers.nodeAt coherent (.pure coherent ?_)
  cases Meaning.nodeAt? u m id with
  | none => trivial
  | some node => rfl

theorem answers_descriptor (coherent : Coherent u m busy d.model) (type : TypeId) :
    Answers u m busy d (Query.resolveDescriptor u type) (some (Meaning.ofDescriptor? u m type))
      Represents := by
  unfold Query.resolveDescriptor Meaning.ofDescriptor?
  dsimp only
  cases u.declaration? ((u.pointee? type).getD type) with
  | none => exact answers_marker coherent _
  | some declaration =>
    by_cases undeclared : ((u.cursor? declaration).map (·.kind)).getD .noDeclFound = .noDeclFound
    · simp only [undeclared, if_true]
      exact answers_marker coherent _
    · simp only [undeclared, if_false]
      apply Answers.nodeAt coherent
      cases Meaning.nodeAt? u m (u.definition? declaration) with
      | some node => exact .pure coherent rfl
      | none => exact answers_nodeAt coherent _

theorem answers_reference (coherent : Coherent u m busy d.model) (id : CursorId) :
    Answers u m busy d (Query.resolveReference u id) (some (Meaning.ofReference? u m id))
      Represents := by
  unfold Query.resolveReference Meaning.ofReference?
  apply Answers.nodeAt coherent
  cases Meaning.nodeAt? u m (u.definition? id) with
  | some node => exact .pure coherent rfl
  | none =>
    cases ((u.cursor? id).bind (·.type)).filter u.isValidType with
    | none => exact .pure coherent trivial
    | some type => exact answers_descriptor coherent type

/-! ## Remembered answers -/

/-- A question whose answers are remembered gives the meaning of its node if computing it does. -/
theorem answers_remember {id : NodeId} {compute : Query (Option NodeId)}
    (coherent : Coherent u m busy d.model) (idle : id ∉ busy)
    (computes : ∀ e : Draft, Coherent u m (id :: busy) e.model → d.model.Extends e.model →
      (m.kind id).holdsType → Answers u m (id :: busy) e compute (Meaning.ofNode? u m id) Represents) :
    Answers u m busy d (Query.remember id compute) (Meaning.ofNode? u m id) Represents := by
  have recalled := coherent.targets id idle
  unfold Query.remember
  apply Answers.model
  split
  · next answer remembered =>
    rw [remembered] at recalled
    obtain ⟨target, means, right⟩ := recalled
    rw [means]
    exact .pure coherent right
  · next going =>
    -- A coherent model remembers no answer as being worked out, unless for a busy node.
    rw [going] at recalled
    exact recalled.elim
  · split
    · next holds =>
      rw [coherent.grown.kind_eq] at holds
      have started : Coherent u m (id :: busy)
          (d.model.update id fun node => { node with resolution := .inProgress }) :=
        coherent.note (fun free => absurd List.mem_cons_self free)
          fun other _ free member => free (List.mem_cons_of_mem id member)
      have grown : d.model.Extends
          (d.model.update id fun node => { node with resolution := .inProgress }) :=
        .update _ id _ fun _ => rfl
      refine Answers.after (e := { d with model := _ }) rfl grown ?_
      rw [← Option.bind_fun_some (Meaning.ofNode? u m id)]
      refine (computes { d with model := _ } started grown holds).bind ?_
      intro answer target e means coherent' _ right
      have noted : Coherent u m busy
          (e.model.update id fun node => { node with resolution := .done answer }) :=
        coherent'.note (fun _ => ⟨target, means, right⟩) fun other apart free member =>
          (List.mem_cons.mp member).elim apart free
      have kept : e.model.Extends
          (e.model.update id fun node => { node with resolution := .done answer }) :=
        .update _ id _ fun _ => rfl
      exact Answers.after (e := { e with model := _ }) rfl kept
        (.pure noted (right.extends kept))
    · next plain =>
      rw [coherent.grown.kind_eq] at plain
      have means : Meaning.ofNode? u m id = some none := by simp [Meaning.ofNode?, plain]
      have noted : Coherent u m busy
          (d.model.update id fun node => { node with resolution := .done none }) :=
        coherent.note (fun _ => ⟨none, means, trivial⟩) fun other _ free => free
      rw [means]
      refine Answers.after (e := { d with model := _ }) rfl (.update _ id _ fun _ => rfl) ?_
      exact .pure noted trivial

/-! ## Types of nodes -/

theorem ofNode?_of_isReference {id : NodeId} (reference : (m.kind id).isReference) :
    Meaning.ofNode? u m id = some ((m.node id).occurrence.bind (Meaning.ofReference? u m)) := by
  have holds : (m.kind id).holdsType := by
    revert reference
    cases m.kind id <;> simp [NodeKind.isReference, NodeKind.holdsType]
  simp only [Meaning.ofNode?, holds, reference, if_true]
  cases (m.node id).occurrence <;> rfl

theorem answers_referenceTarget (coherent : Coherent u m busy d.model) {id : NodeId}
    (idle : id ∉ busy) (reference : (m.kind id).isReference) :
    Answers u m busy d (Query.referenceTarget u id) (Meaning.ofNode? u m id) Represents := by
  apply answers_remember coherent idle
  intro e coherent' _ _
  rw [ofNode?_of_isReference reference]
  apply Answers.model
  rw [coherent'.grown.occurrence_eq]
  cases (m.node id).occurrence with
  | none => exact .pure coherent' trivial
  | some occurrence => exact answers_reference coherent' occurrence

theorem answers_stripPointers (coherent : Coherent u m busy d.model) (type : TypeId) :
    Answers u m busy d (Query.stripPointers u type) (u.stripPointers? type) Exactly := by
  unfold Query.stripPointers
  cases u.stripPointers? type with
  | none => exact ⟨.pointers type, rfl⟩
  | some target => exact .pure coherent rfl

theorem answers_startingType (coherent : Coherent u m busy d.model) (id : NodeId)
    (occurrence : CursorId) :
    Answers u m busy d (Query.startingType u id occurrence)
      (Meaning.startingType? u m id occurrence) Exactly := by
  unfold Query.startingType Meaning.startingType?
  apply Answers.model
  dsimp only
  rw [coherent.grown.kind_eq, Meaning.firstReference?_extends coherent.grown]
  cases m.kind id with
  | param =>
    have stripped : Answers u m busy d
        (((u.cursor? occurrence).bind (·.type)).mapM (Query.stripPointers u))
        (((u.cursor? occurrence).bind (·.type)).mapM u.stripPointers?) Exactly := by
      cases (u.cursor? occurrence).bind (·.type) with
      | none => exact .pure coherent rfl
      | some type =>
        exact (answers_stripPointers coherent type).map fun _ _ _ same => congrArg some same
    exact stripped.map fun _ _ _ same => congrArg (Option.filter _) same
  | _ =>
    simp only [pure_bind]
    exact .pure coherent rfl

theorem isReference_of_getLast? {id reference : NodeId}
    (last : (m.references id).getLast? = some reference) : (m.kind reference).isReference := by
  have member := List.mem_of_getLast? last
  exact (List.mem_filter.mp member).2

theorem answers_report (coherent : Coherent u m busy d.model) (diagnostic : Diagnostic) :
    Answers u m busy d (Query.report diagnostic) (some ()) Exactly :=
  ⟨(), d.report diagnostic, rfl, coherent, .refl _, rfl⟩

theorem answers_reportUnresolved (coherent : Coherent u m busy d.model) (id : NodeId)
    (type : Option TypeId) :
    Answers u m busy d (Query.reportUnresolved u id type) (some ()) Exactly := by
  unfold Query.reportUnresolved
  apply Answers.model
  split
  · exact answers_report coherent _
  · exact .pure coherent rfl

theorem answers_fallback (coherent : Coherent u m busy d.model) (id : NodeId)
    (type : Option TypeId) :
    Answers u m busy d (Query.fallback u id type)
      (some (Meaning.fallback? u m id type)) Represents := by
  unfold Query.fallback Meaning.fallback?
  apply Answers.model
  rw [coherent.grown.kind_eq]
  split
  · exact answers_nodeAt coherent _
  · exact .pure coherent trivial

theorem answers_conclude (coherent : Coherent u m busy d.model) (id : NodeId)
    (type : Option TypeId) {found : Option NodeId} {target : Option Denoted}
    (right : Represents d.model found target) :
    Answers u m busy d (Query.conclude u id type found)
      (some (target.or (Meaning.fallback? u m id type))) Represents := by
  unfold Query.conclude
  cases found with
  | some id =>
    cases target with
    | some target => exact .pure coherent right
    | none => exact right.elim
  | none =>
    cases target with
    | some target => exact right.elim
    | none =>
      refine (answers_fallback coherent id type).bind_some ?_
      intro given e coherent' _ right'
      cases given with
      | some node => exact .pure coherent' right'
      | none =>
        refine (answers_reportUnresolved coherent' id type).bind_some ?_
        exact fun _ _ coherent'' grown _ => .pure coherent'' (right'.extends grown)

-- Resolving a node that is busy itself asks for its last reference only, which is not.
theorem answers_computeTarget {id : NodeId} (coherent : Coherent u m [id] d.model)
    (plain : (m.kind id).isReference = false) (occurrence : CursorId) :
    Answers u m [id] d (Query.computeTarget u id occurrence)
      (Meaning.ofOccurrence? u m id occurrence) Represents := by
  unfold Query.computeTarget Meaning.ofOccurrence?
  apply Answers.model
  rw [Option.map_eq_bind]
  refine (answers_startingType coherent id occurrence).bind ?_
  intro type _ e _ coherent' _ same
  cases same
  rw [Meaning.references_extends coherent.grown]
  unfold Meaning.found?
  cases last : (m.references id).getLast? with
  | some reference =>
    have refers := isReference_of_getLast? last
    -- The guard against rings is not met: a reference asks for no other node.
    have apart : reference ∉ [id] := fun member => by
      rw [List.mem_singleton.mp member, plain] at refers
      cases refers
    have asked := answers_referenceTarget coherent' apart refers
    rw [ofNode?_of_isReference refers] at asked
    exact asked.bind_some fun _ _ coherent'' _ right => answers_conclude coherent'' id type right
  | none =>
    cases type with
    | none =>
      refine .pure coherent' ?_
      simp [Meaning.fallback?, Meaning.nodeAt?, Represents]
    | some type =>
      exact (answers_descriptor coherent' type).bind_some fun _ _ coherent'' _ right =>
        answers_conclude coherent'' id (some type) right

-- The type of any node may be asked for while none is being resolved.
theorem answers_resolveType (coherent : Coherent u m [] d.model) (id : NodeId) :
    Answers u m [] d (Query.resolveType u id) (Meaning.ofNode? u m id) Represents := by
  unfold Query.resolveType
  apply Answers.model
  rw [coherent.grown.kind_eq]
  split
  · next reference => exact answers_referenceTarget coherent List.not_mem_nil reference
  · next plain =>
    apply answers_remember coherent List.not_mem_nil
    intro e coherent' _ holds
    apply Answers.model
    rw [coherent'.grown.occurrence_eq, Meaning.ofNode?]
    simp only [holds, plain, if_true]
    cases (m.node id).occurrence with
    | none => exact .pure coherent' trivial
    | some occurrence =>
      exact answers_computeTarget coherent' (Bool.eq_false_iff.mpr plain) occurrence

end Bindery
