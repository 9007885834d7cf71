import Bindery.Proofs.Standing

/-! What becomes of a cursor that its constructor declines. The constructor is asked only if the symbol
of the cursor is unknown. A cursor of a known declaration is therefore never declined: it is folded
into its node and offered, and what stands below it is visited. Where constructors agree on the
occurrences of a symbol, this makes no difference. -/

set_option autoImplicit false

namespace Bindery

open Ast (Cursor CursorId CursorTree TranslationUnit)

namespace Factory

variable (f : Factory) (u : TranslationUnit)

/-- What a factory makes of a cursor. It declines one that it makes nothing of, and one of a kind that
has no constructor. -/
def made? (id : CursorId) : Option NodeKind :=
  (u.cursor? id).bind fun c => (f.constructor? c.kind).bind fun constructor => constructor u id

/-- A factory that takes an occurrence of a symbol declines no other, unless its kind is not modeled.
The root is never declined. -/
def Steady : Prop :=
  ∀ a b c, u.Twins a b → (a = u.root ∨ (f.made? u a).isSome) → u.cursor? b = some c →
    f.isModeled c.kind → (f.made? u b).isSome

theorem steady_standard (u : TranslationUnit) : Factory.standard.Steady u := by
  intro a b c _ _ cursor modeled
  have constructors : Factory.standard.constructor? c.kind =
      (Factory.standardKind? c.kind).map Factory.always := rfl
  rw [isModeled, constructors] at modeled
  rw [made?, cursor, Option.bind_some, constructors]
  cases kind : Factory.standardKind? c.kind with
  | none => simp [kind] at modeled
  | some kind => rfl

end Factory

variable {u : TranslationUnit} {f : Factory}

/-- The symbol of a node is that of the root or of a cursor that the factory takes. -/
def Node.Taken (u : TranslationUnit) (f : Factory) (node : Node) : Prop :=
  ∀ usr, node.usr = some usr → ∃ a, u.usrOf? a = some usr ∧ (a = u.root ∨ (f.made? u a).isSome)

theorem persists_taken (u : TranslationUnit) (f : Factory) : Persists u f (Node.Taken u f) where
  blind _ := Iff.rfl
  made := by
    intro id c constructor kind cursor modeled taken usr carried
    refine ⟨id, ?_, .inr ?_⟩
    · rw [TranslationUnit.usrOf?, cursor]
      exact carried
    · simp [Factory.made?, cursor, modeled, taken]
  folded := by
    intro node later id c usr taken _ _ _ folds own carried
    have same : later.usr = node.usr := by cases folds <;> rfl
    exact taken own (same ▸ carried)

theorem taken_root (u : TranslationUnit) (f : Factory) :
    Node.Taken u f (.ofCursor .translationUnit u.root
      ((u.cursor? u.root).getD { kind := .translationUnit })) := by
  intro usr carried
  refine ⟨u.root, ?_, .inl rfl⟩
  unfold TranslationUnit.usrOf?
  cases known : u.cursor? u.root with
  | none =>
    rw [known] at carried
    cases carried
  | some c =>
    rw [known] at carried
    exact carried

theorem usr_root_opening (u : TranslationUnit) (f : Factory) :
    ((opening u f).model.node Model.root).usr = u.usrOf? u.root := by
  rw [node_opening, if_pos (show Model.root.index = 0 from rfl), TranslationUnit.usrOf?]
  cases u.cursor? u.root <;> rfl

namespace Draft

variable {d : Draft} {container : NodeId} {way : List NodeId} {id : CursorId} {c : Cursor}
  {children : List CursorTree} {made : List Offer}

theorem Hands.isSome_byUsr?_iff (hands : Hands u f (opening u f) made d) (indexed : d.model.Indexed)
    {usr : String} : (d.model.byUsr? usr).isSome ↔
      ∃ a ∈ u.root :: made.map Offer.id, u.usrOf? a = some usr := by
  have root : (d.model.node Model.root).usr = u.usrOf? u.root :=
    ((hands.lasts.kept Model.root Nat.zero_lt_one).usr).trans (usr_root_opening u f)
  constructor
  · intro known
    obtain ⟨item, found⟩ := Option.isSome_iff_exists.mp known
    have carried := (indexed usr item).mp found
    rcases hands.exists_offer (Model.index_lt_of_usr carried) with first | ⟨offer, member, rfl⟩
    · have only : item = Model.root := congrArg NodeId.mk (Nat.lt_one_iff.mp first)
      rw [only, root] at carried
      exact ⟨u.root, List.mem_cons_self, carried⟩
    · rw [hands.usr_item offer member] at carried
      exact ⟨offer.id, List.mem_cons_of_mem _ (List.mem_map_of_mem member), carried⟩
  · rintro ⟨a, member, bears⟩
    have known {item : NodeId} (carried : (d.model.node item).usr = some usr) :
        (d.model.byUsr? usr).isSome := by
      rw [(indexed usr item).mpr carried]
      rfl
    rcases List.mem_cons.mp member with rfl | offered
    · exact known (root.trans bears)
    · obtain ⟨offer, present, rfl⟩ := List.mem_map.mp offered
      exact known ((hands.usr_item offer present).trans bears)

theorem Hands.isSome_symbol_iff (hands : Hands u f (opening u f) made d) (indexed : d.model.Indexed)
    (cursor : u.cursor? id = some c) : (c.usr?.bind d.model.byUsr?).isSome ↔
      ∃ a ∈ u.root :: made.map Offer.id, u.Twins a id := by
  have bears : u.usrOf? id = c.usr? := by rw [TranslationUnit.usrOf?, cursor, Option.bind_some]
  cases symbol : c.usr? with
  | none =>
    constructor
    · intro absent
      cases absent
    · rintro ⟨a, _, named, same⟩
      rw [← same, bears, symbol] at named
      cases named
  | some usr =>
    rw [Option.bind_some, hands.isSome_byUsr?_iff indexed]
    refine exists_congr fun a => and_congr_right fun _ => ?_
    rw [TranslationUnit.Twins, bears, symbol]
    exact ⟨fun same => ⟨by rw [same]; rfl, same.symm⟩, fun twins => twins.2.symm⟩

theorem enter?_of_declined (d : Draft) (cursor : u.cursor? id = some c)
    (declined : f.made? u id = none) :
    d.enter? u f id c =
      if f.isModeled c.kind then
        (c.usr?.bind d.model.byUsr?).map fun item => (item, d.merge item id c)
      else none := by
  rw [Factory.made?, cursor, Option.bind_some] at declined
  unfold enter? Factory.isModeled
  cases listed : f.constructor? c.kind with
  | none => rfl
  | some constructor =>
    rw [listed, Option.bind_some] at declined
    cases c.usr?.bind d.model.byUsr? with
    | none => simp [declined]
    | some item => rfl

theorem skips_of_enter? (cursor : u.cursor? id = some c) (skipped : d.enter? u f id c = none) :
    offers u f container way (.node id children) d = [] ∧
      d.visit u f container way (.node id children) = d := by
  rw [offers, visit, cursor]
  simp only [skipped, and_self]

theorem skips_of_unknown (cursor : u.cursor? id = some c) (declined : f.made? u id = none)
    (unknown : f.isModeled c.kind → c.usr?.bind d.model.byUsr? = none) :
    offers u f container way (.node id children) d = [] ∧
      d.visit u f container way (.node id children) = d := by
  refine skips_of_enter? cursor ?_
  rw [d.enter?_of_declined cursor declined]
  split
  · next modeled => rw [unknown modeled, Option.map_none]
  · rfl

theorem Ahead.skips_of_steady {rest : List CursorTree} (valid : u.firstFault? = none)
    (steady : f.Steady u) (ahead : Ahead u f container way (.node id children :: rest) d)
    (cursor : u.cursor? id = some c) (declined : f.made? u id = none) :
    offers u f container way (.node id children) d = [] ∧
      d.visit u f container way (.node id children) = d := by
  obtain ⟨earlier, later, standing⟩ := ahead.exists_standing valid
  obtain ⟨_, _, stage, _, _⟩ := ahead.exists_stage
  refine skips_of_unknown cursor declined fun modeled => ?_
  -- A cursor with the symbol is taken, and the factory would have to take this one as well.
  by_contra known
  obtain ⟨item, found⟩ := Option.ne_none_iff_exists'.mp known
  obtain ⟨usr, symbol, found⟩ := Option.bind_eq_some_iff.mp found
  have carried := (stage.indexed usr item).mp found
  obtain ⟨a, same, taken⟩ := standing.begun.persist (persists_taken u f)
    (persist_opening (taken_root u f)) item (Model.index_lt_of_usr carried) usr carried
  have bears : u.usrOf? id = some usr := by rw [TranslationUnit.usrOf?, cursor]; exact symbol
  have agreed := steady a id c ⟨by rw [same]; rfl, bears.trans same.symm⟩ taken cursor modeled
  rw [declined] at agreed
  cases agreed

/-- What the standard constructors decline is always skipped, with all that stands below it. -/
theorem Ahead.skips_standard {rest : List CursorTree} (valid : u.firstFault? = none)
    (ahead : Ahead u .standard container way (.node id children :: rest) d)
    (cursor : u.cursor? id = some c) (declined : Factory.standard.made? u id = none) :
    offers u .standard container way (.node id children) d = [] ∧
      d.visit u .standard container way (.node id children) = d :=
  ahead.skips_of_steady valid (Factory.steady_standard u) cursor declined

end Draft

/-- What a build makes of a declined cursor that it comes to. -/
structure TreatsDeclined (u : TranslationUnit) (f : Factory) (container : NodeId) (way : List NodeId)
    (id : CursorId) (children : List CursorTree) (c : Cursor) (d : Draft) : Prop where
  /-- Nothing at all, if the kind has no constructor or the symbol is unknown, -/
  skipped : (f.isModeled c.kind → c.usr?.bind d.model.byUsr? = none) →
    Draft.offers u f container way (.node id children) d = [] ∧
      d.visit u f container way (.node id children) = d
  /-- and else what it makes of any other occurrence of the symbol. -/
  folded : ∀ item, f.isModeled c.kind → c.usr?.bind d.model.byUsr? = some item →
    Draft.offers u f container way (.node id children) d =
      ⟨container, id, c, item, d.merge item id c⟩ ::
        if item ∈ way then []
        else Draft.offersAll u f item (item :: way) children
          ((d.merge item id c).accept u container item c)
  /-- A symbol is known if the root or a cursor offered before bears it. -/
  known : ∃ earlier later, Draft.Hands u f (opening u f) earlier d ∧
    buildOffers u f =
      earlier ++ Draft.offers u f container way (.node id children) d ++ later ∧
    ((c.usr?.bind d.model.byUsr?).isSome ↔
      ∃ a ∈ u.root :: earlier.map Offer.id, u.Twins a id)
  /-- That never happens where the factory agrees on the occurrences of each symbol. -/
  steady : f.Steady u → d.visit u f container way (.node id children) = d

/-- In a unit without faults, whatever the factory, a build that comes to a declined cursor skips it
with all that is below it, unless the cursor bears the symbol of a declaration met before. It is then
folded into the node of that declaration and offered like any other occurrence. -/
theorem declined_treated (valid : u.firstFault? = none) {container : NodeId} {way : List NodeId}
    {id : CursorId} {children rest : List CursorTree} {d : Draft}
    (ahead : Draft.Ahead u f container way (.node id children :: rest) d) {c : Cursor}
    (cursor : u.cursor? id = some c) (declined : f.made? u id = none) :
    TreatsDeclined u f container way id children c d := by
  obtain ⟨earlier, later, standing⟩ := ahead.exists_standing valid
  obtain ⟨_, _, stage, _, _⟩ := ahead.exists_stage
  refine ⟨Draft.skips_of_unknown cursor declined, ?_, ?_,
    fun steady => (ahead.skips_of_steady valid steady cursor declined).2⟩
  · intro item modeled found
    have entered := d.enter?_of_declined cursor declined
    rw [if_pos modeled, found, Option.map_some] at entered
    rw [Draft.offers, cursor]
    simp only [entered]
  · refine ⟨earlier, Draft.offersAll u f container way rest
      (d.visit u f container way (.node id children)) ++ later, standing.begun, ?_,
      standing.begun.isSome_symbol_iff stage.indexed cursor⟩
    rw [standing.offers, Draft.offersAll]
    simp only [List.append_assoc]

/-- `class Loft;`, `class Loft {};`, and `class Loft;` once more. -/
def loft : TranslationUnit where
  path := "loft.h"
  root := ⟨0⟩
  cursors := #[
    { kind := .translationUnit, spelling := "loft.h", children := [⟨1⟩, ⟨2⟩, ⟨3⟩] },
    { kind := .classDecl, spelling := "Loft", usr := some "c:Loft", semanticParent := some ⟨0⟩,
      lexicalParent := some ⟨0⟩, location := ⟨some "loft.h", 1, 7⟩, definition := some ⟨2⟩ },
    { kind := .classDecl, spelling := "Loft", usr := some "c:Loft", semanticParent := some ⟨0⟩,
      lexicalParent := some ⟨0⟩, location := ⟨some "loft.h", 2, 7⟩, definition := some ⟨2⟩,
      flags := { isDefinition := true } },
    { kind := .classDecl, spelling := "Loft", usr := some "c:Loft", semanticParent := some ⟨0⟩,
      lexicalParent := some ⟨0⟩, location := ⟨some "loft.h", 3, 7⟩, definition := some ⟨2⟩ }]

/-- Takes classes that are defined, and declines those that are declared only. -/
def Factory.definedClasses : Factory :=
  Factory.standard.register .classDecl fun u id =>
    if ((u.cursor? id).map (·.flags.isDefinition)).getD false then some (.record .classRecord)
    else none

/-- The first declaration is skipped, for nothing is known of its class yet. -/
theorem declined_treated_loft :
    loft.firstFault? = none ∧ Factory.definedClasses.made? loft ⟨1⟩ = none ∧
      (opening loft .definedClasses).visit loft .definedClasses Model.root [Model.root]
        (.node ⟨1⟩ []) = opening loft .definedClasses := by
  have valid : loft.firstFault? = none := by decide +kernel
  have declined : Factory.definedClasses.made? loft ⟨1⟩ = none := by decide
  have cursor : loft.cursor? ⟨1⟩ = some loft.cursors[1] := rfl
  have first : Draft.Ahead loft .definedClasses Model.root [Model.root]
      [.node ⟨1⟩ [], .node ⟨2⟩ [], .node ⟨3⟩ []] (opening loft .definedClasses) := .root
  refine ⟨valid, declined, ((declined_treated valid first cursor declined).skipped ?_).2⟩
  exact fun _ => by decide +kernel

/-- The last declaration is declined as well, and the class leaves its definition for it all the
same. -/
theorem loft_follows_declined :
    loft.firstFault? = none ∧ Factory.definedClasses.made? loft ⟨3⟩ = none ∧
      ∃ d, Draft.Ahead loft .definedClasses Model.root [Model.root] [.node ⟨3⟩ []] d ∧
        (d.model.node ⟨1⟩).occurrence = some ⟨2⟩ ∧ (d.model.node ⟨1⟩).flags.isDefinition ∧
        let e := d.visit loft .definedClasses Model.root [Model.root] (.node ⟨3⟩ [])
        (e.model.node ⟨1⟩).occurrence = some ⟨3⟩ ∧
          (e.model.node ⟨1⟩).location = ⟨some "loft.h", 3, 7⟩ ∧
          ¬ (e.model.node ⟨1⟩).flags.isDefinition := by
  have valid : loft.firstFault? = none := by decide +kernel
  have declined : Factory.definedClasses.made? loft ⟨3⟩ = none := by decide
  have first : Draft.Ahead loft .definedClasses Model.root [Model.root]
      [.node ⟨1⟩ [], .node ⟨2⟩ [], .node ⟨3⟩ []] (opening loft .definedClasses) := .root
  exact ⟨valid, declined, _, first.next.next, by decide +kernel, by decide +kernel,
    by decide +kernel, by decide +kernel, by decide +kernel⟩

end Bindery
