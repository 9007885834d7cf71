import Bindery.Binding.Outline
import Bindery.Proofs.Binding.Plan
import Bindery.Proofs.Text.Lines

/-! What an outline shows of a plan. There is one line for every entity and every member, in the order of
the plan, and a line that names what is missing belongs to a binding that is disabled. The number sign
that says so stands on the lines of the members of records, and never on that of a free function. -/

set_option autoImplicit false

namespace Bindery.Binding

open Ast (TranslationUnit)
open Project (EmitConfig)

def Member.texts (member : Member) : List String :=
  member.name :: member.signature :: member.returnPolicy.toList

def Item.texts : Item → List String
  | .record item =>
    (Item.record item).members.flatMap Member.texts ++ item.addonMethods.map Prod.fst
  | .enumeration item => item.constants
  | .function member => member.texts

def Entry.texts (entry : Entry) : List String := entry.fullName :: entry.item.texts

/-- The names, signatures and policies that the entries of a plan bring along. -/
def Plan.texts (plan : Plan) : List String := plan.entries.flatMap Entry.texts

namespace Outline

/-- What a line is about. -/
inductive Subject where
  | heading (entry : Entry)
  | member (role : Role) (member : Member)
  | addon (name : String)
  | constant (name : String)
  | function (entry : Entry) (member : Member)

/-- The binding that a line is about, if it is about one. -/
def Subject.binding? : Subject → Option Member
  | .member _ shown | .function _ shown => some shown
  | _ => none

/-- The subjects under an entry, in the order of their lines. -/
def subjects (entry : Entry) : List Subject :=
  match entry.item with
  | .record item =>
    .heading entry :: item.constructors.map (.member .constructor) ++
      item.fields.map (.member .field) ++ item.methods.map (.member .method) ++
      item.addonMethods.map fun addon => .addon addon.1
  | .enumeration item => .heading entry :: item.constants.map .constant
  | .function member => [.function entry member]

/-- A number sign stands in front of what the line declares. -/
def Marked (line : String) : Prop := ['#', ' '] <+: line.toList.dropWhile (· = ' ')

instance (line : String) : Decidable (Marked line) :=
  inferInstanceAs (Decidable (['#', ' '] <+: line.toList.dropWhile (· = ' ')))

variable (m : Model)

def functionLine (entry : Entry) (member : Member) : String :=
  s!"function {entry.fullName}" ++ remarks m member

/-- A line ends with the qualified names of what is missing, in their order. -/
def Misses (missing : List NodeId) (line : String) : Prop :=
  ∃ declaration, line =
    declaration ++ " [needs " ++ ", ".intercalate (missing.map m.fullName) ++ "]"

/-- A line shows its subject. Headings stand at the margin. -/
inductive Shows : Subject → String → Prop where
  | heading (entry : Entry) {line : String} (margin : line.toList.head? ≠ some ' ') :
    Shows (.heading entry) line
  | member (role : Role) (member : Member) : Shows (.member role member) (memberLine m role member)
  | addon (name : String) : Shows (.addon name) ("  addon " ++ name)
  | constant (name : String) : Shows (.constant name) ("  " ++ name)
  | function (entry : Entry) (member : Member) :
    Shows (.function entry member) (functionLine m entry member)

/-- The lines of bindings are marked if something is missing, and only then. -/
def MarksDisabled (plan : Plan) : Prop :=
  ∀ subject ∈ plan.entries.flatMap subjects, ∀ member, subject.binding? = some member →
    ∀ line, Shows m subject line → (Marked line ↔ member.missing ≠ [])

/-- What the outline says before it comes to the entries. -/
def preamble (plan : Plan) : List String :=
  s!"module {plan.moduleName}" :: plan.prolog.map fun fragment => s!"| {Text.trimEnd fragment}"

variable {m}

/-! ## Marks -/

theorem marked_memberLine_iff (role : Role) (member : Member) :
    Marked (memberLine m role member) ↔ member.missing ≠ [] := by
  cases missing : member.missing with
  | nil =>
    cases static : member.isStatic <;> cases role <;>
      simp [Marked, memberLine, Member.isSkipped, missing, static, Role.heading, toString]
  | cons id rest => simp [Marked, memberLine, Member.isSkipped, missing]

theorem not_marked_functionLine (entry : Entry) (member : Member) :
    ¬ Marked (functionLine m entry member) := by
  simp [Marked, functionLine, toString]

theorem misses_remarks {member : Member} (missing : member.missing ≠ []) (before : String) :
    Misses m member.missing (before ++ remarks m member) := by
  have some : member.missing.isEmpty = false := by simpa using missing
  refine ⟨before ++ remarks m { member with missing := [] }, ?_⟩
  simp [remarks, some, commaSeparated, String.append_assoc, toString]

/-! ## Lines and their subjects -/

theorem exists_heading (entry : Entry) (item : RecordItem) :
    ∃ heading, Shows m (.heading entry) heading ∧
      recordLines m entry item = heading ::
        (item.constructors.map (memberLine m .constructor) ++
          item.fields.map (memberLine m .field) ++ item.methods.map (memberLine m .method) ++
          item.addonMethods.map fun addon => "  addon " ++ addon.1) := by
  refine ⟨_, .heading entry ?_, rfl⟩
  cases item.isAbstract with
  | true => simp [toString]
  | false =>
    cases m.kind entry.node with
    | record kind => cases kind <;> simp [NodeKind.label, toString]
    | callable kind => cases kind <;> simp [NodeKind.label, toString]
    | _ => simp [NodeKind.label, toString]

theorem shows_map {α : Type} {subject : α → Subject} {line : α → String}
    (shows_ : ∀ item, Shows m (subject item) (line item)) (items : List α) :
    List.Forall₂ (Shows m) (items.map subject) (items.map line) := by
  induction items with
  | nil => exact .nil
  | cons item items ih => exact .cons (shows_ item) ih

/-- The lines under an entry show its subjects, one each. -/
theorem shows_entryLines (entry : Entry) :
    List.Forall₂ (Shows m) (subjects entry) (entryLines m entry) := by
  unfold subjects entryLines
  cases entry.item with
  | record item =>
    obtain ⟨heading, shown, lines⟩ := exists_heading (m := m) entry item
    have members := List.rel_append
      (List.rel_append (shows_map (Shows.member (m := m) .constructor) item.constructors)
        (shows_map (.member .field) item.fields))
      (shows_map (.member .method) item.methods)
    dsimp only
    rw [lines]
    have addons := shows_map (fun addon : String × String => Shows.addon (m := m) addon.1)
      item.addonMethods
    exact .cons shown (List.rel_append members addons)
  | enumeration item =>
    refine .cons (.heading entry ?_) (shows_map .constant item.constants)
    simp [toString]
  | function member => exact .cons (.function entry member) .nil

theorem shows_entries (entries : List Entry) :
    List.Forall₂ (Shows m) (entries.flatMap subjects) (entries.flatMap (entryLines m)) := by
  induction entries with
  | nil => exact .nil
  | cons entry entries ih => exact List.rel_append (shows_entryLines entry) ih

/-! ## Line breaks -/

theorem exists_of_mem_ownerNames {name : String} {bound : Nat} {met : List NodeId}
    {start : Option NodeId} (listed : name ∈ m.ownerNames bound met start) :
    ∃ id, name = m.name id := by
  induction bound generalizing met start with
  | zero => cases listed
  | succ bound ih =>
    cases start with
    | none => cases listed
    | some owner =>
      rw [Model.ownerNames] at listed
      split at listed
      · cases listed
      · rcases List.mem_cons.mp listed with rfl | above
        · exact ⟨owner, rfl⟩
        · exact ih above

section

open Text (Unbroken)

variable (named : ∀ id ∈ m.ids, Unbroken (m.name id))

include named

theorem unbroken_fullName (id : NodeId) : Unbroken (m.fullName id) := by
  have anywhere (id : NodeId) : Unbroken (m.name id) := by
    by_cases inside : id.index < m.size
    · exact named id (Model.mem_ids.mpr inside)
    · rw [Model.name, Model.node_of_size_le (Nat.le_of_not_lt inside)]
      exact List.not_mem_nil
  refine Unbroken.intercalate (fun name listed => ?_) (by decide)
  rcases List.mem_cons.mp (List.mem_reverse.mp listed) with rfl | above
  · exact anywhere id
  · obtain ⟨owner, rfl⟩ := exists_of_mem_ownerNames above
    exact anywhere owner

theorem unbroken_commaSeparated (ids : List NodeId) : Unbroken (commaSeparated m ids) := by
  refine Unbroken.intercalate (fun name listed => ?_) (by decide)
  obtain ⟨id, _, rfl⟩ := List.mem_map.mp listed
  exact unbroken_fullName named id

theorem unbroken_remarks {member : Member} (plain : ∀ text ∈ member.texts, Unbroken text) :
    Unbroken (remarks m member) := by
  unfold Member.texts at plain
  have signature : Unbroken member.signature := plain _ (by simp)
  refine ((((Unbroken.append ?_ ?_).append ?_).append ?_).append ?_)
  · split
    · exact .append (.append (by decide) signature) (by decide)
    · decide
  · split <;> decide
  · split
    · next policy given =>
      have single : Unbroken policy := plain _ (by simp [given])
      exact .append (.append (by decide) single) (by decide)
    · decide
  · split <;> decide
  · split
    · decide
    · exact .append (.append (by decide) (unbroken_commaSeparated named _)) (by decide)

theorem unbroken_memberLine (role : Role) {member : Member}
    (plain : ∀ text ∈ member.texts, Unbroken text) : Unbroken (memberLine m role member) := by
  have name : Unbroken member.name := plain _ List.mem_cons_self
  refine (Unbroken.append (.append ?_ ?_) ?_).append (unbroken_remarks named plain)
  · split <;> decide
  · split <;> decide
  · cases role with
    | constructor =>
      change Unbroken "init"
      decide
    | field => exact .append (by decide) name
    | method => exact .append (by decide) name

theorem unbroken_recordLines {entry : Entry} {item : RecordItem}
    (fullName : Unbroken entry.fullName)
    (plain : ∀ text ∈ (Item.record item).texts, Unbroken text) :
    ∀ line ∈ recordLines m entry item, Unbroken line := by
  have lines (role : Role) {members : List Member}
      (inside : ∀ member ∈ members, member ∈ (Item.record item).members) :
      ∀ line ∈ members.map (memberLine m role), Unbroken line := by
    intro line listed
    obtain ⟨member, given, rfl⟩ := List.mem_map.mp listed
    exact unbroken_memberLine named role fun text part => plain text
      (List.mem_append_left _ (List.mem_flatMap.mpr ⟨member, inside member given, part⟩))
  have label : Unbroken (m.kind entry.node).label := by
    cases m.kind entry.node with
    | record kind => cases kind <;> decide
    | callable kind => cases kind <;> decide
    | _ => decide
  intro line listed
  simp only [recordLines, List.cons_append, List.append_assoc, List.mem_cons, List.mem_append]
    at listed
  rcases listed with rfl | constructor | field | method | addon
  · refine .append (.append ?_ (.append (.append label (by decide)) fullName)) ?_
    · split <;> decide
    · split
      · decide
      · exact .append (by decide) (unbroken_commaSeparated named _)
  · exact lines .constructor (fun member given => by simp [Item.members, given]) line constructor
  · exact lines .field (fun member given => by simp [Item.members, given]) line field
  · exact lines .method (fun member given => by simp [Item.members, given]) line method
  · obtain ⟨added, given, rfl⟩ := List.mem_map.mp addon
    exact .append (by decide)
      (plain _ (List.mem_append_right _ (List.mem_map_of_mem given)))

/-- No line under an entry goes on over a line break. -/
theorem unbroken_entryLines {entry : Entry} (plain : ∀ text ∈ entry.texts, Unbroken text) :
    ∀ line ∈ entryLines m entry, Unbroken line := by
  have fullName : Unbroken entry.fullName := plain _ List.mem_cons_self
  have others : ∀ text ∈ entry.item.texts, Unbroken text := fun text listed =>
    plain text (List.mem_cons_of_mem _ listed)
  unfold entryLines
  cases planned : entry.item with
  | record item =>
    rw [planned] at others
    exact unbroken_recordLines named fullName others
  | enumeration item =>
    rw [planned] at others
    refine List.forall_mem_cons.mpr ⟨.append (.append (by decide) ?_) ?_, ?_⟩
    · split
      · decide
      · exact fullName
    · split <;> decide
    · intro line listed
      obtain ⟨constant, given, rfl⟩ := List.mem_map.mp listed
      exact .append (by decide) (others constant given)
  | function member =>
    rw [planned] at others
    intro line listed
    rw [List.mem_singleton.mp listed]
    exact .append (.append (by decide) fullName) (unbroken_remarks named others)

end

/-! ## The outline of a plan -/

theorem function_mem_subjects_iff {entry other : Entry} {member : Member} :
    .function other member ∈ subjects entry ↔ other = entry ∧ entry.item = .function member := by
  unfold subjects
  cases entry.item <;> simp [eq_comm]

theorem lines_text (m : Model) (plan : Plan) (named : ∀ id ∈ m.ids, Text.Unbroken (m.name id))
    (plain : ∀ text ∈ plan.texts, Text.Unbroken text) :
    Text.lines (text m plan) =
      (preamble plan).flatMap Text.lines ++ plan.entries.flatMap (entryLines m) ++ [""] := by
  have whole : lines m plan = preamble plan ++ plan.entries.flatMap (entryLines m) := rfl
  have unbroken : ∀ line ∈ plan.entries.flatMap (entryLines m), Text.Unbroken line := by
    intro line listed
    obtain ⟨entry, given, shown⟩ := List.mem_flatMap.mp listed
    exact unbroken_entryLines named
      (fun text part => plain text (List.mem_flatMap.mpr ⟨entry, given, part⟩)) line shown
  rw [text, Text.lines_join, whole, List.flatMap_append, Text.flatMap_lines unbroken]

/-- Only the lines of free functions can lack a mark that they ought to have. -/
theorem marksDisabled_iff (m : Model) (plan : Plan) :
    MarksDisabled m plan ↔
      ∀ entry ∈ plan.entries, ∀ member, entry.item = .function member → member.missing = [] := by
  constructor
  · intro marks entry given member planned
    have listed : .function entry member ∈ plan.entries.flatMap subjects :=
      List.mem_flatMap.mpr ⟨entry, given, function_mem_subjects_iff.mpr ⟨rfl, planned⟩⟩
    by_contra missing
    exact not_marked_functionLine entry member
      ((marks _ listed member rfl _ (.function entry member)).mpr missing)
  · intro complete subject listed member binds line shows_
    cases shows_ with
    | heading | addon | constant => cases binds
    | member role shown =>
      cases binds
      exact marked_memberLine_iff role member
    | function entry shown =>
      cases binds
      obtain ⟨other, given, part⟩ := List.mem_flatMap.mp listed
      obtain ⟨rfl, planned⟩ := function_mem_subjects_iff.mp part
      have unmarked := not_marked_functionLine (m := m) entry member
      simp [unmarked, complete entry given member planned]

/-- Where no name, signature or policy breaks a line, an outline has one line for each entity and each
of its constructors, fields, methods and added methods, in this order and in the order of the plan. A
line of a binding that misses something ends with the names of what is missing. The line of a member is
marked exactly if something is missing and that of a free function never, so that an outline marks the
disabled bindings exactly if no free function misses anything. -/
theorem outline_marks_iff (m : Model) (plan : Plan)
    (named : ∀ id ∈ m.ids, Text.Unbroken (m.name id))
    (plain : ∀ text ∈ plan.texts, Text.Unbroken text) :
    (∃ body, Text.lines (text m plan) = (preamble plan).flatMap Text.lines ++ body ++ [""] ∧
      List.Forall₂ (Shows m) (plan.entries.flatMap subjects) body) ∧
    (∀ role member,
      (Marked (memberLine m role member) ↔ member.missing ≠ []) ∧
      (member.missing ≠ [] → Misses m member.missing (memberLine m role member))) ∧
    (∀ entry member, ¬ Marked (functionLine m entry member) ∧
      (member.missing ≠ [] → Misses m member.missing (functionLine m entry member))) ∧
    (MarksDisabled m plan ↔
      ∀ entry ∈ plan.entries, ∀ member, entry.item = .function member → member.missing = []) :=
  ⟨⟨_, lines_text m plan named plain, shows_entries plan.entries⟩,
    fun role member => ⟨marked_memberLine_iff role member, fun missing => misses_remarks missing _⟩,
    fun entry member =>
      ⟨not_marked_functionLine entry member, fun missing => misses_remarks missing _⟩,
    marksDisabled_iff m plan⟩

/-- `struct Cargo {}; struct Ferry { Cargo hold; }; void load(Cargo freight);` -/
def ferry : TranslationUnit where
  path := "ferry.h"
  root := ⟨0⟩
  cursors := #[
    { kind := .translationUnit, spelling := "ferry.h", children := [⟨1⟩, ⟨2⟩, ⟨4⟩] },
    { kind := .structDecl, spelling := "Cargo", usr := some "c:Cargo", semanticParent := some ⟨0⟩,
      lexicalParent := some ⟨0⟩ },
    { kind := .structDecl, spelling := "Ferry", usr := some "c:Ferry", semanticParent := some ⟨0⟩,
      lexicalParent := some ⟨0⟩, children := [⟨3⟩] },
    { kind := .fieldDecl, spelling := "hold", usr := some "c:hold", semanticParent := some ⟨2⟩,
      lexicalParent := some ⟨2⟩, access := .publicMember, type := some ⟨0⟩ },
    { kind := .functionDecl, spelling := "load", displayName := some "load(Cargo)",
      usr := some "c:load", semanticParent := some ⟨0⟩, lexicalParent := some ⟨0⟩,
      children := [⟨5⟩] },
    { kind := .parmDecl, spelling := "freight", semanticParent := some ⟨4⟩,
      lexicalParent := some ⟨4⟩, type := some ⟨0⟩ }]
  types := #[{ kind := .record, spelling := "Cargo", declaration := some ⟨1⟩ }]

/-- Cargo is not to be bound. -/
def ferryPolicy : Policy := { config := { exclude := ["Cargo"] } }

def ferryDraft : Draft := (Session.start ferry).build.draft

theorem planned_ferry :
    ∃ plan e, Plan.ofRoots ferry ferryPolicy {} [⟨2⟩, ⟨4⟩] ferryDraft = .ok (.ok plan, e) ∧
      (∀ id ∈ e.model.ids, Text.Unbroken (e.model.name id)) ∧
      (∀ text ∈ plan.texts, Text.Unbroken text) ∧
      text e.model plan = "module bindings\nfunction load(Cargo) [needs Cargo]\n" ++
        "struct Ferry\n  # field hold [needs Cargo]\n" ∧
      ∃ entry ∈ plan.entries, ∃ member ∈ entry.item.members,
        entry.item = .function member ∧ member.missing = [⟨1⟩] := by
  have computed : (Plan.ofRoots ferry ferryPolicy {} [⟨2⟩, ⟨4⟩] ferryDraft).toOption.any
      fun ended => ended.1.toOption.any fun plan =>
        (∀ id ∈ ended.2.model.ids, Text.Unbroken (ended.2.model.name id)) ∧
        (∀ text ∈ plan.texts, Text.Unbroken text) ∧
        text ended.2.model plan = "module bindings\nfunction load(Cargo) [needs Cargo]\n" ++
          "struct Ferry\n  # field hold [needs Cargo]\n" ∧
        ∃ entry ∈ plan.entries, ∃ member ∈ entry.item.members,
          entry.item = .function member ∧ member.missing = [⟨1⟩] := by
    decide +kernel
  obtain ⟨outcome, e, ran, computed⟩ := Query.exists_of_any computed
  cases outcome with
  | error => cases computed
  | ok plan => exact ⟨plan, e, ran, of_decide_eq_true computed⟩

theorem outline_marks_iff_ferry :
    ∃ plan e, Plan.ofRoots ferry ferryPolicy {} [⟨2⟩, ⟨4⟩] ferryDraft = .ok (.ok plan, e) ∧
      (∀ id ∈ e.model.ids, Text.Unbroken (e.model.name id)) ∧
      (∀ text ∈ plan.texts, Text.Unbroken text) ∧
      ∃ body, Text.lines (text e.model plan) =
          (preamble plan).flatMap Text.lines ++ body ++ [""] ∧
        List.Forall₂ (Shows e.model) (plan.entries.flatMap subjects) body ∧
        ¬ MarksDisabled e.model plan := by
  obtain ⟨plan, e, ran, named, plain, _, entry, given, member, _, planned, missing⟩ := planned_ferry
  obtain ⟨⟨body, lines, shown⟩, _, _, marks_iff⟩ := outline_marks_iff e.model plan named plain
  refine ⟨plan, e, ran, named, plain, body, lines, shown, fun marks => ?_⟩
  rw [marks_iff.mp marks entry given member planned] at missing
  cases missing

/-- Loading the ferry misses what its hold misses. The line of the hold is marked, and that of the free
function ends with the same name and is not. -/
theorem ferry_load_unmarked :
    ∃ plan e, Plan.ofRoots ferry ferryPolicy {} [⟨2⟩, ⟨4⟩] ferryDraft = .ok (.ok plan, e) ∧
      (∀ id ∈ e.model.ids, Text.Unbroken (e.model.name id)) ∧
      (∀ text ∈ plan.texts, Text.Unbroken text) ∧
      Text.lines (text e.model plan) =
        ["module bindings", "function load(Cargo) [needs Cargo]", "struct Ferry",
          "  # field hold [needs Cargo]", ""] ∧
      ¬ Marked "function load(Cargo) [needs Cargo]" ∧ ¬ MarksDisabled e.model plan := by
  obtain ⟨plan, e, ran, named, plain, shown, entry, given, member, _, planned, missing⟩ :=
    planned_ferry
  refine ⟨plan, e, ran, named, plain, ?_, by decide +kernel, fun marks => ?_⟩
  · rw [shown]
    decide +kernel
  · rw [(marksDisabled_iff e.model plan).mp marks entry given member planned] at missing
    cases missing

end Outline

end Bindery.Binding
