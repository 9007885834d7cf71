import Bindery.Proofs.Ast.Dump
import Bindery.Proofs.Binding.Composition
import Bindery.Proofs.Command.Output
import Bindery.Proofs.History
import Bindery.Proofs.Model.Recording

/-! What a plan reports. Conditions met by the build are reported when the unit is built, and unknown
roots and refused entities when they come up. What the resolver meets on the way stays with the
session and is never reported. -/

set_option autoImplicit false

namespace Bindery

open Ast (TranslationUnit)
open Binding (BindError Closure Plan Policy VetoNotice)
open Project (Config)

/-! ## Codes -/

/-- The codes of the conditions that only questions meet. -/
def lateCodes : List String :=
  ["hydra_dom::unresolved_type", "hydra_dom::unresolved_base", "hydra_dom::self_base"]

theorem Diagnostic.code_mem_lateCodes_iff (found : Diagnostic) :
    found.report.code ∈ lateCodes ↔ found.isLate := by
  cases found <;> simp only [report, lateCodes, isLate] <;> decide

theorem Binding.BindError.code_notMem_lateCodes (error : BindError) :
    error.report.code ∉ lateCodes := by
  cases error with
  | dependencyCycle names =>
    change "hydra_bind::dependency_cycle" ∉ lateCodes
    decide
  | unknownRoot name reason =>
    change "hydra_bind::unknown_root" ∉ lateCodes
    decide

theorem Binding.VetoNotice.code_notMem_lateCodes (notice : VetoNotice) :
    notice.report.code ∉ lateCodes := by
  change "hydra_bind::vetoed" ∉ lateCodes
  decide

/-! ## Roots -/

namespace Binding

/-- The error for a root that is not found. -/
def unknownRoot? (m : Model) (name : String) : Option BindError :=
  match resolveRoot m name with
  | .ok _ => none
  | .error error => some error

/-- There is one error for every name that is no root. -/
theorem snd_resolveRoots (m : Model) (names : List String) :
    (resolveRoots m names).2 = names.filterMap (unknownRoot? m) := by
  induction names using List.reverseRecOn with
  | nil => rfl
  | append_singleton rest name ih =>
    rw [List.filterMap_append, ← ih]
    simp only [resolveRoots, List.foldl_append, List.foldl_cons, List.foldl_nil,
      List.filterMap_cons, List.filterMap_nil, unknownRoot?]
    cases resolveRoot m name <;> simp

theorem unknownRoot?_extends {m n : Model} (grown : m.Extends n) :
    unknownRoot? n = unknownRoot? m := by
  have kinds : n.kind = m.kind := funext grown.kind_eq
  funext name
  simp only [unknownRoot?, resolveRoot, grown.lookup_eq, kinds]

end Binding

/-! ## Stages -/

/-- A plan that succeeds for a unit just built, stage by stage, with the draft that each stage leaves
to the next. -/
structure Planning (config : Config) (names : List String) (u : TranslationUnit) where
  policy : Policy
  detected : Nat
  cast : Draft
  closure : Closure
  closed : Draft
  order : List NodeId
  ordered : Draft
  plan : Plan
  ended : Draft
  casts : Policy.detectCasters { config := config.policy } u (freshDraft u .standard) =
    .ok ((policy, detected), cast)
  closes : Binding.closure u policy (Binding.resolveRoots cast.model names).1.toList cast =
    .ok (closure, closed)
  orders : Binding.order u closure closed = .ok (.ok order, ordered)
  plans : Plan.ofOrder u policy config.emit order ordered = .ok (plan, ended)

namespace Planning

variable {config : Config} {names : List String} {u : TranslationUnit}
  (planning : Planning config names u)

/-- One report for every name that is no root, and one for every entity that is refused. -/
def owed : List Report :=
  (names.filterMap (Binding.unknownRoot? (freshDraft u .standard).model)).map BindError.report ++
    (planning.closure.notices planning.closed.model).map VetoNotice.report

theorem grows_cast : (freshDraft u .standard).Grows planning.cast :=
  Query.pervades_grows.resolving u |>.detectCasters _ _ _ _ planning.casts

theorem grows : (freshDraft u .standard).Grows planning.ended := by
  have asks := Query.pervades_grows.resolving u
  have closed := asks.closure _ _ _ _ _ planning.closes
  have ordered := asks.order _ _ _ _ planning.orders
  have planned := asks.ofOrder _ _ _ _ _ _ planning.plans
  exact ((planning.grows_cast.trans closed).trans ordered).trans planned

/-- The conditions that the build met, and then what the plan owes. -/
def reports : List Report :=
  (freshDraft u .standard).diagnostics.map Diagnostic.report ++ planning.owed

theorem early {found : Diagnostic} (member : found ∈ (freshDraft u .standard).diagnostics) :
    found.isLate = false :=
  early_build u .standard _ (runs_build u .standard).final_mem found member

/-- What the build recorded is what is recorded at the end, without what questions met. -/
theorem filter_ended :
    planning.ended.diagnostics.filter (fun found => !found.isLate) =
      (freshDraft u .standard).diagnostics := by
  obtain ⟨late, recorded, asked⟩ := planning.grows.recorded
  rw [recorded, List.filter_append, List.filter_eq_self.mpr fun found member => ?_,
    List.filter_eq_nil_iff.mpr fun found member => ?_, List.append_nil]
  · simp [asked found member]
  · simp [early member]

/-- No report is of a condition met by a question. -/
theorem code_notMem_lateCodes {report : Report} (reported : report ∈ planning.reports) :
    report.code ∉ lateCodes := by
  rcases List.mem_append.mp reported with built | owes
  · obtain ⟨found, member, rfl⟩ := List.mem_map.mp built
    simp [found.code_mem_lateCodes_iff, early member]
  · rcases List.mem_append.mp owes with unknown | refused
    · obtain ⟨error, _, rfl⟩ := List.mem_map.mp unknown
      exact error.code_notMem_lateCodes
    · obtain ⟨notice, _, rfl⟩ := List.mem_map.mp refused
      exact notice.code_notMem_lateCodes

/-- A condition recorded at the end is reported if and only if the build met it. -/
theorem mem_reports_iff {found : Diagnostic} (member : found ∈ planning.ended.diagnostics) :
    found.report ∈ planning.reports ↔ found.isLate = false := by
  constructor
  · intro reported
    have code := planning.code_notMem_lateCodes reported
    simpa [found.code_mem_lateCodes_iff] using code
  · intro early
    refine List.mem_append_left _ (List.mem_map_of_mem ?_)
    rw [← planning.filter_ended]
    exact List.mem_filter.mpr ⟨member, by simp [early]⟩

/-- Everything recorded at the end is reported once, exactly if questions met nothing. -/
theorem perm_reports_iff :
    planning.reports.Perm (planning.ended.diagnostics.map Diagnostic.report ++ planning.owed) ↔
      ∀ found ∈ planning.ended.diagnostics, found.isLate = false := by
  rw [reports, ← planning.filter_ended, List.perm_append_right_iff]
  constructor
  · intro same
    have lengths := same.length_eq
    rw [List.length_map, List.length_map, List.length_filter_eq_length_iff] at lengths
    simpa using lengths
  · intro early
    rw [List.filter_eq_self.mpr fun found member => by simp [early found member]]

end Planning

namespace Command

theorem Planner.ask_bind {α β : Type} (question : Query α) (next : α → Planner β) (d : Draft)
    (before : List Report) :
    (ask question >>= next : Planner β) d before =
      match question d with
      | .error search => (.error (.endless search), before)
      | .ok (found, asked) => next found asked before := by
  change (ExceptT.bind (ask question d) fun answer => next answer.1 answer.2) before = _
  unfold ask
  cases question d <;> rfl

theorem Planner.report_bind {β : Type} (found : List Report) (next : Unit → Planner β) (d : Draft)
    (before : List Report) :
    (report found >>= next : Planner β) d before = next () d (before ++ found) := rfl

/-- Asking reports nothing. -/
theorem Planner.snd_ask_bind {α β : Type} {question : Query α} {next : α → Planner β}
    {before : List Report} (quiet : ∀ found asked, (next found asked before).2 = before) (d : Draft) :
    ((ask question >>= next : Planner β) d before).2 = before := by
  rw [ask_bind]
  cases question d with
  | error search => rfl
  | ok answer => exact quiet answer.1 answer.2

/-- What is asked in a plan that succeeds has an answer, and reports are left as they are. -/
theorem Planner.exists_of_ask {α β : Type} {question : Query α} {next : α → Planner β} {d e : Draft}
    {before after : List Report} {answer : β}
    (planned : (ask question >>= next : Planner β) d before = (.ok (answer, e), after)) :
    ∃ found asked, question d = .ok (found, asked) ∧
      next found asked before = (.ok (answer, e), after) := by
  rw [ask_bind] at planned
  split at planned
  · cases planned
  · next found asked answered => exact ⟨found, asked, answered, planned⟩

section
variable {config : Config} {roots : List String} {u : TranslationUnit}

theorem snd_resolveRoots_of_casts {policy : Policy} {detected : Nat} {cast : Draft}
    (casts : Policy.detectCasters { config := config.policy } u (freshDraft u .standard) =
      .ok ((policy, detected), cast)) :
    (Binding.resolveRoots cast.model (namesOf config roots)).2 =
      (namesOf config roots).filterMap (Binding.unknownRoot? (freshDraft u .standard).model) := by
  have grown := Query.pervades_grows.resolving u |>.detectCasters _ _ _ _ casts
  rw [Binding.snd_resolveRoots, Binding.unknownRoot?_extends grown.model]

/-- Unknown roots are reported even where the closure has no end, and refused entities whatever comes
after the closure. -/
theorem snd_planText {policy : Policy} {detected : Nat} {cast : Draft} (before : List Report)
    (casts : Policy.detectCasters { config := config.policy } u (freshDraft u .standard) =
      .ok ((policy, detected), cast)) :
    (planText config roots u (freshDraft u .standard) before).2 =
      before ++ ((namesOf config roots).filterMap
        (Binding.unknownRoot? (freshDraft u .standard).model)).map BindError.report ++
        match Binding.closure u policy
          (Binding.resolveRoots cast.model (namesOf config roots)).1.toList cast with
        | .error _ => []
        | .ok (closure, closed) => (closure.notices closed.model).map VetoNotice.report := by
  rw [← snd_resolveRoots_of_casts casts]
  unfold planText
  rw [Planner.ask_bind, casts]
  dsimp only
  rw [Planner.ask_bind]
  dsimp only [Query.model]
  rw [← Prod.eta (Binding.resolveRoots cast.model (namesOf config roots))]
  dsimp only
  rw [Planner.report_bind, Planner.ask_bind]
  cases Binding.closure u policy
    (Binding.resolveRoots cast.model (namesOf config roots)).1.toList cast with
  | error search => exact (List.append_nil _).symm
  | ok found =>
    obtain ⟨closure, closed⟩ := found
    dsimp only
    rw [Planner.ask_bind]
    dsimp only [Query.model]
    rw [Planner.report_bind]
    refine Planner.snd_ask_bind (fun sorted ordered => ?_) closed
    cases sorted with
    | error error => rfl
    | ok order => exact Planner.snd_ask_bind (fun plan ended => rfl) ordered

/-- A plan that succeeds went through all stages, and reported what it owed on the way. -/
theorem exists_planning {before after : List Report} {text : String} {e : Draft}
    (planned : planText config roots u (freshDraft u .standard) before = (.ok (text, e), after)) :
    ∃ planning : Planning config (namesOf config roots) u,
      planning.ended = e ∧ after = before ++ planning.owed := by
  unfold planText at planned
  obtain ⟨⟨policy, detected⟩, cast, casts, planned⟩ := Planner.exists_of_ask planned
  obtain ⟨m, _, asked, planned⟩ := Planner.exists_of_ask planned
  cases asked
  rw [← Prod.eta (Binding.resolveRoots cast.model (namesOf config roots))] at planned
  dsimp only at planned
  rw [Planner.report_bind] at planned
  obtain ⟨closure, closed, closes, planned⟩ := Planner.exists_of_ask planned
  obtain ⟨m, _, asked, planned⟩ := Planner.exists_of_ask planned
  cases asked
  rw [Planner.report_bind] at planned
  obtain ⟨sorted, ordered, orders, planned⟩ := Planner.exists_of_ask planned
  cases sorted with
  | error error => cases planned
  | ok order =>
    obtain ⟨plan, ended, plans, planned⟩ := Planner.exists_of_ask planned
    obtain ⟨m, _, asked, planned⟩ := Planner.exists_of_ask planned
    cases asked
    cases planned
    let planning : Planning config (namesOf config roots) u :=
      ⟨policy, detected, cast, closure, closed, order, ordered, plan, _, casts, closes, orders, plans⟩
    refine ⟨planning, rfl, ?_⟩
    rw [Planning.owed, ← snd_resolveRoots_of_casts casts, ← List.append_assoc]

end

end Command

/-! ## Runs -/

theorem Outcome.allReports_of_status {outcome : Outcome} (succeeds : outcome.status = 0) :
    outcome.allReports = outcome.reports := by
  unfold status at succeeds
  unfold allReports
  cases ended : outcome.ending with
  | success text | endless search => rfl
  | failure error =>
    rw [ended] at succeeds
    cases succeeds

namespace FileTree

variable {t : FileTree}

/-- A plan that succeeds has read a configuration and a unit, and has planned for them. -/
theorem exists_planned {unit : String} {roots : List String} {config output : Option String}
    (succeeds : (t.after (.plan unit roots config output)).1.status = 0) :
    ∃ settings u, ∃ planning : Planning settings (Command.namesOf settings roots) u,
      (Command.loadConfig access config).run t = (.ok settings, t) ∧
      (Command.loadUnit access unit).run t = (.ok u, t) ∧
      (t.after (.plan unit roots config output)).1.allReports = planning.reports := by
  rw [Outcome.allReports_of_status succeeds]
  have ran : t.after (.plan unit roots config output) = _ := (reads_loadConfig config).run_bind _
  rw [ran] at succeeds ⊢
  cases configured : ((Command.loadConfig access config).run t).1 with
  | error error =>
    rw [configured] at succeeds
    cases succeeds
  | ok settings =>
    simp only [configured, (reads_loadUnit unit).run_bind] at succeeds ⊢
    cases loaded : ((Command.loadUnit access unit).run t).1 with
    | error error =>
      rw [loaded] at succeeds
      cases succeeds
    | ok u =>
      simp only [loaded] at succeeds ⊢
      rcases planned : Command.planText settings roots u (Session.start u).build.draft
        (Command.buildReports (Session.start u).build) with ⟨halt | ⟨text, e⟩, reports⟩
      · rw [planned] at succeeds
        cases halt <;> cases succeeds
      · obtain ⟨planning, _, owed⟩ := Command.exists_planning planned
        refine ⟨settings, u, planning, ?_, ?_, ?_⟩
        · exact Prod.ext configured (reads_loadConfig config t)
        · exact Prod.ext loaded (reads_loadUnit unit t)
        · rw [Planning.reports]
          exact owed

theorem loadConfig_of_read {path text : String} {settings : Config} (held : t.read? path = some text)
    (reads : Config.ofText text = .ok settings) :
    (Command.loadConfig access (some path)).run t = (.ok settings, t) := by
  have given : ((access.read path).run t).1 = some text := held
  unfold Command.loadConfig Command.locateConfig
  rw [pure_bind]
  dsimp only
  rw [(reads_read path).run_bind, given]
  simp only [reads]
  rfl

theorem loadUnit_of_read {path text : String} {u : TranslationUnit} (held : t.read? path = some text)
    (reads : TranslationUnit.ofText text = .ok u) :
    (Command.loadUnit access path).run t = (.ok u, t) := by
  have given : ((access.read path).run t).1 = some text := held
  unfold Command.loadUnit
  rw [(reads_read path).run_bind, given]
  simp only [reads]
  rfl

/-- Where a configuration and a unit can be read, a plan prints what planning for them gives. -/
theorem after_plan {unit : String} {roots : List String} {config : Option String} {settings : Config}
    {u : TranslationUnit} {reports : List Report} {text : String} {e : Draft}
    (configured : (Command.loadConfig access config).run t = (.ok settings, t))
    (loaded : (Command.loadUnit access unit).run t = (.ok u, t))
    (planned : Command.planText settings roots u (freshDraft u .standard)
      ((freshDraft u .standard).diagnostics.map Diagnostic.report) = (.ok (text, e), reports)) :
    (t.after (.plan unit roots config none)).1 = { ending := .success text, reports } := by
  have ran : t.after (.plan unit roots config none) = _ := (reads_loadConfig config).run_bind _
  simp only [ran, configured, (reads_loadUnit unit).run_bind, loaded]
  rw [show Command.planText settings roots u (Session.start u).build.draft
    (Command.buildReports (Session.start u).build) = _ from planned]
  rfl

end FileTree

open FileTree in
/-- A plan reports a condition that is recorded at its end if and only if the build met it. So each is
reported once, next to the unknown roots and the refused entities, exactly if the resolver met none. -/
theorem plan_reports (t : FileTree) (unit : String) (roots : List String)
    (config output : Option String)
    (succeeds : (t.after (.plan unit roots config output)).1.status = 0) :
    ∃ settings u, ∃ planning : Planning settings (Command.namesOf settings roots) u,
      (Command.loadConfig access config).run t = (.ok settings, t) ∧
      (Command.loadUnit access unit).run t = (.ok u, t) ∧
      (t.after (.plan unit roots config output)).1.allReports =
        (planning.ended.diagnostics.filter fun found => !found.isLate).map Diagnostic.report ++
          planning.owed ∧
      (∀ found ∈ planning.ended.diagnostics,
        found.report ∈ (t.after (.plan unit roots config output)).1.allReports ↔
          found.isLate = false) ∧
      ((t.after (.plan unit roots config output)).1.allReports.Perm
          (planning.ended.diagnostics.map Diagnostic.report ++ planning.owed) ↔
        ∀ found ∈ planning.ended.diagnostics, found.isLate = false) := by
  obtain ⟨settings, u, planning, configured, loaded, reports⟩ := exists_planned succeeds
  rw [reports]
  exact ⟨settings, u, planning, configured, loaded, by rw [planning.filter_ended]; rfl,
    fun found member => planning.mem_reports_iff member, planning.perm_reports_iff⟩

/-- `union Wind {}; struct Kite { Wind wind; };` -/
def kite : TranslationUnit where
  path := "kite.h"
  root := ⟨0⟩
  cursors := #[
    { kind := .translationUnit, children := [⟨1⟩, ⟨2⟩] },
    { kind := .unionDecl, spelling := "Wind", usr := some "c:Wind", semanticParent := some ⟨0⟩ },
    { kind := .structDecl, spelling := "Kite", usr := some "c:Kite", semanticParent := some ⟨0⟩,
      children := [⟨3⟩] },
    { kind := .fieldDecl, spelling := "wind", usr := some "c:Kite@wind", semanticParent := some ⟨2⟩,
      access := .publicMember, type := some ⟨0⟩ }]
  types := #[{ kind := .record, spelling := "Wind", declaration := some ⟨1⟩ }]

/-- The dump of the unit and an empty configuration. -/
def meadow : FileTree where
  files := .ofList [(["kite.json"], kite.dumpText), (["hydra.toml"], "")]

def kitePlan : Command := .plan "kite.json" ["Kite"] (some "hydra.toml") none

section

open FileTree

theorem loadConfig_meadow :
    (Command.loadConfig access (some "hydra.toml")).run meadow = (.ok {}, meadow) := by
  have placed : meadow.place? "hydra.toml" = some ["hydra.toml"] := by decide +kernel
  have held : meadow.read? "hydra.toml" = some "" := by
    rw [read?, file?, placed]
    rfl
  exact loadConfig_of_read held (by decide +kernel)

theorem loadUnit_meadow : (Command.loadUnit access "kite.json").run meadow = (.ok kite, meadow) := by
  have placed : meadow.place? "kite.json" = some ["kite.json"] := by decide +kernel
  have valid : kite.firstFault? = none := by decide +kernel
  have held : meadow.read? "kite.json" = some kite.dumpText := by
    rw [read?, file?, placed]
    rfl
  exact loadUnit_of_read held (TranslationUnit.ofText_dumpText_of_valid valid)

-- Unions are not modeled, so that the type of the field is not resolved.
theorem planText_kite :
    ∃ e, Command.planText {} ["Kite"] kite (freshDraft kite .standard)
          ((freshDraft kite .standard).diagnostics.map Diagnostic.report) =
        (.ok ("module bindings\nstruct Kite\n  field wind\n", e), []) ∧
      e.diagnostics = [.unresolvedType "Kite::wind" "Wind" {}] := by
  have computed : (Command.planText {} ["Kite"] kite (freshDraft kite .standard)
      ((freshDraft kite .standard).diagnostics.map Diagnostic.report)).2 = [] ∧
      (Command.planText {} ["Kite"] kite (freshDraft kite .standard)
        ((freshDraft kite .standard).diagnostics.map Diagnostic.report)).1.toOption.any
      fun ended => ended.1 = "module bindings\nstruct Kite\n  field wind\n" ∧
        ended.2.diagnostics = [.unresolvedType "Kite::wind" "Wind" {}] := by
    decide +kernel
  rcases planned : Command.planText {} ["Kite"] kite (freshDraft kite .standard)
    ((freshDraft kite .standard).diagnostics.map Diagnostic.report) with ⟨_ | ⟨text, e⟩, reports⟩
  · rw [planned] at computed
    cases computed.2
  · rw [planned] at computed
    obtain ⟨rfl, shown⟩ := computed
    obtain ⟨rfl, recorded⟩ := of_decide_eq_true shown
    exact ⟨e, rfl, recorded⟩

theorem after_plan_kite :
    (meadow.after kitePlan).1 =
      { ending := .success "module bindings\nstruct Kite\n  field wind\n" } := by
  obtain ⟨e, planned, _⟩ := planText_kite
  rw [kitePlan, after_plan loadConfig_meadow loadUnit_meadow planned]

theorem plan_reports_kite :
    (meadow.after kitePlan).1.status = 0 ∧
      ∃ planning : Planning {} ["Kite"] kite,
        (meadow.after kitePlan).1.allReports =
          (planning.ended.diagnostics.filter fun found => !found.isLate).map Diagnostic.report ++
            planning.owed := by
  have succeeds : (meadow.after kitePlan).1.status = 0 := by
    rw [after_plan_kite]
    rfl
  obtain ⟨settings, u, planning, configured, loaded, reports, _⟩ :=
    plan_reports meadow _ _ _ _ succeeds
  cases configured.symm.trans loadConfig_meadow
  cases loaded.symm.trans loadUnit_meadow
  exact ⟨succeeds, planning, reports⟩

/-- The plan for the kite succeeds, and does not report the type that was not resolved for it. -/
theorem kite_wind_unreported :
    (meadow.after kitePlan).1 =
        { ending := .success "module bindings\nstruct Kite\n  field wind\n", reports := [] } ∧
      ∃ planning : Planning {} ["Kite"] kite,
        planning.ended.diagnostics = [.unresolvedType "Kite::wind" "Wind" {}] := by
  obtain ⟨e, planned, recorded⟩ := planText_kite
  obtain ⟨planning, rfl, _⟩ := Command.exists_planning planned
  exact ⟨after_plan_kite, planning, recorded⟩

end

end Bindery
