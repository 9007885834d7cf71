import Bindery.Command.FileTree

/-! Where the text of a command goes. A command with an output hands on the text that it would print
otherwise, and that is the only thing it does to the files. A command that fails does nothing to
them. -/

set_option autoImplicit false

namespace Bindery

/-! ## A command with an output and the same command without -/

namespace Command

def takesOutput : Command → Bool
  | .check _ => false
  | .umbrella .. | .dump .. | .plan .. => true

def redirect (output : Option String) : Command → Command
  | .umbrella config _ => .umbrella config output
  | .check unit => .check unit
  | .dump unit path _ => .dump unit path output
  | .plan unit roots config _ => .plan unit roots config output

/-- The error of a command whose text cannot be written. -/
def blame : Command → String → CommandError
  | .umbrella .. => fun path => .load (.inaccessible path)
  | .check _ | .dump .. | .plan .. => .unwritable

theorem exists_redirect (command : Command) :
    command.redirect none = command ∨
      ∃ out, command.takesOutput ∧ command.redirect (some out) = command := by
  cases command with
  | check unit => exact .inl rfl
  | umbrella config output | dump unit path output | plan unit roots config output =>
    cases output with
    | none => exact .inl rfl
    | some out => exact .inr ⟨out, rfl, rfl⟩

end Command

section

variable {m : Type → Type} [Monad m] (files : FileAccess m)

/-- Writes the text of a run to a file instead of leaving it to be printed. -/
def Outcome.file (plain : Outcome) (blame : String → CommandError) (out : String) : m Outcome :=
  match plain.ending with
  | .success text => return { plain with ending := ← Command.deliver files text blame (some out) }
  | .failure _ | .endless _ => return plain

/-- A command with an output does what it does without, and then files its text. -/
theorem Command.run_redirect_some [LawfulMonad m] {command : Command} (takes : command.takesOutput)
    (out : String) :
    run files (command.redirect (some out)) =
      run files (command.redirect none) >>= fun plain => plain.file files command.blame out := by
  cases command with
  | check unit => cases takes
  | umbrella config output =>
    simp only [redirect, run, runUmbrella, bind_assoc]
    refine bind_congr fun loaded => ?_
    cases loaded with
    | error error => simp [fail, Outcome.file]
    | ok config => simp [deliver, Outcome.file, blame]
  | dump unit path output =>
    simp only [redirect, run, runDump, bind_assoc]
    refine bind_congr fun loaded => ?_
    cases loaded with
    | error error => simp [fail, Outcome.file]
    | ok u =>
      cases dumped : dumpText (Session.start u).build path with
      | error error => simp [dumped, fail, Outcome.file]
      | ok text => simp [dumped, deliver, Outcome.file, blame]
  | plan unit roots config output =>
    simp only [redirect, run, runPlan, bind_assoc]
    refine bind_congr fun loaded => ?_
    cases loaded with
    | error error => simp [fail, Outcome.file]
    | ok config =>
      simp only [bind_assoc]
      refine bind_congr fun loaded => ?_
      cases loaded with
      | error error => simp [fail, Outcome.file]
      | ok u =>
        dsimp only
        rcases planned : planText config roots u (Session.start u).build.draft
          (buildReports (Session.start u).build) with ⟨halt | ⟨text, ended⟩, reports⟩
        · cases halt <;> simp [Halt.ending, Outcome.file]
        · simp [deliver, Outcome.file, blame]

end

namespace FileTree

variable {α β : Type} {t : FileTree}

/-! ## Reading -/

/-- A computation that leaves the tree as it is. -/
def Reads (question : StateM FileTree α) : Prop := ∀ t : FileTree, (question.run t).2 = t

namespace Reads

variable {question : StateM FileTree α}

theorem pure (answer : α) : Reads (Pure.pure answer) := fun _ => rfl

theorem bind {next : α → StateM FileTree β} (first : Reads question)
    (rest : ∀ answer, Reads (next answer)) : Reads (question >>= next) := by
  intro t
  have later := rest (question.run t).1 (question.run t).2
  exact later.trans (first t)

/-- What follows a computation that only reads runs on the same tree. -/
theorem run_bind (reads : Reads question) (next : α → StateM FileTree β) :
    (question >>= next).run t = (next (question.run t).1).run t := by
  change (next (question.run t).1).run (question.run t).2 = _
  rw [reads t]

end Reads

theorem reads_isFile (path : String) : Reads (access.isFile path) := fun _ => rfl

theorem reads_read (path : String) : Reads (access.read path) := fun _ => rfl

theorem reads_directories : Reads access.directories := fun _ => rfl

theorem reads_nearestConfig (directories : List String) :
    Reads (Command.nearestConfig access directories) := by
  induction directories with
  | nil => exact .pure none
  | cons directory above ih =>
    refine (reads_isFile _).bind fun found => ?_
    cases found with
    | true => exact .pure _
    | false => exact ih

theorem reads_loadConfig (given : Option String) : Reads (Command.loadConfig access given) := by
  have located : Reads (Command.locateConfig access given) := by
    cases given with
    | some path => exact .pure _
    | none =>
      refine reads_directories.bind fun directories => (reads_nearestConfig directories).bind ?_
      intro nearest
      cases nearest <;> exact .pure _
  refine located.bind fun path => ?_
  cases path with
  | error error => exact .pure _
  | ok path =>
    refine (reads_read path).bind fun text => ?_
    cases text <;> exact .pure _

theorem reads_loadUnit (path : String) : Reads (Command.loadUnit access path) := by
  refine (reads_read path).bind fun text => ?_
  cases text <;> exact .pure _

/-- Without an output no command writes anything. -/
theorem reads_run (command : Command) : Reads ((command.redirect none).run access) := by
  cases command with
  | umbrella config output =>
    refine (reads_loadConfig config).bind fun config => ?_
    cases config <;> exact .pure _
  | check unit =>
    refine (reads_loadUnit unit).bind fun u => ?_
    cases u <;> exact .pure _
  | dump unit path output =>
    refine (reads_loadUnit unit).bind fun u => ?_
    cases u with
    | error error => exact .pure _
    | ok u =>
      dsimp only
      split <;> exact .pure _
  | plan unit roots config output =>
    refine (reads_loadConfig config).bind fun config => ?_
    cases config with
    | error error => exact .pure _
    | ok config =>
      refine (reads_loadUnit unit).bind fun u => ?_
      cases u with
      | error error => exact .pure _
      | ok u =>
        dsimp only
        split <;> exact .pure _

/-! ## Writing -/

/-- A path leads to a file, or to where one can be made. -/
def Writable (t : FileTree) (path : String) : Prop :=
  ∃ place, t.place? path = some place ∧ t.isDirectory place = false

/-- One tree is another with a text put at a path, and no other file is touched. -/
structure Puts (before : FileTree) (path text : String) (after : FileTree) : Prop where
  read : after.read? path = some text
  others : ∃ place, before.place? path = some place ∧
    ∀ other, other ≠ place → after.files.get? other = before.files.get? other
  directories : after.directories = before.directories
  current : after.current = before.current

theorem isDirectory_put (place : List String) (text : Option String) {names : List String}
    (directory : t.isDirectory names) :
    isDirectory { t with files := t.files.put place text } names := by
  simp only [isDirectory, Bool.or_eq_true, List.any_eq_true] at directory ⊢
  refine directory.imp_right fun ⟨path, known, above⟩ => ⟨path, ?_, above⟩
  exact OrderedMap.mem_keys_put.mpr (.inl known)

/-- What can be walked down to can still be when there are more directories. -/
theorem walk_put (place : List String) (text : Option String) {here there names : List String}
    (walked : t.walk here names = some there) :
    walk { t with files := t.files.put place text } here names = some there := by
  induction names generalizing here with
  | nil => exact walked
  | cons name rest ih =>
    unfold walk at walked ⊢
    dsimp only at walked ⊢
    split at walked
    · cases walked
    · split at walked
      · next directory =>
        simp only [isDirectory_put place text directory, if_true]
        exact ih walked
      · cases walked

theorem place?_put (other : List String) (text : Option String) {path : String} {place : List String}
    (placed : t.place? path = some place) :
    place? { t with files := t.files.put other text } path = some place := by
  simp only [place?, Option.bind_eq_bind, Option.bind_eq_some_iff] at placed ⊢
  obtain ⟨name, last, named⟩ := placed
  refine ⟨name, last, ?_⟩
  split at named
  · cases named
  · next proper =>
    obtain ⟨directory, walked, joined⟩ := Option.bind_eq_some_iff.mp named
    rw [if_neg proper]
    exact Option.bind_eq_some_iff.mpr ⟨directory, walk_put other text walked, joined⟩

/-- Writing to a writable path puts the text there. -/
theorem Writable.exists_puts {path : String} (writable : t.Writable path) (text : String) :
    ∃ after, t.write? path text = some after ∧ t.Puts path text after := by
  obtain ⟨place, placed, free⟩ := writable
  refine ⟨{ t with files := t.files.put place (some text) }, by simp [write?, placed, free], ?_⟩
  refine ⟨?_, ⟨place, placed, fun other apart => ?_⟩, rfl, rfl⟩
  · have held := (OrderedMap.get?_put t.files place place (some text)).trans (if_pos rfl)
    rw [read?, file?, place?_put place (some text) placed, Option.bind_some, held]
    rfl
  · exact (OrderedMap.get?_put t.files place other (some text)).trans (if_neg apart)

/-! ## Running -/

/-- The outcome of a command on a tree, and what it leaves of the tree. -/
def after (t : FileTree) (command : Command) : Outcome × FileTree := (command.run access).run t

/-- What a run with an output is to the run that prints. -/
structure Delivers (t : FileTree) (out : String) (printed filed : Outcome × FileTree) : Prop where
  status : filed.1.status = printed.1.status
  reports : filed.1.allReports = printed.1.allReports
  untouched : printed.2 = t
  /-- A run that succeeds has its text in the output instead. -/
  delivered : printed.1.status = 0 →
    filed.1.output = "" ∧ t.Puts out printed.1.output filed.2

theorem after_none_snd (t : FileTree) (command : Command) :
    (t.after (command.redirect none)).2 = t := reads_run command t

/-- What a command with an output does to a tree. -/
theorem after_some {command : Command} (takes : command.takesOutput) (out : String) :
    t.after (command.redirect (some out)) =
      (((t.after (command.redirect none)).1.file access command.blame out).run t) := by
  rw [after, Command.run_redirect_some access takes out, (reads_run command).run_bind]
  rfl

/-- An outcome that is filed on a tree: a text is written if that can be done, and nothing else is. -/
theorem run_file (printed : Outcome) (blame : String → CommandError) (out : String) :
    (printed.file access blame out).run t =
      match printed.ending with
      | .success text =>
        match t.write? out text with
        | none => ({ printed with ending := .failure (blame out) }, t)
        | some after => ({ printed with ending := .success "" }, after)
      | .failure _ | .endless _ => (printed, t) := by
  have writes (text : String) : (access.write out text).run t =
      match t.write? out text with
      | none => (false, t)
      | some after => (true, after) := by
    change (match t.write? out text with
      | none => (pure false : StateM FileTree Bool)
      | some after => do set after; return true).run t = _
    cases t.write? out text <;> rfl
  unfold Outcome.file
  cases printed.ending with
  | failure error | endless search => rfl
  | success text =>
    simp only [Command.deliver, StateT.run_bind, writes, bind_assoc]
    cases t.write? out text <;> rfl

/-- A run with a writable output delivers what would be printed. -/
theorem delivers_redirect {command : Command} (takes : command.takesOutput) {out : String}
    (writable : t.Writable out) :
    t.Delivers out (t.after (command.redirect none)) (t.after (command.redirect (some out))) := by
  have untouched := after_none_snd t command
  rw [after_some takes, run_file]
  cases ended : (t.after (command.redirect none)).1.ending with
  | success text =>
    obtain ⟨after, written, puts⟩ := writable.exists_puts text
    have printed : (t.after (command.redirect none)).1.output = text := by
      rw [Outcome.output, ended]
    simp only [written]
    refine ⟨?_, ?_, untouched, fun _ => ⟨rfl, printed.symm ▸ puts⟩⟩
    · simp [Outcome.status, ended]
    · simp [Outcome.allReports, ended]
  | failure error | endless search =>
    refine ⟨rfl, rfl, untouched, fun succeeds => ?_⟩
    rw [Outcome.status, ended] at succeeds
    cases succeeds

/-- A run that does not succeed leaves the tree as it is, also if it has an output. -/
theorem after_snd_of_status (command : Command) :
    (t.after command).1.status ≠ 0 → (t.after command).2 = t := by
  rcases command.exists_redirect with same | ⟨out, takes, same⟩
  · rw [← same]
    exact fun _ => after_none_snd t command
  · rw [← same, after_some takes, run_file]
    cases (t.after (command.redirect none)).1.ending with
    | failure error | endless search => exact fun _ => rfl
    | success text =>
      dsimp only
      cases t.write? out text with
      | none => exact fun _ => rfl
      | some after => exact fun failed => absurd rfl failed

end FileTree

theorem Outcome.output_of_status {outcome : Outcome} (failed : outcome.status ≠ 0) :
    outcome.output = "" := by
  unfold status at failed
  unfold output
  cases ended : outcome.ending with
  | success text => exact absurd (by rw [ended]) failed
  | failure error | endless search => rfl

open FileTree in
/-- The command line is all or nothing, and an output gets what would be printed. -/
theorem command_allOrNothing (t : FileTree) (command : Command) :
    (∀ out, command.takesOutput → t.Writable out →
      t.Delivers out (t.after (command.redirect none)) (t.after (command.redirect (some out)))) ∧
    ((t.after command).1.status ≠ 0 →
      (t.after command).1.output = "" ∧ (t.after command).2 = t) :=
  ⟨fun _ takes writable => delivers_redirect takes writable,
    fun failed => ⟨Outcome.output_of_status failed, after_snd_of_status command failed⟩⟩

/-- A project of one header, with a dump that is no text. -/
def belfry : FileTree where
  files := .put (.ofList [
    (["belfry", "hydra.toml"], "[[bindings]]\nname = \"Bell\"\nheader = \"bell.h\"\n"),
    (["belfry", "bell.h"], "struct Bell;\n")]) ["belfry", "bell.json"] none
  current := ["belfry"]

/-- The umbrella is filed as it is printed. The dump cannot be read, and then there is no plan. -/
theorem command_allOrNothing_belfry :
    belfry.Writable "../umbrella.h" ∧
      (belfry.after (.umbrella none none)).1.status = 0 ∧
      (belfry.after (.umbrella none none)).1.output = "#include <bell.h>\n" ∧
      belfry.Delivers "../umbrella.h" (belfry.after (.umbrella none none))
        (belfry.after (.umbrella none (some "../umbrella.h"))) ∧
      belfry.file? "bell.json" = some none ∧
      (belfry.after (.plan "bell.json" [] none (some "plan.txt"))).1.ending =
        .failure (.load (.inaccessible "bell.json")) ∧
      (belfry.after (.plan "bell.json" [] none (some "plan.txt"))).1.status = 1 ∧
      (belfry.after (.plan "bell.json" [] none (some "plan.txt"))).1.output = "" ∧
      (belfry.after (.plan "bell.json" [] none (some "plan.txt"))).2 = belfry := by
  have writable : belfry.Writable "../umbrella.h" :=
    ⟨["umbrella.h"], by decide +kernel, by decide +kernel⟩
  have failed : (belfry.after (.plan "bell.json" [] none (some "plan.txt"))).1.status = 1 := by
    decide +kernel
  have nothing := (command_allOrNothing belfry (.plan "bell.json" [] none (some "plan.txt"))).2
    (by rw [failed]; decide)
  refine ⟨writable, by decide +kernel, by decide +kernel, ?_, by decide +kernel, by decide +kernel,
    failed, nothing⟩
  exact (command_allOrNothing belfry (.umbrella none none)).1 _ rfl writable

end Bindery
