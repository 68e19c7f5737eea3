/-
  SingleFile.Command.Run — A RUN
  ──────────────────────────────
  A run reads the command line, transforms every component it finds and
  prints or writes the modules.  A component that fails does not keep the
  others from being transformed, but the run counts as failed.  A panic in
  the transform of one ends the run, before any module is printed or written.
-/
import SingleFile.Command.Arguments
import SingleFile.Command.Help
import SingleFile.Command.Inputs
import SingleFile.Command.Output

namespace SingleFile.Command

open SingleFile.Component SingleFile.Config SingleFile.Files SingleFile.Toolchain

/-! ## §1. What a run has and leaves -/

/-- What a run finds. -/
structure Environment (m : Type → Type) where
  host : Host m
  /-- The environment of the transpiler, if it is set. -/
  transpilerVariable : Option String
  /-- The environment of the process, if it is set. -/
  processVariable : Option String
  input : ByteArray

/-- What a run leaves behind. -/
structure Report where
  exitCode : Nat
  lines : List String
  /-- What is told to those who watch. -/
  messages : List String
  files : Files.Entry
deriving Inhabited

/-- A report of a run that did not begin. -/
def Report.early (files : Files.Entry) (exitCode : Nat) (lines messages : List String) : Report :=
  ⟨exitCode, lines, messages, files⟩

/-- What is said about a command line that starts no run. -/
def Stop.message : Stop → String
  | unknownArgument => "error: unexpected argument found"
  | invalidValue => "error: a value is missing or not possible"
  | conflict => "error: an argument cannot be used multiple times"
  | tooManyValues => "error: unexpected value for an argument"
  | help _ => ""
  | version => ""

/-- The report of a command line that starts no run. -/
def Stop.report (files : Files.Entry) : Stop → Report
  | help isLong => .early files 0 (helpLines isLong) []
  | version => .early files 0 [versionLine] []
  | other => .early files 2 [] [other.message]

/-! ## §2. Components -/

/-- A component that was transformed, and whether nothing is wrong with it. -/
structure Finished where
  path : Path
  output : Option Output
  isClean : Bool
  messages : List String
deriving Inhabited

/-- A component that cannot be read. -/
def Finished.unreadable (path : Path) : Finished :=
  ⟨path, none, false, ["failed to read " ++ path.text]⟩

/-- A component behind its transform; none behind a panic. -/
def Finished.ofOutcome? (path : Path) (outcome : Outcome) : Option Finished :=
  let shown := outcome.diagnostics.map Diagnostic.display
  let errors := outcome.diagnostics.any fun d => d.severity == .error
  match outcome.result with
  | .ok output => some ⟨path, some output, !errors, shown⟩
  | .error (.failed failure) => some ⟨path, none, false, shown ++ [failure.message]⟩
  | .error .panicked => none

/-- The modules of the components, and the messages about them. -/
def emitAll (destination : Destination) (components : List Finished) : Emission Unit :=
  components.forM fun c =>
    match c.output with
    | some output => emit destination c.path output
    | none => pure ()

/-- The report of a run that has transformed its components. -/
def reportOf (files : Files.Entry) (destination : Destination) (components : List Finished) :
    Report :=
  let messages := components.flatMap Finished.messages
  match ((emitAll destination components).run []).run.run files with
  | (.ok (_, lines), files) =>
    ⟨if components.all Finished.isClean then 0 else 1, lines.reverse, messages, files⟩
  | (.error path, files) => ⟨1, [], messages ++ ["failed to write " ++ path.text], files⟩

/-! ## §3. Runs -/

/-- What a run works with. -/
structure Setup (m : Type → Type) where
  tools : Tools m
  config : Source
  /-- The directory of the project. -/
  project : Path
  destination : Destination
  /-- Messages from the start. -/
  messages : List String

/-- Gets a run ready. -/
def Environment.setup {m : Type → Type} [Monad m] (e : Environment m) (a : Arguments) :
    Setup m :=
  let project := e.host.directory.join ⟨a.directory⟩
  let environment := environmentName e.transpilerVariable e.processVariable
  let found := Node.find e.host (a.node.map Files.Path.mk) project
  { tools := match found with
      | .ok node => node.tools e.host a.normalizer
      | .error problem => unavailable problem.message a.normalizer
    config := Source.ofFiles e.host.files project environment
    project := project
    destination := match a.outDirectory with
      | some directory => .directory (project.join ⟨directory⟩) project
      | none => .lines
    messages := match found with
      | .ok _ => []
      | .error problem => [problem.message ++ "; components with a template will fail"] }

/-- Transforms a component with a text; nothing comes of a panic. -/
def Setup.transformText? {m : Type → Type} [Monad m] (s : Setup m) (path : Path)
    (text : Option (List Char)) : m (Option Finished) :=
  match text with
  | none => return some (.unreadable path)
  | some text => return Finished.ofOutcome? path (← transform s.tools s.config text path.text)

/-- The components that a run is about. -/
def Setup.inputs {m : Type → Type} (s : Setup m) (files : Files.Entry) (a : Arguments) :
    Except InputProblem (List Path) := do
  let ignored ← readGlobs a.ignored
  collectInputs files ⟨s.project, a.extensions, ignored⟩ a.inputs

/-- The report of a run behind its transforms.  One that panicked takes the process down, with the
exit code of a panic. -/
def Setup.finish {m : Type → Type} (s : Setup m) (files : Files.Entry)
    (components : List (Option Finished)) : Report :=
  match components.mapM id with
  | none => .early files 101 [] s.messages
  | some components =>
    let report := reportOf files s.destination components
    { report with messages := s.messages ++ report.messages }

/-- Runs on what the command line names. -/
def Environment.runWith {m : Type → Type} [Monad m] (e : Environment m) (a : Arguments) :
    m Report := do
  let files := e.host.files
  let setup := e.setup a
  match a.inputName with
  | some name =>
    match String.fromUTF8? e.input with
    | none => return .early files 1 [] ["failed to read stdin"]
    | some text =>
      let path := setup.project.join ⟨name⟩
      return setup.finish files [← setup.transformText? path (some text.toList)]
  | none =>
    match setup.inputs files a with
    | .error problem => return .early files 1 [] [problem.message]
    | .ok paths =>
      let components ← paths.mapM fun path => setup.transformText? path (files.readText? path)
      return setup.finish files components

/-- Runs with a command line. -/
def Environment.run {m : Type → Type} [Monad m] (e : Environment m) (texts : List String) :
    m Report :=
  match Arguments.read texts with
  | .ok arguments => e.runWith arguments
  | .error stop => return stop.report e.host.files

end SingleFile.Command
