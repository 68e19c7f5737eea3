/-
  SingleFile.Toolchain.Node — RUNNING THE TOOLCHAIN
  ─────────────────────────────────────────────────
  The process that answers requests is started anew for each of them, in the
  project's directory.  Where its program cannot be found, every request for
  a template fails with the reason.
-/
import SingleFile.Component.RenderFunction
import SingleFile.Files.Tree
import SingleFile.Toolchain.Message

namespace SingleFile.Toolchain

open SingleFile.Files SingleFile.Json SingleFile.Component

/-! ## §1. Hosts -/

/-- The machine that the toolchain runs on. -/
structure Host (m : Type → Type) where
  files : Files.Entry
  /-- The working directory of this program. -/
  directory : Path
  /-- The directories in which programs are looked for. -/
  searchPath : List Path
  /-- Runs the program at a path with a request. -/
  run : Path → Request → m Reply

/-- The first program of a name in the directories for programs. -/
def Host.search? {m : Type → Type} (host : Host m) (name : String) : Option Path :=
  (host.searchPath.map fun directory => directory.join ⟨name⟩).find? host.files.isExecutableAt

/-! ## §2. The program -/

/-- The program that runs the toolchain, and the directory of the project. -/
structure Node where
  program : Path
  root : Path
deriving DecidableEq, Repr, Inhabited

/-- Finds the program: at a given path, or where programs are. -/
def Node.find {m : Type → Type} (host : Host m) (given : Option Path) (root : Path) :
    Except Problem Node :=
  match given with
  | some program =>
    if host.files.isFileAt (host.directory.join program) then .ok ⟨program, root⟩
    else .error (.notFound program.text)
  | none =>
    match host.search? "node" with
    | some program => .ok ⟨program, root⟩
    | none => .error (.notFound "node is not on PATH")

/-- The program that is started: a path is taken from the project's directory on, a mere name
is looked for. -/
def Node.started? {m : Type → Type} (host : Host m) (node : Node) : Option Path :=
  let program :=
    if node.program.text.toList.contains '/' then some (node.root.join node.program)
    else host.search? node.program.text
  if host.files.isDirectoryAt node.root then program.filter host.files.isExecutableAt else none

/-! ## §3. Requests -/

/-- Asks for the result of an operation. -/
def Node.ask {m : Type → Type} [Monad m] {α : Type} (host : Host m) (node : Node)
    (operation : Operation) (decoder : Decoder α) (source : List Char) (fileName : String) :
    m (Except Problem α) := do
  match node.started? host with
  | none => return .error .notStarted
  | some program =>
    return (← host.run program ⟨operation, source, fileName⟩).result operation decoder

/-- Compiles markup. -/
def Node.compile {m : Type → Type} [Monad m] (host : Host m) (node : Node)
    (markup : List Char) (fileName : String) : m (Except Problem Compiled) :=
  node.ask host .compile Compiled.decoder markup fileName

/-- Makes markup of pug. -/
def Node.pug {m : Type → Type} [Monad m] (host : Host m) (node : Node)
    (source : List Char) (fileName : String) : m (Except Problem (List Char)) :=
  node.ask host .pug textDecoder source fileName

/-- Makes a function of another one. -/
def Node.normalize {m : Type → Type} [Monad m] (host : Host m) (node : Node)
    (function : List Char) : m (Except Problem (List Char)) :=
  node.ask host .normalize textDecoder function ""

/-! ## §4. Tools -/

/-- How render functions are checked. -/
inductive Normalizer where
  /-- By their syntax. -/
  | builtIn
  /-- By the toolchain. -/
  | toolchain
deriving DecidableEq, Repr, Inhabited

/-- The tools that a program gives; what the compiler has to say is left out. -/
def Node.tools {m : Type → Type} [Monad m] (host : Host m) (node : Node)
    (normalizer : Normalizer) : Tools m where
  compile markup path := do
    return (← node.compile host markup path).map Compiled.code |>.mapError Problem.message
  renderMarkup := some fun source path => do
    return (← node.pug host source path).mapError Problem.message
  normalize function :=
    match normalizer with
    | .builtIn => pure (normalizeBySyntax function)
    | .toolchain => do return (← node.normalize host function).mapError Problem.message

/-- The tools where there is no program. -/
def unavailable {m : Type → Type} [Monad m] (reason : String) (normalizer : Normalizer) :
    Tools m where
  compile _ _ := pure (.error reason)
  renderMarkup := some fun _ _ => pure (.error reason)
  normalize function :=
    match normalizer with
    | .builtIn => pure (normalizeBySyntax function)
    | .toolchain => pure (.error reason)

end SingleFile.Toolchain
