/-
  SingleFile.Config.Discovery — FINDING CONFIGURATION
  ───────────────────────────────────────────────────
  The transpiler configuration is looked for in the working directory and
  all directories around it, the nearest first; the first file found decides.
  The type-check configuration is looked for in the working directory only.
-/
import SingleFile.Config.Comments
import SingleFile.Config.Literal
import SingleFile.Config.Transpiler
import SingleFile.Config.TypeCheck
import SingleFile.Files.Tree

namespace SingleFile.Config

open SingleFile.Json SingleFile.Files

/-! ## §1. Reading files -/

/-- The text of the file at each path; nothing if it cannot be read. -/
abbrev Reader := Path → Option (List Char)

/-- The text of a file. -/
def readConfig (read : Reader) (path : Path) : Except Failure (List Char) :=
  match read path with
  | some text => .ok text
  | none => .error ⟨path, .unreadable⟩

/-- A result that a malformed file does not have. -/
def orMalformed {α : Type} (path : Path) (result : Option α) : Except Failure α :=
  match result with
  | some a => .ok a
  | none => .error ⟨path, .malformed⟩

/-- The configuration in a file: a script if its name says so, or JSON with comments. -/
def loadTranspiler (read : Reader) (path : Path) : Except Failure Transpiler := do
  let text ← readConfig read path
  if path.extension? == some "js" then
    match scriptValue text with
    | .error cause => .error ⟨path, cause⟩
    | .ok value => orMalformed path (decodeValue? Transpiler.decoder value)
  else orMalformed path (decodeText? Transpiler.decoder (plainJson text))

/-- The configuration in a package description, if it has one. -/
def loadPackage (read : Reader) (path : Path) : Except Failure (Option Transpiler) := do
  orMalformed path (decodeText? Transpiler.packageDecoder (← readConfig read path))

/-! ## §2. The transpiler configuration -/

/-- The names of transpiler configuration files, in the order in which they count. -/
def transpilerFiles : List String :=
  [".babelrc", ".babelrc.json", ".babelrc.js", "babel.config.json", "babel.config.js"]

/-- A configuration and the file it came from. -/
abbrev Found (α : Type) := Option (Path × α)

/-- The configuration in a directory. -/
def transpilerIn (root : Files.Entry) (environment : String) (directory : Path) :
    Except Failure (Found Transpiler) := do
  let candidates := transpilerFiles.map fun name => directory.join ⟨name⟩
  let package := directory.join ⟨"package.json"⟩
  match candidates.find? root.isFileAt with
  | some path =>
    return some (path, (← loadTranspiler root.readText? path).resolved environment)
  | none =>
    if root.isFileAt package then
      return (← loadPackage root.readText? package).map fun c => (package, c.resolved environment)
    else return none

/-- The configuration in the first of some directories that has one. -/
def transpilerAmong (root : Files.Entry) (environment : String) :
    List Path → Except Failure (Found Transpiler)
  | [] => .ok none
  | directory :: rest => do
    match ← transpilerIn root environment directory with
    | some found => return some found
    | none => transpilerAmong root environment rest

/-! ## §3. The type-check configuration -/

/-- The path of the base that a configuration file names, if it is a path; a package is not
looked for. -/
def basePath? (path : Path) (config : TypeCheck) : Option Path := do
  let base ← config.base
  if base.startsWith "./" || base.startsWith "../" then
    let joined := match path.parent? with
      | some directory => directory.join ⟨base⟩
      | none => ⟨base⟩
    return if joined.extension? == some "json" then joined else ⟨joined.text ++ ".json"⟩
  else none

/-- Reads the type-check configuration in a file. -/
def readTypeCheck (read : Reader) (path : Path) : Except Failure TypeCheck := do
  orMalformed path (decodeText? TypeCheck.decoder (plainJson (← readConfig read path)))

/-- The path of the base that the configuration in a file names. -/
def nextBase? (read : Reader) (path : Path) : Option Path :=
  (readTypeCheck read path).toOption.bind (basePath? path)

/-- How many bases may follow on one another. -/
def maxBases : Nat := 8

/-- The configuration in a file, with options from what its base is loaded to, if it has one. -/
def inheriting (read : Reader) (load : Path → Except Failure TypeCheck) (path : Path) :
    Except Failure TypeCheck := do
  let config ← readTypeCheck read path
  match basePath? path config with
  | none => return config
  | some base =>
    let parent ← load base
    return { config with options := config.options.inherit parent.options }

/-- The configuration in a file, with options from the bases that follow on it. -/
def loadTypeCheck (read : Reader) : Nat → Path → Except Failure TypeCheck
  | 0, path => inheriting read (fun _ => .error ⟨path, .unsupported .tooManyBases⟩) path
  | bases + 1, path => inheriting read (loadTypeCheck read bases) path

/-! ## §4. Both -/

/-- Where a project's configuration comes from. -/
structure Source where
  transpiler : Except Failure (Found Transpiler)
  typeCheck : Except Failure (Found TypeCheck)
deriving Inhabited

namespace Source

/-- Given configuration. -/
def fixed (transpiler : Option Transpiler) (typeCheck : Option TypeCheck) : Source :=
  ⟨.ok (transpiler.map fun c => (⟨".babelrc"⟩, c)),
    .ok (typeCheck.map fun c => (⟨"tsconfig.json"⟩, c))⟩

/-- The configuration for a working directory and an environment. -/
def ofFiles (root : Files.Entry) (directory : Path) (environment : String) : Source :=
  let path := directory.join ⟨"tsconfig.json"⟩
  ⟨transpilerAmong root environment directory.ancestors,
    if root.isFileAt path then
      (loadTypeCheck root.readText? maxBases path).map fun c => some (path, c)
    else .ok none⟩

end Source

/-- The name of the environment: that of the transpiler, or that of the process, or
`development`. -/
def environmentName (transpilerVariable processVariable : Option String) : String :=
  (transpilerVariable.or processVariable).getD "development"

end SingleFile.Config
