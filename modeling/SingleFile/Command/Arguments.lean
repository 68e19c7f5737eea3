/-
  SingleFile.Command.Arguments — THE COMMAND LINE
  ───────────────────────────────────────────────
  Options may be given as `--name value` or `--name=value`.  A value given in
  the first way is not looked at before the next argument is understood, so
  an unknown option is told of before a bad value in front of it.
-/
import SingleFile.Toolchain.Node

namespace SingleFile.Command

open SingleFile.Toolchain

/-! ## §1. Arguments -/

/-- What the command line asks for. -/
structure Arguments where
  inputs : List String
  /-- The directory of the project. -/
  directory : String
  /-- Where modules are written; they are printed if it is not given. -/
  outDirectory : Option String
  /-- The path of a component that is read from standard input. -/
  inputName : Option String
  extensions : List String
  ignored : List String
  node : Option String
  normalizer : Normalizer
  isVerbose : Bool
deriving DecidableEq, Repr, Inhabited

/-- Why a command line does not start a run. -/
inductive Stop where
  | unknownArgument
  | invalidValue
  /-- An argument that may be given once is given again. -/
  | conflict
  /-- A value for an option that takes none. -/
  | tooManyValues
  | help (isLong : Bool)
  | version
deriving DecidableEq, Repr, Inhabited

/-- The options that take a value. -/
inductive ValueOption where
  | directory
  | outDirectory
  | inputName
  | extension
  | ignored
  | node
  | normalizer
deriving DecidableEq, Repr, Inhabited

/-- The options that take none. -/
inductive Flag where
  | verbose
  | help (isLong : Bool)
  | version
deriving DecidableEq, Repr, Inhabited

/-! ## §2. Options by name -/

/-- The option with a long name that takes a value. -/
def valueOption? : String → Option ValueOption
  | "cwd" => some .directory
  | "out-dir" => some .outDirectory
  | "stdin-filename" => some .inputName
  | "extension" => some .extension
  | "ignore" => some .ignored
  | "node" => some .node
  | "normalizer" => some .normalizer
  | _ => none

/-- The option with a long name that takes no value. -/
def longFlag? : String → Option Flag
  | "verbose" => some .verbose
  | "help" => some (.help true)
  | "version" => some .version
  | _ => none

/-- The option with a short name. -/
def shortFlag? : Char → Option Flag
  | 'v' => some .verbose
  | 'h' => some (.help false)
  | 'V' => some .version
  | _ => none

/-- The way to check functions that has a name. -/
def normalizer? : String → Option Normalizer
  | "swc" => some .builtIn
  | "node" => some .toolchain
  | _ => none

/-! ## §3. Reading -/

/-- An option that was given, with the value behind it if that was read. -/
structure Pending where
  option : ValueOption
  value : Option String
deriving DecidableEq, Repr, Inhabited

/-- What has been read. -/
structure Reading where
  inputs : List String
  directory : Option String
  outDirectory : Option String
  inputName : Option String
  extensions : List String
  ignored : List String
  node : Option String
  normalizer : Option Normalizer
  isVerbose : Bool
  pending : Option Pending
  /-- Whether everything that follows is an input. -/
  inputsOnly : Bool
deriving DecidableEq, Repr, Inhabited

namespace Reading

/-- Nothing read. -/
def start : Reading := ⟨[], none, none, none, [], [], none, none, false, none, false⟩

/-- The value of an option that may be given once. -/
def once {α : Type} (known : Option α) (value : Except Stop α) : Except Stop (Option α) :=
  if known.isSome then .error .conflict else value.map some

/-- Gives an option its value. -/
def assign (r : Reading) (option : ValueOption) (value : String) : Except Stop Reading := do
  match option with
  | .directory => return { r with directory := ← once r.directory (.ok value) }
  | .outDirectory => return { r with outDirectory := ← once r.outDirectory (.ok value) }
  | .inputName => return { r with inputName := ← once r.inputName (.ok value) }
  | .extension => return { r with extensions := r.extensions ++ [value] }
  | .ignored => return { r with ignored := r.ignored ++ [value] }
  | .node => return { r with node := ← once r.node (.ok value) }
  | .normalizer =>
    let found := match normalizer? value with
      | some n => .ok n
      | none => .error .invalidValue
    return { r with normalizer := ← once r.normalizer found }

/-- Looks at an option that was given before. -/
def settle (r : Reading) : Except Stop Reading :=
  match r.pending with
  | none => .ok r
  | some ⟨option, some value⟩ => assign { r with pending := none } option value
  | some ⟨_, none⟩ => .error .invalidValue

/-- Takes an option without a value. -/
def raise (r : Reading) (flag : Flag) : Except Stop Reading := do
  let r ← r.settle
  match flag with
  | .verbose => if r.isVerbose then .error .conflict else return { r with isVerbose := true }
  | .help isLong => .error (.help isLong)
  | .version => .error .version

/-- Takes an option by its long name. -/
def long (r : Reading) (name : String) (value : Option String) : Except Stop Reading := do
  match valueOption? name, value with
  | some option, some value => (← r.settle).assign option value
  | some option, none => return { (← r.settle) with pending := some ⟨option, none⟩ }
  | none, value =>
    match longFlag? name, value with
    | some flag, none => r.raise flag
    | some _, some _ => .error .tooManyValues
    | none, _ => .error .unknownArgument

/-- Takes options by their short names. -/
def short (r : Reading) : List Char → Except Stop Reading
  | [] => .ok r
  | c :: rest =>
    match shortFlag? c with
    | some flag => do (← r.raise flag).short rest
    | none => .error .unknownArgument

/-- Takes an input. -/
def input (r : Reading) (text : String) : Except Stop Reading := do
  let r ← r.settle
  return { r with inputs := r.inputs ++ [text] }

/-- A text up to an equals sign, and what is behind it if there is one. -/
def splitEquals (text : List Char) : String × Option String :=
  let name := String.ofList (text.takeWhile (· != '='))
  match text.dropWhile (· != '=') with
  | [] => (name, none)
  | _ :: value => (name, some (String.ofList value))

/-- Takes an argument. -/
def argument (r : Reading) (text : String) : Except Stop Reading :=
  if r.inputsOnly then r.input text
  else match text.toList with
    | ['-', '-'] => .ok { r with inputsOnly := true }
    | '-' :: '-' :: rest =>
      let (name, value) := splitEquals rest
      r.long name value
    | '-' :: c :: rest => r.short (c :: rest)
    | _ =>
      match r.pending with
      | some ⟨option, none⟩ => .ok { r with pending := some ⟨option, some text⟩ }
      | _ => r.input text

/-- The arguments that were read, with defaults for those that were not given. -/
def finish (r : Reading) : Except Stop Arguments := do
  let r ← r.settle
  return {
    inputs := r.inputs
    directory := r.directory.getD "."
    outDirectory := r.outDirectory
    inputName := r.inputName
    extensions := if r.extensions.isEmpty then ["vue"] else r.extensions
    ignored := r.ignored
    node := r.node
    normalizer := r.normalizer.getD .builtIn
    isVerbose := r.isVerbose }

end Reading

/-- What a command line asks for. -/
def Arguments.read (texts : List String) : Except Stop Arguments := do
  (← texts.foldlM Reading.argument Reading.start).finish

end SingleFile.Command
