/-
  SingleFile.Command.Inputs — FINDING COMPONENTS
  ──────────────────────────────────────────────
  A file that is named is taken as it is.  A directory is searched, names in
  order, for files with certain extensions; packages are not looked into.
  No file is taken twice.
-/
import SingleFile.Files.Glob
import SingleFile.Files.Tree

namespace SingleFile.Command

open SingleFile.Files

/-! ## §1. Directories -/

/-- The directory of packages. -/
def packageDirectory : String := "node_modules"

/-- Things by name, in the order of the names. -/
def byName {α : Type} (named : List (String × α)) : List (String × α) :=
  named.mergeSort fun a b => !(decide (b.1 < a.1))

mutual

/-- The files of an entry at a path. -/
def filesOf (path : Path) : Entry → List Path
  | .file _ _ => [path]
  | .directory entries => (byName (filesByName path entries)).flatMap Prod.snd

/-- The files of each of a directory's entries, by the names of these. -/
def filesByName (directory : Path) : List (String × Entry) → List (String × List Path)
  | [] => []
  | (name, entry) :: rest =>
    if name == packageDirectory then filesByName directory rest
    else (name, filesOf (directory.join ⟨name⟩) entry) :: filesByName directory rest

end

/-! ## §2. Choices -/

/-- What files in directories have to be like. -/
structure Choice where
  /-- The directory that ignored paths begin in. -/
  directory : Path
  /-- The extensions, with or without dots in front. -/
  extensions : List String
  ignored : List Glob
deriving Inhabited

/-- Whether a path has one of the extensions. -/
def Choice.hasExtension (choice : Choice) (path : Path) : Bool :=
  match path.extension? with
  | some extension =>
    choice.extensions.any fun wanted =>
      wanted.toList.dropWhile (· == '.') == extension.toList
  | none => false

/-- Whether a path is ignored. -/
def Choice.ignores (choice : Choice) (path : Path) : Bool :=
  let relative := (path.relativeTo? choice.directory).getD path
  choice.ignored.any fun glob => glob.isMatch relative.text.toList

/-- Whether a file in a directory is taken. -/
def Choice.takes (choice : Choice) (path : Path) : Bool :=
  choice.hasExtension path && !choice.ignores path

/-! ## §3. Inputs -/

/-- Why there are no inputs. -/
inductive InputProblem where
  | invalidGlob (pattern : String)
  /-- Neither a file nor a directory. -/
  | missing (path : Path)
deriving DecidableEq, Repr, Inhabited

/-- What is said about a problem. -/
def InputProblem.message : InputProblem → String
  | invalidGlob pattern => "invalid ignore pattern \x60" ++ pattern ++ "\x60"
  | missing path => "input not found: " ++ path.text

/-- The patterns that some texts spell. -/
def readGlobs (patterns : List String) : Except InputProblem (List Glob) :=
  patterns.mapM fun pattern =>
    match Glob.ofText? pattern.toList with
    | some glob => .ok glob
    | none => .error (.invalidGlob pattern)

/-- The files that an input stands for. -/
def filesOfInput (root : Entry) (choice : Choice) (input : Path) :
    Except InputProblem (List Path) :=
  match root.at? input with
  | some (.file _ _) => .ok [input]
  | some entry => .ok ((filesOf input entry).filter choice.takes)
  | none => .error (.missing input)

/-- Paths without those that are the same as an earlier one. -/
def withoutRepeats (paths : List Path) : List Path :=
  (paths.foldl (fun kept p => if kept.any p.sameAs then kept else p :: kept) []).reverse

/-- The files that some inputs stand for; no inputs stand for the project's directory. -/
def collectInputs (root : Entry) (choice : Choice) (inputs : List String) :
    Except InputProblem (List Path) := do
  let paths :=
    if inputs.isEmpty then [choice.directory]
    else inputs.map fun input => choice.directory.join ⟨input⟩
  let files ← paths.mapM (filesOfInput root choice)
  return withoutRepeats files.flatten

end SingleFile.Command
