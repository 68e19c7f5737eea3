/-
  SingleFile.Command.Output — WHERE MODULES GO
  ────────────────────────────────────────────
  A module is printed as one line of JSON, or written with its map below a
  directory, at the place that the component has in the project.
-/
import SingleFile.Component.Transform
import SingleFile.Files.Tree
import SingleFile.Json.Writer
import SingleFile.LineMap.Json

namespace SingleFile.Command

open SingleFile.Component SingleFile.Files SingleFile.Json

/-! ## §1. Lines -/

/-- A module with the path of its component as JSON. -/
def moduleRecord (path : Path) (output : Output) : Value :=
  .object [("file", .string path.text), ("code", .string (String.ofList output.code)),
    ("map", output.map.toJson)]

/-! ## §2. Files -/

/-- The path of a module.  A component outside of the project goes right into the
directory. -/
def modulePath (outDirectory project component : Path) : Path :=
  let relative := match component.relativeTo? project with
    | some relative => relative
    | none => ⟨(component.fileName?.map String.ofList).getD "component"⟩
  (outDirectory.join relative).withExtension "js"

/-- The path of a module's map. -/
def mapPath (modulePath : Path) : Path := ⟨modulePath.text ++ ".map"⟩

/-- The text of a module's file. -/
def moduleFile (mapPath : Path) (code : List Char) : List Char :=
  code ++ "\n//# sourceMappingURL=".toList ++ mapPath.fileName?.getD [] ++ ['\n']

/-- Files that are being written; a path that cannot be written ends it. -/
abbrev Writing := ExceptT Path (StateM Files.Entry)

/-- Changes the files, unless that fails at a path. -/
def change (path : Path) (changed? : Files.Entry → Path → Option Files.Entry) :
    Writing Unit := do
  match changed? (← get) path with
  | some files => set files
  | none => throw path

/-- Writes a module and its map. -/
def writeModule (path : Path) (output : Output) : Writing Unit := do
  match path.parent? with
  | some parent => change parent Entry.createDirectories?
  | none => pure ()
  let map := mapPath path
  change path fun files path => files.writeText? path (moduleFile map output.code)
  change map fun files path => files.writeText? path output.map.toJson.write.toList

/-! ## §3. Either -/

/-- Where modules go. -/
inductive Destination where
  | lines
  | directory (outDirectory project : Path)
deriving DecidableEq, Repr, Inhabited

/-- What there is behind a module: the lines printed so far, the latest first, while files are
written. -/
abbrev Emission := StateT (List String) Writing

/-- Prints or writes a module. -/
def emit (destination : Destination) (path : Path) (output : Output) : Emission Unit := do
  match destination with
  | .lines => modify fun lines => (moduleRecord path output).write :: lines
  | .directory outDirectory project =>
    StateT.lift (writeModule (modulePath outDirectory project path) output)

end SingleFile.Command
