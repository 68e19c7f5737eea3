/-
  SingleFile.Main — THE PROGRAM
  ─────────────────────────────
  What a run may look at is read from the disk into a tree of files, the run
  is made on the tree, and the files that it changed are written back.  The
  contents of files that a run does not look into are left out of the tree.
  No other program is started, so none counts as executable.
-/
import SingleFile.Command.Run
import SingleFile.Files.Change

namespace SingleFile

open SingleFile.Command SingleFile.Files SingleFile.Toolchain
open SingleFile.Config (transpilerFiles maxBases nextBase?)

/-! ## §1. Reading the disk -/

/-- The names that lead to an absolute path. -/
def namesOf (path : Path) : List String :=
  (path.components.foldl (fun names segment =>
    if segment == ['.', '.'] then names.tail else String.ofList segment :: names) []).reverse

/-- How deep directories are read. -/
def maxDepth : Nat := 64

/-- Bytes that are no text; they stand for a file that cannot be read. -/
def noText : ByteArray := ⟨#[0xFF]⟩

/-- The bytes of a file. -/
def contentOf (path : Path) : IO ByteArray := do
  try IO.FS.readBinFile path.text
  catch _ => return noText

/-- An entry of a directory on the disk, with what is in it down to a depth.  Links are not
followed, and contents are read of files with certain names only. -/
def readInner (isRead : Path → Bool) : Nat → IO.FS.DirEntry → IO (List (String × Entry))
  | 0, _ => return []
  | depth + 1, inner => do
    try
      match (← inner.path.symlinkMetadata).type with
      | .file =>
        let path : Path := ⟨inner.path.toString⟩
        let content ← if isRead path then contentOf path else pure .empty
        return [(inner.fileName, .file content false)]
      | .dir =>
        let entries ← (← inner.path.readDir).toList.mapM (readInner isRead depth)
        return [(inner.fileName, .directory entries.flatten)]
      | _ => return []
    catch _ => return []

/-- A tree with what there is on the disk at a path. -/
def readPlace (isRead : Path → Bool) (files : Entry) (path : Path) : IO Entry := do
  try
    let place ← IO.FS.realPath path.text
    match ← readInner isRead maxDepth ⟨"/", place.toString⟩ with
    | (_, entry) :: _ => return files.insertAt (namesOf path) entry
    | [] => return files
  catch _ => return files

/-- A tree with the file at a path, if there is one on the disk. -/
def readFile (files : Entry) (path : Path) : IO Entry := do
  try
    match (← (⟨"/", path.text⟩ : IO.FS.DirEntry).path.metadata).type with
    | .file => return files.insertAt (namesOf path) (.file (← contentOf path) false)
    | _ => return files
  catch _ => return files

/-- A tree with a type-check configuration and the bases that follow on it. -/
def readBases : Nat → Entry → Path → IO Entry
  | 0, files, path => readFile files path
  | bases + 1, files, path => do
    let files ← readFile files path
    match nextBase? files.readText? path with
    | some base => readBases bases files base
    | none => return files

/-! ## §2. What a run looks at -/

/-- A tree with all that a run looks at. -/
def readFor (a : Arguments) (project : Path) : IO Entry := do
  let choice : Choice := ⟨project, a.extensions, []⟩
  let inputs := a.inputs.map fun input => project.join ⟨input⟩
  let searched := if a.inputName.isSome then [] else if inputs.isEmpty then [project] else inputs
  let isRead (path : Path) : Bool := choice.hasExtension path || inputs.any path.sameAs
  let output := (a.outDirectory.map fun directory => project.join ⟨directory⟩).toList
  let mut files := Entry.emptyDirectory
  for place in output ++ searched do
    files ← readPlace isRead files place
  for directory in project.ancestors do
    for name in transpilerFiles ++ ["package.json"] do
      files ← readFile files (directory.join ⟨name⟩)
  for program in a.node.toList do
    files ← readFile files ⟨program⟩
  readBases maxBases files (project.join ⟨"tsconfig.json"⟩)

/-- Writes a file. -/
def write (placed : Entry.Placed) : IO Unit := do
  IO.FS.createDirAll ("/" ++ "/".intercalate placed.names.dropLast)
  IO.FS.writeBinFile ("/" ++ "/".intercalate placed.names) placed.content

/-! ## §3. The run -/

/-- The machine with some files. -/
def hostWith (files : Entry) (directory : Path) : Host IO where
  files := files
  directory := directory
  searchPath := []
  run _ _ := throw (.userError Problem.notStarted.message)

/-- Runs with a command line, and tells the exit code. -/
def runOnDisk (texts : List String) : IO UInt32 := do
  let directory : Path := ⟨(← IO.currentDir).toString⟩
  let mut files := Entry.emptyDirectory
  let mut input := ByteArray.empty
  match Arguments.read texts with
  | .ok a =>
    files ← readFor a (directory.join ⟨a.directory⟩)
    if a.inputName.isSome then
      input ← (← IO.getStdin).readBinToEnd
  | .error _ => pure ()
  let environment : Environment IO :=
    ⟨hostWith files directory, ← IO.getEnv "BABEL_ENV", ← IO.getEnv "NODE_ENV", input⟩
  let report ← environment.run texts
  report.messages.forM fun message => IO.eprintln message
  report.lines.forM fun line => IO.println line
  try
    (report.files.changesSince files).forM write
    return report.exitCode.toUInt32
  catch problem =>
    IO.eprintln problem.toString
    return 1

end SingleFile

/-- Transforms the components that the command line names. -/
def main (texts : List String) : IO UInt32 := SingleFile.runOnDisk texts
