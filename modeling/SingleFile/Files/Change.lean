/-
  SingleFile.Files.Change — WHAT HAS CHANGED
  ──────────────────────────────────────────
  The files of a tree with the names that lead to them, and those of them
  that another tree does not have as they are.
-/
import SingleFile.Files.Tree

namespace SingleFile.Files.Entry

/-- A file with the names that lead to it. -/
structure Placed where
  names : List String
  content : ByteArray
deriving Inhabited

mutual

/-- The files of an entry; the names that lead to it are given innermost first. -/
def filesBehind (trail : List String) : Entry → List Placed
  | file content _ => [⟨trail.reverse, content⟩]
  | directory entries => filesAmong trail entries

/-- The files of a directory's entries. -/
def filesAmong (trail : List String) : List (String × Entry) → List Placed
  | [] => []
  | (name, inner) :: rest => filesBehind (name :: trail) inner ++ filesAmong trail rest

end

/-- The files of a tree. -/
def files (root : Entry) : List Placed := filesBehind [] root

/-- Whether a tree has a file as it is. -/
def has (root : Entry) (placed : Placed) : Bool :=
  match root.atNames? placed.names with
  | some (file content _) => content == placed.content
  | _ => false

/-- The files that are new in a tree or have changed. -/
def changesSince (after before : Entry) : List Placed :=
  after.files.filter fun placed => !before.has placed

end SingleFile.Files.Entry
