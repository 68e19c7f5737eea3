/-
  SingleFile.Files.Tree — TREES OF FILES
  ──────────────────────────────────────
  A directory is a list of named entries.  Paths are followed segment by
  segment: a name leads into a directory's entry, two dots lead back to the
  directory around, and nothing leads on from a file.
-/
import SingleFile.Files.Path

namespace SingleFile.Files

/-! ## §1. Entries -/

/-- A file or a directory. -/
inductive Entry where
  | file (content : ByteArray) (isExecutable : Bool)
  | directory (entries : List (String × Entry))
deriving Inhabited

namespace Entry

/-- An empty directory. -/
def emptyDirectory : Entry := directory []

/-- Whether an entry is a directory. -/
def isDirectory : Entry → Bool
  | directory _ => true
  | file _ _ => false

/-- The entry of a name in some entries. -/
def lookup (name : String) (entries : List (String × Entry)) : Option Entry :=
  (entries.find? fun e => e.1 == name).map Prod.snd

/-! ## §2. Following paths -/

/-- A place in a tree: the names that lead to it with the directories they stand in, the
innermost first, and the entry there. -/
structure Place where
  trail : List (String × Entry)
  entry : Entry
deriving Inhabited

/-- The names that lead to a place from the root. -/
def Place.names (place : Place) : List String := (place.trail.map Prod.fst).reverse

/-- Goes on from a place along segments. -/
def follow? : List (List Char) → Place → Option Place
  | [], place => some place
  | segment :: rest, place =>
    match place.entry with
    | file _ _ => none
    | directory entries =>
      if segment.isEmpty || segment == ['.'] then follow? rest place
      else if segment == ['.', '.'] then
        match place.trail with
        | [] => follow? rest place
        | (_, around) :: trail => follow? rest ⟨trail, around⟩
      else
        let name := String.ofList segment
        match lookup name entries with
        | some inner => follow? rest ⟨(name, place.entry) :: place.trail, inner⟩
        | none => none

/-- The segments of an absolute path. -/
def segmentsOf? (p : Path) : Option (List (List Char)) :=
  match p.text.toList with
  | '/' :: rest => some (splitSlashes rest)
  | _ => none

/-- The place that an absolute path leads to. -/
def place? (root : Entry) (p : Path) : Option Place :=
  (segmentsOf? p).bind fun segments => follow? segments ⟨[], root⟩

/-- The entry that an absolute path leads to. -/
def at? (root : Entry) (p : Path) : Option Entry := (root.place? p).map Place.entry

/-- Whether a path leads to a file. -/
def isFileAt (root : Entry) (p : Path) : Bool :=
  match root.at? p with
  | some (file _ _) => true
  | _ => false

/-- Whether a path leads to a directory. -/
def isDirectoryAt (root : Entry) (p : Path) : Bool :=
  match root.at? p with
  | some (directory _) => true
  | _ => false

/-- Whether a path leads to a file that can be executed. -/
def isExecutableAt (root : Entry) (p : Path) : Bool :=
  match root.at? p with
  | some (file _ isExecutable) => isExecutable
  | _ => false

/-- The text of the file that a path leads to; nothing if it is no UTF-8. -/
def readText? (root : Entry) (p : Path) : Option (List Char) :=
  match root.at? p with
  | some (file content _) => (String.fromUTF8? content).map String.toList
  | _ => none

/-! ## §3. Changing trees -/

/-- Entries with one of a name added, or in the place of the one with that name. -/
def replaceIn (name : String) (entry : Entry) :
    List (String × Entry) → List (String × Entry)
  | [] => [(name, entry)]
  | e :: rest => if e.1 == name then (name, entry) :: rest else e :: replaceIn name entry rest

/-- A tree with an entry at the end of some names; directories on the way are made where there
are none. -/
def insertAt : Entry → List String → Entry → Entry
  | _, [], entry => entry
  | directory entries, name :: names, entry =>
    let inner := (lookup name entries).getD emptyDirectory
    directory (replaceIn name (insertAt inner names entry) entries)
  | other, _ :: _, _ => other

/-- The entry at the end of some names. -/
def atNames? : List String → Entry → Option Entry
  | [], entry => some entry
  | name :: names, directory entries => (lookup name entries).bind (atNames? names)
  | _ :: _, file _ _ => none

/-- A tree with directories all along some segments from a place, whose names are given
innermost first; nothing if a file is in the way. -/
def createAlong? (root : Entry) : List String → List (List Char) → Option Entry
  | _, [] => some root
  | here, segment :: rest =>
    if segment.isEmpty || segment == ['.'] then createAlong? root here rest
    else if segment == ['.', '.'] then createAlong? root here.tail rest
    else
      let inner := String.ofList segment :: here
      match root.atNames? inner.reverse with
      | some (directory _) => createAlong? root inner rest
      | some (file _ _) => none
      | none => createAlong? (root.insertAt inner.reverse emptyDirectory) inner rest

/-- A tree with a directory at a path. -/
def createDirectories? (root : Entry) (p : Path) : Option Entry :=
  (segmentsOf? p).bind (createAlong? root [])

/-- A tree with a text in the file at a path, which is made if its directory is there. -/
def writeText? (root : Entry) (p : Path) (text : List Char) : Option Entry := do
  let segments ← segmentsOf? p
  let name ← segments.getLast?.filter fun s => !s.isEmpty && Path.isName s
  let around ← follow? segments.dropLast ⟨[], root⟩
  match around.entry with
  | file _ _ => none
  | directory entries =>
    let name := String.ofList name
    let written := file (String.ofList text).toUTF8 false
    match lookup name entries with
    | some (directory _) => none
    | _ => some (root.insertAt (around.names ++ [name]) written)

end Entry

end SingleFile.Files
