/-
  SingleFile.Files.Path — PATHS
  ─────────────────────────────
  A path is kept as it is written.  Slashes cut it into segments, of which
  the empty ones and single dots inside the path name nothing; what is asked
  of a path goes by the segments that do.
-/

namespace SingleFile.Files

/-! ## §1. Segments -/

/-- A path as it is written. -/
structure Path where
  text : String
deriving DecidableEq, Repr, Inhabited

/-- What stands between two slashes of a path. -/
structure Segment where
  text : List Char
  /-- Whether the segment names something. -/
  counts : Bool
deriving DecidableEq, Repr, Inhabited

/-- The texts between the slashes of a text; there is one more than there are slashes. -/
def splitSlashes : List Char → List (List Char)
  | [] => [[]]
  | c :: cs =>
    let rest := splitSlashes cs
    if c == '/' then [] :: rest else (c :: rest.headD []) :: rest.tail

/-- Texts with slashes between them. -/
def joinSlashes (texts : List (List Char)) : List Char := ['/'].intercalate texts

namespace Path

/-- Whether a path starts at the root. -/
def isAbsolute (p : Path) : Bool := p.text.toList.head? == some '/'

/-- A segment behind the first one. -/
def innerSegment (text : List Char) : Segment := ⟨text, !(text.isEmpty || text == ['.'])⟩

/-- The segments of a path behind its root.  A dot that begins a relative path counts. -/
def segments (p : Path) : List Segment :=
  match p.text.toList with
  | '/' :: rest => (splitSlashes rest).map innerSegment
  | text =>
    match splitSlashes text with
    | [] => []
    | first :: rest => ⟨first, !first.isEmpty⟩ :: rest.map innerSegment

/-- A path of segments. -/
def ofSegments (isAbsolute : Bool) (segments : List Segment) : Path :=
  let text := joinSlashes (segments.map Segment.text)
  ⟨String.ofList (if isAbsolute then '/' :: text else text)⟩

/-- Segments without those at the end that name nothing. -/
def trimEnd (segments : List Segment) : List Segment :=
  (segments.reverse.dropWhile fun s => !s.counts).reverse

/-- The segments that name something. -/
def components (p : Path) : List (List Char) := (p.segments.filter Segment.counts).map Segment.text

/-- Whether two paths are the same but for segments that name nothing. -/
def sameAs (a b : Path) : Bool := a.isAbsolute == b.isAbsolute && a.components == b.components

/-! ## §2. Parts -/

/-- Whether a segment is a name, and not a dot or two. -/
def isName (text : List Char) : Bool := text != ['.'] && text != ['.', '.']

/-- The last name of a path. -/
def fileName? (p : Path) : Option (List Char) := p.components.getLast?.filter isName

/-- The text behind the last dot of a name, and the text in front of it; a dot at the start
counts for nothing. -/
def splitExtension (name : List Char) : List Char × Option (List Char) :=
  let behind := (name.reverse.takeWhile (· != '.')).reverse
  let front := (name.reverse.dropWhile (· != '.')).tail.reverse
  if front.isEmpty then (name, none) else (front, some behind)

/-- The extension of a path's name. -/
def extension? (p : Path) : Option String :=
  p.fileName?.bind fun name => (splitExtension name).2.map String.ofList

/-- The path with another extension; a path that ends in no name stays as it is. -/
def withExtension (p : Path) (extension : String) : Path :=
  match p.fileName? with
  | none => p
  | some name =>
    let named := (splitExtension name).1 ++ '.' :: extension.toList
    ofSegments p.isAbsolute ((trimEnd p.segments).dropLast ++ [⟨named, true⟩])

/-- The path without its last component. -/
def parent? (p : Path) : Option Path :=
  match trimEnd p.segments with
  | [] => none
  | segments => some (ofSegments p.isAbsolute (trimEnd segments.dropLast))

/-- A path and its parents, with a bound on their number. -/
def ancestorsWithin : Nat → Path → List Path
  | 0, p => [p]
  | bound + 1, p => p :: ((p.parent?.map (ancestorsWithin bound)).getD [])

/-- A path and its parents; each has a segment less than the one before. -/
def ancestors (p : Path) : List Path := ancestorsWithin p.segments.length p

/-! ## §3. Paths from paths -/

/-- A path behind another one; an absolute path stands for itself. -/
def join (p q : Path) : Path :=
  if q.isAbsolute then q
  else
    let text := p.text.toList
    let slash := if text.isEmpty || text.getLast? == some '/' then [] else ['/']
    ⟨String.ofList (text ++ slash ++ q.text.toList)⟩

/-- The segments behind some components. -/
def dropComponents? : List (List Char) → List Segment → Option (List Segment)
  | [], segments => some segments
  | _ :: _, [] => none
  | c :: cs, s :: rest =>
    if !s.counts then dropComponents? (c :: cs) rest
    else if s.text == c then dropComponents? cs rest
    else none

/-- The path behind a base that it starts with. -/
def relativeTo? (p base : Path) : Option Path :=
  if base.isAbsolute || !base.components.isEmpty then
    if base.isAbsolute != p.isAbsolute then none
    else (dropComponents? base.components p.segments).map fun rest =>
      let rest := rest.map fun s => innerSegment s.text
      ofSegments false (trimEnd (rest.dropWhile fun s => !s.counts))
  else some (ofSegments p.isAbsolute (trimEnd p.segments))

end Path

end SingleFile.Files
