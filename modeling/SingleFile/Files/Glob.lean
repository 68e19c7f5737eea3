/-
  SingleFile.Files.Glob — PATTERNS FOR PATHS
  ──────────────────────────────────────────
  A pattern is read into tokens and matched against the bytes of a path.  A
  question mark stands for one byte, an asterisk for any bytes, slashes
  included; two asterisks between slashes stand for any directories.
-/
import SingleFile.Files.Path

namespace SingleFile.Files

/-! ## §1. Tokens -/

/-- The parts of a pattern. -/
inductive GlobToken where
  | literal (c : Char)
  /-- One byte. -/
  | one
  /-- Any number of bytes. -/
  | many
  /-- Nothing, or directories that the path begins with. -/
  | leadingDirectories
  /-- Everything in a directory. -/
  | everythingIn
  /-- Directories between two others, or none. -/
  | innerDirectories
  /-- One byte of some ranges, or of none of them. -/
  | charClass (negated : Bool) (ranges : List (Char × Char))
  | alternatives (branches : List (List GlobToken))
deriving Repr, Inhabited

/-- A pattern. -/
structure Glob where
  tokens : List GlobToken
deriving Repr, Inhabited

/-! ## §2. Reading -/

/-- A pattern that is being read: its branches and their tokens, the latest first. -/
structure GlobState where
  branches : List (List GlobToken)
  /-- How many branches there were when each open group began, the innermost first. -/
  groups : List Nat
  /-- The character read last. -/
  previous : Option Char
deriving Inhabited

namespace GlobState

/-- Adds a token to the latest branch. -/
def push (s : GlobState) (token : GlobToken) : GlobState :=
  { s with branches := (token :: s.branches.headD []) :: s.branches.tail }

/-- Takes note of the character read last. -/
def behind (s : GlobState) (c : Char) : GlobState := { s with previous := some c }

/-- Opens a group. -/
def openGroup (s : GlobState) : GlobState :=
  { s with branches := [] :: s.branches, groups := s.branches.length :: s.groups }

/-- Closes a group, if one is open. -/
def closeGroup? (s : GlobState) : Option GlobState :=
  match s.groups with
  | [] => none
  | outside :: groups =>
    let inside := s.branches.length - outside
    let token := GlobToken.alternatives ((s.branches.take inside).reverse.map List.reverse)
    some (push { s with branches := s.branches.drop inside, groups := groups } token)

/-- A comma: another branch of the open group, or itself. -/
def comma (s : GlobState) : GlobState :=
  if s.groups.isEmpty then s.push (.literal ',') else { s with branches := [] :: s.branches }

/-- Puts directories in the place of the slash in front of two asterisks. -/
def directories (s : GlobState) (isLast : Bool) : GlobState :=
  let popped := { s with branches := (s.branches.headD []).tail :: s.branches.tail }
  match (s.branches.headD []).head? with
  | some .leadingDirectories => s
  | some .everythingIn => s
  | _ => popped.push (if isLast then .everythingIn else .innerDirectories)

/-- Two asterisks that stand for themselves. -/
def twice (s : GlobState) : GlobState := (s.push .many).push .many

/-- Two asterisks in front of some characters, and what is left of these. -/
def doubleAsterisk (s : GlobState) (rest : List Char) : GlobState × List Char :=
  let before := s.previous
  let s := s.behind '*'
  let inGroup := 2 ≤ s.branches.length
  -- Only at the start of a branch do the directories begin the path; elsewhere a slash has to
  -- stand in front of them.
  if (s.branches.headD []).isEmpty then
    match rest with
    | [] => (s.push .leadingDirectories, [])
    | '/' :: rest => ((s.push .leadingDirectories).behind '/', rest)
    | rest => (s.twice, rest)
  else if before != some '/' && !(inGroup && (before == some ',' || before == some '\x7b')) then
    (s.twice, rest)
  else
    match rest with
    | [] => (s.directories true, [])
    | '/' :: rest => ((s.directories false).behind '/', rest)
    | c :: rest =>
      if inGroup && (c == ',' || c == '\x7d') then (s.directories true, c :: rest)
      else (s.twice, c :: rest)

end GlobState

/-- The ranges of a class, with what is left behind its bracket.  `ranges` holds those read so
far, the latest first; `isOpen` tells that the latest one goes on behind a hyphen. -/
def classRanges? (isFirst isOpen : Bool) (ranges : List (Char × Char)) :
    List Char → Option (List (Char × Char) × List Char)
  | [] => none
  | c :: rest =>
    if c == ']' && !isFirst then
      some ((if isOpen then ('-', '-') :: ranges else ranges).reverse, rest)
    else if c == '-' && !isFirst && !isOpen then classRanges? false true ranges rest
    else if isOpen then
      match ranges with
      | (low, _) :: others =>
        if c < low then none else classRanges? false false ((low, c) :: others) rest
      | [] => none
    else classRanges? false false ((c, c) :: ranges) rest

/-- A class behind its opening bracket. -/
def classToken? (text : List Char) : Option (GlobToken × List Char) :=
  match text with
  | '!' :: rest => (classRanges? true false [] rest).map fun r => (.charClass true r.1, r.2)
  | '^' :: rest => (classRanges? true false [] rest).map fun r => (.charClass true r.1, r.2)
  | rest => (classRanges? true false [] rest).map fun r => (.charClass false r.1, r.2)

/-- Reads on; each step takes a character at least. -/
def readGlob? : Nat → GlobState → List Char → Option GlobState
  | _, s, [] => some s
  | 0, _, _ :: _ => none
  | bound + 1, s, c :: rest =>
    match c, rest with
    | '?', _ => readGlob? bound ((s.push .one).behind c) rest
    | '*', '*' :: rest =>
      let (s, rest) := s.doubleAsterisk rest
      readGlob? bound s rest
    | '*', _ => readGlob? bound ((s.push .many).behind c) rest
    | '[', _ =>
      match classToken? rest with
      | some (token, rest) => readGlob? bound ((s.push token).behind ']') rest
      | none => none
    | '\x7b', _ => readGlob? bound (s.openGroup.behind c) rest
    | '\x7d', _ =>
      match s.closeGroup? with
      | some s => readGlob? bound (s.behind c) rest
      | none => none
    | ',', _ => readGlob? bound (s.comma.behind c) rest
    | '\\', [] => none
    | '\\', escaped :: rest => readGlob? bound ((s.push (.literal escaped)).behind escaped) rest
    | c, rest => readGlob? bound ((s.push (.literal c)).behind c) rest

/-- The pattern that a text spells. -/
def Glob.ofText? (text : List Char) : Option Glob :=
  match readGlob? (text.length + 1) ⟨[[]], [], none⟩ text with
  | some ⟨[tokens], _, _⟩ => some ⟨tokens.reverse⟩
  | _ => none

/-! ## §3. Matching -/

/-- The bytes of a text. -/
def bytesOf (text : List Char) : List UInt8 := text.flatMap String.utf8EncodeChar

/-- All ends of a list, itself and the empty one included. -/
def endsOf {α : Type} : List α → List (List α)
  | [] => [[]]
  | a :: rest => (a :: rest) :: endsOf rest

/-- All ends of some bytes behind a slash. -/
def endsBehindSlash : List UInt8 → List (List UInt8)
  | [] => []
  | b :: rest =>
    if b == '/'.toUInt8 then rest :: endsBehindSlash rest else endsBehindSlash rest

/-- What follows a beginning of some bytes. -/
def afterBytes? : List UInt8 → List UInt8 → Option (List UInt8)
  | [], bytes => some bytes
  | _ :: _, [] => none
  | e :: es, b :: bytes => if e == b then afterBytes? es bytes else none

/-- Whether a byte is in a range.  The bytes of a character count one by one: a range goes from
the last byte of its first character to the first byte of its last one. -/
def inRange (range : Char × Char) (b : UInt8) : Bool :=
  let low := bytesOf [range.1]
  let high := bytesOf [range.2]
  if range.1 == range.2 then low.contains b
  else low.dropLast.contains b || high.tail.contains b
    || (low.getLastD 0 ≤ b && b ≤ high.headD 0)

mutual

/-- Whether a token is written as nothing at all. -/
def isVoid : GlobToken → Bool
  | .alternatives branches => areAllVoid branches
  | _ => false

/-- Whether some tokens are written as nothing at all. -/
def isVoidBranch : List GlobToken → Bool
  | [] => true
  | token :: rest => isVoid token && isVoidBranch rest

/-- Whether all branches are written as nothing at all. -/
def areAllVoid : List (List GlobToken) → Bool
  | [] => true
  | branch :: rest => isVoidBranch branch && areAllVoid rest

end

mutual

/-- What may be left of some bytes behind a token. -/
def restsOfToken (bytes : List UInt8) : GlobToken → List (List UInt8)
  | .literal c => (afterBytes? (bytesOf [c]) bytes).toList
  | .one => bytes.tail?.toList
  | .many => endsOf bytes
  | .leadingDirectories => bytes :: endsBehindSlash bytes
  | .everythingIn => (afterBytes? ['/'.toUInt8] bytes).toList.flatMap endsOf
  | .innerDirectories =>
    (afterBytes? ['/'.toUInt8] bytes).toList.flatMap fun rest => rest :: endsBehindSlash rest
  | .charClass negated ranges =>
    match bytes with
    | [] => []
    | b :: rest => if (ranges.any fun range => inRange range b) != negated then [rest] else []
  | .alternatives branches =>
    if areAllVoid branches then [bytes] else restsOfBranches bytes branches

/-- What may be left of some bytes behind one of some branches; an empty one does not count. -/
def restsOfBranches (bytes : List UInt8) : List (List GlobToken) → List (List UInt8)
  | [] => []
  | branch :: others =>
    (if isVoidBranch branch then [] else restsOf [bytes] branch) ++ restsOfBranches bytes others

/-- What may be left of one of some byte strings behind some tokens. -/
def restsOf (starts : List (List UInt8)) : List GlobToken → List (List UInt8)
  | [] => starts
  | token :: rest => restsOf (starts.flatMap fun bytes => restsOfToken bytes token).eraseDups rest

end

/-- Whether a token is a literal. -/
def isLiteral : GlobToken → Bool
  | .literal _ => true
  | _ => false

/-- Whether a token is a literal of a character. -/
def isLiteralOf (c : Char) : GlobToken → Bool
  | .literal l => l == c
  | _ => false

/-- Whether a pattern ends with a dot and is compared with the name or the extension of a path
and not with the path.  A path that ends with a dot has neither for it. -/
def Glob.looksAtName (glob : Glob) : Bool :=
  let endsWithDot := (glob.tokens.getLast?.map (isLiteralOf '.')).getD false
  let isPlain := match glob.tokens with
    | .leadingDirectories :: .many :: rest => rest.all isLiteral && rest.length != 1
    | .many :: rest => rest.all isLiteral && rest.length != 1
    | .leadingDirectories :: rest => rest.all isLiteral && rest.any (isLiteralOf '/')
    | tokens => tokens.all isLiteral
  endsWithDot && !isPlain

/-- Whether a pattern matches a path. -/
def Glob.isMatch (glob : Glob) (path : List Char) : Bool :=
  let matched := match glob.tokens with
    | [.leadingDirectories] => true
    | tokens => (restsOf [bytesOf path] tokens).any List.isEmpty
  matched && !(path.getLast? == some '.' && glob.looksAtName)

end SingleFile.Files
