/-
  SingleFile.Markup.Tag — TAGS AND WHAT IS SKIPPED
  ────────────────────────────────────────────────
  What begins with an opening angle bracket is a tag, a comment or
  declaration, or plain text.  A tag that runs into the next tag or the end
  of the text ends there.
-/
import SingleFile.Markup.Token
import SingleFile.Text.Case

namespace SingleFile.Markup

open SingleFile.Text

/-! ## §1. Tags -/

/-- An attribute; a bare one has no value. -/
structure Attribute where
  name : String
  value : Option String
  span : Span
deriving DecidableEq, Repr, Inhabited

/-- A start tag or an end tag. -/
structure Tag where
  name : String
  start : Nat
  isEnd : Bool
  isSelfClosing : Bool
  /-- Whether the tag ran into something else before it was closed. -/
  isBroken : Bool
  attributes : List Attribute
  /-- The place behind the tag. -/
  behind : Cursor
deriving DecidableEq, Repr, Inhabited

/-! ## §2. Attributes -/

/-- What has been read of a tag's attributes. -/
structure TagState where
  /-- The attributes that are complete, the latest first. -/
  done : List Attribute
  /-- An attribute whose value may follow. -/
  pending : Option Attribute
  /-- Whether the value of the pending attribute comes next. -/
  awaiting : Bool
deriving Inhabited

/-- A tag without attributes. -/
def TagState.start : TagState := ⟨[], none, false⟩

/-- The attributes in order. -/
def TagState.attributes (s : TagState) : List Attribute :=
  (s.pending.toList ++ s.done).reverse

/-- Gives the pending attribute its value. -/
def TagState.setValue (s : TagState) (t : Token) : TagState :=
  match s.pending with
  | some a =>
    let full := { a with value := some (String.ofList t.value), span := a.span.cover t.span }
    ⟨full :: s.done, none, false⟩
  | none => { s with awaiting := false }

/-- What a token inside a tag adds to its attributes. -/
def TagState.add (s : TagState) (t : Token) : TagState :=
  match t.kind with
  | .equals => { s with awaiting := s.pending.isSome }
  | .name =>
    if s.awaiting then s.setValue t
    else
      { s with done := s.pending.toList ++ s.done
               pending := some ⟨String.ofList t.text, none, t.span⟩ }
  | .doubleQuoted => if s.awaiting then s.setValue t else s
  | .singleQuoted => if s.awaiting then s.setValue t else s
  | _ => s

/-- Reads the attributes of a tag and its end.  Each token but the end of the text has a
character, so the number of characters bounds them. -/
def readAttributes (tag : Tag) : Nat → TagState → Tag
  | 0, s => { tag with attributes := s.attributes }
  | bound + 1, s =>
    let (token, behind) := nextToken tag.behind
    match token.kind with
    | .rightAngle => { tag with attributes := s.attributes, behind := behind }
    | .slashRightAngle =>
      { tag with attributes := s.attributes, behind := behind, isSelfClosing := true }
    | .tagOpen => broken s
    | .closeTagOpen => broken s
    | .endOfText => broken s
    | _ => readAttributes { tag with behind := behind } bound (s.add token)
where
  /-- The tag as it is when it runs into something else, which begins behind the blanks. -/
  broken (s : TagState) : Tag :=
    { tag with attributes := s.attributes, isBroken := true
               behind := (tag.behind.overWhile isAsciiBlank).2 }

/-- Reads a tag. -/
def readTag? (c : Cursor) : Option Tag :=
  let (token, behind) := nextToken c
  let tag (isEnd : Bool) (name : List Char) : Tag :=
    let start : Tag := ⟨String.ofList name, c.offset, isEnd, false, false, [], behind⟩
    readAttributes start (behind.rest.length + 1) TagState.start
  match token.kind with
  | .tagOpen => some (tag false (token.text.drop 1))
  | .closeTagOpen => some (tag true (token.text.drop 2))
  | _ => none

/-! ## §3. Markup -/

/-- What begins at an opening angle bracket. -/
inductive Opening where
  /-- A comment or declaration, and the place behind it. -/
  | skipped (behind : Cursor)
  /-- A comment that is not closed. -/
  | openComment (span : Span) (behind : Cursor)
  | tag (tag : Tag)
  | text
deriving Inhabited

/-- What begins at a place where an opening angle bracket stands. -/
def markupAt (c : Cursor) : Opening :=
  if c.isAt ['<', '!', '-', '-'] then
    match (c.skip 4).find? ['-', '-', '>'] with
    | some found => .skipped (found.skip 3)
    | none => .openComment (Span.ofRange c.offset c.toEnd.offset) c.toEnd
  else if c.isAt ['<', '!'] || c.isAt ['<', '?'] then .skipped (c.behindNext ['>'])
  else match readTag? c with
    | some tag => .tag tag
    | none => .text

end SingleFile.Markup
