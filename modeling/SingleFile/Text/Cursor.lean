/-
  SingleFile.Text.Cursor — PLACES IN A TEXT
  ─────────────────────────────────────────
  A cursor is a byte offset with the characters from there on, so a reader
  that moves along a text never looks back.
-/
import SingleFile.Text.Offset

namespace SingleFile.Text

/-- A place in a text: the byte offset and the characters from there on. -/
structure Cursor where
  offset : Nat
  rest : List Char
deriving DecidableEq, Repr, Inhabited

namespace Cursor

/-- The start of a text. -/
def ofText (text : List Char) : Cursor := ⟨0, text⟩

/-- One character on. -/
def next (c : Cursor) : Cursor :=
  match c.rest with
  | [] => c
  | ch :: cs => ⟨c.offset + ch.utf8Size, cs⟩

/-- Some characters on. -/
def skip : Nat → Cursor → Cursor
  | 0, c => c
  | n + 1, c => skip n c.next

/-- The end of the text. -/
def toEnd (c : Cursor) : Cursor := ⟨c.offset + byteLength c.rest, []⟩

/-- Over the characters that satisfy a test. -/
def overWhile (test : Char → Bool) (c : Cursor) : List Char × Cursor :=
  let taken := c.rest.takeWhile test
  (taken, ⟨c.offset + byteLength taken, c.rest.dropWhile test⟩)

/-- Whether some characters are next. -/
def isAt (c : Cursor) (text : List Char) : Bool := startsWith c.rest text

/-- The first place from an offset on where a text begins with some characters. -/
def findFrom? (needle : List Char) : Nat → List Char → Option Cursor
  | offset, [] => if needle.isEmpty then some ⟨offset, []⟩ else none
  | offset, c :: cs =>
    if startsWith (c :: cs) needle then some ⟨offset, c :: cs⟩
    else findFrom? needle (offset + c.utf8Size) cs

/-- The next place where some characters stand. -/
def find? (c : Cursor) (needle : List Char) : Option Cursor := findFrom? needle c.offset c.rest

/-- The cursor behind the next place where some characters stand, or else the end. -/
def behindNext (c : Cursor) (needle : List Char) : Cursor :=
  match c.find? needle with
  | some found => found.skip needle.length
  | none => c.toEnd

/-- Going over characters keeps the text: what was taken and what is left make it up. -/
theorem overWhile_append (test : Char → Bool) (c : Cursor) :
    (c.overWhile test).1 ++ (c.overWhile test).2.rest = c.rest :=
  List.takeWhile_append_dropWhile

end Cursor

end SingleFile.Text
