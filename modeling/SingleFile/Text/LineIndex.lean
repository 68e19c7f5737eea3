/-
  SingleFile.Text.LineIndex — LINES OF A TEXT
  ───────────────────────────────────────────
  Lines are counted from 0 and end at each line feed, so a text always has at
  least one line and a trailing line feed opens a last, empty one.

  Main statements: there is one line more than there are line feeds
  (`lineCount_ofText`).
-/
import SingleFile.Text.Offset

namespace SingleFile.Text

/-- A line and a byte column in it, both counted from 0. -/
structure Position where
  line : Nat
  column : Nat
deriving DecidableEq, Repr, Inhabited

/-- The byte offsets at which the lines of a text start, the first one left out:
it is always 0. -/
structure LineIndex where
  laterStarts : List Nat
deriving DecidableEq, Repr, Inhabited

namespace LineIndex

/-! ## §1. Building -/

/-- The offsets just behind the line feeds of a text that begins at `offset`. -/
def startsAfter (offset : Nat) : List Char → List Nat
  | [] => []
  | c :: cs =>
    let next := offset + c.utf8Size
    if c = '\n' then next :: startsAfter next cs else startsAfter next cs

/-- The lines of a text. -/
def ofText (text : List Char) : LineIndex := ⟨startsAfter 0 text⟩

/-! ## §2. Reading -/

/-- The number of lines. -/
def lineCount (index : LineIndex) : Nat := index.laterStarts.length + 1

/-- Where a line starts; nothing for a line the text does not have. -/
def lineStart? (index : LineIndex) (line : Nat) : Option Nat := (0 :: index.laterStarts)[line]?

/-- The line and column of an offset: its line is the last one that starts at or before it. -/
def position (index : LineIndex) (offset : Nat) : Position :=
  let earlier := index.laterStarts.takeWhile (· ≤ offset)
  ⟨earlier.length, offset - (earlier.getLast?.getD 0)⟩

/-- The line of an offset counted from 1, as messages show it. -/
def lineNumber (index : LineIndex) (offset : Nat) : Nat := (index.position offset).line + 1

theorem length_startsAfter (text : List Char) (offset : Nat) :
    (startsAfter offset text).length = text.count '\n' := by
  induction text generalizing offset with
  | nil => rfl
  | cons c cs ih =>
    by_cases h : c = '\n'
    · simp [startsAfter, h, ih]
    · simp [startsAfter, h, ih]

/-- A text has one line more than it has line feeds. -/
theorem lineCount_ofText (text : List Char) :
    (ofText text).lineCount = text.count '\n' + 1 := by
  simp [ofText, lineCount, length_startsAfter]

end LineIndex

/-- The line number, counted from 1, of a byte offset into a text. -/
def lineNumberAt (text : List Char) (offset : Nat) : Nat :=
  (LineIndex.ofText text).lineNumber offset

end SingleFile.Text
