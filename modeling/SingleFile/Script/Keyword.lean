/-
  SingleFile.Script.Keyword — WORDS AROUND A PLACE
  ────────────────────────────────────────────────
  Syntax trees do not record where modifiers stand.  They are found again in
  the text, by looking backwards from a key over white space and words.

  To look, the text is cut, which is possible between two characters only.
  Nothing is found at any other offset; who looks there does not get on
  (`Action.look`).
-/
import SingleFile.Text.Blank
import SingleFile.Text.Span

namespace SingleFile.Script

open SingleFile.Text

/-! ## §1. Looking forwards -/

/-- The text from an offset on; nothing where the offset splits a character. -/
def textFrom (source : List Char) (offset : Nat) : List Char :=
  match splitAt? source offset with
  | some (_, rest) => rest
  | none => []

/-- The offset behind the blanks at an offset. -/
def skipBlanks (source : List Char) (offset : Nat) : Nat :=
  offset + byteLength ((textFrom source offset).takeWhile isAsciiBlank)

/-- Whether a word stands at an offset. -/
def standsAt (source : List Char) (offset : Nat) (word : String) : Bool :=
  startsWith (textFrom source offset) word.toList

/-- The offset behind a word at an offset and the blanks that follow it; the same offset if the
word is not there. -/
def behindKeyword (source : List Char) (offset : Nat) (word : String) : Nat :=
  if standsAt source offset word then skipBlanks source (offset + word.utf8ByteSize) else offset

/-! ## §2. Looking backwards -/

/-- The text in front of an offset, backwards; nothing where the offset splits a character. -/
def textBefore (source : List Char) (offset : Nat) : List Char :=
  match splitAt? source offset with
  | some (before, _) => before.reverse
  | none => []

/-- Where a word begins that only white space separates from an offset behind it. -/
def keywordBefore? (source : List Char) (offset : Nat) (word : String) : Option Nat :=
  let before := (textBefore source offset).dropWhile isWhiteSpace
  if startsWith before word.toList.reverse then
    some (byteLength before - word.utf8ByteSize)
  else none

/-- Where a declaration begins, counting a word in front of it in. -/
def extendedStart (source : List Char) (start : Nat) (word : String) : Nat :=
  if standsAt source start word then start else (keywordBefore? source start word).getD start

/-- Whether a text ends with a semicolon at an offset. -/
def endsWithSemicolon (source : List Char) (offset : Nat) : Bool :=
  (textBefore source offset).head? == some ';'

/-! ## §3. Modifiers -/

/-- The modifiers that only typed scripts have. -/
def typedModifiers : List String :=
  ["public", "private", "protected", "readonly", "override", "declare", "abstract"]

/-- The modifiers that every script has. -/
def plainModifiers : List String := ["static", "async", "get", "set", "accessor"]

/-- A modifier and where it stands. -/
structure Modifier where
  start : Nat
  stop : Nat
  isTyped : Bool
deriving DecidableEq, Repr, Inhabited

/-- Whether a character is one of a modifier word. -/
def isWordChar (c : Char) : Bool := c.isAlphanum || c == '_' || c == '$'

/-- The modifiers at the end of a text that starts at an offset, the last one first.  The text
is given backwards; each step takes at least one character from it. -/
def modifiersBackwards (floor : Nat) : Nat → List Char → List Modifier
  | 0, _ => []
  | bound + 1, text =>
    let text := text.dropWhile isWhiteSpace
    let word := text.takeWhile isWordChar
    let before := text.drop word.length
    match word, before with
    -- The star of a generator stands between its modifiers and its key.
    | [], '*' :: rest => modifiersBackwards floor bound rest
    | [], _ => []
    | _ :: _, _ =>
      let spelled := String.ofList word.reverse
      let isTyped := typedModifiers.contains spelled
      if isTyped || plainModifiers.contains spelled then
        let start := floor + byteLength before
        ⟨start, start + byteLength word, isTyped⟩ :: modifiersBackwards floor bound before
      -- Any other word belongs to what is in front of the member.
      else []

/-- The modifiers between two offsets, the last one first; none where one of the offsets splits a
character. -/
def modifiersBetween (source : List Char) (floor key : Nat) : List Modifier :=
  let floor := min floor key
  let text := ((slice? source floor key).getD []).reverse
  modifiersBackwards floor (text.length + 1) text

end SingleFile.Script
