/-
  SingleFile.Text.Blank — WHITE SPACE
  ───────────────────────────────────
  Three classes of white space are in use and none of them is another one:
  the Unicode property `White_Space`, the ASCII blanks of markup, and the
  blanks and line ends of a script.
-/

namespace SingleFile.Text

/-! ## §1. The classes -/

/-- The characters with the Unicode property `White_Space`. -/
def isWhiteSpace (c : Char) : Bool :=
  let n := c.toNat
  (9 ≤ n && n ≤ 13) || n == 32 || n == 0x85 || n == 0xA0 || n == 0x1680
    || (0x2000 ≤ n && n ≤ 0x200A) || n == 0x2028 || n == 0x2029 || n == 0x202F
    || n == 0x205F || n == 0x3000

/-- Tab, line feed, form feed, carriage return and space. -/
def isAsciiBlank (c : Char) : Bool :=
  c == ' ' || c == '\t' || c == '\n' || c == '\r' || c == '\x0c'

/-- The characters that end a line of a script. -/
def isLineEnd (c : Char) : Bool :=
  c == '\n' || c == '\r' || c == '\u2028' || c == '\u2029'

/-- The characters between the tokens of one line of a script: tabs, form
feeds, the byte order mark and every space separator. -/
def isScriptBlank (c : Char) : Bool :=
  let n := c.toNat
  n == 9 || n == 11 || n == 12 || n == 32 || n == 0xA0 || n == 0xFEFF || n == 0x1680
    || (0x2000 ≤ n && n ≤ 0x200A) || n == 0x202F || n == 0x205F || n == 0x3000

/-! ## §2. Trimming -/

/-- A text without the white space at its end. -/
def trimRight (cs : List Char) : List Char :=
  (cs.reverse.dropWhile isWhiteSpace).reverse

/-- A text without the white space at its start. -/
def trimLeft (cs : List Char) : List Char := cs.dropWhile isWhiteSpace

/-- A text without the white space at either end. -/
def trim (cs : List Char) : List Char := trimRight (trimLeft cs)

end SingleFile.Text
