/-
  SingleFile.Script.Token — THE TOKENS OF A SCRIPT
  ────────────────────────────────────────────────
  A token is read on demand from the characters in front of it: what a slash
  or a closing brace begins depends on the grammar, so regular expressions
  and the chunks of a template have readers of their own, which the grammar
  calls.

  Reading never stops at a mistake it can read past; such a mistake is a
  `Notice` of the token.
-/
import SingleFile.Number.Binary64
import SingleFile.Text.Blank
import SingleFile.Text.CodeUnit
import SingleFile.Text.Cursor
import SingleFile.Text.Identifier
import SingleFile.Text.Span

namespace SingleFile.Script

open SingleFile.Text SingleFile.Number

/-! ## §1. Tokens -/

/-- Which scripts a notice is a mistake in. -/
inductive NoticeScope where
  | everywhere
  | strictCode
  | modules
deriving DecidableEq, Repr, Inhabited

/-- A mistake inside a token or the blanks before it. -/
structure Notice where
  offset : Nat
  scope : NoticeScope
deriving DecidableEq, Repr, Inhabited

/-- What a token is. -/
inductive Lexeme where
  /-- A name or reserved word, its escapes resolved. -/
  | word (text : String) (escaped : Bool)
  | number (value : Binary64)
  | bigint
  /-- A string; no value when it holds an unpaired surrogate. -/
  | string (value : Option String)
  | punct (text : String)
  | endOfText
  /-- Characters that begin no token, or a token with a mistake that ends it. -/
  | broken (offset : Nat)
deriving DecidableEq, Repr, Inhabited

/-- Whether a lexeme is a punctuator. -/
def Lexeme.isPunct (l : Lexeme) (text : String) : Bool :=
  match l with
  | .punct t => t == text
  | _ => false

/-- Whether a lexeme is a word. -/
def Lexeme.isWord (l : Lexeme) (text : String) : Bool :=
  match l with
  | .word t _ => t == text
  | _ => false

/-- Whether a lexeme is any word at all. -/
def Lexeme.isAnyWord (l : Lexeme) : Bool :=
  match l with
  | .word .. => true
  | _ => false

/-- A token with the characters behind it. -/
structure Token where
  lexeme : Lexeme
  span : Span
  newlineBefore : Bool
  notices : List Notice
  rest : List Char
deriving Repr, Inhabited

/-- The words a name cannot be, whatever the mode. -/
def reservedWords : List String :=
  ["null", "true", "false", "break", "case", "catch", "continue", "debugger", "default", "do",
    "export", "else", "finally", "for", "function", "if", "return", "switch", "throw", "try",
    "var", "const", "while", "with", "new", "this", "super", "class", "extends", "import", "in",
    "instanceof", "typeof", "void", "delete", "enum"]

/-- The words a name cannot be in strict code. -/
def strictReservedWords : List String :=
  ["implements", "interface", "let", "package", "private", "protected", "public", "static",
    "yield"]

/-! ## §2. Blanks and comments -/

/-- What has been seen on the way to the next token. -/
structure Gap where
  cursor : Cursor
  newline : Bool
  notices : List Notice
deriving Repr, Inhabited

/-- Over the rest of a line. -/
def overLine (c : Cursor) : Cursor := (c.overWhile fun ch => !isLineEnd ch).2

/-- Over a comment that ends at `*/`, with whether a line ended in it and whether it was closed. -/
def overBlockComment : Nat → List Char → Bool → Nat × List Char × Bool × Bool
  | offset, [], newline => (offset, [], newline, false)
  | offset, '*' :: '/' :: rest, newline => (offset + 2, rest, newline, true)
  | offset, c :: rest, newline =>
    overBlockComment (offset + c.utf8Size) rest (newline || isLineEnd c)

/-- Over blanks, line ends and comments.  `steps` bounds the number of pieces; each is at
least one character long. -/
def overGap : Nat → Gap → Gap
  | 0, g => g
  | steps + 1, g =>
    match g.cursor.rest with
    | [] => g
    | '/' :: '/' :: _ => overGap steps { g with cursor := overLine g.cursor }
    | '/' :: '*' :: rest =>
      let (offset, rest, newline, closed) := overBlockComment (g.cursor.offset + 2) rest false
      let notices := if closed then g.notices else g.notices ++ [⟨offset, .everywhere⟩]
      overGap steps ⟨⟨offset, rest⟩, g.newline || newline, notices⟩
    -- Old scripts in pages have comments of this form, and of the form below; modules do not.
    | '<' :: '!' :: '-' :: '-' :: _ =>
      overGap steps
        { g with
          cursor := overLine g.cursor
          notices := g.notices ++ [⟨g.cursor.offset, .modules⟩] }
    | c :: rest =>
      if isLineEnd c then overGap steps { g with cursor := g.cursor.next, newline := true }
      else if isScriptBlank c then overGap steps { g with cursor := g.cursor.next }
      else if g.newline && c == '-' && startsWith rest ['-', '>'] then
        overGap steps
          { g with cursor := overLine g.cursor,
                   notices := g.notices ++ [⟨g.cursor.offset, .modules⟩] }
      else g

/-! ## §3. Numbers -/

/-- The value of a digit in a base up to 16. -/
def digitOf? (base : Nat) (c : Char) : Option Nat :=
  let n := c.toNat
  let value :=
    if 48 ≤ n && n ≤ 57 then n - 48
    else if 97 ≤ n && n ≤ 102 then n - 87
    else if 65 ≤ n && n ≤ 70 then n - 55
    else base
  if value < base then some value else none

/-- A run of digits with separators between them. -/
structure Digits where
  values : List Nat
  separated : Bool
  notices : List Notice
  cursor : Cursor
deriving Repr, Inhabited

/-- Reads digits and underscores; an underscore has to stand between two digits. -/
def readDigits (base : Nat) (c : Cursor) : Digits :=
  let isDigit (ch : Char) := (digitOf? base ch).isSome
  let (taken, after) := c.overWhile fun ch => isDigit ch || ch == '_'
  let ends := match taken.head?, taken.getLast? with
    | some a, some b => a == '_' || b == '_'
    | _, _ => false
  let doubled := (taken.zip taken.tail).any fun p => p.1 == '_' && p.2 == '_'
  let notices := if ends || doubled then [⟨c.offset, .everywhere⟩] else []
  ⟨taken.filterMap (digitOf? base), taken.contains '_', notices, after⟩

/-- A number from decimal digits. -/
def ofDigits (base : Nat) (digits : List Nat) : Nat := digits.foldl (fun n d => n * base + d) 0

/-- A token without its place. -/
structure Piece where
  lexeme : Lexeme
  notices : List Notice
  cursor : Cursor
deriving Repr, Inhabited

/-- A mistake that ends the token. -/
def Piece.ofMistake (offset : Nat) (c : Cursor) : Piece := ⟨.broken offset, [], c⟩

/-- A number may not run into a name. -/
def endNumber (p : Piece) : Piece :=
  match p.cursor.rest with
  | c :: _ => if isIdStart c || c == '\\' then Piece.ofMistake p.cursor.offset p.cursor else p
  | [] => p

/-- A number after `0x`, `0o` or `0b`. -/
def readRadix (base : Nat) (c : Cursor) : Piece :=
  let digits := readDigits base c
  if digits.values.isEmpty then Piece.ofMistake digits.cursor.offset digits.cursor
  else if digits.cursor.rest.head? = some 'n' then
    endNumber ⟨.bigint, digits.notices, digits.cursor.next⟩
  else
    let value := digits.values.foldl (Binary64.appendDigit base) (Binary64.zero false)
    endNumber ⟨.number value, digits.notices, digits.cursor⟩

/-- The power of ten behind the digits of a decimal, if one follows. -/
def readExponent (c : Cursor) : Except Nat (Int × List Notice × Cursor) :=
  match c.rest with
  | ch :: _ =>
    if ch == 'e' || ch == 'E' then
      let (negative, c) := match c.next.rest with
        | '+' :: _ => (false, c.next.next)
        | '-' :: _ => (true, c.next.next)
        | _ => (false, c.next)
      let digits := readDigits 10 c
      if digits.values.isEmpty then .error digits.cursor.offset
      else
        let n : Int := ofDigits 10 digits.values
        .ok (if negative then -n else n, digits.notices, digits.cursor)
    else .ok (0, [], c)
  | [] => .ok (0, [], c)

/-- The fraction and power of ten behind the whole part of a decimal. -/
def readFraction (whole : List Nat) (notices : List Notice) (c : Cursor) : Piece :=
  let (fraction, more, c) := match c.rest with
    | '.' :: _ =>
      let digits := readDigits 10 c.next
      (digits.values, digits.notices, digits.cursor)
    | _ => ([], [], c)
  match readExponent c with
  | .error offset => Piece.ofMistake offset c
  | .ok (exponent, rest, c) =>
    let value := Binary64.ofDecimal false (ofDigits 10 (whole ++ fraction))
      (exponent - fraction.length)
    endNumber ⟨.number value, notices ++ more ++ rest, c⟩

/-- A number that begins with a digit.  A zero in front of further digits makes them octal,
unless one of them is 8 or 9; typed scripts never allow that form. -/
def readNumber (typed : Bool) (c : Cursor) : Piece :=
  match c.rest with
  | '0' :: 'x' :: _ => readRadix 16 (c.skip 2)
  | '0' :: 'X' :: _ => readRadix 16 (c.skip 2)
  | '0' :: 'o' :: _ => readRadix 8 (c.skip 2)
  | '0' :: 'O' :: _ => readRadix 8 (c.skip 2)
  | '0' :: 'b' :: _ => readRadix 2 (c.skip 2)
  | '0' :: 'B' :: _ => readRadix 2 (c.skip 2)
  | first :: _ =>
    let digits := readDigits 10 c
    let leadingZero := first == '0' && 1 < digits.values.length
    if digits.cursor.rest.head? = some 'n' && !leadingZero then
      endNumber ⟨.bigint, digits.notices, digits.cursor.next⟩
    else if leadingZero && digits.values.all (· < 8) then
      let always : List Notice := if typed then [⟨c.offset, .everywhere⟩] else []
      endNumber ⟨.number (Binary64.ofNat (ofDigits 8 digits.values)),
        digits.notices ++ always ++ [⟨c.offset, .strictCode⟩], digits.cursor⟩
    else
      let notices := if leadingZero then digits.notices ++ [⟨c.offset, .strictCode⟩]
        else digits.notices
      readFraction digits.values notices digits.cursor
  | [] => Piece.ofMistake c.offset c

/-! ## §4. Escapes -/

/-- Exactly `n` hexadecimal digits. -/
def readHex : Nat → Nat → Cursor → Option (Nat × Cursor)
  | 0, value, c => some (value, c)
  | n + 1, value, c =>
    match c.rest with
    | ch :: _ => (digitOf? 16 ch).bind fun d => readHex n (value * 16 + d) c.next
    | [] => none

/-- The code point behind `\u`: four digits, or any number of them in braces. -/
def readUnicodeEscape (c : Cursor) : Option (Nat × Cursor) :=
  match c.rest with
  | '{' :: _ =>
    let (taken, after) := c.next.overWhile fun ch => (digitOf? 16 ch).isSome
    let value := ofDigits 16 (taken.filterMap (digitOf? 16))
    if taken.isEmpty || 0x10FFFF < value || after.rest.head? != some '}' then none
    else some (value, after.next)
  | _ => readHex 4 0 c

/-- What an escape in a string stands for. -/
inductive Escape where
  | codes (codes : List Nat) (legacy : Bool) (cursor : Cursor)
  | wrong (cursor : Cursor)

/-- Up to two further octal digits, the whole staying below 256. -/
def readOctalEscape (first : Nat) (c : Cursor) : Nat × Cursor :=
  match c.rest with
  | a :: _ =>
    match digitOf? 8 a with
    | none => (first, c)
    | some d =>
      let two := first * 8 + d
      match c.next.rest with
      | b :: _ =>
        match digitOf? 8 b with
        -- With a first digit above 3 a third one would make 256 or more.
        | some d' => if first ≤ 3 then (two * 8 + d', c.next.next) else (two, c.next)
        | none => (two, c.next)
      | [] => (two, c.next)
  | [] => (first, c)

/-- Reads what follows a backslash in a string or template. -/
def readEscape (c : Cursor) : Escape :=
  match c.rest with
  | [] => .codes [] false c
  | ch :: _ =>
    let after := c.next
    match ch with
    | 'n' => .codes [10] false after
    | 't' => .codes [9] false after
    | 'r' => .codes [13] false after
    | 'b' => .codes [8] false after
    | 'v' => .codes [11] false after
    | 'f' => .codes [12] false after
    -- A line end behind a backslash stands for nothing.
    | '\r' => .codes [] false (if after.rest.head? = some '\n' then after.next else after)
    | '\n' => .codes [] false after
    | '\u2028' => .codes [] false after
    | '\u2029' => .codes [] false after
    | 'x' =>
      match readHex 2 0 after with
      | some (value, c) => .codes [value] false c
      | none => .wrong after
    | 'u' =>
      match readUnicodeEscape after with
      | some (value, c) => .codes [value] false c
      | none => .wrong after
    | '0' =>
      match after.rest with
      | d :: _ =>
        if (digitOf? 10 d).isSome then
          let (value, c) := readOctalEscape 0 after
          .codes [value] true c
        else .codes [0] false after
      | [] => .codes [0] false after
    | _ =>
      match digitOf? 8 ch with
      | some d =>
        let (value, c) := readOctalEscape d after
        .codes [value] true c
      -- Any other character stands for itself, 8 and 9 outside strict code only.
      | none => .codes [ch.toNat] (ch == '8' || ch == '9') after

/-! ## §5. Strings, names and the rest -/

/-- Reads a string up to its closing quote, the line's end or the end of the text.  The codes
are collected backwards. -/
def readStringCodes (quote : Char) (start : Nat) : Nat → Cursor → List Nat → List Notice → Piece
  | 0, c, _, _ => Piece.ofMistake start c
  | steps + 1, c, codes, notices =>
    let finish (c : Cursor) (notices : List Notice) : Piece :=
      ⟨.string ((textOfCodes? codes.reverse).map String.ofList), notices, c⟩
    match c.rest with
    | [] => finish c (notices ++ [⟨start, .everywhere⟩])
    | ch :: _ =>
      if ch == quote then finish c.next notices
      -- A string that its line ends is read as if it were closed there.
      else if ch == '\n' || ch == '\r' then finish c (notices ++ [⟨start, .everywhere⟩])
      else if ch == '\\' then
        match readEscape c.next with
        | .codes more legacy after =>
          let notices := if legacy then notices ++ [⟨c.offset, .strictCode⟩] else notices
          readStringCodes quote start steps after (more.reverse ++ codes) notices
        | .wrong after => Piece.ofMistake c.offset after
      else readStringCodes quote start steps c.next (ch.toNat :: codes) notices

/-- A string token. -/
def readString (quote : Char) (c : Cursor) : Piece :=
  readStringCodes quote c.offset (c.rest.length + 1) c.next [] []

/-- Reads the characters of a name, backwards; an escape has to stand for a character of one. -/
def readWordChars : Nat → Cursor → List Char → Bool → Except Nat (List Char × Bool × Cursor)
  | 0, c, _, _ => .error c.offset
  | steps + 1, c, taken, escaped =>
    match c.rest with
    | [] => .ok (taken, escaped, c)
    | '\\' :: 'u' :: _ =>
      match readUnicodeEscape (c.skip 2) with
      | some (value, after) =>
        let ch := Char.ofNat value
        let fits := if taken.isEmpty then isIdStart ch else isIdContinue ch
        if fits then readWordChars steps after (ch :: taken) true else .error c.offset
      | none => .error c.offset
    | '\\' :: _ => .error c.offset
    | ch :: _ =>
      if isIdContinue ch then readWordChars steps c.next (ch :: taken) escaped
      else .ok (taken, escaped, c)

/-- A name or word.  A reserved word has to be written without escapes. -/
def readWord (c : Cursor) : Piece :=
  match readWordChars (c.rest.length + 1) c [] false with
  | .error offset => Piece.ofMistake offset c
  | .ok (taken, escaped, after) =>
    let text := String.ofList taken.reverse
    if escaped && reservedWords.contains text then Piece.ofMistake c.offset after
    else ⟨.word text escaped, [], after⟩

/-- The longest punctuator at the start of a text and its length. -/
def punctuator? : List Char → Option (String × Nat)
  | '.' :: '.' :: '.' :: _ => some ("...", 3)
  | '.' :: _ => some (".", 1)
  | '=' :: '=' :: '=' :: _ => some ("===", 3)
  | '=' :: '=' :: _ => some ("==", 2)
  | '=' :: '>' :: _ => some ("=>", 2)
  | '=' :: _ => some ("=", 1)
  | '!' :: '=' :: '=' :: _ => some ("!==", 3)
  | '!' :: '=' :: _ => some ("!=", 2)
  | '!' :: _ => some ("!", 1)
  | '<' :: '<' :: '=' :: _ => some ("<<=", 3)
  | '<' :: '<' :: _ => some ("<<", 2)
  | '<' :: '=' :: _ => some ("<=", 2)
  | '<' :: _ => some ("<", 1)
  | '>' :: '>' :: '>' :: '=' :: _ => some (">>>=", 4)
  | '>' :: '>' :: '>' :: _ => some (">>>", 3)
  | '>' :: '>' :: '=' :: _ => some (">>=", 3)
  | '>' :: '>' :: _ => some (">>", 2)
  | '>' :: '=' :: _ => some (">=", 2)
  | '>' :: _ => some (">", 1)
  | '+' :: '+' :: _ => some ("++", 2)
  | '+' :: '=' :: _ => some ("+=", 2)
  | '+' :: _ => some ("+", 1)
  | '-' :: '-' :: _ => some ("--", 2)
  | '-' :: '=' :: _ => some ("-=", 2)
  | '-' :: _ => some ("-", 1)
  | '*' :: '*' :: '=' :: _ => some ("**=", 3)
  | '*' :: '*' :: _ => some ("**", 2)
  | '*' :: '=' :: _ => some ("*=", 2)
  | '*' :: _ => some ("*", 1)
  | '/' :: '=' :: _ => some ("/=", 2)
  | '/' :: _ => some ("/", 1)
  | '%' :: '=' :: _ => some ("%=", 2)
  | '%' :: _ => some ("%", 1)
  | '&' :: '&' :: '=' :: _ => some ("&&=", 3)
  | '&' :: '&' :: _ => some ("&&", 2)
  | '&' :: '=' :: _ => some ("&=", 2)
  | '&' :: _ => some ("&", 1)
  | '|' :: '|' :: '=' :: _ => some ("||=", 3)
  | '|' :: '|' :: _ => some ("||", 2)
  | '|' :: '=' :: _ => some ("|=", 2)
  | '|' :: _ => some ("|", 1)
  | '^' :: '=' :: _ => some ("^=", 2)
  | '^' :: _ => some ("^", 1)
  | '?' :: '?' :: '=' :: _ => some ("??=", 3)
  | '?' :: '?' :: _ => some ("??", 2)
  | '?' :: '.' :: d :: _ => if (digitOf? 10 d).isSome then some ("?", 1) else some ("?.", 2)
  | '?' :: '.' :: [] => some ("?.", 2)
  | '?' :: _ => some ("?", 1)
  | '{' :: _ => some ("\x7b", 1)
  | '}' :: _ => some ("\x7d", 1)
  | '(' :: _ => some ("(", 1)
  | ')' :: _ => some (")", 1)
  | '[' :: _ => some ("[", 1)
  | ']' :: _ => some ("]", 1)
  | ';' :: _ => some (";", 1)
  | ',' :: _ => some (",", 1)
  | ':' :: _ => some (":", 1)
  | '~' :: _ => some ("~", 1)
  | '@' :: _ => some ("@", 1)
  | '#' :: _ => some ("#", 1)
  | '\x60' :: _ => some ("\x60", 1)
  | _ => none

/-- Reads one token at a cursor that stands on no blank. -/
def readPiece (typed : Bool) (c : Cursor) : Piece :=
  match c.rest with
  | [] => ⟨.endOfText, [], c⟩
  | ch :: rest =>
    if isIdStart ch || ch == '\\' then readWord c
    else if (digitOf? 10 ch).isSome then readNumber typed c
    else if ch == '.' && (rest.head?.bind (digitOf? 10)).isSome then readFraction [] [] c
    else if ch == '"' || ch == '\'' then readString ch c
    else match punctuator? c.rest with
      | some (text, n) => ⟨.punct text, [], c.skip n⟩
      | none => Piece.ofMistake c.offset c.next

/-- The next token of a text.  `newline` tells whether the cursor counts as the start of a line. -/
def readToken (typed newline : Bool) (c : Cursor) : Token :=
  let gap := overGap (c.rest.length + 1) ⟨c, newline, []⟩
  let piece := readPiece typed gap.cursor
  ⟨piece.lexeme, ⟨gap.cursor.offset, piece.cursor.offset⟩, gap.newline,
    gap.notices ++ piece.notices, piece.cursor.rest⟩

/-! ## §6. Tokens that the grammar asks for -/

/-- Over the body of a regular expression, behind its first slash; a slash inside brackets
does not end it. -/
def overRegex : Nat → Cursor → Bool → Option Cursor
  | 0, _, _ => none
  | steps + 1, c, inClass =>
    match c.rest with
    | [] => none
    | ch :: _ =>
      if isLineEnd ch then none
      else if ch == '\\' then
        match c.next.rest with
        | [] => none
        | escaped :: _ => if isLineEnd escaped then none else overRegex steps c.next.next inClass
      else if ch == '[' then overRegex steps c.next true
      else if ch == ']' then overRegex steps c.next false
      else if ch == '/' && !inClass then some c.next
      else overRegex steps c.next inClass

/-- A stretch of template text. -/
structure Chunk where
  /-- Whether all its escapes are well formed. -/
  valid : Bool
  /-- Whether a substitution follows, or else the end of the template. -/
  substitution : Bool
  cursor : Cursor
deriving Repr, Inhabited

/-- Reads template text up to the next substitution or the end of the template. -/
def readChunk : Nat → Cursor → Bool → Option Chunk
  | 0, _, _ => none
  | steps + 1, c, valid =>
    match c.rest with
    | [] => none
    | '\x60' :: _ => some ⟨valid, false, c.next⟩
    | '$' :: '{' :: _ => some ⟨valid, true, c.skip 2⟩
    | '\\' :: _ =>
      match readEscape c.next with
      | .codes _ legacy after => readChunk steps after (valid && !legacy)
      | .wrong _ => readChunk steps c.next.next false
    | _ => readChunk steps c.next valid

end SingleFile.Script
