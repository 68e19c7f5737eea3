/-
  SingleFile.Markup.Token — THE TOKENS OF A TAG
  ─────────────────────────────────────────────
  Only the inside of tags is cut into tokens.  A token is as long as
  possible; what begins a token and cannot be finished is an error as long as
  it could be read.
-/
import SingleFile.Text.Blank
import SingleFile.Text.Cursor
import SingleFile.Text.Span

namespace SingleFile.Markup

open SingleFile.Text

/-! ## §1. Kinds -/

/-- The kinds of tokens. -/
inductive TokenKind where
  /-- An opening bracket and a tag name. -/
  | tagOpen
  /-- An opening bracket, a slash and a tag name. -/
  | closeTagOpen
  | rightAngle
  | slashRightAngle
  | equals
  | doubleQuoted
  | singleQuoted
  /-- An attribute name, or a value without quotes. -/
  | name
  | slash
  | endOfText
  | error
deriving DecidableEq, Repr, Inhabited

/-- What a kind of token is called. -/
def TokenKind.title : TokenKind → String
  | tagOpen => "'<tag'"
  | closeTagOpen => "'</tag'"
  | rightAngle => "'>'"
  | slashRightAngle => "'/>'"
  | equals => "'='"
  | doubleQuoted => "quoted value"
  | singleQuoted => "quoted value"
  | name => "name"
  | slash => "'/'"
  | endOfText => "end of file"
  | error => "error"

/-- Whether tokens of a kind have quotes around them. -/
def TokenKind.isQuoted (kind : TokenKind) : Bool := kind == doubleQuoted || kind == singleQuoted

/-- A token with its text. -/
structure Token where
  kind : TokenKind
  start : Nat
  text : List Char
deriving DecidableEq, Repr, Inhabited

/-- Where a token stops. -/
def Token.stop (t : Token) : Nat := t.start + byteLength t.text

/-- Where a token stands.  Offsets are 32-bit numbers, so this is about texts below 4 GiB, as
component files are: behind them the offset of a token would begin again at zero. -/
def Token.span (t : Token) : Span := ⟨t.start, t.stop⟩

/-- The text between the quotes of a quoted token, or else all of it. -/
def Token.value (t : Token) : List Char :=
  if t.kind.isQuoted then (t.text.drop 1).dropLast else t.text

/-! ## §2. Character classes -/

/-- Whether a character can be part of a tag name. -/
def isTagNameChar (c : Char) : Bool := !isWhiteSpace c && c != '/' && c != '>'

/-- Whether a character can be part of an attribute name. -/
def isNameChar (c : Char) : Bool :=
  !isWhiteSpace c && c != '"' && c != '\'' && c != '<' && c != '>' && c != '/' && c != '='

/-! ## §3. Reading -/

/-- The kind of the token at the start of a text that begins with no blank, and the number of
its characters. -/
def tokenAt : List Char → TokenKind × Nat
  | [] => (.endOfText, 0)
  | '<' :: '/' :: c :: rest =>
    if c.isAlpha then (.closeTagOpen, 3 + (rest.takeWhile isTagNameChar).length) else (.error, 2)
  | '<' :: '/' :: [] => (.error, 2)
  | '<' :: c :: rest =>
    if c.isAlpha then (.tagOpen, 2 + (rest.takeWhile isTagNameChar).length) else (.error, 1)
  | '<' :: [] => (.error, 1)
  | '>' :: _ => (.rightAngle, 1)
  | '/' :: '>' :: _ => (.slashRightAngle, 2)
  | '/' :: _ => (.slash, 1)
  | '=' :: _ => (.equals, 1)
  | '"' :: rest => quotedAt '"' .doubleQuoted rest
  | '\'' :: rest => quotedAt '\'' .singleQuoted rest
  | c :: rest =>
    if isNameChar c then (.name, 1 + (rest.takeWhile isNameChar).length) else (.error, 1)
where
  /-- The token behind an opening quote: up to the closing one, or else an error up to the
  end. -/
  quotedAt (quote : Char) (kind : TokenKind) (rest : List Char) : TokenKind × Nat :=
    let inside := rest.takeWhile (· != quote)
    if inside.length < rest.length then (kind, inside.length + 2) else (.error, rest.length + 1)

/-- The next token and the place behind it. -/
def nextToken (c : Cursor) : Token × Cursor :=
  let c := (c.overWhile isAsciiBlank).2
  let (kind, length) := tokenAt c.rest
  let text := c.rest.take length
  (⟨kind, c.offset, text⟩, ⟨c.offset + byteLength text, c.rest.drop length⟩)

/-- The tokens from a place on, the last one being the end of the text.  Every other token has a
character, so the number of characters bounds the tokens. -/
def tokensFrom : Nat → Cursor → List Token
  | 0, _ => []
  | bound + 1, c =>
    let (token, c) := nextToken c
    if token.kind == .endOfText then [token] else token :: tokensFrom bound c

/-- The tokens of a text from a byte offset on; an offset that is no place of the text leaves
the end of the text alone. -/
def tokensAt (text : List Char) (offset : Nat) : List Token :=
  match splitAt? text offset with
  | some (_, rest) => tokensFrom (rest.length + 1) ⟨offset, rest⟩
  | none => [⟨.endOfText, offset, []⟩]

end SingleFile.Markup
