/-
  SingleFile.Config.Comments — JSON WITH COMMENTS
  ───────────────────────────────────────────────
  Configuration files may have comments, and commas behind the last item of
  a list.  Both are taken out of the text before it is read as JSON; strings
  are left alone.
-/
import SingleFile.Text.Blank

namespace SingleFile.Config

open SingleFile.Text

/-! ## §1. Comments -/

/-- Where a character of a text stands. -/
inductive Place where
  | code
  | string
  | lineComment
  | blockComment
deriving DecidableEq, Repr, Inhabited

/-- A text without its comments.  The line feed behind a comment up to the end of its line
stays. -/
def withoutComments : Place → List Char → List Char
  | _, [] => []
  | .code, '"' :: rest => '"' :: withoutComments .string rest
  | .code, '/' :: '/' :: rest => withoutComments .lineComment rest
  | .code, '/' :: '*' :: rest => withoutComments .blockComment rest
  | .code, c :: rest => c :: withoutComments .code rest
  | .string, '"' :: rest => '"' :: withoutComments .code rest
  | .string, '\\' :: c :: rest => '\\' :: c :: withoutComments .string rest
  | .string, c :: rest => c :: withoutComments .string rest
  | .lineComment, '\n' :: rest => '\n' :: withoutComments .code rest
  | .lineComment, _ :: rest => withoutComments .lineComment rest
  | .blockComment, '*' :: '/' :: rest => withoutComments .code rest
  | .blockComment, _ :: rest => withoutComments .blockComment rest

/-! ## §2. Commas -/

/-- Whether a closing bracket comes next. -/
def closesNext (text : List Char) : Bool :=
  match trimLeft text with
  | '\x7d' :: _ => true
  | ']' :: _ => true
  | _ => false

/-- A text without the commas in front of closing brackets. -/
def withoutCommas (inString : Bool) : List Char → List Char
  | [] => []
  | '\\' :: c :: rest =>
    if inString then '\\' :: c :: withoutCommas true rest
    else '\\' :: withoutCommas false (c :: rest)
  | ',' :: rest =>
    if !inString && closesNext rest then withoutCommas false rest
    else ',' :: withoutCommas inString rest
  | c :: rest => c :: withoutCommas (if c == '"' then !inString else inString) rest

/-- The JSON text that is left of a text with comments. -/
def plainJson (text : List Char) : List Char := withoutCommas false (withoutComments .code text)

end SingleFile.Config
