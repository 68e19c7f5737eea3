/-
  SingleFile.Json.Writer — WRITING JSON
  ─────────────────────────────────────
  A value is written on one line without blanks.  Strings escape quotes,
  backslashes and control characters only.
-/
import SingleFile.Json.Value

namespace SingleFile.Json

open SingleFile.Number

/-! ## §1. Strings -/

/-- The digit of a value below 16. -/
def hexDigit (n : Nat) : Char := if n < 10 then Char.ofNat (48 + n) else Char.ofNat (87 + n)

/-- How a character is written in a string. -/
def escapeChar (c : Char) : List Char :=
  match c with
  | '"' => ['\\', '"']
  | '\\' => ['\\', '\\']
  | '\x08' => ['\\', 'b']
  | '\x0c' => ['\\', 'f']
  | '\n' => ['\\', 'n']
  | '\r' => ['\\', 'r']
  | '\t' => ['\\', 't']
  | c =>
    if c.toNat < 32 then ['\\', 'u', '0', '0', hexDigit (c.toNat / 16), hexDigit (c.toNat % 16)]
    else [c]

/-- A string in quotes. -/
def writeString (s : String) : String :=
  String.ofList ('"' :: s.toList.flatMap escapeChar ++ ['"'])

/-! ## §2. Numbers -/

/-- A double as digits and a power of ten; there is no text for what is no number. -/
def writeReal : Binary64 → String
  | .finite negative m e =>
    let (digits, exponent) := if m = 0 then (0, 0) else Binary64.shortestDigits m e
    (if negative then "-" else "") ++ Nat.repr digits ++ "e"
      ++ (if exponent < 0 then "-" else "") ++ Nat.repr exponent.natAbs
  | _ => "null"

/-- A number. -/
def writeNumber : Number → String
  | .integer n => (if n < 0 then "-" else "") ++ Nat.repr n.natAbs
  | .real x => writeReal x

/-! ## §3. Values -/

mutual

/-- A value on one line. -/
def Value.write : Value → String
  | .null => "null"
  | .bool b => if b then "true" else "false"
  | .number n => writeNumber n
  | .string s => writeString s
  | .array items => "[" ++ ",".intercalate (writeItems items) ++ "]"
  | .object members => "\x7b" ++ ",".intercalate (writeMembers members) ++ "\x7d"

/-- The texts of some values. -/
def writeItems : List Value → List String
  | [] => []
  | v :: rest => v.write :: writeItems rest

/-- The texts of the members of an object. -/
def writeMembers : List (String × Value) → List String
  | [] => []
  | (key, v) :: rest => (writeString key ++ ":" ++ v.write) :: writeMembers rest

end

end SingleFile.Json
