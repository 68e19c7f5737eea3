/-
  SingleFile.Script.Enum — ENUMS AS PLAIN SCRIPT
  ──────────────────────────────────────────────
  An enum becomes a function that fills an object: every member by its name,
  and every numeric member also under its value.
-/
import SingleFile.Script.Edit
import SingleFile.Script.Syntax

namespace SingleFile.Script

open SingleFile.Text SingleFile.Number

/-! ## §1. Members -/

/-- What the value of a member is given by. -/
inductive EnumValue where
  /-- The member before it. -/
  | next
  | number (value : Binary64)
  /-- A string or template, as written. -/
  | string (text : String)
  /-- Any other expression, as written. -/
  | computed (text : String)
deriving DecidableEq, Repr, Inhabited

/-- A member: its key as it stands in brackets, and its value. -/
structure EnumMember where
  key : String
  value : EnumValue
deriving DecidableEq, Repr, Inhabited

/-- A name in double quotes. -/
def quoted (name : String) : String :=
  let escape (c : Char) : List Char := if c == '\\' || c == '"' then ['\\', c] else [c]
  String.ofList ('"' :: name.toList.flatMap escape ++ ['"'])

/-- The number that an expression spells. -/
def literalNumber? : Node → Option Binary64
  | .mk (.number value) _ _ => some value
  | .mk (.unary "-") _ [inner] => (literalNumber? inner).map Binary64.negate
  | .mk .paren _ [inner] => literalNumber? inner
  | _ => none

/-- The text at a span; empty where the span does not fit. -/
def textAt (source : List Char) (span : Span) : String :=
  String.ofList ((span.text? source).getD [])

/-- The value that an expression gives to a member. -/
def enumValue (source : List Char) (value : Node) : EnumValue :=
  match literalNumber? value with
  | some number => .number number
  | none =>
    match value.kind with
    | .string _ => .string (textAt source value.span)
    | .template => .string (textAt source value.span)
    | _ => .computed (textAt source value.span)

/-- A member of an enum from its node. -/
def enumMember (source : List Char) (node : Node) : Option EnumMember :=
  match node with
  -- A word has a node of its own in front of the value, a quoted key has none.
  | .mk (.enumMember (.word name)) _ [_, value] => some ⟨quoted name, enumValue source value⟩
  | .mk (.enumMember (.word name)) _ [_] => some ⟨quoted name, .next⟩
  | .mk (.enumMember (.quoted span)) _ [value] => some ⟨textAt source span, enumValue source value⟩
  | .mk (.enumMember (.quoted span)) _ _ => some ⟨textAt source span, .next⟩
  | _ => none

/-! ## §2. Text -/

/-- The text of a number: an integer below 10^15 has no sign of zero and no fraction. -/
def numberText (value : Binary64) : String :=
  let whole := value.truncate
  if value.isInteger && whole.natAbs < 1000000000000000 then
    if whole < 0 then "-" ++ Nat.repr whole.natAbs else Nat.repr whole.natAbs
  else value.toDecimalText

/-- What the next member counts on from. -/
inductive Counter where
  | at (value : Binary64)
  /-- One more than the member with a key. -/
  | after (key : String)

/-- The statement that gives a member its value and the value its name. -/
def bothWays (name key value : String) : String :=
  name ++ "[" ++ name ++ "[" ++ key ++ "] = " ++ value ++ "] = " ++ key ++ "; "

/-- The statement for a member, and what the next one counts on from. -/
def memberText (name : String) (counter : Counter) (member : EnumMember) : String × Counter :=
  let one := Binary64.ofNat 1
  let key := member.key
  -- Only a number is counted on from as such; behind any other value the next member counts on
  -- from what the object holds under the key.
  match member.value, counter with
  | .next, .at value => (bothWays name key (numberText value), .at (value.add one))
  | .next, .after previous =>
    (bothWays name key (name ++ "[" ++ previous ++ "] + 1"), .after key)
  | .number value, _ => (bothWays name key (numberText value), .at (value.add one))
  | .string text, _ => (name ++ "[" ++ key ++ "] = " ++ text ++ "; ", .after key)
  | .computed text, _ => (bothWays name key text, .after key)

/-- The statements for some members. -/
def membersText (name : String) : Counter → List EnumMember → String
  | _, [] => ""
  | counter, member :: rest =>
    let (text, counter) := memberText name counter member
    text ++ membersText name counter rest

/-- The statements an enum becomes. -/
def enumText (name : String) (members : List EnumMember) : String :=
  let body := membersText name (.at (Binary64.ofNat 0)) members
  "var " ++ name ++ "; (function (" ++ name ++ ") \x7b " ++ body ++ "\x7d)(" ++ name ++ " || ("
    ++ name ++ " = \x7b\x7d));"

end SingleFile.Script
