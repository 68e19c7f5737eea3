/-
  SingleFile.Config.Literal — CONFIGURATION WRITTEN AS A SCRIPT
  ─────────────────────────────────────────────────────────────
  A script may export its configuration as an object literal.  The object is
  read, not evaluated: everything in it has to be a literal.
-/
import SingleFile.Config.Failure
import SingleFile.Json.Value
import SingleFile.Script.Parse

namespace SingleFile.Config

open SingleFile.Json SingleFile.Script SingleFile.Number

/-! ## §1. Values of literals -/

/-- The value of a number, if JSON can hold it. -/
def realValue? (x : Binary64) : Option Value :=
  match x with
  | .finite .. => some (.number (.real x))
  | _ => none

/-- The key of a property. -/
def literalKey? : Kind → Option String
  | .fieldName name => some name
  | .string text => text
  | .number value => some value.toDecimalText
  | _ => none

/-- The value of a number with a minus in front. -/
def negatedValue? (n : Node) : Option Value :=
  match n.unwrapped with
  | .mk (.number value) _ _ => realValue? value.negate
  | _ => none

mutual

/-- The value of an expression made of literals. -/
def literalValue? : Node → Option Value
  | .mk kind _ children =>
    match kind, children with
    | .paren, [inner] => literalValue? inner
    | .object, properties => (literalMembers? properties []).map .object
    | .array, items => (literalItems? items).map .array
    | .string text, _ => text.map .string
    | .boolean b, _ => some (.bool b)
    | .null, _ => some .null
    | .number value, _ => realValue? value
    | .unary "-", [inner] => negatedValue? inner
    | .ident "undefined", _ => some .null
    | _, _ => none

/-- The values of the items of an array; a hole is null. -/
def literalItems? : List Node → Option (List Value)
  | [] => some []
  | n :: rest => do
    let value ← if n.kind == .hole then some .null else literalValue? n
    return value :: (← literalItems? rest)

/-- The members that properties add to others. -/
def literalMembers? : List Node → List (String × Value) → Option (List (String × Value))
  | [], members => some members
  | .mk .keyValue _ [key, value] :: rest, members => do
    let name ← literalKey? key.kind
    let value ← literalValue? value
    literalMembers? rest (Value.put members name value)
  | _ :: _, _ => none

end

/-! ## §2. Exports -/

/-- Whether a node is a member of a name's. -/
def isMemberOf (object field : String) (n : Node) : Bool :=
  match n with
  | .mk .member _ [.mk (.ident name) _ _, .mk (.fieldName part) _ _] =>
    name == object && part == field
  | _ => false

/-- What an item of a program exports as the configuration. -/
def exported? (item : Node) : Option Node :=
  match item with
  | .mk .exportDefaultExpr _ [value] => some value
  | .mk .expression _ [.mk (.assign _) _ [target, value]] =>
    if isMemberOf "module" "exports" target then some value else none
  | _ => none

/-- The configuration that the items of a program export. -/
def exportedValue (items : List Node) : Except FailureCause Value :=
  match items.findSome? exported? with
  | none => .error (.unsupported .noExport)
  | some value =>
    match value.unwrapped.kind, literalValue? value with
    | .object, some config => .ok config
    | .object, none => .error (.unsupported .notLiteral)
    | _, _ => .error (.unsupported .notAnObject)

/-- The configuration that a script exports.  Mistakes that do not end its reading do not
count. -/
def scriptValue (source : List Char) : Except FailureCause Value :=
  match (readProgram ⟨false, false⟩ true (withoutMark source)).program with
  | .error _ => .error .malformed
  | .ok program => exportedValue program.items

end SingleFile.Config
