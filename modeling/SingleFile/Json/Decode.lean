/-
  SingleFile.Json.Decode — DATA FROM TERMS
  ────────────────────────────────────────
  A record is written as an object, whose unknown members are passed over, or
  as an array of its fields in order.  In an object a field may be left out;
  an array may stop short only of fields that have a default.

  Containers may be nested to a depth only; a part that is passed over may be
  nested deeper.
-/
import SingleFile.Json.Term

namespace SingleFile.Json

/-! ## §1. Decoders -/

/-- Data from a term in which no more than some containers are nested. -/
abbrev Decoder (α : Type) := Nat → Term → Option α

/-- How many containers may be nested in a text. -/
def textLevels : Nat := 127

/-- Data from a text. -/
def decodeText? {α : Type} (decoder : Decoder α) (text : List Char) : Option α := do
  let term ← Term.ofText? text
  decoder textLevels term

/-- Data from a value. -/
def decodeValue? {α : Type} (decoder : Decoder α) (value : Value) : Option α :=
  let term := Term.ofValue value
  decoder term.depth term

namespace Decoder

/-- A string. -/
def text : Decoder String := fun _ t =>
  match t with
  | .string s => s
  | _ => none

/-- A truth value. -/
def bool : Decoder Bool := fun _ t =>
  match t with
  | .bool b => some b
  | _ => none

/-- Any value. -/
def value : Decoder Value := fun levels t => t.value? levels

/-- Something that may be null. -/
def nullable {α : Type} (d : Decoder α) : Decoder (Option α) := fun levels t =>
  match t with
  | .null => some none
  | t => (d levels t).map some

/-- An array. -/
def list {α : Type} (d : Decoder α) : Decoder (List α) := fun levels t =>
  match levels, t with
  | levels + 1, .array items => items.mapM (d levels)
  | _, _ => none

end Decoder

/-! ## §2. Records -/

/-- What is known of a field of a record. -/
inductive Field where
  /-- An object without the field. -/
  | absent
  /-- An array that ends before the field. -/
  | cut
  | present (levels : Nat) (term : Term)
deriving Inhabited

namespace Field

/-- A field that has to be there. -/
def required {α : Type} (d : Decoder α) : Field → Option α
  | present levels t => d levels t
  | _ => none

/-- A field that may be null, or left out of an object. -/
def optional {α : Type} (d : Decoder α) : Field → Option (Option α)
  | present levels t => d.nullable levels t
  | absent => some none
  | cut => none

/-- A field that may be left out, with the value it then has. -/
def withDefault {α : Type} (d : Decoder α) (default : α) : Field → Option α
  | present levels t => d levels t
  | _ => some default

end Field

/-- The field of an object with a name, which may occur once only. -/
def fieldOf? (levels : Nat) (members : List (Option String × Term)) (name : String) :
    Option Field :=
  match members.filter fun m => m.1 == some name with
  | [] => some .absent
  | [m] => some (.present levels m.2)
  | _ => none

/-- The fields of an array: some of it, and nothing behind them. -/
def fieldsInOrder? (levels : Nat) : List String → List Term → Option (List Field)
  | [], [] => some []
  | [], _ :: _ => none
  | _ :: names, [] => (fieldsInOrder? levels names []).map (.cut :: ·)
  | _ :: names, t :: rest => (fieldsInOrder? levels names rest).map (.present levels t :: ·)

/-- The fields of a record, in the order of their names. -/
def recordFields? (names : List String) : Decoder (List Field) := fun levels t =>
  match levels, t with
  | levels + 1, .object members =>
    if members.all fun m => m.1.isSome then names.mapM (fieldOf? levels members) else none
  | levels + 1, .array items => fieldsInOrder? levels names items
  | _, _ => none

end SingleFile.Json
