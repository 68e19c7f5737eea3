/-
  SingleFile.Json.Value — JSON VALUES
  ───────────────────────────────────
  A number is an integer where it is written as one, and a double else.  The
  keys of an object are all different.
-/
import SingleFile.Number.Binary64

namespace SingleFile.Json

open SingleFile.Number

/-! ## §1. Values -/

/-- A number. -/
inductive Number where
  | integer (value : Int)
  | real (value : Binary64)
deriving DecidableEq, Repr, Inhabited

/-- A JSON value. -/
inductive Value where
  | null
  | bool (value : Bool)
  | number (value : Number)
  | string (value : String)
  | array (items : List Value)
  | object (members : List (String × Value))
deriving Repr, Inhabited

namespace Value

/-- The value of a natural number. -/
def ofNat (n : Nat) : Value := .number (.integer n)

/-- The value of something that may be missing. -/
def ofOption {α : Type} (f : α → Value) : Option α → Value
  | some a => f a
  | none => .null

/-- The value of a text that may be missing. -/
def ofText? (text : Option String) : Value := ofOption string text

/-! ## §2. Objects -/

/-- Puts a member into an object, in place of one with the same key. -/
def put (members : List (String × Value)) (key : String) (value : Value) :
    List (String × Value) :=
  if members.any fun m => m.1 == key then
    members.map fun m => if m.1 == key then (key, value) else m
  else members ++ [(key, value)]

/-- The member of an object with a key. -/
def member? (value : Value) (key : String) : Option Value :=
  match value with
  | .object members => members.lookup key
  | _ => none

/-- The text that a value is. -/
def text? : Value → Option String
  | .string s => some s
  | _ => none

end Value

end SingleFile.Json
