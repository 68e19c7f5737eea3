/-
  SingleFile.LineMap.Vlq — NUMBERS OF VARIABLE LENGTH
  ───────────────────────────────────────────────────
  A signed 64-bit number is written as base-64 digits that carry five bits
  each, the lowest first.  The sixth bit of a digit tells that another one
  follows; the lowest bit of the number is its sign.
-/

namespace SingleFile.LineMap.Vlq

/-! ## §1. Digits -/

/-- The characters of the base-64 digits. -/
def alphabet : List Char :=
  "ABCDEFGHIJKLMNOPQRSTUVWXYZabcdefghijklmnopqrstuvwxyz0123456789+/".toList

/-- The character of a digit. -/
def digitChar (digit : Nat) : Char := alphabet.getD digit 'A'

/-- The digits of a number, the lowest first. -/
def digits (n : Nat) : List Nat :=
  if n / 32 = 0 then [n % 32] else (n % 32 + 32) :: digits (n / 32)
termination_by n

/-! ## §2. Numbers -/

/-- A number with its sign moved to the lowest bit.  The magnitude of the least number does not
fit and is cut to 64 bits. -/
def signToLowBit (value : Int64) : UInt64 :=
  if value < 0 then ((0 - value.toUInt64) <<< 1) ||| 1 else value.toUInt64 <<< 1

/-- The text of a number. -/
def encode (value : Int64) : List Char :=
  (digits (signToLowBit value).toNat).map digitChar

end SingleFile.LineMap.Vlq
