/-
  SingleFile.Proofs.LineMap.Vlq — READING NUMBERS BACK
  ────────────────────────────────────────────────────
  A number of variable length ends by itself: its last digit is the only one
  below 32.  So a reader needs no length, and numbers can stand one behind
  another.

  Main results:
    * `readDigits?_digits` — digits are read back whatever follows them.
    * `toNat_signToLowBit` — the lowest bit is the sign, the rest the magnitude.
    * `read?_encode` — every 64-bit number but the least one is read back.
-/
import Mathlib.Algebra.Ring.Int.Defs
import Mathlib.Algebra.Ring.Nat
import SingleFile.LineMap.Vlq

namespace SingleFile.LineMap.Vlq

/-! ## §1. The reader -/

/-- The digit that a character stands for. -/
def digitOf? (c : Char) : Option Nat := alphabet.idxOf? c

/-- Reads digits up to the first one that no other follows: the number they spell, and the
rest of the text. -/
def readDigits? : List Char → Option (Nat × List Char)
  | [] => none
  | c :: cs =>
    match digitOf? c with
    | none => none
    | some digit =>
      if digit < 32 then some (digit, cs)
      else (readDigits? cs).map fun higher => (digit - 32 + 32 * higher.1, higher.2)

/-- The number whose sign has been moved to the lowest bit. -/
def lowBitToSign (n : Nat) : Int := if n % 2 = 0 then (n / 2 : Nat) else -(n / 2 : Nat)

/-- Reads a number: its value and the rest of the text. -/
def read? (cs : List Char) : Option (Int × List Char) :=
  (readDigits? cs).map fun found => (lowBitToSign found.1, found.2)

/-! ## §2. Digits -/

/-- Every digit has a character of its own. -/
theorem digitOf?_digitChar {digit : Nat} (h : digit < 64) :
    digitOf? (digitChar digit) = some digit := by
  have all : ∀ d : Fin 64, digitOf? (digitChar d) = some d.val := by decide +kernel
  exact all ⟨digit, h⟩

/-- A digit is below 64. -/
theorem digits_lt (n : Nat) : ∀ digit ∈ digits n, digit < 64 := by
  induction n using digits.induct with
  | case1 n h =>
    intro digit hd
    rw [digits, if_pos h, List.mem_singleton] at hd
    omega
  | case2 n h ih =>
    intro digit hd
    rw [digits, if_neg h, List.mem_cons] at hd
    rcases hd with hd | hd
    · omega
    · exact ih digit hd

/-- **The digits of a number end by themselves**: they are read back whatever follows. -/
theorem readDigits?_digits (n : Nat) (rest : List Char) :
    readDigits? ((digits n).map digitChar ++ rest) = some (n, rest) := by
  induction n using digits.induct with
  | case1 n h =>
    -- A number below 32 is its own last digit.
    rw [digits, if_pos h]
    show readDigits? (digitChar (n % 32) :: rest) = _
    rw [readDigits?, digitOf?_digitChar (by omega)]
    show (if n % 32 < 32 then some (n % 32, rest) else _) = _
    rw [if_pos (by omega), Nat.mod_eq_of_lt (by omega)]
  | case2 n h ih =>
    -- All other digits carry 32, by which the reader goes on.
    rw [digits, if_neg h]
    show readDigits? (digitChar (n % 32 + 32) :: ((digits (n / 32)).map digitChar ++ rest)) = _
    rw [readDigits?, digitOf?_digitChar (by omega)]
    show (if n % 32 + 32 < 32 then _ else (readDigits? _).map _) = _
    rw [if_neg (by omega), ih]
    show some (n % 32 + 32 - 32 + 32 * (n / 32), rest) = _
    rw [Nat.add_sub_cancel, Nat.mod_add_div]

/-! ## §3. Signs -/

/-- Twice a number and one more is the number shifted with the lowest bit set. -/
theorem shiftLeft_or_one (n : Nat) : n <<< 1 ||| 1 = 2 * n + 1 := by
  rw [Nat.shiftLeft_eq, Nat.mul_comm]
  exact (Nat.two_pow_add_eq_or_of_lt (i := 1) (by decide) n).symm

/-- A signed number by its 64 bits. -/
theorem toInt_eq_bits (value : Int64) :
    value.toInt = if 2 * value.toUInt64.toNat < 2 ^ 64 then (value.toUInt64.toNat : Int)
      else value.toUInt64.toNat - 2 ^ 64 := by
  have h := BitVec.toInt_eq_toNat_cond value.toBitVec
  exact h

/-- **The lowest bit tells the sign**, the bits above it the magnitude: but for the least number
nothing is lost. -/
theorem toNat_signToLowBit {value : Int64} (h : value ≠ Int64.minValue) :
    (signToLowBit value).toNat
      = if value.toInt < 0 then 2 * value.toInt.natAbs + 1 else 2 * value.toInt.natAbs := by
  have hmin : value.toInt ≠ -2 ^ 63 := by
    intro he
    exact h (Int64.toInt_inj.mp he)
  have hbits := toInt_eq_bits value
  have hlt := value.toUInt64.toNat_lt
  have hsign : value < 0 ↔ value.toInt < 0 := Int64.lt_iff_toInt_lt
  by_cases hneg : value.toInt < 0
  -- Negated as 64 bits, a negative number is its magnitude: the least one is out.
  · have hmag : (0 - value.toUInt64).toNat = value.toInt.natAbs := by
      rw [UInt64.toNat_sub]
      show (2 ^ 64 - value.toUInt64.toNat + 0) % 2 ^ 64 = _
      split at hbits <;> omega
    have hshift : ((0 - value.toUInt64) <<< 1).toNat = value.toInt.natAbs <<< 1 := by
      rw [UInt64.toNat_shiftLeft, hmag]
      show value.toInt.natAbs <<< 1 % 2 ^ 64 = _
      rw [Nat.shiftLeft_eq]
      split at hbits <;> omega
    rw [signToLowBit, if_pos (hsign.mpr hneg), if_pos hneg, UInt64.toNat_or, hshift]
    exact shiftLeft_or_one _
  -- The bits of all others are their magnitude.
  · have hmag : value.toUInt64.toNat = value.toInt.natAbs := by
      split at hbits <;> omega
    rw [signToLowBit, if_neg (fun hv => hneg (hsign.mp hv)), if_neg hneg,
        UInt64.toNat_shiftLeft, hmag]
    show value.toInt.natAbs <<< 1 % 2 ^ 64 = _
    rw [Nat.shiftLeft_eq]
    split at hbits <;> omega

/-- **A number is read back whatever follows it**, but for the least one. -/
theorem read?_encode {value : Int64} (h : value ≠ Int64.minValue) (rest : List Char) :
    read? (encode value ++ rest) = some (value.toInt, rest) := by
  have hsign : lowBitToSign (signToLowBit value).toNat = value.toInt := by
    rw [toNat_signToLowBit h, lowBitToSign]
    by_cases hneg : value.toInt < 0
    · rw [if_pos hneg, if_neg (by omega)]
      omega
    · rw [if_neg hneg, if_pos (by omega)]
      omega
  rw [read?, encode, readDigits?_digits, ← hsign]
  rfl

end SingleFile.LineMap.Vlq
