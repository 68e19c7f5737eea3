/-
  SingleFile.Number.Binary64 — 64-BIT FLOATING POINT NUMBERS
  ──────────────────────────────────────────────────────────
  A finite number is a sign, a significand below 2^53 and a power of two not
  below -1074.  Every operation is exact arithmetic on natural numbers
  followed by one rounding to the nearest number, ties to the even
  significand (`ofRatio`).
-/

namespace SingleFile.Number

/-- A 64-bit floating point number; zero is the finite number with significand 0. -/
inductive Binary64 where
  | finite (negative : Bool) (significand : Nat) (exponent : Int)
  | infinite (negative : Bool)
  | nan
deriving DecidableEq, Repr, Inhabited

namespace Binary64

/-! ## §1. Rounding -/

/-- The least exponent of a finite number. -/
def minExponent : Int := -1074

/-- The greatest exponent of a finite number. -/
def maxExponent : Int := 971

/-- Zero with a sign. -/
def zero (negative : Bool) : Binary64 := .finite negative 0 minExponent

/-- The natural number nearest to a ratio, a tie going to the even one. -/
def roundNearest (num den : Nat) : Nat :=
  let q := num / den
  let r := num % den
  if 2 * r < den then q
  else if den < 2 * r then q + 1
  else if q % 2 = 0 then q else q + 1

/-- The ratio `num / (den * 2 ^ e)` as a pair of naturals. -/
def shifted (num den : Nat) (e : Int) : Nat × Nat :=
  if 0 ≤ e then (num, den * Nat.pow 2 e.toNat) else (num * Nat.pow 2 (-e).toNat, den)

/-- The exponent at which a positive ratio has 53 binary places before the point,
kept at or above the least exponent. -/
def exponentOf (num den : Nat) : Int :=
  -- The logarithms are rounded down, so the guess is right or one too low.
  let guess : Int := (Nat.log2 num : Int) - (Nat.log2 den : Int) - 53
  let ratio := shifted num den guess
  let exact := if ratio.1 / ratio.2 < Nat.pow 2 53 then guess else guess + 1
  max exact minExponent

/-- The number nearest to a ratio of naturals. -/
def ofRatio (negative : Bool) (num den : Nat) : Binary64 :=
  if num = 0 then zero negative
  else
    let e := exponentOf num den
    let ratio := shifted num den e
    let m := roundNearest ratio.1 ratio.2
    -- Rounding up may carry into another binary place.
    let (m, e) := if m = Nat.pow 2 53 then (Nat.pow 2 52, e + 1) else (m, e)
    if maxExponent < e then .infinite negative else .finite negative m e

/-- A natural number. -/
def ofNat (n : Nat) : Binary64 := ofRatio false n 1

/-- An integer. -/
def ofInt (n : Int) : Binary64 := ofRatio (n < 0) n.natAbs 1

/-- The number of decimal digits of a natural number. -/
def decimalWidth (n : Nat) : Nat := (Nat.toDigits 10 n).length

/-- The number nearest to `digits * 10 ^ exponent`.  Decimals far outside the range are
sorted out before any power of ten is taken. -/
def ofDecimal (negative : Bool) (digits : Nat) (exponent : Int) : Binary64 :=
  if digits = 0 then zero negative
  else
    let magnitude : Int := decimalWidth digits + exponent
    if 400 < magnitude then .infinite negative
    else if magnitude < -400 then zero negative
    else if 0 ≤ exponent then ofRatio negative (digits * Nat.pow 10 exponent.toNat) 1
    else ofRatio negative digits (Nat.pow 10 (-exponent).toNat)

/-! ## §2. Arithmetic -/

/-- The number with the other sign. -/
def negate : Binary64 → Binary64
  | .finite s m e => .finite (!s) m e
  | .infinite s => .infinite (!s)
  | .nan => .nan

/-- The signed integer that a finite number is at a common exponent not above its own. -/
def scaledTo (common : Int) (negative : Bool) (m : Nat) (e : Int) : Int :=
  let n : Int := (m * Nat.pow 2 (e - common).toNat : Nat)
  if negative then -n else n

/-- The number nearest to `n * 2 ^ e`. -/
def ofScaled (n : Int) (e : Int) : Binary64 :=
  if 0 ≤ e then ofRatio (n < 0) (n.natAbs * Nat.pow 2 e.toNat) 1
  else ofRatio (n < 0) n.natAbs (Nat.pow 2 (-e).toNat)

/-- The sum, rounded once; a sum of zero is positive unless both terms are negative zeros. -/
def add : Binary64 → Binary64 → Binary64
  | .finite s m e, .finite s' m' e' =>
    let common := min e e'
    let n := scaledTo common s m e + scaledTo common s' m' e'
    if n = 0 then zero (s && s' && m = 0 && m' = 0) else ofScaled n common
  | .nan, _ => .nan
  | _, .nan => .nan
  | .infinite s, .infinite s' => if s = s' then .infinite s else .nan
  | .infinite s, _ => .infinite s
  | _, .infinite s => .infinite s

/-- The product, rounded once. -/
def mul : Binary64 → Binary64 → Binary64
  | .finite s m e, .finite s' m' e' =>
    match ofScaled ((m * m' : Nat) : Int) (e + e') with
    | .finite _ m e => .finite (s != s') m e
    | .infinite _ => .infinite (s != s')
    | .nan => .nan
  | _, _ => .nan

/-- The quotient of finite numbers, rounded once; division by zero is no number here. -/
def div : Binary64 → Binary64 → Binary64
  | .finite s m e, .finite s' m' e' =>
    if m' = 0 then .nan
    else
      let d := e - e'
      if 0 ≤ d then ofRatio (s != s') (m * Nat.pow 2 d.toNat) m'
      else ofRatio (s != s') m (m' * Nat.pow 2 (-d).toNat)
  | _, _ => .nan

/-- `x * base + digit`, rounded once. -/
def appendDigit (base : Nat) (x : Binary64) (digit : Nat) : Binary64 :=
  match x with
  | .finite s m e =>
    let common := min e 0
    ofScaled (scaledTo common s m e * base + (digit * Nat.pow 2 (-common).toNat : Nat)) common
  | other => other

/-- Whether a number is an integer. -/
def isInteger : Binary64 → Bool
  | .finite _ m e => if 0 ≤ e then true else m % Nat.pow 2 (-e).toNat = 0
  | _ => false

/-- The integer a finite number is rounded to towards zero. -/
def truncate : Binary64 → Int
  | .finite s m e =>
    let n : Int :=
      if 0 ≤ e then (m * Nat.pow 2 e.toNat : Nat) else (m / Nat.pow 2 (-e).toNat : Nat)
    if s then -n else n
  | _ => 0

/-! ## §3. Shortest decimal -/

/-- The interval of reals that round to a positive finite number, and the number itself, as
numerators over one denominator.  The lower half gap is narrower at a power of two. -/
structure Interval where
  low : Nat
  value : Nat
  high : Nat
  den : Nat
  closed : Bool

/-- The rounding interval of `m * 2 ^ e`. -/
def interval (m : Nat) (e : Int) : Interval :=
  -- Below a power of two the numbers lie twice as close.
  let gap := if m = Nat.pow 2 52 && minExponent < e then 1 else 2
  let up := Nat.pow 2 e.toNat
  ⟨(4 * m - gap) * up, 4 * m * up, (4 * m + 2) * up, 4 * Nat.pow 2 (-e).toNat, m % 2 = 0⟩

/-- The multiple of `10 ^ k` in an interval that is nearest to its value. -/
def onGrid? (i : Interval) (k : Int) : Option Nat :=
  let up := Nat.pow 10 (-k).toNat
  let grid := i.den * Nat.pow 10 k.toNat
  let inside (n : Nat) : Bool :=
    if i.closed then i.low * up ≤ n * grid && n * grid ≤ i.high * up
    else i.low * up < n * grid && n * grid < i.high * up
  let below := i.value * up / grid
  let above := below + 1
  match inside below, inside above with
  | true, true =>
    if i.value * up - below * grid ≤ above * grid - i.value * up then some below else some above
  | true, false => some below
  | false, true => some above
  | false, false => none

/-- The coarsest grid at or below `10 ^ k` with a point in an interval, among `steps` grids. -/
def coarsest (i : Interval) : Nat → Int → Nat × Int
  | 0, k => (0, k)
  | steps + 1, k =>
    match onGrid? i k with
    | some n => (n, k)
    | none => coarsest i steps (k - 1)

/-- The fewest digits `n` and the power `k` such that `n * 10 ^ k` rounds to `m * 2 ^ e`. -/
def shortestDigits (m : Nat) (e : Int) : Nat × Int :=
  let i := interval m e
  coarsest i 700 (decimalWidth (i.high / i.den))

/-- The digits of `n * 10 ^ k` without an exponent. -/
def positional (n : Nat) (k : Int) : String :=
  let digits := Nat.toDigits 10 n
  if 0 ≤ k then String.ofList (digits ++ List.replicate k.toNat '0')
  else
    let places := (-k).toNat
    let padded := List.replicate (places + 1 - digits.length) '0' ++ digits
    let whole := padded.length - places
    String.ofList (padded.take whole ++ '.' :: padded.drop whole)

/-- The shortest decimal that reads back as the number, without an exponent however long
that makes it. -/
def toDecimalText : Binary64 → String
  | .finite s m e =>
    let magnitude := if m = 0 then "0" else
      let (n, k) := shortestDigits m e
      positional n k
    if s then "-" ++ magnitude else magnitude
  | .infinite s => if s then "-inf" else "inf"
  | .nan => "NaN"

end Binary64

end SingleFile.Number
