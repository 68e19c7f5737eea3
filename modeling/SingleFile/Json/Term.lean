/-
  SingleFile.Json.Term — READING JSON
  ───────────────────────────────────
  A text is read into a term, which is a value with the parts that may have
  no meaning left open: a string may hold half a surrogate pair, a number may
  be too large, a key may occur twice.  Whether that matters is up to those
  who use the part.
-/
import SingleFile.Json.Value
import SingleFile.Text.CodeUnit

namespace SingleFile.Json

open SingleFile.Text SingleFile.Number

/-! ## §1. Terms -/

/-- What a JSON text spells. -/
inductive Term where
  | null
  | bool (value : Bool)
  /-- A number; none if it is too large. -/
  | number (value : Option Number)
  /-- A string; none if it holds an unpaired surrogate. -/
  | string (value : Option String)
  | array (items : List Term)
  | object (members : List (Option String × Term))
deriving Repr, Inhabited

/-! ## §2. Blanks and words -/

/-- Whether a character is a blank between tokens. -/
def isBlank (c : Char) : Bool := c == ' ' || c == '\n' || c == '\t' || c == '\r'

/-- A text without the blanks in front. -/
def skipBlanks (text : List Char) : List Char := text.dropWhile isBlank

/-- Whether a character is a decimal digit. -/
def isDigit (c : Char) : Bool := '0' ≤ c && c ≤ '9'

/-- The number that decimal digits spell. -/
def digitsValue (digits : List Char) : Nat :=
  digits.foldl (fun n c => n * 10 + (c.toNat - '0'.toNat)) 0

/-- The digits in front of a text. -/
def spanDigits (text : List Char) : List Char × List Char :=
  (text.takeWhile isDigit, text.dropWhile isDigit)

/-! ## §3. Strings -/

/-- The value of a hexadecimal digit. -/
def hexDigit? (c : Char) : Option Nat :=
  if isDigit c then some (c.toNat - 48)
  else if 'a' ≤ c && c ≤ 'f' then some (c.toNat - 87)
  else if 'A' ≤ c && c ≤ 'F' then some (c.toNat - 55)
  else none

/-- The code that four hexadecimal digits spell. -/
def hexCode? : List Char → Option (Nat × List Char)
  | a :: b :: c :: d :: rest => do
    let a ← hexDigit? a
    let b ← hexDigit? b
    let c ← hexDigit? c
    let d ← hexDigit? d
    return (((a * 16 + b) * 16 + c) * 16 + d, rest)
  | _ => none

/-- The code that an escape behind its backslash spells. -/
def escapeCode? : List Char → Option (Nat × List Char)
  | '"' :: rest => some (34, rest)
  | '\\' :: rest => some (92, rest)
  | '/' :: rest => some (47, rest)
  | 'b' :: rest => some (8, rest)
  | 'f' :: rest => some (12, rest)
  | 'n' :: rest => some (10, rest)
  | 'r' :: rest => some (13, rest)
  | 't' :: rest => some (9, rest)
  | 'u' :: rest => hexCode? rest
  | _ => none

/-- The codes of a string up to its closing quote.  Each step takes a character at least, so the
length of the text bounds them. -/
def stringCodes? : Nat → List Char → Option ((List Nat) × List Char)
  | 0, _ => none
  | _ + 1, [] => none
  | _ + 1, '"' :: rest => some ([], rest)
  | bound + 1, '\\' :: rest => do
    let (code, rest) ← escapeCode? rest
    let (codes, rest) ← stringCodes? bound rest
    return (code :: codes, rest)
  | bound + 1, c :: rest =>
    if c.toNat < 32 then none
    else do
      let (codes, rest) ← stringCodes? bound rest
      return (c.toNat :: codes, rest)

/-- The text of a string behind its opening quote. -/
def string? (text : List Char) : Option ((Option String) × List Char) := do
  let (codes, rest) ← stringCodes? (text.length + 1) text
  return ((textOfCodes? codes).map String.ofList, rest)

/-! ## §4. Numbers -/

/-- The largest whole number that a decimal is collected in. -/
def maxWhole : Nat := 0xFFFFFFFFFFFFFFFF

/-- The number that leading digits spell, and how many digits are left when the next one would
make it larger than `maxWhole`. -/
def collectDigits : Nat → List Char → Nat × Nat
  | value, [] => (value, 0)
  | value, c :: rest =>
    let next := value * 10 + (c.toNat - '0'.toNat)
    if maxWhole < next then (value, rest.length + 1) else collectDigits next rest

/-- A power of ten as a double. -/
def powerOfTen (n : Nat) : Binary64 := Binary64.ofDecimal false 1 n

/-- A number divided by 10^308 as often as it takes for the rest of a negative power of ten to
be a double. -/
def scaleDown : Nat → Binary64 → Nat → Binary64
  | 0, x, _ => x
  | bound + 1, x, n =>
    if n ≤ 308 then x.div (powerOfTen n)
    else if x = .zero false then x
    else scaleDown bound (x.div (powerOfTen 308)) (n - 308)

/-- A whole number times a power of ten: the number is rounded, and so is the product.  Nothing
when the product is too large. -/
def scaled? (whole : Nat) (exponent : Int) : Option Binary64 :=
  let x := Binary64.ofNat whole
  if 0 ≤ exponent then
    if 308 < exponent then (if whole = 0 then some x else none)
    else match x.mul (powerOfTen exponent.toNat) with
      | .infinite _ => none
      | y => some y
  else some (scaleDown (exponent.natAbs + 1) x exponent.natAbs)

/-- The value of a decimal with a fraction or a power of ten.  Digits that do not fit are left
out: those of the whole part still count for the power of ten. -/
def decimal? (whole fraction : List Char) (exponent : Int) : Option Binary64 :=
  -- Digits of the whole part that do not fit are zeros of the power of ten.
  let (value, left) := collectDigits 0 whole
  if left = 0 then
    let (value, skipped) := collectDigits value fraction
    scaled? value (exponent - (fraction.length - skipped : Nat))
  else
    let (value, skipped) := collectDigits value fraction
    scaled? value (exponent + left - (fraction.length - skipped : Nat))

/-- The digits of a power of ten, if the text goes on with one. -/
def exponent? (text : List Char) : Option ((Option (Bool × List Char)) × List Char) :=
  let digits (negative : Bool) (text : List Char) :
      Option ((Option (Bool × List Char)) × List Char) :=
    let (found, rest) := spanDigits text
    if found.isEmpty then none else some (some (negative, found), rest)
  match text with
  | e :: rest =>
    if e == 'e' || e == 'E' then
      match rest with
      | '+' :: rest => digits false rest
      | '-' :: rest => digits true rest
      | _ => digits false rest
    else some (none, text)
  | [] => some (none, text)

/-- The digits of a fraction, if the text goes on with one. -/
def fraction? (text : List Char) : Option ((Option (List Char)) × List Char) :=
  match text with
  | '.' :: rest =>
    let (found, rest) := spanDigits rest
    if found.isEmpty then none else some (some found, rest)
  | _ => some (none, text)

/-- The digits of a whole part, which has no zero in front of others. -/
def wholeDigits? (text : List Char) : Option ((List Char) × List Char) :=
  match spanDigits text with
  | ([], _) => none
  | ('0' :: _ :: _, _) => none
  | (digits, rest) => some (digits, rest)

/-- The value of a power of ten; nothing when it is too large a number to be counted with. -/
def exponentValue? (negative : Bool) (digits : List Char) : Option Int :=
  let n := digitsValue digits
  if 0x80000000 ≤ n then none else some (if negative then -n else n)

/-- The value of a number by its parts. -/
def numberValue? (negative : Bool) (whole : List Char) (fraction : Option (List Char))
    (exponent : Option (Bool × List Char)) : Option Number :=
  let sign (x : Binary64) : Binary64 := if negative then x.negate else x
  match fraction, exponent with
  | none, none =>
    let n := digitsValue whole
    if negative then
      if n = 0 || 0x8000000000000000 < n then
        (scaled? (collectDigits 0 whole).1 (collectDigits 0 whole).2).map fun x => .real x.negate
      else some (.integer (-(n : Int)))
    else if n ≤ maxWhole then some (.integer n)
    else (decimal? whole [] 0).map .real
  | fraction, none => (decimal? whole (fraction.getD []) 0).map fun x => .real (sign x)
  | fraction, some (isDown, digits) =>
    match exponentValue? isDown digits with
    | some e => (decimal? whole (fraction.getD []) e).map fun x => .real (sign x)
    | none =>
      let isZero := (whole ++ fraction.getD []).all (· == '0')
      if isDown || isZero then some (.real (sign (.zero false))) else none

/-- Reads a number. -/
def number? (text : List Char) : Option ((Option Number) × List Char) := do
  let (negative, text) := match text with
    | '-' :: rest => (true, rest)
    | _ => (false, text)
  let (whole, text) ← wholeDigits? text
  let (fraction, text) ← fraction? text
  let (exponent, text) ← exponent? text
  return (numberValue? negative whole fraction exponent, text)

/-! ## §5. Terms from text -/

/-- A text behind a word in front of it. -/
def word? (word : String) (term : Term) (text : List Char) : Option (Term × List Char) :=
  (afterWord word.toList text).map fun rest => (term, rest)
where
  /-- The rest of a text that begins with some characters. -/
  afterWord : List Char → List Char → Option (List Char)
    | [], text => some text
    | _ :: _, [] => none
    | w :: ws, c :: cs => if w = c then afterWord ws cs else none

mutual

/-- Reads a term.  The bound is on the number of characters. -/
def term? : Nat → List Char → Option (Term × List Char)
  | 0, _ => none
  | bound + 1, text =>
    match skipBlanks text with
    | [] => none
    | '"' :: rest => (string? rest).map fun r => (.string r.1, r.2)
    | '[' :: rest =>
      match skipBlanks rest with
      | ']' :: rest => some (.array [], rest)
      | _ => (items? bound rest).map fun r => (.array r.1, r.2)
    | '\x7b' :: rest =>
      match skipBlanks rest with
      | '\x7d' :: rest => some (.object [], rest)
      | _ => (members? bound rest).map fun r => (.object r.1, r.2)
    | 'n' :: rest => word? "ull" .null rest
    | 't' :: rest => word? "rue" (.bool true) rest
    | 'f' :: rest => word? "alse" (.bool false) rest
    | text => (number? text).map fun r => (.number r.1, r.2)

/-- Reads the items of an array up to its end; there is at least one. -/
def items? : Nat → List Char → Option ((List Term) × List Char)
  | 0, _ => none
  | bound + 1, text => do
    let (first, rest) ← term? bound text
    match skipBlanks rest with
    | ',' :: rest =>
      let (others, rest) ← items? bound rest
      return (first :: others, rest)
    | ']' :: rest => return ([first], rest)
    | _ => none

/-- Reads the members of an object up to its end; there is at least one. -/
def members? : Nat → List Char → Option ((List (Option String × Term)) × List Char)
  | 0, _ => none
  | bound + 1, text =>
    match skipBlanks text with
    | '"' :: rest => do
      let (key, rest) ← string? rest
      match skipBlanks rest with
      | ':' :: rest =>
        let (value, rest) ← term? bound rest
        match skipBlanks rest with
        | ',' :: rest =>
          let (others, rest) ← members? bound rest
          return ((key, value) :: others, rest)
        | '\x7d' :: rest => return ([(key, value)], rest)
        | _ => none
      | _ => none
    | _ => none

end

/-- Reads a text that is one term with blanks around it. -/
def Term.ofText? (text : List Char) : Option Term := do
  let (term, rest) ← term? (text.length + 1) text
  if (skipBlanks rest).isEmpty then some term else none

/-! ## §6. Values of terms -/

mutual

/-- The value of a term in which no more than some containers are nested; a key that occurs
twice keeps its last value. -/
def Term.value? (levels : Nat) : Term → Option Value
  | .null => some .null
  | .bool b => some (.bool b)
  | .number n => n.map .number
  | .string s => s.map .string
  | .array items =>
    match levels with
    | 0 => none
    | levels + 1 => (valuesOf? levels items).map .array
  | .object members =>
    match levels with
    | 0 => none
    | levels + 1 => (membersOf? levels members []).map .object

/-- The values of some terms. -/
def valuesOf? (levels : Nat) : List Term → Option (List Value)
  | [] => some []
  | t :: rest => do
    let v ← t.value? levels
    let others ← valuesOf? levels rest
    return v :: others

/-- The members of an object, put into those found already. -/
def membersOf? (levels : Nat) : List (Option String × Term) → List (String × Value) →
    Option (List (String × Value))
  | [], found => some found
  | (key, t) :: rest, found => do
    let key ← key
    let v ← t.value? levels
    membersOf? levels rest (Value.put found key v)

end

mutual

/-- The term that spells a value. -/
def Term.ofValue : Value → Term
  | .null => .null
  | .bool b => .bool b
  | .number n => .number (some n)
  | .string s => .string (some s)
  | .array items => .array (ofValues items)
  | .object members => .object (ofMembers members)

/-- The terms that spell some values. -/
def ofValues : List Value → List Term
  | [] => []
  | v :: rest => Term.ofValue v :: ofValues rest

/-- The members that spell those of an object. -/
def ofMembers : List (String × Value) → List (Option String × Term)
  | [] => []
  | (key, v) :: rest => (some key, Term.ofValue v) :: ofMembers rest

end

mutual

/-- How many containers are nested in a term. -/
def Term.depth : Term → Nat
  | .array items => depthOf items + 1
  | .object members => depthOfMembers members + 1
  | _ => 0

/-- The largest depth of some terms. -/
def depthOf : List Term → Nat
  | [] => 0
  | t :: rest => max t.depth (depthOf rest)

/-- The largest depth of some members. -/
def depthOfMembers : List (Option String × Term) → Nat
  | [] => 0
  | (_, t) :: rest => max t.depth (depthOfMembers rest)

end

end SingleFile.Json
