/-
  SingleFile.Text.CodeUnit — TEXT FROM ESCAPED CODES
  ──────────────────────────────────────────────────
  Escapes in strings may spell a character as two surrogates.  A list of
  codes is a text when every surrogate in it has its partner.
-/

namespace SingleFile.Text

/-- Whether a code is the first half of a surrogate pair. -/
def isHighSurrogate (n : Nat) : Bool := 0xD800 ≤ n && n ≤ 0xDBFF

/-- Whether a code is the second half of a surrogate pair. -/
def isLowSurrogate (n : Nat) : Bool := 0xDC00 ≤ n && n ≤ 0xDFFF

/-- The code point of a surrogate pair. -/
def joinSurrogates (high low : Nat) : Nat :=
  0x10000 + (high - 0xD800) * 0x400 + (low - 0xDC00)

/-- The text of a list of codes; nothing when a surrogate has no partner. -/
def textOfCodes? : List Nat → Option (List Char)
  | [] => some []
  | n :: rest =>
    if isHighSurrogate n then
      match rest with
      | m :: rest =>
        if isLowSurrogate m then
          (textOfCodes? rest).map (Char.ofNat (joinSurrogates n m) :: ·)
        else none
      | [] => none
    else if isLowSurrogate n then none
    else (textOfCodes? rest).map (Char.ofNat n :: ·)

end SingleFile.Text
