/-
  SingleFile.Text.Case — NAMES IN ANY CASE
  ────────────────────────────────────────
  Names of tags and of module systems may be written in upper or lower case.
  Only ASCII letters have a case here.
-/

namespace SingleFile.Text

/-- A text with its ASCII letters in lower case. -/
def lowerCase (s : String) : String := String.ofList (s.toList.map Char.toLower)

/-- Whether two names differ by the case of ASCII letters only. -/
def sameName (a b : String) : Bool := lowerCase a == lowerCase b

end SingleFile.Text
