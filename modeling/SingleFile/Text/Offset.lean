/-
  SingleFile.Text.Offset — BYTE OFFSETS INTO A LIST OF CHARACTERS
  ───────────────────────────────────────────────────────────────
  A text is a list of characters, and every position in it is the number of
  UTF-8 bytes before it.  A number is a position only when it falls between
  two characters; the functions that cut a text say so by returning an
  option.

  Main statements: cutting loses nothing (`splitAt?_append`) and cuts where
  it was asked to (`byteLength_of_splitAt?`).
-/

namespace SingleFile.Text

/-! ## §1. Length in bytes -/

/-- The number of bytes a text takes in UTF-8. -/
def byteLength : List Char → Nat
  | [] => 0
  | c :: cs => c.utf8Size + byteLength cs

@[simp] theorem byteLength_nil : byteLength [] = 0 := rfl

@[simp] theorem byteLength_cons (c : Char) (cs : List Char) :
    byteLength (c :: cs) = c.utf8Size + byteLength cs := rfl

@[simp] theorem byteLength_append (a b : List Char) :
    byteLength (a ++ b) = byteLength a + byteLength b := by
  induction a with
  | nil => simp
  | cons c cs ih => simp [ih, Nat.add_assoc]

/-! ## §2. Cutting at an offset -/

/-- The texts before and after a byte offset; nothing when the offset falls
inside a character or behind the end. -/
def splitAt? : List Char → Nat → Option (List Char × List Char)
  | cs, 0 => some ([], cs)
  | [], _ + 1 => none
  | c :: cs, n + 1 =>
    if c.utf8Size ≤ n + 1 then
      (splitAt? cs (n + 1 - c.utf8Size)).map fun halves => (c :: halves.1, halves.2)
    else none

/-- Cutting a text loses no character of it. -/
theorem splitAt?_append {cs a b : List Char} {n : Nat} (h : splitAt? cs n = some (a, b)) :
    a ++ b = cs := by
  induction cs generalizing n a with
  | nil => cases n <;> simp_all [splitAt?]
  | cons c cs ih =>
    cases n with
    | zero => simp_all [splitAt?]
    | succ n =>
      simp only [splitAt?] at h
      split at h
      · obtain ⟨⟨a', b'⟩, hs, he⟩ := Option.map_eq_some_iff.1 h
        cases he
        simp [ih hs]
      · simp at h

/-- The first part of a cut text is as long as the offset says. -/
theorem byteLength_of_splitAt? {cs a b : List Char} {n : Nat}
    (h : splitAt? cs n = some (a, b)) : byteLength a = n := by
  induction cs generalizing n a with
  | nil => cases n <;> simp_all [splitAt?]
  | cons c cs ih =>
    cases n with
    | zero => simp_all [splitAt?]
    | succ n =>
      simp only [splitAt?] at h
      split at h
      · obtain ⟨⟨a', b'⟩, hs, he⟩ := Option.map_eq_some_iff.1 h
        cases he
        simp only [byteLength_cons, ih hs]
        omega
      · simp at h

/-- The text between two byte offsets; nothing when one of them is no
position of the text or they are the wrong way round. -/
def slice? (cs : List Char) (start stop : Nat) : Option (List Char) :=
  if start ≤ stop then do
    let (_, rest) ← splitAt? cs start
    let (middle, _) ← splitAt? rest (stop - start)
    return middle
  else none

/-- The text up to the last character that begins before an offset. -/
def upTo : List Char → Nat → List Char
  | [], _ => []
  | c :: cs, n => if n = 0 then [] else c :: upTo cs (n - c.utf8Size)

/-! ## §3. Searching -/

/-- The rest of a text after a given beginning. -/
def afterPrefix? : List Char → List Char → Option (List Char)
  | [], cs => some cs
  | _ :: _, [] => none
  | p :: ps, c :: cs => if p = c then afterPrefix? ps cs else none

/-- Whether a text starts with another one. -/
def startsWith (cs start : List Char) : Bool := (afterPrefix? start cs).isSome

/-- The byte offset of the first place where a text contains another one. -/
def find? (needle : List Char) : List Char → Option Nat
  | [] => if needle.isEmpty then some 0 else none
  | c :: cs =>
    if startsWith (c :: cs) needle then some 0
    else (find? needle cs).map (· + c.utf8Size)

end SingleFile.Text
