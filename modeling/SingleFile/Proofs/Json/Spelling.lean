/-
  SingleFile.Proofs.Json.Spelling — TEXTS THAT SPELL TERMS
  ────────────────────────────────────────────────────────
  The grammar of JSON, apart from any reader: which texts are tokens, and
  which sequences of tokens spell a term.  What may stand between two tokens
  is left open, and so is whether a comma may stand in front of a closing
  bracket: with blanks and no such commas the grammar is that of JSON.

  Contents:
    * `NumberText`, `StringBody`, `IsString` — tokens.
    * `Spells` — the grammar, over terms and over the lists in brackets.
    * `IsBlanks`, `IsJson` — blanks, and whole texts.
-/
import SingleFile.Json.Term

namespace SingleFile.Json

open SingleFile.Text

/-! ## §1. Numbers -/

/-- Whether some characters are decimal digits, at least one. -/
structure IsNumeral (digits : List Char) : Prop where
  nonempty : digits ≠ []
  areDigits : ∀ c ∈ digits, isDigit c = true

/-- The power of ten in a number: the letter, the sign if there is one, and the digits. -/
structure ExponentText where
  mark : Char
  isDown : Option Bool
  digits : List Char
  isMark : mark = 'e' ∨ mark = 'E'
  isNumeral : IsNumeral digits

/-- The characters of a power of ten. -/
def ExponentText.text (e : ExponentText) : List Char :=
  e.mark :: ((match e.isDown with
    | none => []
    | some false => ['+']
    | some true => ['-']) ++ e.digits)

/-- A number as it is written: no zero stands in front of other digits of its whole part. -/
structure NumberText where
  negative : Bool
  whole : List Char
  fraction : Option (List Char)
  exponent : Option ExponentText
  isWhole : IsNumeral whole
  leads : ∀ more, whole = '0' :: more → more = []
  isFraction : ∀ digits ∈ fraction, IsNumeral digits

namespace NumberText

/-- The characters of a sign. -/
def signText (negative : Bool) : List Char := if negative then ['-'] else []

/-- The characters of a fraction. -/
def fractionText : Option (List Char) → List Char
  | none => []
  | some digits => '.' :: digits

/-- The characters of a power of ten, if there is one. -/
def exponentText : Option ExponentText → List Char
  | none => []
  | some e => e.text

/-- The characters of a number. -/
def text (n : NumberText) : List Char :=
  signText n.negative ++ (n.whole ++ (fractionText n.fraction ++ exponentText n.exponent))

/-- What a number is worth; nothing if it is too large. -/
def value? (n : NumberText) : Option Number :=
  numberValue? n.negative n.whole n.fraction
    (n.exponent.map fun e => (e.isDown.getD false, e.digits))

end NumberText

/-! ## §2. Strings -/

/-- The escapes of one letter, with the codes they spell. -/
def shortEscapes : List (Char × Nat) :=
  [('"', 34), ('\\', 92), ('/', 47), ('b', 8), ('f', 12), ('n', 10), ('r', 13), ('t', 9)]

/-- Whether a text is the inside of a string that spells some codes. -/
inductive StringBody : List Nat → List Char → Prop where
  | nil : StringBody [] []
  /-- A character stands for itself unless it is a quote, a backslash or a control character. -/
  | plain {c : Char} {codes : List Nat} {text : List Char} (hquote : c ≠ '"') (hslash : c ≠ '\\')
    (hcontrol : 32 ≤ c.toNat) (h : StringBody codes text) :
    StringBody (c.toNat :: codes) (c :: text)
  | short {c : Char} {code : Nat} {codes : List Nat} {text : List Char}
    (hescape : (c, code) ∈ shortEscapes) (h : StringBody codes text) :
    StringBody (code :: codes) ('\\' :: c :: text)
  | long {a b c d : Char} {i j k l : Nat} {codes : List Nat} {text : List Char}
    (ha : hexDigit? a = some i) (hb : hexDigit? b = some j) (hc : hexDigit? c = some k)
    (hd : hexDigit? d = some l) (h : StringBody codes text) :
    StringBody ((((i * 16 + j) * 16 + k) * 16 + l) :: codes)
      ('\\' :: 'u' :: a :: b :: c :: d :: text)

/-- Whether a text is a string with a value; it has none if half a surrogate pair is in it. -/
def IsString (value : Option String) (text : List Char) : Prop :=
  ∃ codes body, StringBody codes body ∧ text = '"' :: (body ++ ['"']) ∧
    value = (textOfCodes? codes).map String.ofList

/-! ## §3. Terms -/

/-- What a piece of a text can spell: a term, or what stands behind an opening bracket. -/
inductive Phrase where
  | term (t : Term)
  | items (terms : List Term)
  | member (key : Option String) (t : Term)
  | members (members : List (Option String × Term))

/-- Whether a text ends a list: a closing bracket, perhaps with a comma in front. -/
inductive Closes (gap : List Char → Prop) (trailing : Bool) (bracket : Char) : List Char → Prop
  where
  | plain {g : List Char} (hg : gap g) : Closes gap trailing bracket (g ++ [bracket])
  | comma {g g' : List Char} (htrailing : trailing = true) (hg : gap g) (hg' : gap g') :
    Closes gap trailing bracket (g ++ ',' :: (g' ++ [bracket]))

/-- **Whether a text spells something**, given what may stand between two tokens, and whether a
comma may stand in front of a closing bracket.  The items and members of a list go up to its
bracket. -/
inductive Spells (gap : List Char → Prop) (trailing : Bool) : Phrase → List Char → Prop where
  | nullWord : Spells gap trailing (.term .null) ['n', 'u', 'l', 'l']
  | trueWord : Spells gap trailing (.term (.bool true)) ['t', 'r', 'u', 'e']
  | falseWord : Spells gap trailing (.term (.bool false)) ['f', 'a', 'l', 's', 'e']
  | number (n : NumberText) : Spells gap trailing (.term (.number n.value?)) n.text
  | string {value : Option String} {text : List Char} (h : IsString value text) :
    Spells gap trailing (.term (.string value)) text
  | emptyArray {g : List Char} (hg : gap g) :
    Spells gap trailing (.term (.array [])) ('[' :: (g ++ [']']))
  | array {g text : List Char} {terms : List Term} (hg : gap g)
    (h : Spells gap trailing (.items terms) text) :
    Spells gap trailing (.term (.array terms)) ('[' :: (g ++ text))
  | emptyObject {g : List Char} (hg : gap g) :
    Spells gap trailing (.term (.object [])) ('\x7b' :: (g ++ ['\x7d']))
  | object {g text : List Char} {members : List (Option String × Term)} (hg : gap g)
    (h : Spells gap trailing (.members members) text) :
    Spells gap trailing (.term (.object members)) ('\x7b' :: (g ++ text))
  | lastItem {t : Term} {text close : List Char} (ht : Spells gap trailing (.term t) text)
    (hclose : Closes gap trailing ']' close) :
    Spells gap trailing (.items [t]) (text ++ close)
  | moreItems {t : Term} {terms : List Term} {text g g' rest : List Char}
    (ht : Spells gap trailing (.term t) text) (hg : gap g) (hg' : gap g')
    (hrest : Spells gap trailing (.items terms) rest) :
    Spells gap trailing (.items (t :: terms)) (text ++ (g ++ ',' :: (g' ++ rest)))
  | member {key : Option String} {t : Term} {k g g' text : List Char} (hkey : IsString key k)
    (hg : gap g) (hg' : gap g') (ht : Spells gap trailing (.term t) text) :
    Spells gap trailing (.member key t) (k ++ (g ++ ':' :: (g' ++ text)))
  | lastMember {key : Option String} {t : Term} {text close : List Char}
    (hmember : Spells gap trailing (.member key t) text)
    (hclose : Closes gap trailing '\x7d' close) :
    Spells gap trailing (.members [(key, t)]) (text ++ close)
  | moreMembers {key : Option String} {t : Term} {members : List (Option String × Term)}
    {text g g' rest : List Char} (hmember : Spells gap trailing (.member key t) text)
    (hg : gap g) (hg' : gap g') (hrest : Spells gap trailing (.members members) rest) :
    Spells gap trailing (.members ((key, t) :: members)) (text ++ (g ++ ',' :: (g' ++ rest)))

/-! ## §4. Texts -/

/-- Whether some characters are blanks. -/
def IsBlanks (cs : List Char) : Prop := ∀ c ∈ cs, isBlank c = true

theorem isBlanks_nil : IsBlanks [] := fun _ h => absurd h List.not_mem_nil

/-- **Whether a text is JSON that spells a term.** -/
def IsJson (t : Term) (text : List Char) : Prop :=
  ∃ g body g', IsBlanks g ∧ Spells IsBlanks false (.term t) body ∧ IsBlanks g' ∧
    text = g ++ (body ++ g')

/-! ## §5. How tokens begin -/

/-- Whether a term can begin with a character. -/
def BeginsTerm (c : Char) : Prop :=
  c ∈ ['n', 't', 'f', '"', '[', '\x7b', '-'] ∨ isDigit c = true

instance (c : Char) : Decidable (BeginsTerm c) := inferInstanceAs (Decidable (_ ∨ _))

theorem isDigit_iff {c : Char} : isDigit c = true ↔ 48 ≤ c.toNat ∧ c.toNat ≤ 57 := by
  rw [isDigit, Bool.and_eq_true, decide_eq_true_eq, decide_eq_true_eq]
  exact Iff.rfl

/-- A digit is none of the characters that are no digits. -/
theorem ne_of_isDigit {c d : Char} (hc : isDigit c = true) (hd : isDigit d = false) : c ≠ d := by
  rintro rfl
  rw [hc] at hd
  cases hd

theorem IsNumeral.exists_cons {digits : List Char} (h : IsNumeral digits) :
    ∃ c more, digits = c :: more ∧ isDigit c = true := by
  obtain ⟨c, more, rfl⟩ := List.exists_cons_of_ne_nil h.nonempty
  exact ⟨c, more, rfl, h.areDigits c (List.mem_cons_self ..)⟩

/-- A number begins with a digit or a minus. -/
theorem NumberText.exists_cons (n : NumberText) :
    ∃ c more, n.text = c :: more ∧ (c = '-' ∨ isDigit c = true) := by
  obtain ⟨c, more, hwhole, hc⟩ := n.isWhole.exists_cons
  rw [NumberText.text, hwhole]
  cases n.negative with
  | true => exact ⟨'-', _, rfl, .inl rfl⟩
  | false => exact ⟨c, _, rfl, .inr hc⟩

variable {gap : List Char → Prop} {trailing : Bool}

/-- How a term begins. -/
theorem Spells.begins {t : Term} {text : List Char} (h : Spells gap trailing (.term t) text) :
    ∃ c more, text = c :: more ∧ BeginsTerm c := by
  cases h with
  | number n =>
    obtain ⟨c, more, htext, hc⟩ := n.exists_cons
    refine ⟨c, more, htext, hc.imp (fun hc => ?_) id⟩
    rw [hc]
    decide
  | string h =>
    obtain ⟨codes, body, -, rfl, -⟩ := h
    exact ⟨'"', _, rfl, by decide⟩
  | _ => exact ⟨_, _, rfl, by decide⟩

/-- How the items of an array begin. -/
theorem Spells.items_begins {terms : List Term} {text : List Char}
    (h : Spells gap trailing (.items terms) text) : ∃ c more, text = c :: more ∧ BeginsTerm c := by
  cases h with
  | lastItem ht _ =>
    obtain ⟨c, more, rfl, hc⟩ := ht.begins
    exact ⟨c, _, rfl, hc⟩
  | moreItems ht _ _ _ =>
    obtain ⟨c, more, rfl, hc⟩ := ht.begins
    exact ⟨c, _, rfl, hc⟩

/-- How a member of an object begins. -/
theorem Spells.member_begins {key : Option String} {t : Term} {text : List Char}
    (h : Spells gap trailing (.member key t) text) : ∃ more, text = '"' :: more := by
  cases h with
  | member hkey _ _ _ =>
    obtain ⟨codes, body, -, rfl, -⟩ := hkey
    exact ⟨_, rfl⟩

/-- How the members of an object begin. -/
theorem Spells.members_begins {members : List (Option String × Term)} {text : List Char}
    (h : Spells gap trailing (.members members) text) : ∃ more, text = '"' :: more := by
  cases h with
  | lastMember hmember _ =>
    obtain ⟨more, rfl⟩ := hmember.member_begins
    exact ⟨_, rfl⟩
  | moreMembers hmember _ _ _ =>
    obtain ⟨more, rfl⟩ := hmember.member_begins
    exact ⟨_, rfl⟩

end SingleFile.Json
