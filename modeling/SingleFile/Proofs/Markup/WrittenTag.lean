/-
  SingleFile.Proofs.Markup.WrittenTag — TAGS AS THEY ARE WRITTEN
  ──────────────────────────────────────────────────────────────
  A tag that is written from a name and attributes is read as these, with the
  spans they were written at, whatever follows it.  The attributes are bare, or
  have values in quotes or without, and blanks stand in front of each of them.
  A value without quotes is read whole as long as it could be a name.

  Main results:
    * `nextToken_written` — a token behind blanks is read.
    * `attributesAt_attribute`, `attributesAt_entry` — an attribute is read.
      The step.
    * `attributesAt_entries` — all attributes of a tag are read.  The run.
    * `markupAt_startTag`, `markupAt_endTag` — a tag is read.
    * `markupAt_comment`, `markupAt_declaration` — what is skipped.
-/
import SingleFile.Proofs.Markup.Progress

namespace SingleFile.Markup

open SingleFile.Text Cursor

/-! ## §1. What is written -/

/-- A quotation mark. -/
inductive QuoteMark where
  | double
  | single
deriving DecidableEq, Repr

/-- The character of a quotation mark. -/
def QuoteMark.char : QuoteMark → Char
  | double => '"'
  | single => '\''

/-- The kind of the tokens in a quotation mark. -/
def QuoteMark.kind : QuoteMark → TokenKind
  | double => .doubleQuoted
  | single => .singleQuoted

/-- A value in quotes: any text without the quotation mark. -/
structure QuotedValue where
  mark : QuoteMark
  text : List Char
  mark_not_mem : mark.char ∉ text := by decide

/-- A value with its quotes. -/
def QuotedValue.written (v : QuotedValue) : List Char := v.mark.char :: v.text ++ [v.mark.char]

/-- Blanks between the parts of a tag. -/
structure Blanks where
  text : List Char
  allBlank : text.all isAsciiBlank = true := by decide

theorem Blanks.isBlank (b : Blanks) : ∀ c ∈ b.text, isAsciiBlank c = true :=
  List.all_eq_true.mp b.allBlank

/-- An attribute behind blanks: bare, or with a value in quotes. -/
structure AttributeText where
  blanks : Blanks
  name : List Char
  value : Option QuotedValue
  blanks_ne_nil : blanks.text ≠ [] := by decide
  name_ne_nil : name ≠ [] := by decide
  allNameChars : name.all isNameChar = true := by decide

theorem AttributeText.isName (a : AttributeText) : ∀ c ∈ a.name, isNameChar c = true :=
  List.all_eq_true.mp a.allNameChars

/-- What stands behind the name of an attribute. -/
def AttributeText.writtenValue (a : AttributeText) : List Char :=
  match a.value with
  | none => []
  | some v => '=' :: v.written

/-- An attribute with the blanks in front of it. -/
def AttributeText.written (a : AttributeText) : List Char :=
  a.blanks.text ++ (a.name ++ a.writtenValue)

theorem AttributeText.written_of_bare {a : AttributeText} (h : a.value = none) :
    a.written = a.blanks.text ++ a.name := by
  rw [written, writtenValue, h, List.append_nil]

/-- Whether a character can be part of a value without quotes. -/
def isUnquotedChar (c : Char) : Bool :=
  !isWhiteSpace c && c != '"' && c != '\'' && c != '<' && c != '>' && c != '='

/-- The characters of names are those of values, but for the slash. -/
theorem isNameChar_eq (c : Char) : isNameChar c = (isUnquotedChar c && c != '/') := by
  unfold isNameChar isUnquotedChar
  ac_rfl

/-- A value without quotes. -/
structure UnquotedValue where
  text : List Char
  text_ne_nil : text ≠ [] := by decide
  allUnquotedChars : text.all isUnquotedChar = true := by decide

theorem UnquotedValue.isUnquoted (v : UnquotedValue) : ∀ c ∈ v.text, isUnquotedChar c = true :=
  List.all_eq_true.mp v.allUnquotedChars

/-- An attribute of any form, behind blanks.  The one with a value without quotes is given by its
name, which is an attribute without a value. -/
inductive EntryText where
  /-- A bare attribute, or one with a value in quotes. -/
  | ordinary (a : AttributeText)
  | unquoted (a : AttributeText) (isBare : a.value = none) (v : UnquotedValue)

namespace EntryText

/-- An attribute with the blanks in front of it. -/
def written : EntryText → List Char
  | ordinary a => a.written
  | unquoted a _ v => a.written ++ '=' :: v.text

/-- Whether an attribute has a value without quotes. -/
def isUnquoted : EntryText → Bool
  | ordinary _ => false
  | unquoted _ _ _ => true

/-- Whether no slash cuts the value of an attribute; quotes keep it from doing so. -/
def isUncut : EntryText → Bool
  | ordinary _ => true
  | unquoted _ _ v => !v.text.contains '/'

end EntryText

/-- The name of a tag: a letter, and whatever does not end a name. -/
structure TagName where
  first : Char
  later : List Char
  isLetter : first.isAlpha = true := by decide
  allTagNameChars : later.all isTagNameChar = true := by decide

theorem TagName.isTagName (n : TagName) : ∀ c ∈ n.later, isTagNameChar c = true :=
  List.all_eq_true.mp n.allTagNameChars

/-- The text of a tag's name. -/
def TagName.text (n : TagName) : List Char := n.first :: n.later

/-- A start tag up to its closing bracket. -/
structure TagText where
  name : TagName
  attributes : List AttributeText
  /-- The blanks in front of the closing bracket. -/
  blanks : Blanks

/-- The text between a tag's name and its closing bracket. -/
def TagText.inside (t : TagText) : List Char :=
  t.attributes.flatMap AttributeText.written ++ t.blanks.text

/-- The characters that close a tag. -/
def closingBracket (isSelfClosing : Bool) : List Char :=
  if isSelfClosing then ['/', '>'] else ['>']

/-- A start tag, or a tag that closes itself. -/
def TagText.written (t : TagText) (isSelfClosing : Bool) : List Char :=
  '<' :: t.name.text ++ (t.inside ++ closingBracket isSelfClosing)

/-- A start tag up to its closing bracket, with attributes of any form.  A blank ends a value
without quotes, also in front of the bracket. -/
structure EntryTag where
  name : TagName
  entries : List EntryText
  blanks : Blanks
  blanks_ne_nil : entries.getLast?.any EntryText.isUnquoted = true → blanks.text ≠ []

/-- The text between a tag's name and its closing bracket. -/
def EntryTag.inside (t : EntryTag) : List Char :=
  t.entries.flatMap EntryText.written ++ t.blanks.text

/-- A start tag, or a tag that closes itself. -/
def EntryTag.written (t : EntryTag) (isSelfClosing : Bool) : List Char :=
  '<' :: t.name.text ++ (t.inside ++ closingBracket isSelfClosing)

/-- A start tag without values that have no quotes, as one with attributes of any form. -/
def TagText.entryTag (t : TagText) : EntryTag where
  name := t.name
  entries := t.attributes.map .ordinary
  blanks := t.blanks
  blanks_ne_nil := by
    rw [List.getLast?_map]
    cases t.attributes.getLast? <;> simp [EntryText.isUnquoted]

theorem TagText.written_entryTag (t : TagText) (isSelfClosing : Bool) :
    t.entryTag.written isSelfClosing = t.written isSelfClosing := by
  simp [EntryTag.written, EntryTag.inside, TagText.written, TagText.inside, entryTag,
    List.flatMap_map, EntryText.written]

/-- The end tag of a name. -/
def TagName.endTag (n : TagName) : List Char := '<' :: '/' :: n.text ++ ['>']

/-! ## §2. What it is read as -/

/-- The attribute that is read where an attribute is written. -/
def AttributeText.readAt (offset : Nat) (a : AttributeText) : Attribute :=
  ⟨String.ofList a.name, a.value.map fun v => String.ofList v.text,
    ⟨offset + byteLength a.blanks.text, offset + byteLength a.written⟩⟩

/-- The attributes that are read where some attributes are written. -/
def attributesReadAt : Nat → List AttributeText → List Attribute
  | _, [] => []
  | offset, a :: rest => a.readAt offset :: attributesReadAt (offset + byteLength a.written) rest

/-- The tag that is read where a start tag is written in front of a text. -/
def TagText.readAt (offset : Nat) (t : TagText) (isSelfClosing : Bool) (rest : List Char) : Tag :=
  ⟨String.ofList t.name.text, offset, false, isSelfClosing, false,
    attributesReadAt (offset + byteLength ('<' :: t.name.text)) t.attributes,
    ⟨offset + byteLength (t.written isSelfClosing), rest⟩⟩

/-- The attribute that is read where an attribute is written, if no slash cuts it. -/
def EntryText.readAt (offset : Nat) : EntryText → Attribute
  | ordinary a => a.readAt offset
  | unquoted a isBare v =>
    ⟨String.ofList a.name, some (String.ofList v.text),
      ⟨offset + byteLength a.blanks.text,
        offset + byteLength (EntryText.unquoted a isBare v).written⟩⟩

/-- The attributes that are read where some attributes are written. -/
def entriesReadAt : Nat → List EntryText → List Attribute
  | _, [] => []
  | offset, e :: rest => e.readAt offset :: entriesReadAt (offset + byteLength e.written) rest

theorem entriesReadAt_ordinary (offset : Nat) (attributes : List AttributeText) :
    entriesReadAt offset (attributes.map .ordinary) = attributesReadAt offset attributes := by
  induction attributes generalizing offset with
  | nil => rfl
  | cons a attributes ih => rw [List.map_cons, entriesReadAt, ih]; rfl

/-- The tag that is read where a start tag is written, if no slash cuts a value of it. -/
def EntryTag.readAt (offset : Nat) (t : EntryTag) (isSelfClosing : Bool) (rest : List Char) : Tag :=
  ⟨String.ofList t.name.text, offset, false, isSelfClosing, false,
    entriesReadAt (offset + byteLength ('<' :: t.name.text)) t.entries,
    ⟨offset + byteLength (t.written isSelfClosing), rest⟩⟩

theorem TagText.readAt_entryTag (t : TagText) (offset : Nat) (isSelfClosing : Bool)
    (rest : List Char) :
    t.entryTag.readAt offset isSelfClosing rest = t.readAt offset isSelfClosing rest := by
  rw [EntryTag.readAt, TagText.readAt, t.written_entryTag, entryTag, entriesReadAt_ordinary]

/-- The tag that is read where an end tag is written in front of a text. -/
def TagName.endReadAt (offset : Nat) (n : TagName) (rest : List Char) : Tag :=
  ⟨String.ofList n.text, offset, true, false, false, [],
    ⟨offset + byteLength n.endTag, rest⟩⟩

/-! ## §3. Tokens -/

/-- Whether a text ends the name in front of it. -/
def Delimits (text : List Char) : Prop :=
  ∃ c rest, text = c :: rest ∧ (isAsciiBlank c = true ∨ c = '>' ∨ c = '/')

theorem isWhiteSpace_of_isAsciiBlank {c : Char} (h : isAsciiBlank c = true) :
    isWhiteSpace c = true := by
  simp only [isAsciiBlank, Bool.or_eq_true, beq_iff_eq] at h
  rcases h with (((rfl | rfl) | rfl) | rfl) | rfl <;> decide

theorem isTagNameChar_of_delimits {c : Char} (h : isAsciiBlank c = true ∨ c = '>' ∨ c = '/') :
    isTagNameChar c = false := by
  rcases h with h | rfl | rfl
  · simp [isTagNameChar, isWhiteSpace_of_isAsciiBlank h]
  · decide
  · decide

theorem isNameChar_of_delimits {c : Char} (h : isAsciiBlank c = true ∨ c = '>' ∨ c = '/') :
    isNameChar c = false := by
  rcases h with h | rfl | rfl
  · simp [isNameChar, isWhiteSpace_of_isAsciiBlank h]
  · decide
  · decide

theorem isAsciiBlank_of_isNameChar {c : Char} (h : isNameChar c = true) :
    isAsciiBlank c = false := by
  refine Bool.eq_false_iff.mpr fun hblank => ?_
  simp [isNameChar, isWhiteSpace_of_isAsciiBlank hblank] at h

/-- The characters that satisfy a test, up to one that does not. -/
theorem takeWhile_append_cons {test : Char → Bool} {cs : List Char} (rest : List Char) {c : Char}
    (hcs : ∀ d ∈ cs, test d = true) (hc : test c = false) :
    (cs ++ c :: rest).takeWhile test = cs := by
  rw [List.takeWhile_append_of_pos hcs, List.takeWhile_cons, hc, if_neg (by decide),
    List.append_nil]

theorem dropWhile_append_cons {test : Char → Bool} {cs : List Char} (rest : List Char) {c : Char}
    (hcs : ∀ d ∈ cs, test d = true) (hc : test c = false) :
    (cs ++ c :: rest).dropWhile test = c :: rest := by
  rw [List.dropWhile_append_of_pos hcs, List.dropWhile_cons, hc, if_neg (by decide)]

/-- Whether a text begins with no blank. -/
def BeginsToken (text : List Char) : Prop := ∃ c rest, text = c :: rest ∧ isAsciiBlank c = false

/-- **A token behind blanks is read**, and the place behind it is where its text ends. -/
theorem nextToken_written {kind : TokenKind} {rest : List Char} {offset : Nat}
    (blanks : Blanks) (text : List Char) (htext : BeginsToken text)
    (h : tokenAt (text ++ rest) = (kind, text.length)) :
    nextToken ⟨offset, blanks.text ++ (text ++ rest)⟩ =
      (⟨kind, offset + byteLength blanks.text, text⟩,
        ⟨offset + byteLength blanks.text + byteLength text, rest⟩) := by
  have hover : (⟨offset, blanks.text ++ (text ++ rest)⟩ : Cursor).overWhile isAsciiBlank
      = (blanks.text, ⟨offset + byteLength blanks.text, text ++ rest⟩) := by
    obtain ⟨c, cs, rfl, hc⟩ := htext
    simp only [overWhile, List.cons_append]
    rw [takeWhile_append_cons _ blanks.isBlank hc, dropWhile_append_cons _ blanks.isBlank hc]
  unfold nextToken
  rw [hover]
  dsimp only
  rw [h]
  dsimp only
  rw [List.take_left, List.drop_left]

theorem ne_of_isAlpha {c d : Char} (h : c.isAlpha = true) (hd : d.isAlpha = false) : c ≠ d := by
  rintro rfl
  rw [h] at hd
  exact absurd hd (by decide)

theorem tokenAt_tagOpen (n : TagName) {rest : List Char} (h : Delimits rest) :
    tokenAt ('<' :: n.text ++ rest) = (.tagOpen, ('<' :: n.text).length) := by
  obtain ⟨c, cs, rfl, hc⟩ := h
  have hslash : n.first ≠ '/' := ne_of_isAlpha n.isLetter (by decide)
  have hlater := takeWhile_append_cons cs n.isTagName (isTagNameChar_of_delimits hc)
  have hlength : 2 + n.later.length = ('<' :: n.text).length := Nat.add_comm ..
  show tokenAt ('<' :: n.first :: (n.later ++ c :: cs)) = _
  unfold tokenAt
  simp [hslash, n.isLetter, hlater, hlength]

theorem tokenAt_closeTagOpen (n : TagName) {rest : List Char} (h : Delimits rest) :
    tokenAt ('<' :: '/' :: n.text ++ rest) = (.closeTagOpen, ('<' :: '/' :: n.text).length) := by
  obtain ⟨c, cs, rfl, hc⟩ := h
  have hlater := takeWhile_append_cons cs n.isTagName (isTagNameChar_of_delimits hc)
  have hlength : 3 + n.later.length = ('<' :: '/' :: n.text).length := Nat.add_comm ..
  show tokenAt ('<' :: '/' :: n.first :: (n.later ++ c :: cs)) = _
  unfold tokenAt
  simp [n.isLetter, hlater, hlength]

/-- A character of names begins a name, which goes on as long as such characters follow. -/
theorem tokenAt_of_isNameChar {c : Char} (hc : isNameChar c = true) (rest : List Char) :
    tokenAt (c :: rest) = (.name, (c :: rest.takeWhile isNameChar).length) := by
  have hlength : 1 + (rest.takeWhile isNameChar).length
      = (c :: rest.takeWhile isNameChar).length := Nat.add_comm ..
  -- No character of a name begins a token of another kind.
  have hne : c ≠ '<' ∧ c ≠ '>' ∧ c ≠ '/' ∧ c ≠ '=' ∧ c ≠ '"' ∧ c ≠ '\'' := by
    have hchar := hc
    simp only [isNameChar, Bool.and_eq_true, bne_iff_ne] at hchar
    obtain ⟨⟨⟨⟨⟨⟨-, hdouble⟩, hsingle⟩, hopen⟩, hclose⟩, hslash⟩, hequals⟩ := hchar
    exact ⟨hopen, hclose, hslash, hequals, hdouble, hsingle⟩
  unfold tokenAt
  simp [hne, hc, hlength]

theorem tokenAt_name {name rest : List Char} {c : Char} (hname : name ≠ [])
    (hchars : ∀ d ∈ name, isNameChar d = true) (hc : isNameChar c = false) :
    tokenAt (name ++ c :: rest) = (.name, name.length) := by
  obtain ⟨d, ds, rfl⟩ := List.exists_cons_of_ne_nil hname
  obtain ⟨hd, hds⟩ := List.forall_mem_cons.mp hchars
  rw [List.cons_append, tokenAt_of_isNameChar hd, takeWhile_append_cons rest hds hc]

theorem tokenAt_quoted (v : QuotedValue) (rest : List Char) :
    tokenAt (v.written ++ rest) = (v.mark.kind, v.written.length) := by
  have hinside : ∀ c ∈ v.text, (c != v.mark.char) = true := by
    intro c hc
    rw [bne_iff_ne]
    rintro rfl
    exact v.mark_not_mem hc
  have hquoted : tokenAt.quotedAt v.mark.char v.mark.kind (v.text ++ v.mark.char :: rest)
      = (v.mark.kind, v.written.length) := by
    unfold tokenAt.quotedAt
    dsimp only
    rw [takeWhile_append_cons rest hinside (by simp), if_pos (by simp)]
    simp [QuotedValue.written]
  have htext : v.written ++ rest = v.mark.char :: (v.text ++ v.mark.char :: rest) := by
    simp [QuotedValue.written]
  rw [htext, ← hquoted]
  cases v.mark <;> rfl

/-! ## §4. Attributes -/

variable {tag : Tag} {done : List Attribute} {a : Attribute} {offset : Nat} {rest : List Char}

/-- A tag with its attributes read from a state on. -/
def attributesAt (tag : Tag) (s : TagState) : Tag :=
  readAttributes tag (tag.behind.rest.length + 1) s

/-- A tag of which only the name has been read. -/
def Tag.named (name : List Char) (start : Nat) (isEnd : Bool) (behind : Cursor) : Tag :=
  ⟨String.ofList name, start, isEnd, false, false, [], behind⟩

/-- Whether a kind of token may be a part of an attribute. -/
def TokenKind.isPart : TokenKind → Bool
  | .equals => true
  | .name => true
  | .doubleQuoted => true
  | .singleQuoted => true
  | _ => false

/-- A part of an attribute is added to what has been read. -/
theorem attributesAt_add {tag : Tag} {s : TagState} {token : Token} {behind : Cursor}
    (h : nextToken tag.behind = (token, behind)) (hkind : token.kind.isPart = true) :
    attributesAt tag s = attributesAt { tag with behind := behind } (s.add token) := by
  have hpass : tag.behind.Passes behind := by
    have hpass := @nextToken_passes tag.behind
    rw [h] at hpass
    refine hpass fun hend => ?_
    rw [hend] at hkind
    exact absurd hkind (by decide)
  have hlength := hpass.2
  unfold attributesAt
  rw [readAttributes, h]
  dsimp only
  split
  case h_6 => exact readAttributes_bound hlength (Nat.lt_succ_self _)
  all_goals
    next hother =>
      rw [hother] at hkind
      exact absurd hkind (by decide)

/-- No blanks. -/
def Blanks.none : Blanks := ⟨[], by simp⟩

theorem beginsToken_name (a : AttributeText) : BeginsToken a.name := by
  obtain ⟨c, cs, hname⟩ := List.exists_cons_of_ne_nil a.name_ne_nil
  refine ⟨c, cs, hname, isAsciiBlank_of_isNameChar (a.isName c ?_)⟩
  rw [hname]
  exact List.mem_cons_self ..

/-- The attribute as it is once its name has been read. -/
def AttributeText.namedAt (offset : Nat) (a : AttributeText) : Attribute :=
  ⟨String.ofList a.name, none,
    ⟨offset + byteLength a.blanks.text, offset + byteLength a.blanks.text + byteLength a.name⟩⟩

/-- The name of an attribute makes it the pending one; one that was pending had no value. -/
theorem attributesAt_name (a : AttributeText) {tag : Tag} {s : TagState} {offset : Nat}
    {c : Char} {rest : List Char} (hs : s.awaiting = false)
    (hbehind : tag.behind = ⟨offset, a.blanks.text ++ (a.name ++ c :: rest)⟩)
    (hc : isNameChar c = false) :
    attributesAt tag s =
      attributesAt
        { tag with behind := ⟨offset + byteLength a.blanks.text + byteLength a.name, c :: rest⟩ }
        ⟨s.pending.toList ++ s.done, some (a.namedAt offset), false⟩ := by
  have htoken : nextToken tag.behind = (⟨.name, offset + byteLength a.blanks.text, a.name⟩,
      ⟨offset + byteLength a.blanks.text + byteLength a.name, c :: rest⟩) := by
    rw [hbehind]
    exact nextToken_written a.blanks a.name (beginsToken_name a)
      (tokenAt_name a.name_ne_nil a.isName hc)
  rw [attributesAt_add htoken rfl]
  simp [TagState.add, hs, Token.span, Token.stop, AttributeText.namedAt]

/-- Behind an equals sign the value of the pending attribute comes next. -/
theorem attributesAt_equals {tag : Tag} {done : List Attribute} {a : Attribute} {offset : Nat}
    {rest : List Char} (hbehind : tag.behind = ⟨offset, '=' :: rest⟩) :
    attributesAt tag ⟨done, some a, false⟩ =
      attributesAt { tag with behind := ⟨offset + 1, rest⟩ } ⟨done, some a, true⟩ := by
  have hequals : nextToken tag.behind = (⟨.equals, offset, ['=']⟩, ⟨offset + 1, rest⟩) := by
    rw [hbehind]
    exact nextToken_written .none ['='] ⟨'=', [], rfl, by decide⟩ rfl
  exact attributesAt_add hequals rfl

/-- A value in quotes completes the pending attribute. -/
theorem attributesAt_value (v : QuotedValue) {tag : Tag} {done : List Attribute} {a : Attribute}
    {offset : Nat} {rest : List Char} (hbehind : tag.behind = ⟨offset, '=' :: v.written ++ rest⟩) :
    attributesAt tag ⟨done, some a, false⟩ =
      attributesAt { tag with behind := ⟨offset + byteLength ('=' :: v.written), rest⟩ }
        ⟨{ a with
            value := some (String.ofList v.text)
            span := a.span.cover ⟨offset + 1, offset + byteLength ('=' :: v.written)⟩ } :: done,
          none, false⟩ := by
  have hsize : ('=' : Char).utf8Size = 1 := rfl
  have hquoted : nextToken ⟨offset + 1, v.written ++ rest⟩ =
      (⟨v.mark.kind, offset + 1, v.written⟩, ⟨offset + 1 + byteLength v.written, rest⟩) := by
    refine nextToken_written .none v.written ⟨v.mark.char, _, rfl, ?_⟩ (tokenAt_quoted v rest)
    cases v.mark <;> decide
  have hvalue : (⟨v.mark.kind, offset + 1, v.written⟩ : Token).value = v.text := by
    have hkind : v.mark.kind.isQuoted = true := by cases v.mark <;> rfl
    simp [Token.value, hkind, QuotedValue.written]
  rw [attributesAt_equals hbehind, attributesAt_add hquoted (by cases v.mark <;> rfl)]
  have hstate : TagState.add ⟨done, some a, true⟩ ⟨v.mark.kind, offset + 1, v.written⟩
      = ⟨{ a with value := some (String.ofList v.text)
                  span := a.span.cover ⟨offset + 1, offset + 1 + byteLength v.written⟩ } :: done,
          none, false⟩ := by
    rw [← hvalue]
    cases v.mark <;> rfl
  rw [hstate, byteLength_cons, hsize, Nat.add_assoc]

/-- **An attribute is read.**  What was pending is complete, and the next one may follow. -/
theorem attributesAt_attribute (a : AttributeText) (tag : Tag) {s : TagState} {offset : Nat}
    {rest : List Char} (hs : s.awaiting = false)
    (hbehind : tag.behind = ⟨offset, a.written ++ rest⟩) (hrest : Delimits rest) :
    ∃ s' : TagState, s'.awaiting = false ∧ s'.attributes = s.attributes ++ [a.readAt offset] ∧
      attributesAt tag s =
        attributesAt { tag with behind := ⟨offset + byteLength a.written, rest⟩ } s' := by
  have hattributes : s.attributes = (s.pending.toList ++ s.done).reverse := rfl
  cases hvalue : a.value with
  | none =>
    obtain ⟨c, cs, rfl, hc⟩ := hrest
    have hwritten := AttributeText.written_of_bare hvalue
    have hread : a.namedAt offset = a.readAt offset := by
      simp [AttributeText.namedAt, AttributeText.readAt, hvalue, hwritten, Nat.add_assoc]
    rw [hwritten, List.append_assoc] at hbehind
    refine ⟨⟨s.pending.toList ++ s.done, some (a.namedAt offset), false⟩, rfl, ?_, ?_⟩
    · rw [hattributes, hread]
      simp [TagState.attributes]
    · rw [attributesAt_name a hs hbehind (isNameChar_of_delimits hc), hwritten, byteLength_append,
        ← Nat.add_assoc]
  | some v =>
    have hwritten : a.written = a.blanks.text ++ (a.name ++ '=' :: v.written) := by
      simp [AttributeText.written, AttributeText.writtenValue, hvalue]
    have hstop : offset + byteLength a.blanks.text + byteLength a.name
        + byteLength ('=' :: v.written) = offset + byteLength a.written := by
      rw [hwritten, byteLength_append, byteLength_append, Nat.add_assoc, Nat.add_assoc]
    have hsize : ('=' : Char).utf8Size = 1 := rfl
    -- The span of an attribute goes from its name to the end of its value.
    have hread : { a.namedAt offset with
        value := some (String.ofList v.text)
        span := (a.namedAt offset).span.cover
          ⟨offset + byteLength a.blanks.text + byteLength a.name + 1,
            offset + byteLength a.written⟩ } = a.readAt offset := by
      have hle : offset + byteLength a.blanks.text + byteLength a.name
          ≤ offset + byteLength a.written := by
        rw [← hstop]
        exact Nat.le_add_right ..
      simp only [AttributeText.namedAt, AttributeText.readAt, hvalue, Span.cover, Option.map_some,
        Attribute.mk.injEq, Span.mk.injEq, true_and]
      omega
    rw [hwritten, List.append_assoc, List.append_assoc, List.cons_append] at hbehind
    refine ⟨⟨a.readAt offset :: (s.pending.toList ++ s.done), none, false⟩, rfl, ?_, ?_⟩
    · rw [hattributes]
      simp [TagState.attributes]
    · rw [attributesAt_name a hs hbehind (by decide), attributesAt_value v rfl, hstop, hread]

/-- A blank in front of an attribute ends the name or value before it. -/
theorem EntryText.exists_blank (e : EntryText) (rest : List Char) :
    ∃ c cs, e.written ++ rest = c :: cs ∧ isAsciiBlank c = true := by
  have hordinary (a : AttributeText) (rest : List Char) :
      ∃ c cs, a.written ++ rest = c :: cs ∧ isAsciiBlank c = true := by
    obtain ⟨c, cs, hblanks⟩ := List.exists_cons_of_ne_nil a.blanks_ne_nil
    refine ⟨c, _, by rw [AttributeText.written, hblanks]; rfl, a.blanks.isBlank c ?_⟩
    rw [hblanks]
    exact List.mem_cons_self ..
  cases e with
  | ordinary a => exact hordinary a rest
  | unquoted a isBare v =>
    rw [written, List.append_assoc]
    exact hordinary a _

theorem delimits_entries (entries : List EntryText) (hrest : Delimits rest) :
    Delimits (entries.flatMap EntryText.written ++ rest) := by
  cases entries with
  | nil => exact hrest
  | cons e entries =>
    rw [List.flatMap_cons, List.append_assoc]
    obtain ⟨c, cs, heq, hblank⟩ := e.exists_blank (entries.flatMap EntryText.written ++ rest)
    exact ⟨c, cs, heq, Or.inl hblank⟩

theorem delimits_blanks (blanks : Blanks) {rest : List Char} (hrest : Delimits rest) :
    Delimits (blanks.text ++ rest) := by
  cases hblanks : blanks.text with
  | nil => exact hrest
  | cons c cs =>
    refine ⟨c, _, rfl, Or.inl (blanks.isBlank c ?_)⟩
    rw [hblanks]
    exact List.mem_cons_self ..

/-- A name completes an attribute whose value comes next. -/
theorem attributesAt_nameValue {value : List Char} (hvalue : value ≠ [])
    (hchars : ∀ c ∈ value, isNameChar c = true)
    (hbehind : tag.behind = ⟨offset, value ++ rest⟩) (hrest : Delimits rest) :
    attributesAt tag ⟨done, some a, true⟩ =
      attributesAt { tag with behind := ⟨offset + byteLength value, rest⟩ }
        ⟨{ a with
            value := some (String.ofList value)
            span := a.span.cover ⟨offset, offset + byteLength value⟩ } :: done, none, false⟩ := by
  obtain ⟨c, cs, rfl, hc⟩ := hrest
  have hbegins : BeginsToken value := by
    obtain ⟨d, ds, rfl⟩ := List.exists_cons_of_ne_nil hvalue
    exact ⟨d, ds, rfl, isAsciiBlank_of_isNameChar (hchars d (List.mem_cons_self ..))⟩
  have htoken : nextToken tag.behind
      = (⟨.name, offset, value⟩, ⟨offset + byteLength value, c :: cs⟩) := by
    rw [hbehind]
    exact nextToken_written .none value hbegins
      (tokenAt_name hvalue hchars (isNameChar_of_delimits hc))
  exact attributesAt_add htoken rfl

/-- **An attribute that no slash cuts is read.**  What was pending is complete, and the next one may
follow. -/
theorem attributesAt_entry {e : EntryText} (he : e.isUncut = true) (tag : Tag) {s : TagState}
    (hs : s.awaiting = false) (hbehind : tag.behind = ⟨offset, e.written ++ rest⟩)
    (hrest : Delimits rest) :
    ∃ s' : TagState, s'.awaiting = false ∧ s'.attributes = s.attributes ++ [e.readAt offset] ∧
      attributesAt tag s =
        attributesAt { tag with behind := ⟨offset + byteLength e.written, rest⟩ } s' := by
  cases e with
  | ordinary a => exact attributesAt_attribute a tag hs hbehind hrest
  | unquoted a isBare v =>
    have hchars : ∀ c ∈ v.text, isNameChar c = true := by
      intro c hc
      have hslash : '/' ∉ v.text := by simpa [EntryText.isUncut] using he
      rw [isNameChar_eq, v.isUnquoted c hc, Bool.true_and, bne_iff_ne]
      rintro rfl
      exact hslash hc
    have hbare := AttributeText.written_of_bare isBare
    have hsize : ('=' : Char).utf8Size = 1 := rfl
    have hstop : offset + byteLength a.blanks.text + byteLength a.name + 1 + byteLength v.text
        = offset + byteLength (EntryText.unquoted a isBare v).written := by
      rw [EntryText.written, hbare, byteLength_append, byteLength_append, byteLength_cons, hsize]
      omega
    -- The span of the attribute goes from its name to the end of its value.
    have hread : { a.namedAt offset with
        value := some (String.ofList v.text)
        span := (a.namedAt offset).span.cover
          ⟨offset + byteLength a.blanks.text + byteLength a.name + 1,
            offset + byteLength (EntryText.unquoted a isBare v).written⟩ }
        = (EntryText.unquoted a isBare v).readAt offset := by
      simp only [AttributeText.namedAt, EntryText.readAt, Span.cover, Attribute.mk.injEq,
        Span.mk.injEq, true_and]
      omega
    rw [EntryText.written, hbare, List.append_assoc, List.append_assoc, List.cons_append] at hbehind
    refine ⟨⟨(EntryText.unquoted a isBare v).readAt offset :: (s.pending.toList ++ s.done), none,
      false⟩, rfl, by simp [TagState.attributes], ?_⟩
    rw [attributesAt_name a hs hbehind (by decide), attributesAt_equals rfl,
      attributesAt_nameValue v.text_ne_nil hchars rfl hrest, hstop, hread]

/-- **All attributes of a tag are read**, in order, if no slash cuts one. -/
theorem attributesAt_entries {entries : List EntryText} (huncut : ∀ e ∈ entries, e.isUncut = true)
    (tag : Tag) {s : TagState} (hs : s.awaiting = false)
    (hbehind : tag.behind = ⟨offset, entries.flatMap EntryText.written ++ rest⟩)
    (hrest : Delimits rest) :
    ∃ s' : TagState, s'.attributes = s.attributes ++ entriesReadAt offset entries ∧
      attributesAt tag s =
        attributesAt { tag with behind := ⟨offset
          + byteLength (entries.flatMap EntryText.written), rest⟩ } s' := by
  induction entries generalizing tag s offset with
  | nil =>
    refine ⟨s, (List.append_nil _).symm, ?_⟩
    rw [List.flatMap_nil, List.nil_append] at hbehind
    rw [List.flatMap_nil, byteLength_nil, Nat.add_zero, ← hbehind]
  | cons e entries ih =>
    obtain ⟨hhead, htail⟩ := List.forall_mem_cons.mp huncut
    rw [List.flatMap_cons, List.append_assoc] at hbehind
    obtain ⟨s₁, hs₁, hattributes₁, hread₁⟩ :=
      attributesAt_entry hhead tag hs hbehind (delimits_entries entries hrest)
    obtain ⟨s₂, hattributes₂, hread₂⟩ := ih htail { tag with behind := _ } hs₁ rfl
    refine ⟨s₂, ?_, ?_⟩
    · rw [hattributes₂, hattributes₁, List.append_assoc]
      rfl
    · rw [hread₁, hread₂, List.flatMap_cons, byteLength_append, Nat.add_assoc]

/-! ## §5. Tags -/

theorem delimits_closingBracket (isSelfClosing : Bool) (rest : List Char) :
    Delimits (closingBracket isSelfClosing ++ rest) := by
  cases isSelfClosing with
  | false => exact ⟨'>', rest, rfl, Or.inr (Or.inl rfl)⟩
  | true => exact ⟨'/', '>' :: rest, rfl, Or.inr (Or.inr rfl)⟩

/-- The closing bracket ends the attributes. -/
theorem attributesAt_closingBracket (tag : Tag) {offset : Nat} {rest : List Char} (s : TagState)
    (blanks : Blanks) (isSelfClosing : Bool) (htag : tag.isSelfClosing = false)
    (hbehind : tag.behind = ⟨offset, blanks.text ++ (closingBracket isSelfClosing ++ rest)⟩) :
    attributesAt tag s =
      { tag with
          attributes := s.attributes
          isSelfClosing := isSelfClosing
          behind :=
            ⟨offset + byteLength (blanks.text ++ closingBracket isSelfClosing), rest⟩ } := by
  have hbegins : BeginsToken (closingBracket isSelfClosing) := by
    cases isSelfClosing with
    | false => exact ⟨'>', [], rfl, by decide⟩
    | true => exact ⟨'/', ['>'], rfl, by decide⟩
  have htoken : ∀ kind,
      tokenAt (closingBracket isSelfClosing ++ rest)
        = (kind, (closingBracket isSelfClosing).length) →
      nextToken tag.behind
        = (⟨kind, offset + byteLength blanks.text, closingBracket isSelfClosing⟩,
          ⟨offset + byteLength (blanks.text ++ closingBracket isSelfClosing), rest⟩) := by
    intro kind hkind
    rw [hbehind, byteLength_append, ← Nat.add_assoc]
    exact nextToken_written blanks _ hbegins hkind
  cases isSelfClosing with
  | false => rw [attributesAt, readAttributes, htoken .rightAngle rfl, ← htag]
  | true => rw [attributesAt, readAttributes, htoken .slashRightAngle rfl]

/-- What is between a tag's name and the place behind it is read, if no slash cuts a value. -/
theorem attributesAt_inside (t : EntryTag) (huncut : ∀ e ∈ t.entries, e.isUncut = true)
    (tag : Tag) (isSelfClosing : Bool) (htag : tag.isSelfClosing = false)
    (hbehind : tag.behind = ⟨offset, t.inside ++ (closingBracket isSelfClosing ++ rest)⟩) :
    attributesAt tag .start =
      { tag with
          attributes := entriesReadAt offset t.entries
          isSelfClosing := isSelfClosing
          behind := ⟨offset + byteLength (t.inside ++ closingBracket isSelfClosing), rest⟩ } := by
  have hbracket := delimits_closingBracket isSelfClosing rest
  rw [EntryTag.inside, List.append_assoc] at hbehind
  obtain ⟨s, hattributes, hread⟩ := attributesAt_entries huncut tag (s := .start) rfl hbehind
    (delimits_blanks t.blanks hbracket)
  have hclose := attributesAt_closingBracket
    { tag with behind := ⟨offset + byteLength (t.entries.flatMap EntryText.written),
                 t.blanks.text ++ (closingBracket isSelfClosing ++ rest)⟩ }
    s t.blanks isSelfClosing htag rfl
  rw [hread, hclose, hattributes, EntryTag.inside, List.append_assoc,
    byteLength_append (t.entries.flatMap _), Nat.add_assoc]
  rfl

theorem beginsToken_bracket (text : List Char) : BeginsToken ('<' :: text) :=
  ⟨'<', text, rfl, by decide⟩

/-- The name of a tag is read, and then what stands behind it. -/
theorem readTag?_name (n : TagName) (offset : Nat) {inside : List Char} (h : Delimits inside) :
    readTag? ⟨offset, '<' :: n.text ++ inside⟩ = some (attributesAt
      (.named n.text offset false ⟨offset + byteLength ('<' :: n.text), inside⟩) .start) := by
  have htoken : nextToken ⟨offset, '<' :: n.text ++ inside⟩ =
      (⟨.tagOpen, offset, '<' :: n.text⟩, ⟨offset + byteLength ('<' :: n.text), inside⟩) :=
    nextToken_written .none _ (beginsToken_bracket _) (tokenAt_tagOpen n h)
  rw [readTag?, htoken]
  rfl

/-- What is read of a start tag is its name, and what its attributes are read as. -/
theorem readTag?_inside (t : EntryTag) (isSelfClosing : Bool) (offset : Nat) (rest : List Char) :
    readTag? ⟨offset, t.written isSelfClosing ++ rest⟩ = some (attributesAt
      (.named t.name.text offset false ⟨offset + byteLength ('<' :: t.name.text),
        t.inside ++ (closingBracket isSelfClosing ++ rest)⟩) .start) := by
  have hinside : Delimits (t.inside ++ (closingBracket isSelfClosing ++ rest)) := by
    rw [EntryTag.inside, List.append_assoc]
    exact delimits_entries _ (delimits_blanks _ (delimits_closingBracket _ rest))
  rw [EntryTag.written, List.append_assoc, List.append_assoc]
  exact readTag?_name t.name offset hinside

/-- **A start tag with attributes of any form is read**, if no slash cuts a value of it. -/
theorem readTag?_entryTag (t : EntryTag) (huncut : ∀ e ∈ t.entries, e.isUncut = true)
    (isSelfClosing : Bool) (offset : Nat) (rest : List Char) :
    readTag? ⟨offset, t.written isSelfClosing ++ rest⟩
      = some (t.readAt offset isSelfClosing rest) := by
  rw [readTag?_inside, attributesAt_inside t huncut _ isSelfClosing rfl rfl, EntryTag.readAt,
    EntryTag.written, byteLength_append ('<' :: t.name.text), Nat.add_assoc]
  rfl

/-- **A start tag is read**, whatever follows it. -/
theorem readTag?_startTag (t : TagText) (isSelfClosing : Bool) (offset : Nat) (rest : List Char) :
    readTag? ⟨offset, t.written isSelfClosing ++ rest⟩
      = some (t.readAt offset isSelfClosing rest) := by
  have huncut : ∀ e ∈ t.entryTag.entries, e.isUncut = true := by
    simp [TagText.entryTag, EntryText.isUncut]
  have hread := readTag?_entryTag t.entryTag huncut isSelfClosing offset rest
  rwa [t.written_entryTag, t.readAt_entryTag] at hread

/-- **An end tag is read**, whatever follows it. -/
theorem readTag?_endTag (n : TagName) (offset : Nat) (rest : List Char) :
    readTag? ⟨offset, n.endTag ++ rest⟩ = some (n.endReadAt offset rest) := by
  have hbracket := delimits_closingBracket false rest
  have htoken : nextToken ⟨offset, n.endTag ++ rest⟩ =
      (⟨.closeTagOpen, offset, '<' :: '/' :: n.text⟩,
        ⟨offset + byteLength ('<' :: '/' :: n.text), closingBracket false ++ rest⟩) := by
    rw [TagName.endTag, List.append_assoc]
    exact nextToken_written .none _ (beginsToken_bracket _) (tokenAt_closeTagOpen n hbracket)
  have hread := attributesAt_inside ⟨n, [], .none, by simp⟩ (by simp)
    ⟨String.ofList n.text, offset, true, false, false, [],
      ⟨offset + byteLength ('<' :: '/' :: n.text), closingBracket false ++ rest⟩⟩ false rfl rfl
  rw [readTag?, htoken]
  refine congrArg some (hread.trans ?_)
  rw [TagName.endReadAt, TagName.endTag, byteLength_append ('<' :: '/' :: n.text), Nat.add_assoc]
  rfl

theorem isAt_declaration_of_ne {offset : Nat} {c : Char} {cs needle : List Char} {d : Char}
    (hc : c ≠ d) : (⟨offset, '<' :: c :: cs⟩ : Cursor).isAt ('<' :: d :: needle) = false := by
  simp [isAt, startsWith, afterPrefix?, Ne.symm hc]

/-- What is neither a comment nor a declaration is a tag, if it can be read as one. -/
theorem markupAt_of_readTag? {offset : Nat} {c : Char} {cs : List Char} {tag : Tag}
    (hmark : c ≠ '!') (hquestion : c ≠ '?')
    (h : readTag? ⟨offset, '<' :: c :: cs⟩ = some tag) :
    markupAt ⟨offset, '<' :: c :: cs⟩ = .tag tag := by
  rw [markupAt, isAt_declaration_of_ne hmark, isAt_declaration_of_ne hmark,
    isAt_declaration_of_ne hquestion, h]
  rfl

/-- Behind a bracket and a letter, there is neither a comment nor a declaration. -/
theorem markupAt_of_isAlpha {c : Char} {cs : List Char} {tag : Tag} (hc : c.isAlpha = true)
    (h : readTag? ⟨offset, '<' :: c :: cs⟩ = some tag) :
    markupAt ⟨offset, '<' :: c :: cs⟩ = .tag tag :=
  markupAt_of_readTag? (ne_of_isAlpha hc (by decide)) (ne_of_isAlpha hc (by decide)) h

theorem markupAt_startTag (t : TagText) (isSelfClosing : Bool) (offset : Nat) (rest : List Char) :
    markupAt ⟨offset, t.written isSelfClosing ++ rest⟩
      = .tag (t.readAt offset isSelfClosing rest) :=
  markupAt_of_isAlpha t.name.isLetter (readTag?_startTag t isSelfClosing offset rest)

theorem markupAt_endTag (n : TagName) (offset : Nat) (rest : List Char) :
    markupAt ⟨offset, n.endTag ++ rest⟩ = .tag (n.endReadAt offset rest) :=
  markupAt_of_readTag? (by decide) (by decide) (readTag?_endTag n offset rest)

/-! ## §6. Comments and declarations -/

/-- The inside of a comment: any text that does not close it. -/
structure CommentText where
  text : List Char
  notClosed : ¬['-', '-', '>'] <:+: text

/-- A comment with its marks. -/
def CommentText.written (t : CommentText) : List Char :=
  ['<', '!', '-', '-'] ++ (t.text ++ ['-', '-', '>'])

/-- The inside of a declaration: no comment, and nothing that closes it. -/
structure DeclarationText where
  text : List Char
  notClosed : '>' ∉ text := by decide
  noComment : ¬['-', '-'] <+: text

/-- A declaration with its marks. -/
def DeclarationText.written (t : DeclarationText) : List Char :=
  ['<', '!'] ++ (t.text ++ ['>'])

/-- The mark that closes a comment does not begin inside it. -/
theorem startsWith_commentEnd {cs rest : List Char} (hne : cs ≠ [])
    (h : ¬['-', '-', '>'] <:+: cs) :
    startsWith (cs ++ (['-', '-', '>'] ++ rest)) ['-', '-', '>'] = false := by
  refine Bool.eq_false_iff.mpr fun hstarts => ?_
  obtain ⟨more, hmore⟩ := startsWith_iff.mp hstarts
  match cs with
  | [] => exact hne rfl
  -- A mark that begins with the last characters would need its bracket where a dash stands.
  | [_] => simp at hmore
  | [_, _] => simp at hmore
  | c :: d :: e :: cs =>
    simp only [List.cons_append, List.cons.injEq] at hmore
    obtain ⟨rfl, rfl, rfl, -⟩ := hmore
    exact h (List.prefix_append ['-', '-', '>'] cs).isInfix

/-- **A comment is skipped.** -/
theorem markupAt_comment (t : CommentText) (offset : Nat) (rest : List Char) :
    markupAt ⟨offset, t.written ++ rest⟩ = .skipped ⟨offset + byteLength t.written, rest⟩ := by
  have htext : t.written ++ rest
      = ['<', '!', '-', '-'] ++ (t.text ++ (['-', '-', '>'] ++ rest)) := by
    simp [CommentText.written]
  have hat : (⟨offset, t.written ++ rest⟩ : Cursor).isAt ['<', '!', '-', '-'] = true :=
    startsWith_iff.mpr ⟨_, htext⟩
  have hskip : (⟨offset, t.written ++ rest⟩ : Cursor).skip 4
      = ⟨offset + byteLength ['<', '!', '-', '-'], t.text ++ (['-', '-', '>'] ++ rest)⟩ := by
    rw [htext]
    exact skip_append ['<', '!', '-', '-'] _ offset
  have hfind : ∀ o, (⟨o, t.text ++ (['-', '-', '>'] ++ rest)⟩ : Cursor).find? ['-', '-', '>']
      = some ⟨o + byteLength t.text, ['-', '-', '>'] ++ rest⟩ := by
    intro o
    rw [find?_append fun cs hcs hne =>
      startsWith_commentEnd hne fun hin => t.notClosed (hin.trans hcs.isInfix)]
    exact find?_self
  have hbehind : ∀ o, (⟨o, ['-', '-', '>'] ++ rest⟩ : Cursor).skip 3
      = ⟨o + byteLength ['-', '-', '>'], rest⟩ := fun o => skip_append ['-', '-', '>'] rest o
  rw [markupAt, hat, if_pos rfl, hskip, hfind]
  dsimp only
  rw [hbehind, CommentText.written, byteLength_append, byteLength_append, Nat.add_assoc,
    Nat.add_assoc]

/-- **A declaration is skipped.** -/
theorem markupAt_declaration (t : DeclarationText) (offset : Nat) (rest : List Char) :
    markupAt ⟨offset, t.written ++ rest⟩ = .skipped ⟨offset + byteLength t.written, rest⟩ := by
  have hinside : '>' ∉ ['<', '!'] ++ t.text := by
    rw [List.mem_append, not_or]
    exact ⟨by decide, t.notClosed⟩
  have htext : t.written ++ rest = (['<', '!'] ++ t.text) ++ (['>'] ++ rest) := by
    simp [DeclarationText.written]
  have hcomment : (⟨offset, t.written ++ rest⟩ : Cursor).isAt ['<', '!', '-', '-'] = false := by
    refine Bool.eq_false_iff.mpr fun hat => ?_
    obtain ⟨more, hmore⟩ := startsWith_iff.mp hat
    rw [htext, List.append_assoc] at hmore
    have hinner : t.text ++ (['>'] ++ rest) = ['-', '-'] ++ more := by simpa using hmore
    refine t.noComment ?_
    match htail : t.text with
    | [] => simp [htail] at hinner
    | [c] => simp [htail] at hinner
    | c :: d :: cs =>
      rw [htail] at hinner
      simp only [List.cons_append, List.cons.injEq] at hinner
      obtain ⟨rfl, rfl, -⟩ := hinner
      exact List.prefix_append ['-', '-'] cs
  have hat : (⟨offset, t.written ++ rest⟩ : Cursor).isAt ['<', '!'] = true :=
    startsWith_iff.mpr ⟨_, by rw [DeclarationText.written, List.append_assoc]⟩
  have hbehind : (⟨offset, t.written ++ rest⟩ : Cursor).behindNext ['>']
      = ⟨offset + byteLength t.written, rest⟩ := by
    rw [behindNext, htext, find?_append_of_not_mem hinside, find?_self]
    dsimp only
    rw [skip_append ['>'] rest, DeclarationText.written, ← List.append_assoc,
      byteLength_append (_ ++ _), Nat.add_assoc]
  rw [markupAt, hcomment, hat, hbehind]
  rfl

end SingleFile.Markup
