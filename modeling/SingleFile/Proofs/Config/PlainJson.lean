/-
  SingleFile.Proofs.Config.PlainJson — JSON BEHIND COMMENTS
  ─────────────────────────────────────────────────────────
  A configuration file is JSON with comments between its tokens and commas in
  front of its closing brackets.  Two passes make it plain, the first one
  takes the comments, the second one the commas; both have to know where
  strings begin and end.  `Carries` says what a pass does to each kind of
  token, and one induction over the grammar says from that what it does to a
  whole text.

  Main results:
    * `Carries.spells` — what a pass makes of a text that spells something.
    * `isJson_plainJson`, `plainJson_of_isJson` — what both passes make of a
      text with comments, and of one that is JSON already.
    * `plainJson_keepsValue` — the values read.
-/
import SingleFile.Config.Comments
import SingleFile.Proofs.Json.Reading
import SingleFile.Proofs.Json.Values

namespace SingleFile.Config

open SingleFile.Json SingleFile.Text

/-! ## §1. Texts with comments -/

/-- Whether a text may stand between two tokens: blanks, comments up to the end of their line, and
comments up to their closing mark. -/
inductive IsCommented : List Char → Prop where
  | nil : IsCommented []
  | blank {c : Char} {rest : List Char} (hc : isBlank c = true) (h : IsCommented rest) :
    IsCommented (c :: rest)
  | line {body rest : List Char} (hbody : '\n' ∉ body) (h : IsCommented rest) :
    IsCommented ('/' :: '/' :: (body ++ '\n' :: rest))
  | block {body rest : List Char} (hbody : ¬['*', '/'] <:+: body) (h : IsCommented rest) :
    IsCommented ('/' :: '*' :: (body ++ '*' :: '/' :: rest))

/-- Whether a text may stand behind the last token: there the last comment may end with the
text. -/
def IsCommentedEnd (cs : List Char) : Prop :=
  IsCommented cs ∨ ∃ g body, IsCommented g ∧ '\n' ∉ body ∧ cs = g ++ '/' :: '/' :: body

/-- **Whether a text with comments, and commas in front of closing brackets, spells a term.** -/
def IsCommentedJson (t : Term) (text : List Char) : Prop :=
  ∃ g body g', IsCommented g ∧ Spells IsCommented true (.term t) body ∧ IsCommentedEnd g' ∧
    text = g ++ (body ++ g')

/-! ## §2. Passes over a text -/

/-- Whether a character never matters to a pass. -/
def IsOrdinary (c : Char) : Prop := c ∉ ['"', '/', ',', '\\']

instance (c : Char) : Decidable (IsOrdinary c) := inferInstanceAs (Decidable (¬_))

theorem ne_of_isOrdinary {c : Char} (h : IsOrdinary c) :
    c ≠ '"' ∧ c ≠ '/' ∧ c ≠ ',' ∧ c ≠ '\\' := by
  simpa [IsOrdinary, not_or] using h

theorem isOrdinary_of_isBlank {c : Char} (h : isBlank c = true) : IsOrdinary c := by
  simp only [isBlank, Bool.or_eq_true, beq_iff_eq] at h
  rcases h with ((rfl | rfl) | rfl) | rfl <;> decide

theorem isOrdinary_of_all {cs : List Char} (h : (cs.all fun c => decide (IsOrdinary c)) = true) :
    ∀ c ∈ cs, IsOrdinary c :=
  fun c hc => of_decide_eq_true (List.all_eq_true.mp h c hc)

/-- A pass that copies ordinary characters copies all of them. -/
theorem copy_ordinary {pass : List Char → List Char}
    (hpass : ∀ c rest, IsOrdinary c → pass (c :: rest) = c :: pass rest) {cs : List Char}
    (hcs : ∀ c ∈ cs, IsOrdinary c) (rest : List Char) : pass (cs ++ rest) = cs ++ pass rest := by
  induction cs with
  | nil => rfl
  | cons c cs ih =>
    obtain ⟨hc, hcs⟩ := List.forall_mem_cons.mp hcs
    rw [List.cons_append, hpass c _ hc, ih hcs]
    rfl

/-- What a pass does to the parts of a text: tokens stay as they are, and so does a comma in front
of another term; what stands between tokens and what closes a list becomes something related to
it. -/
structure Carries (pass : List Char → List Char) (gap : List Char → Prop) (trailing : Bool)
    (newGap : List Char → Prop) (newTrailing : Bool) (related : List Char → List Char → Prop) :
    Prop where
  ordinary : ∀ c rest, IsOrdinary c → pass (c :: rest) = c :: pass rest
  strings : ∀ value text rest, IsString value text → pass (text ++ rest) = text ++ pass rest
  commas : ∀ g c rest, gap g → BeginsTerm c →
    pass (',' :: (g ++ c :: rest)) = ',' :: pass (g ++ c :: rest)
  gaps : ∀ g, gap g → ∃ g', newGap g' ∧ related g g' ∧ ∀ rest, pass (g ++ rest) = g' ++ pass rest
  closes : ∀ bracket ∈ [']', '\x7d'], ∀ close, Closes gap trailing bracket close →
    ∃ close', Closes newGap newTrailing bracket close' ∧ related close close' ∧
      ∀ rest, pass (close ++ rest) = close' ++ pass rest
  refl : ∀ a, related a a
  append : ∀ a a' b b', related a a' → related b b' → related (a ++ b) (a' ++ b')

namespace Carries

variable {pass : List Char → List Char} {gap newGap : List Char → Prop}
  {trailing newTrailing : Bool} {related : List Char → List Char → Prop}

/-- Whether a pass makes one text of another, whatever comes behind it. -/
def Sends (pass : List Char → List Char) (related : List Char → List Char → Prop)
    (text text' : List Char) : Prop :=
  related text text' ∧ ∀ rest, pass (text ++ rest) = text' ++ pass rest

section

variable (hpass : Carries pass gap trailing newGap newTrailing related)
  {a a' b b' g g' : List Char} {c : Char}

include hpass

theorem sends_append (h : Sends pass related a a') (h' : Sends pass related b b') :
    Sends pass related (a ++ b) (a' ++ b') :=
  ⟨hpass.append _ _ _ _ h.1 h'.1, fun rest => by
    rw [List.append_assoc, List.append_assoc, h.2, h'.2]⟩

theorem sends_ordinary (h : ∀ c ∈ a, IsOrdinary c) : Sends pass related a a :=
  ⟨hpass.refl _, copy_ordinary hpass.ordinary h⟩

theorem sends_cons (hc : IsOrdinary c) (h : Sends pass related a a') :
    Sends pass related (c :: a) (c :: a') :=
  hpass.sends_append (hpass.sends_ordinary (List.forall_mem_singleton.mpr hc)) h

theorem sends_string {value : Option String} (h : IsString value a) : Sends pass related a a :=
  ⟨hpass.refl _, fun rest => hpass.strings _ _ rest h⟩

/-- A comma stays in front of another term. -/
theorem sends_comma {more : List Char} (hg : gap g) (hc : BeginsTerm c)
    (h : Sends pass related g g') (h' : Sends pass related (c :: more) b') :
    Sends pass related (',' :: (g ++ c :: more)) (',' :: (g' ++ b')) := by
  have hboth := hpass.sends_append h h'
  refine ⟨hpass.append [','] [','] _ _ (hpass.refl _) hboth.1, fun rest => ?_⟩
  rw [List.cons_append, List.append_assoc, List.cons_append, hpass.commas _ _ _ hg hc,
    ← List.cons_append, ← List.append_assoc, hboth.2, List.cons_append]

end

/-- No character of a number matters to a pass. -/
theorem isOrdinary_of_mem_text {n : NumberText} {c : Char} (hc : c ∈ n.text) : IsOrdinary c := by
  have hdigit (digits : List Char) (h : IsNumeral digits) (hc : c ∈ digits) : IsOrdinary c := by
    have hne (d : Char) (hd : isDigit d = false) : c ≠ d := ne_of_isDigit (h.areDigits c hc) hd
    simp [IsOrdinary, hne '"' (by decide), hne '/' (by decide), hne ',' (by decide),
      hne '\\' (by decide)]
  rw [NumberText.text, List.mem_append, List.mem_append, List.mem_append] at hc
  rcases hc with hc | hc | hc | hc
  · rw [NumberText.signText] at hc
    split at hc
    · rw [List.mem_singleton.mp hc]
      decide
    · exact absurd hc List.not_mem_nil
  · exact hdigit _ n.isWhole hc
  · cases hfraction : n.fraction with
    | none =>
      rw [hfraction] at hc
      exact absurd hc List.not_mem_nil
    | some digits =>
      rw [hfraction] at hc
      rcases List.mem_cons.mp hc with rfl | hc
      · decide
      · exact hdigit _ (n.isFraction digits hfraction) hc
  · cases hexponent : n.exponent with
    | none =>
      rw [hexponent] at hc
      exact absurd hc List.not_mem_nil
    | some e =>
      rw [hexponent] at hc
      rcases List.mem_cons.mp hc with rfl | hc
      · rcases e.isMark with h | h <;> rw [h] <;> decide
      · rcases List.mem_append.mp hc with hc | hc
        · split at hc
          · exact absurd hc List.not_mem_nil
          · rw [List.mem_singleton.mp hc]
            decide
          · rw [List.mem_singleton.mp hc]
            decide
        · exact hdigit _ e.isNumeral hc

/-- **What a pass makes of a text that spells something**: one that spells the same. -/
theorem spells (hpass : Carries pass gap trailing newGap newTrailing related)
    {phrase : Phrase} {text : List Char} (h : Spells gap trailing phrase text) :
    ∃ text', Spells newGap newTrailing phrase text' ∧ Sends pass related text text' := by
  induction h with
  | nullWord => exact ⟨_, .nullWord, hpass.sends_ordinary (isOrdinary_of_all (by decide))⟩
  | trueWord => exact ⟨_, .trueWord, hpass.sends_ordinary (isOrdinary_of_all (by decide))⟩
  | falseWord => exact ⟨_, .falseWord, hpass.sends_ordinary (isOrdinary_of_all (by decide))⟩
  | number n => exact ⟨_, .number n, hpass.sends_ordinary fun _ hc => isOrdinary_of_mem_text hc⟩
  | string h => exact ⟨_, .string h, hpass.sends_string h⟩
  | emptyArray hg =>
    obtain ⟨g', hg', hgap⟩ := hpass.gaps _ hg
    have hclose :=
      hpass.sends_ordinary (List.forall_mem_singleton.mpr (show IsOrdinary ']' by decide))
    exact ⟨_, .emptyArray hg', hpass.sends_cons (by decide) (hpass.sends_append hgap hclose)⟩
  | array hg _ ih =>
    obtain ⟨g', hg', hgap⟩ := hpass.gaps _ hg
    obtain ⟨text', htext, hsends⟩ := ih
    exact ⟨_, .array hg' htext, hpass.sends_cons (by decide) (hpass.sends_append hgap hsends)⟩
  | emptyObject hg =>
    obtain ⟨g', hg', hgap⟩ := hpass.gaps _ hg
    have hclose :=
      hpass.sends_ordinary (List.forall_mem_singleton.mpr (show IsOrdinary '\x7d' by decide))
    exact ⟨_, .emptyObject hg', hpass.sends_cons (by decide) (hpass.sends_append hgap hclose)⟩
  | object hg _ ih =>
    obtain ⟨g', hg', hgap⟩ := hpass.gaps _ hg
    obtain ⟨text', htext, hsends⟩ := ih
    exact ⟨_, .object hg' htext, hpass.sends_cons (by decide) (hpass.sends_append hgap hsends)⟩
  | lastItem _ hclose ih =>
    obtain ⟨text', htext, hsends⟩ := ih
    obtain ⟨close', hclose', hbracket⟩ := hpass.closes _ (by decide) _ hclose
    exact ⟨_, .lastItem htext hclose', hpass.sends_append hsends hbracket⟩
  | moreItems _ hg hg' hothers ih ihothers =>
    obtain ⟨text', htext, hsends⟩ := ih
    obtain ⟨h, hh, hgap⟩ := hpass.gaps _ hg
    obtain ⟨h', hh', hgap'⟩ := hpass.gaps _ hg'
    obtain ⟨others', hothers', hsends'⟩ := ihothers
    obtain ⟨c, more, rfl, hc⟩ := hothers.items_begins
    exact ⟨_, .moreItems htext hh hh' hothers', hpass.sends_append hsends
      (hpass.sends_append hgap (hpass.sends_comma hg' hc hgap' hsends'))⟩
  | member hkey hg hg' _ ih =>
    obtain ⟨h, hh, hgap⟩ := hpass.gaps _ hg
    obtain ⟨h', hh', hgap'⟩ := hpass.gaps _ hg'
    obtain ⟨text', htext, hsends⟩ := ih
    exact ⟨_, .member hkey hh hh' htext, hpass.sends_append (hpass.sends_string hkey)
      (hpass.sends_append hgap (hpass.sends_cons (by decide) (hpass.sends_append hgap' hsends)))⟩
  | lastMember _ hclose ih =>
    obtain ⟨text', htext, hsends⟩ := ih
    obtain ⟨close', hclose', hbracket⟩ := hpass.closes _ (by decide) _ hclose
    exact ⟨_, .lastMember htext hclose', hpass.sends_append hsends hbracket⟩
  | moreMembers _ hg hg' hothers ih ihothers =>
    obtain ⟨text', htext, hsends⟩ := ih
    obtain ⟨h, hh, hgap⟩ := hpass.gaps _ hg
    obtain ⟨h', hh', hgap'⟩ := hpass.gaps _ hg'
    obtain ⟨others', hothers', hsends'⟩ := ihothers
    obtain ⟨more, rfl⟩ := hothers.members_begins
    exact ⟨_, .moreMembers htext hh hh' hothers', hpass.sends_append hsends
      (hpass.sends_append hgap (hpass.sends_comma hg' (by decide) hgap' hsends'))⟩

end Carries

/-! ## §3. Comments -/

theorem withoutComments_nil : withoutComments .code [] = [] := rfl

theorem withoutComments_quote (rest : List Char) :
    withoutComments .code ('"' :: rest) = '"' :: withoutComments .string rest := rfl

theorem withoutComments_opensLine (rest : List Char) :
    withoutComments .code ('/' :: '/' :: rest) = withoutComments .lineComment rest := rfl

theorem withoutComments_opensBlock (rest : List Char) :
    withoutComments .code ('/' :: '*' :: rest) = withoutComments .blockComment rest := rfl

theorem withoutComments_escape (c : Char) (rest : List Char) :
    withoutComments .string ('\\' :: c :: rest)
      = '\\' :: c :: withoutComments .string rest := rfl

theorem withoutComments_other {c : Char} (hquote : c ≠ '"') (hslash : c ≠ '/')
    (rest : List Char) : withoutComments .code (c :: rest) = c :: withoutComments .code rest := by
  rw [withoutComments]
  · exact hquote
  · rintro _ rfl
    exact absurd rfl hslash
  · rintro _ rfl
    exact absurd rfl hslash

theorem withoutComments_inString {c : Char} (hquote : c ≠ '"') (hslash : c ≠ '\\')
    (rest : List Char) :
    withoutComments .string (c :: rest) = c :: withoutComments .string rest := by
  rw [withoutComments]
  · exact hquote
  · rintro _ _ rfl
    exact absurd rfl hslash

theorem ne_of_hexDigit? {c d : Char} {n : Nat} (hc : hexDigit? c = some n)
    (hd : hexDigit? d = none) : c ≠ d := by
  rintro rfl
  rw [hc] at hd
  cases hd

theorem withoutComments_ordinary {c : Char} (hc : IsOrdinary c) (rest : List Char) :
    withoutComments .code (c :: rest) = c :: withoutComments .code rest :=
  withoutComments_other (ne_of_isOrdinary hc).1 (ne_of_isOrdinary hc).2.1 rest

/-- A string is left alone, whatever looks like a comment in it. -/
theorem withoutComments_body {codes : List Nat} {body : List Char} (h : StringBody codes body)
    (rest : List Char) :
    withoutComments .string (body ++ '"' :: rest) = body ++ '"' :: withoutComments .code rest := by
  induction h with
  | nil => rfl
  | plain hquote hslash _ _ ih =>
    rw [List.cons_append, withoutComments_inString hquote hslash, ih]
    rfl
  | short _ _ ih =>
    rw [List.cons_append, List.cons_append, withoutComments_escape, ih]
    rfl
  | long ha hb hc hd _ ih =>
    have hhex {c : Char} {n : Nat} (h : hexDigit? c = some n) (rest : List Char) :
        withoutComments .string (c :: rest) = c :: withoutComments .string rest :=
      withoutComments_inString (ne_of_hexDigit? h rfl) (ne_of_hexDigit? h rfl) rest
    simp only [List.cons_append]
    rw [withoutComments_escape, hhex ha, hhex hb, hhex hc, hhex hd, ih]

theorem withoutComments_inLine {c : Char} (hc : c ≠ '\n') (rest : List Char) :
    withoutComments .lineComment (c :: rest) = withoutComments .lineComment rest := by
  rw [withoutComments]
  exact hc

/-- A comment up to the end of its line. -/
theorem withoutComments_line {body : List Char} (hbody : '\n' ∉ body) (rest : List Char) :
    withoutComments .lineComment (body ++ '\n' :: rest) = '\n' :: withoutComments .code rest := by
  induction body with
  | nil => rfl
  | cons c body ih =>
    obtain ⟨hc, hbody⟩ := List.ne_and_not_mem_of_not_mem_cons hbody
    rw [List.cons_append, withoutComments_inLine (Ne.symm hc), ih hbody]

/-- A comment up to the end of the text. -/
theorem withoutComments_lastLine {body : List Char} (hbody : '\n' ∉ body) :
    withoutComments .lineComment body = [] := by
  induction body with
  | nil => rfl
  | cons c body ih =>
    obtain ⟨hc, hbody⟩ := List.ne_and_not_mem_of_not_mem_cons hbody
    rw [withoutComments_inLine (Ne.symm hc), ih hbody]

/-- A comment up to its closing mark, which is the first one in it. -/
theorem withoutComments_block {body : List Char} (hbody : ¬['*', '/'] <:+: body)
    (rest : List Char) :
    withoutComments .blockComment (body ++ '*' :: '/' :: rest) = withoutComments .code rest := by
  induction body with
  | nil => rfl
  | cons c body ih =>
    have hlater : ¬['*', '/'] <:+: body := fun h =>
      hbody (h.trans (List.suffix_cons c body).isInfix)
    rw [List.cons_append, withoutComments, ih hlater]
    -- The mark does not begin here: what follows is inside of the comment, or a star.
    rintro more rfl hmore
    cases body with
    | nil => exact absurd (List.cons.inj hmore).1 (by decide)
    | cons d body =>
      obtain rfl := (List.cons.inj hmore).1
      exact hbody (List.prefix_append ['*', '/'] body).isInfix

/-- What stands between two tokens becomes blanks. -/
theorem withoutComments_gap {g : List Char} (h : IsCommented g) :
    ∃ g', IsBlanks g' ∧ ∀ rest, withoutComments .code (g ++ rest)
      = g' ++ withoutComments .code rest := by
  have hcons {c : Char} (hc : isBlank c = true) {g' : List Char} (hg' : IsBlanks g') :
      IsBlanks (c :: g') := List.forall_mem_cons.mpr ⟨hc, hg'⟩
  induction h with
  | nil => exact ⟨[], isBlanks_nil, fun rest => rfl⟩
  | @blank c _ hc _ ih =>
    obtain ⟨g', hg', hrest⟩ := ih
    refine ⟨c :: g', hcons hc hg', fun rest => ?_⟩
    rw [List.cons_append, withoutComments_ordinary (isOrdinary_of_isBlank hc), hrest]
    rfl
  | line hbody _ ih =>
    obtain ⟨g', hg', hrest⟩ := ih
    refine ⟨'\n' :: g', hcons (by decide) hg', fun rest => ?_⟩
    simp only [List.cons_append, List.append_assoc]
    rw [withoutComments_opensLine, withoutComments_line hbody, hrest]
  | block hbody _ ih =>
    obtain ⟨g', hg', hrest⟩ := ih
    refine ⟨g', hg', fun rest => ?_⟩
    simp only [List.cons_append, List.append_assoc]
    rw [withoutComments_opensBlock, withoutComments_block hbody, hrest]

theorem withoutComments_end {g : List Char} (h : IsCommentedEnd g) :
    IsBlanks (withoutComments .code g) := by
  rcases h with h | ⟨front, body, hfront, hbody, rfl⟩
  · obtain ⟨g', hg', hrest⟩ := withoutComments_gap h
    rw [← List.append_nil g, hrest]
    rwa [withoutComments_nil, List.append_nil]
  · obtain ⟨g', hg', hrest⟩ := withoutComments_gap hfront
    rw [hrest, withoutComments_opensLine, withoutComments_lastLine hbody, List.append_nil]
    exact hg'

/-- The first pass, on the tokens that it copies. -/
theorem withoutComments_string {value : Option String} {text : List Char}
    (h : IsString value text) (rest : List Char) :
    withoutComments .code (text ++ rest) = text ++ withoutComments .code rest := by
  obtain ⟨codes, body, hbody, rfl, -⟩ := h
  rw [List.cons_append, List.append_assoc, withoutComments_quote]
  exact congrArg ('"' :: ·) ((withoutComments_body hbody rest).trans (by simp))

/-- Blanks are copied, where nothing else is related to them. -/
theorem gaps_of_ordinary {pass : List Char → List Char}
    (hpass : ∀ c rest, IsOrdinary c → pass (c :: rest) = c :: pass rest)
    {related : List Char → List Char → Prop} (hrefl : ∀ a, related a a) (g : List Char)
    (hg : IsBlanks g) :
    ∃ g', IsBlanks g' ∧ related g g' ∧ ∀ rest, pass (g ++ rest) = g' ++ pass rest :=
  ⟨g, hg, hrefl g, copy_ordinary hpass fun c hc => isOrdinary_of_isBlank (hg c hc)⟩

theorem isOrdinary_of_isBracket {bracket : Char} (h : bracket ∈ [']', '\x7d']) :
    IsOrdinary bracket := by
  simp only [List.mem_cons, List.not_mem_nil, or_false] at h
  rcases h with rfl | rfl <;> decide

/-- Without commas in front of them, closing brackets are copied with the blanks in front. -/
theorem closes_of_ordinary {pass : List Char → List Char}
    (hpass : ∀ c rest, IsOrdinary c → pass (c :: rest) = c :: pass rest) {bracket : Char}
    (hbracket : bracket ∈ [']', '\x7d']) {close : List Char}
    (hclose : Closes IsBlanks false bracket close) (rest : List Char) :
    pass (close ++ rest) = close ++ pass rest := by
  obtain ⟨g, hg, rfl⟩ := hclose.exists_blanks
  refine copy_ordinary hpass (fun c hc => ?_) rest
  rcases List.mem_append.mp hc with hc | hc
  · exact isOrdinary_of_isBlank (hg c hc)
  · rw [List.mem_singleton.mp hc]
    exact isOrdinary_of_isBracket hbracket

/-- **What the first pass does**: blanks are left of what stands between tokens. -/
theorem carries_withoutComments :
    Carries (withoutComments .code) IsCommented true IsBlanks true fun _ _ => True where
  ordinary _ rest hc := withoutComments_ordinary hc rest
  strings _ _ rest h := withoutComments_string h rest
  commas _ _ _ _ _ := withoutComments_other (by decide) (by decide) _
  gaps g hg := by
    obtain ⟨g', hg', hrest⟩ := withoutComments_gap hg
    exact ⟨g', hg', trivial, hrest⟩
  closes bracket hbracket close hclose := by
    have hcopy (rest : List Char) :
        withoutComments .code (bracket :: rest) = bracket :: withoutComments .code rest :=
      withoutComments_ordinary (isOrdinary_of_isBracket hbracket) rest
    cases hclose with
    | plain hg =>
      obtain ⟨g', hg', hrest⟩ := withoutComments_gap hg
      refine ⟨_, .plain hg', trivial, fun rest => ?_⟩
      simp only [List.append_assoc, List.cons_append, List.nil_append]
      rw [hrest, hcopy]
    | comma htrailing hg hh =>
      obtain ⟨g', hg', hrest⟩ := withoutComments_gap hg
      obtain ⟨h', hh', hrest'⟩ := withoutComments_gap hh
      refine ⟨_, .comma rfl hg' hh', trivial, fun rest => ?_⟩
      simp only [List.append_assoc, List.cons_append, List.nil_append]
      rw [hrest, withoutComments_other (by decide) (by decide), hrest', hcopy]
  refl _ := trivial
  append _ _ _ _ _ _ := trivial

/-- JSON is left as it is by the first pass. -/
theorem copies_withoutComments :
    Carries (withoutComments .code) IsBlanks false IsBlanks false Eq where
  ordinary _ rest hc := withoutComments_ordinary hc rest
  strings _ _ rest h := withoutComments_string h rest
  commas _ _ _ _ _ := withoutComments_other (by decide) (by decide) _
  gaps := gaps_of_ordinary (fun _ rest hc => withoutComments_ordinary hc rest) Eq.refl
  closes _ hbracket close hclose := ⟨close, hclose, rfl,
    closes_of_ordinary (fun _ rest hc => withoutComments_ordinary hc rest) hbracket hclose⟩
  refl := Eq.refl
  append _ _ _ _ h h' := h ▸ h' ▸ rfl

/-! ## §4. Commas -/

theorem withoutCommas_nil : withoutCommas false [] = [] := rfl

theorem withoutCommas_quote (rest : List Char) :
    withoutCommas false ('"' :: rest) = '"' :: withoutCommas true rest := rfl

theorem withoutCommas_escape (c : Char) (rest : List Char) :
    withoutCommas true ('\\' :: c :: rest) = '\\' :: c :: withoutCommas true rest := rfl

theorem withoutCommas_atComma (rest : List Char) :
    withoutCommas false (',' :: rest)
      = if closesNext rest then withoutCommas false rest else ',' :: withoutCommas false rest := rfl

theorem withoutCommas_ordinary {c : Char} (hc : IsOrdinary c) (rest : List Char) :
    withoutCommas false (c :: rest) = c :: withoutCommas false rest := by
  obtain ⟨hquote, -, hcomma, hslash⟩ := ne_of_isOrdinary hc
  rw [withoutCommas, beq_eq_false_iff_ne.mpr hquote]
  · rfl
  · rintro _ _ rfl
    exact absurd rfl hslash
  · exact hcomma

theorem withoutCommas_inString {c : Char} (hquote : c ≠ '"') (hslash : c ≠ '\\')
    (rest : List Char) : withoutCommas true (c :: rest) = c :: withoutCommas true rest := by
  by_cases hcomma : c = ','
  · subst hcomma
    rfl
  · rw [withoutCommas, beq_eq_false_iff_ne.mpr hquote]
    · rfl
    · rintro _ _ rfl
      exact absurd rfl hslash
    · exact hcomma

/-- A string is left alone, whatever commas are in it. -/
theorem withoutCommas_body {codes : List Nat} {body : List Char} (h : StringBody codes body)
    (rest : List Char) :
    withoutCommas true (body ++ '"' :: rest) = body ++ '"' :: withoutCommas false rest := by
  induction h with
  | nil => rfl
  | plain hquote hslash _ _ ih =>
    rw [List.cons_append, withoutCommas_inString hquote hslash, ih]
    rfl
  | short _ _ ih =>
    rw [List.cons_append, List.cons_append, withoutCommas_escape, ih]
    rfl
  | long ha hb hc hd _ ih =>
    have hhex {c : Char} {n : Nat} (h : hexDigit? c = some n) (rest : List Char) :
        withoutCommas true (c :: rest) = c :: withoutCommas true rest :=
      withoutCommas_inString (ne_of_hexDigit? h rfl) (ne_of_hexDigit? h rfl) rest
    simp only [List.cons_append]
    rw [withoutCommas_escape, hhex ha, hhex hb, hhex hc, hhex hd, ih]

/-- The second pass, on the tokens that it copies. -/
theorem withoutCommas_string {value : Option String} {text : List Char}
    (h : IsString value text) (rest : List Char) :
    withoutCommas false (text ++ rest) = text ++ withoutCommas false rest := by
  obtain ⟨codes, body, hbody, rfl, -⟩ := h
  rw [List.cons_append, List.append_assoc, withoutCommas_quote]
  exact congrArg ('"' :: ·) ((withoutCommas_body hbody rest).trans (by simp))

/-- Blanks are white space. -/
theorem isWhiteSpace_of_isBlank {c : Char} (h : isBlank c = true) : isWhiteSpace c = true := by
  simp only [isBlank, Bool.or_eq_true, beq_iff_eq] at h
  rcases h with ((rfl | rfl) | rfl) | rfl <;> decide

/-- What comes next behind blanks. -/
theorem trimLeft_append {g : List Char} (hg : IsBlanks g) {c : Char} (hc : isWhiteSpace c = false)
    (rest : List Char) : trimLeft (g ++ c :: rest) = c :: rest :=
  (takeWhile_append_of_head (fun b hb => isWhiteSpace_of_isBlank (hg b hb))
    (by rintro _ ⟨⟩; exact hc)).2

theorem isWhiteSpace_of_beginsTerm {c : Char} (h : BeginsTerm c) : isWhiteSpace c = false := by
  rcases h with h | h
  · simp only [List.mem_cons, List.not_mem_nil, or_false] at h
    rcases h with rfl | rfl | rfl | rfl | rfl | rfl | rfl <;> decide
  · have hdigit := isDigit_iff.mp h
    simp only [isWhiteSpace, Bool.or_eq_false_iff, Bool.and_eq_false_iff, decide_eq_false_iff_not,
      beq_eq_false_iff_ne]
    omega

/-- A comma in front of another term stays. -/
theorem withoutCommas_comma {g : List Char} (hg : IsBlanks g) {c : Char} (hc : BeginsTerm c)
    (rest : List Char) :
    withoutCommas false (',' :: (g ++ c :: rest))
      = ',' :: withoutCommas false (g ++ c :: rest) := by
  have hopen : closesNext (g ++ c :: rest) = false := by
    rw [closesNext, trimLeft_append hg (isWhiteSpace_of_beginsTerm hc)]
    split
    · next heq =>
      obtain rfl := (List.cons.inj heq).1
      exact absurd hc (by decide)
    · next heq =>
      obtain rfl := (List.cons.inj heq).1
      exact absurd hc (by decide)
    · rfl
  rw [withoutCommas_atComma, hopen]
  rfl

/-- A comma in front of a closing bracket goes. -/
theorem withoutCommas_close {g : List Char} (hg : IsBlanks g) {bracket : Char}
    (hbracket : bracket ∈ [']', '\x7d']) (rest : List Char) :
    withoutCommas false (',' :: (g ++ bracket :: rest))
      = withoutCommas false (g ++ bracket :: rest) := by
  have hclose : closesNext (g ++ bracket :: rest) = true := by
    simp only [List.mem_cons, List.not_mem_nil, or_false] at hbracket
    rcases hbracket with rfl | rfl
    · rw [closesNext, trimLeft_append hg (by decide)]
      rfl
    · rw [closesNext, trimLeft_append hg (by decide)]
      rfl
  rw [withoutCommas_atComma, hclose]
  rfl

/-- **What the second pass does**: no comma is left in front of a closing bracket. -/
theorem carries_withoutCommas :
    Carries (withoutCommas false) IsBlanks true IsBlanks false fun _ _ => True where
  ordinary _ rest hc := withoutCommas_ordinary hc rest
  strings _ _ rest h := withoutCommas_string h rest
  commas _ _ rest hg hc := withoutCommas_comma hg hc rest
  gaps := gaps_of_ordinary (fun _ rest hc => withoutCommas_ordinary hc rest) fun _ => trivial
  closes bracket hbracket close hclose := by
    have hcopy {close : List Char} (h : Closes IsBlanks false bracket close) (rest : List Char) :
        withoutCommas false (close ++ rest) = close ++ withoutCommas false rest :=
      closes_of_ordinary (fun _ rest hc => withoutCommas_ordinary hc rest) hbracket h rest
    cases hclose with
    | plain hg => exact ⟨_, .plain hg, trivial, hcopy (.plain hg)⟩
    | @comma g h htrailing hg hh =>
      refine ⟨g ++ h ++ [bracket], .plain fun c hc => ?_, trivial, fun rest => ?_⟩
      · exact (List.mem_append.mp hc).elim (hg c) (hh c)
      · have hgap := copy_ordinary (fun _ rest hc => withoutCommas_ordinary hc rest)
          (fun c hc => isOrdinary_of_isBlank (hg c hc)) (',' :: (h ++ bracket :: rest))
        have hbehind := hcopy (.plain hh) rest
        simp only [List.append_assoc, List.cons_append, List.nil_append] at hbehind ⊢
        rw [hgap, withoutCommas_close hh hbracket, hbehind]
  refl _ := trivial
  append _ _ _ _ _ _ := trivial

/-- JSON is left as it is by the second pass. -/
theorem copies_withoutCommas :
    Carries (withoutCommas false) IsBlanks false IsBlanks false Eq where
  ordinary _ rest hc := withoutCommas_ordinary hc rest
  strings _ _ rest h := withoutCommas_string h rest
  commas _ _ rest hg hc := withoutCommas_comma hg hc rest
  gaps := gaps_of_ordinary (fun _ rest hc => withoutCommas_ordinary hc rest) Eq.refl
  closes _ hbracket close hclose := ⟨close, hclose, rfl,
    closes_of_ordinary (fun _ rest hc => withoutCommas_ordinary hc rest) hbracket hclose⟩
  refl := Eq.refl
  append _ _ _ _ h h' := h ▸ h' ▸ rfl

/-! ## §5. Both passes -/

/-- The second pass over blanks at the end of a text. -/
theorem withoutCommas_blanks {g : List Char} (hg : IsBlanks g) : withoutCommas false g = g := by
  have h := copy_ordinary (fun _ rest hc => withoutCommas_ordinary hc rest)
    (fun c hc => isOrdinary_of_isBlank (hg c hc)) []
  rwa [List.append_nil, withoutCommas_nil, List.append_nil] at h

/-- **A text with comments is made JSON that spells the same.** -/
theorem isJson_plainJson {t : Term} {text : List Char} (h : IsCommentedJson t text) :
    IsJson t (plainJson text) := by
  obtain ⟨g, body, g', hg, hbody, hg', rfl⟩ := h
  obtain ⟨front, hfront, hfrontRest⟩ := withoutComments_gap hg
  obtain ⟨middle, hmiddle, -, hmiddleRest⟩ := carries_withoutComments.spells hbody
  obtain ⟨last, hlast, -, hlastRest⟩ := carries_withoutCommas.spells hmiddle
  obtain ⟨front', hfront', -, hfrontRest'⟩ := carries_withoutCommas.gaps _ hfront
  refine ⟨front', last, withoutComments .code g', hfront', hlast, withoutComments_end hg', ?_⟩
  rw [plainJson, hfrontRest, hmiddleRest, hfrontRest', hlastRest,
    withoutCommas_blanks (withoutComments_end hg')]

/-- **JSON is left as it is.** -/
theorem plainJson_of_isJson {t : Term} {text : List Char} (h : IsJson t text) :
    plainJson text = text := by
  obtain ⟨g, body, g', hg, hbody, hg', rfl⟩ := h
  have hblank (pass : List Char → List Char) {related : List Char → List Char → Prop}
      (hpass : Carries pass IsBlanks false IsBlanks false related) {g : List Char}
      (hg : IsBlanks g) (rest : List Char) : pass (g ++ rest) = g ++ pass rest :=
    copy_ordinary hpass.ordinary (fun c hc => isOrdinary_of_isBlank (hg c hc)) rest
  have hend : withoutComments .code g' = g' := by
    have h := hblank _ copies_withoutComments hg' []
    rwa [List.append_nil, withoutComments_nil, List.append_nil] at h
  obtain ⟨_, -, rfl, hcomments⟩ := copies_withoutComments.spells hbody
  obtain ⟨_, -, rfl, hcommas⟩ := copies_withoutCommas.spells hbody
  rw [plainJson, hblank _ copies_withoutComments hg, hcomments, hend,
    hblank _ copies_withoutCommas hg, hcommas, withoutCommas_blanks hg']

/-- **Comments and commas change no value**: a value spelled with them is read from what is left,
and a text that could be read at once is left as it is. -/
theorem plainJson_keepsValue :
    (∀ (v : Value) (text : List Char), v.HasDistinctKeys →
        IsCommentedJson (Term.ofValue v) text →
        ∀ levels, (Term.ofValue v).depth ≤ levels →
          (Term.ofText? (plainJson text)).bind (fun t => t.value? levels) = some v) ∧
      ∀ text, (Term.ofText? text).isSome → plainJson text = text := by
  refine ⟨fun v text hkeys htext levels hlevels => ?_, fun text htext => ?_⟩
  · rw [ofText?_of_isJson (isJson_plainJson htext), Option.bind_some]
    exact Term.value?_ofValue v hkeys levels hlevels
  · obtain ⟨t, ht⟩ := Option.isSome_iff_exists.mp htext
    exact plainJson_of_isJson (isJson_of_ofText? ht)

/-- A list of one string, with a comma behind it, a comment with a comma, and a comment that ends
with the text. -/
def commentedText : List Char := "[\"//\",/*,*/]//".toList

theorem isCommentedJson_commentedText :
    IsCommentedJson (Term.ofValue (.array [.string "//"])) commentedText := by
  have hbody : StringBody ['/'.toNat, '/'.toNat] ['/', '/'] :=
    .plain (by decide) (by decide) (by decide)
      (.plain (by decide) (by decide) (by decide) .nil)
  have hstring : IsString (some "//") ['"', '/', '/', '"'] := ⟨_, _, hbody, rfl, rfl⟩
  have hcomment : IsCommented ['/', '*', ',', '*', '/'] :=
    @IsCommented.block [','] [] (by decide) .nil
  exact ⟨[], _, ['/', '/'], .nil,
    .array .nil (.lastItem (.string hstring) (.comma rfl .nil hcomment)),
    .inr ⟨[], [], .nil, List.not_mem_nil, rfl⟩, rfl⟩

/-- A text with comments, and one without. -/
theorem plainJson_keepsValue_commented :
    (Term.ofText? (plainJson commentedText)).bind (fun t => t.value? textLevels)
        = some (.array [.string "//"]) ∧
      plainJson ['[', ']'] = ['[', ']'] :=
  ⟨plainJson_keepsValue.1 (.array [.string "//"]) _ ⟨trivial, trivial⟩
      isCommentedJson_commentedText _ (by decide),
    plainJson_keepsValue.2 _ (by decide)⟩

end SingleFile.Config
