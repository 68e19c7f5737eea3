/-
  SingleFile.Proofs.Markup.Tokens — THE TOKENS OF A FILE
  ──────────────────────────────────────────────────────
  Each kind of token has a pattern, and a token is the longest beginning of
  what is left that any pattern matches; where none does, it is an error of a
  character at least.  Between tokens there are ASCII blanks and nothing else,
  so no character is lost, and the offsets are those of the file however far
  into it the tokens begin.

  Main results:
    * `tokenAt_isCutFrom` — a token is the longest match.
    * `nextToken_isCutFrom` — what the next token is, and where it stands.
      The step.
    * `isCutInto_tokensFrom` — the tokens are all that is left of a text.
      The run.
    * `tokensAt_cover` — the tokens of a file, from any place on.
-/
import Mathlib.Data.List.TakeWhile
import SingleFile.Proofs.Markup.Spans
import SingleFile.Proofs.Markup.WrittenTag

namespace SingleFile.Markup

open SingleFile.Text Cursor

/-! ## §1. Patterns -/

/-- The pattern of a kind of tokens.  The end of the text and errors have none. -/
def TokenKind.Matches : TokenKind → List Char → Prop
  | tagOpen, text => ∃ n : TagName, text = '<' :: n.text
  | closeTagOpen, text => ∃ n : TagName, text = '<' :: '/' :: n.text
  | rightAngle, text => text = ['>']
  | slashRightAngle, text => text = ['/', '>']
  | equals, text => text = ['=']
  | doubleQuoted, text => ∃ v : QuotedValue, v.mark = .double ∧ text = v.written
  | singleQuoted, text => ∃ v : QuotedValue, v.mark = .single ∧ text = v.written
  | name, text => text ≠ [] ∧ ∀ c ∈ text, isNameChar c = true
  | slash, text => text = ['/']
  | endOfText, _ => False
  | error, _ => False

/-- Whether a token is what a text gives first: the longest beginning that is a match, an error if
no beginning is one, or the end. -/
inductive Token.IsCutFrom (rest : List Char) (t : Token) : Prop where
  | longest (hmatch : t.kind.Matches t.text) (hfirst : t.text <+: rest)
    (hlongest : ∀ kind text, TokenKind.Matches kind text → text <+: rest →
      text.length ≤ t.text.length)
  | error (hkind : t.kind = .error) (hne : t.text ≠ []) (hfirst : t.text <+: rest)
    (hnone : ∀ kind text, TokenKind.Matches kind text → ¬ text <+: rest)
  | endOfText (hkind : t.kind = .endOfText) (htext : t.text = []) (hrest : rest = [])

theorem take_length_takeWhile (test : Char → Bool) (text : List Char) :
    text.take (text.takeWhile test).length = text.takeWhile test :=
  (List.prefix_iff_eq_take.mp (List.takeWhile_prefix test)).symm

theorem QuotedValue.matches_written (v : QuotedValue) : v.mark.kind.Matches v.written := by
  obtain ⟨mark, text, hmark⟩ := v
  cases mark with
  | double => exact ⟨⟨.double, text, hmark⟩, rfl, rfl⟩
  | single => exact ⟨⟨.single, text, hmark⟩, rfl, rfl⟩

/-- A quote gives a quoted text, up to the next quote, or an error. -/
theorem matches_quotedAt (mark : QuoteMark) (rest : List Char) :
    (tokenAt.quotedAt mark.char mark.kind rest).1 = .error ∨
    (tokenAt.quotedAt mark.char mark.kind rest).1.Matches
      ((mark.char :: rest).take (tokenAt.quotedAt mark.char mark.kind rest).2) := by
  have hparts := List.takeWhile_append_dropWhile (p := (· != mark.char)) (l := rest)
  have hstop := List.head?_dropWhile_not (· != mark.char) rest
  have hinside : mark.char ∉ rest.takeWhile (· != mark.char) := by
    intro hmem
    simpa using List.mem_takeWhile_imp hmem
  unfold tokenAt.quotedAt
  dsimp only
  generalize rest.takeWhile (· != mark.char) = inside at hparts hinside ⊢
  cases hbehind : rest.dropWhile (· != mark.char) with
  | nil =>
    rw [hbehind, List.append_nil] at hparts
    rw [hparts, if_neg (Nat.lt_irrefl _)]
    exact Or.inl rfl
  | cons quote later =>
    -- What stops the text inside is the next quote.
    rw [hbehind] at hparts hstop
    obtain rfl : quote = mark.char := by simpa using hstop
    have hwritten : (mark.char :: rest).take (inside.length + 2)
        = (⟨mark, inside, hinside⟩ : QuotedValue).written := by
      rw [← hparts]
      show mark.char :: (inside ++ mark.char :: later).take (inside.length + 1) = _
      rw [List.take_length_add_append]
      rfl
    rw [if_pos (by rw [← hparts]; simp)]
    refine Or.inr ?_
    show mark.kind.Matches ((mark.char :: rest).take (inside.length + 2))
    rw [hwritten]
    exact QuotedValue.matches_written ⟨mark, inside, hinside⟩

/-- **A token that is no error matches its pattern.** -/
theorem matches_tokenAt {text : List Char} (hne : text ≠ []) :
    (tokenAt text).1 = .error ∨ (tokenAt text).1.Matches (text.take (tokenAt text).2) := by
  unfold tokenAt
  split
  · exact absurd rfl hne
  · next c rest =>
    split
    · next hc =>
      refine Or.inr ⟨⟨c, rest.takeWhile isTagNameChar, hc, List.all_takeWhile⟩, ?_⟩
      rw [Nat.add_comm]
      show '<' :: '/' :: c :: rest.take _ = _
      rw [take_length_takeWhile]
      rfl
    · exact Or.inl rfl
  · exact Or.inl rfl
  · next c rest _ _ =>
    split
    · next hc =>
      refine Or.inr ⟨⟨c, rest.takeWhile isTagNameChar, hc, List.all_takeWhile⟩, ?_⟩
      rw [Nat.add_comm]
      show '<' :: c :: rest.take _ = _
      rw [take_length_takeWhile]
      rfl
    · exact Or.inl rfl
  · exact Or.inl rfl
  · exact Or.inr rfl
  · exact Or.inr rfl
  · exact Or.inr rfl
  · exact Or.inr rfl
  · exact matches_quotedAt .double _
  · exact matches_quotedAt .single _
  · next c rest _ _ _ _ _ _ _ _ _ _ =>
    split
    · next hc =>
      refine Or.inr ?_
      rw [Nat.add_comm]
      show TokenKind.Matches .name (c :: rest.take _)
      rw [take_length_takeWhile]
      exact ⟨List.cons_ne_nil _ _,
        List.forall_mem_cons.mpr ⟨hc, fun d hd => List.mem_takeWhile_imp hd⟩⟩
    · exact Or.inl rfl

/-! ## §2. The longest match -/

/-- The characters of a class go on for as long as those of a beginning at least. -/
theorem length_le_takeWhile_append {test : Char → Bool} {text : List Char}
    (h : ∀ c ∈ text, test c = true) (rest : List Char) :
    text.length ≤ ((text ++ rest).takeWhile test).length := by
  rw [List.takeWhile_append_of_pos h, List.length_append]
  exact Nat.le_add_right ..

/-- **A text that begins with a match gives no error, and a token no shorter than the match.** -/
theorem tokenAt_append_of_matches {kind : TokenKind} {text : List Char} (h : kind.Matches text)
    (rest : List Char) :
    ∃ found length, tokenAt (text ++ rest) = (found, length) ∧ found ≠ .error ∧
      text.length ≤ length := by
  cases kind with
  | tagOpen =>
    obtain ⟨n, rfl⟩ := h
    have hslash : n.first ≠ '/' := ne_of_isAlpha n.isLetter (by decide)
    have hlater := length_le_takeWhile_append n.isTagName rest
    refine ⟨.tagOpen, 2 + ((n.later ++ rest).takeWhile isTagNameChar).length, ?_, by decide, ?_⟩
    · show tokenAt ('<' :: n.first :: (n.later ++ rest)) = _
      unfold tokenAt
      simp [hslash, n.isLetter]
    · rw [TagName.text, List.length_cons, List.length_cons]
      omega
  | closeTagOpen =>
    obtain ⟨n, rfl⟩ := h
    have hlater := length_le_takeWhile_append n.isTagName rest
    refine ⟨.closeTagOpen, 3 + ((n.later ++ rest).takeWhile isTagNameChar).length, ?_, by decide,
    ?_⟩
    · show tokenAt ('<' :: '/' :: n.first :: (n.later ++ rest)) = _
      unfold tokenAt
      simp [n.isLetter]
    · rw [TagName.text, List.length_cons, List.length_cons, List.length_cons]
      omega
  | rightAngle =>
    obtain rfl := h
    exact ⟨_, _, rfl, by decide, Nat.le_refl _⟩
  | slashRightAngle =>
    obtain rfl := h
    exact ⟨_, _, rfl, by decide, Nat.le_refl _⟩
  | equals =>
    obtain rfl := h
    exact ⟨_, _, rfl, by decide, Nat.le_refl _⟩
  | doubleQuoted =>
    obtain ⟨v, hmark, rfl⟩ := h
    refine ⟨_, _, tokenAt_quoted v rest, ?_, Nat.le_refl _⟩
    rw [hmark]
    decide
  | singleQuoted =>
    obtain ⟨v, hmark, rfl⟩ := h
    refine ⟨_, _, tokenAt_quoted v rest, ?_, Nat.le_refl _⟩
    rw [hmark]
    decide
  | name =>
    obtain ⟨hne, hchars⟩ := h
    obtain ⟨c, cs, rfl⟩ := List.exists_cons_of_ne_nil hne
    obtain ⟨hc, hcs⟩ := List.forall_mem_cons.mp hchars
    have hlater := length_le_takeWhile_append hcs rest
    refine ⟨_, _, tokenAt_of_isNameChar hc (cs ++ rest), by decide, ?_⟩
    rw [List.length_cons, List.length_cons]
    omega
  | slash =>
    obtain rfl := h
    -- A bracket behind the slash makes the token longer.
    by_cases hbracket : ∃ later, rest = '>' :: later
    · obtain ⟨later, rfl⟩ := hbracket
      exact ⟨.slashRightAngle, 2, rfl, by decide, by decide⟩
    · refine ⟨.slash, 1, ?_, by decide, Nat.le_refl _⟩
      cases rest with
      | nil => rfl
      | cons c later =>
        have hc : c ≠ '>' := fun hc => hbracket ⟨later, by rw [hc]⟩
        show tokenAt ('/' :: c :: later) = _
        unfold tokenAt
        simp [hc]
  | endOfText => exact absurd h id
  | error => exact absurd h id

/-- **A token is the longest match** at the beginning of a text. -/
theorem tokenAt_isCutFrom (text : List Char) (start : Nat) :
    (⟨(tokenAt text).1, start, text.take (tokenAt text).2⟩ : Token).IsCutFrom text := by
  by_cases hne : text = []
  · subst hne
    exact .endOfText rfl rfl rfl
  · have hfirst := List.take_prefix (tokenAt text).2 text
    -- If there is a match, the token is no error and not shorter.
    have hlongest : ∀ kind found, TokenKind.Matches kind found → found <+: text →
        (tokenAt text).1 ≠ .error ∧ found.length ≤ (text.take (tokenAt text).2).length := by
      rintro kind found hmatch ⟨rest, rfl⟩
      obtain ⟨_, _, htoken, hkind, hlength⟩ := tokenAt_append_of_matches hmatch rest
      rw [htoken]
      refine ⟨hkind, ?_⟩
      rw [List.length_take, List.length_append]
      omega
    rcases matches_tokenAt hne with herror | hmatch
    · refine .error herror ?_ hfirst fun kind found hmatch hprefix =>
        (hlongest kind found hmatch hprefix).1 herror
      have hlength := tokenAt_length_pos hne
      show text.take (tokenAt text).2 ≠ []
      rw [Ne, List.take_eq_nil_iff, not_or]
      exact ⟨Nat.ne_of_gt hlength, hne⟩
    · exact .longest hmatch hfirst fun kind found hmatch hprefix =>
        (hlongest kind found hmatch hprefix).2

theorem exists_written_of_matches {kind : TokenKind} {text : List Char} (h : kind.Matches text)
    (hquoted : kind.isQuoted = true) : ∃ v : QuotedValue, text = v.written := by
  cases kind with
  | doubleQuoted =>
    obtain ⟨v, -, htext⟩ := h
    exact ⟨v, htext⟩
  | singleQuoted =>
    obtain ⟨v, -, htext⟩ := h
    exact ⟨v, htext⟩
  | _ => exact absurd hquoted (by decide)

/-- **Quotes stand at both ends of a quoted token**, and nowhere between. -/
theorem Token.IsCutFrom.quoted {rest : List Char} {t : Token} (h : t.IsCutFrom rest)
    (hquoted : t.kind.isQuoted = true) :
    ∃ quote ∈ ['"', '\''], t.text = quote :: t.value ++ [quote] ∧ quote ∉ t.value := by
  cases h with
  | longest hmatch _ _ =>
    obtain ⟨v, htext⟩ := exists_written_of_matches hmatch hquoted
    have hvalue : t.value = v.text := by
      rw [Token.value, if_pos hquoted, htext]
      exact List.dropLast_concat
    have hmark : v.mark.char ∈ ['"', '\''] := by
      cases v.mark <;> decide
    rw [hvalue]
    exact ⟨v.mark.char, hmark, htext, v.mark_not_mem⟩
  | error hkind _ _ _ => exact absurd hquoted (by rw [hkind]; decide)
  | endOfText hkind _ _ => exact absurd hquoted (by rw [hkind]; decide)

/-- The end of the text is a token without characters, where no character is left. -/
theorem Token.IsCutFrom.nil_of_endOfText {rest : List Char} {t : Token} (h : t.IsCutFrom rest)
    (hkind : t.kind = .endOfText) : t.text = [] ∧ rest = [] := by
  cases h with
  | longest hmatch _ _ =>
    rw [hkind] at hmatch
    exact absurd hmatch id
  | error herror _ _ _ => exact absurd (herror.symm.trans hkind) (by decide)
  | endOfText _ htext hrest => exact ⟨htext, hrest⟩

/-! ## §3. One token after another -/

/-- Whether some tokens are all that stands behind a place: there are blanks in front of each, and
the last one is the end of the text. -/
inductive IsCutInto : Cursor → List Token → Prop where
  | last {c stop : Cursor} {gap : List Char} (hgap : c.Reads gap stop)
    (hblank : ∀ ch ∈ gap, isAsciiBlank ch = true) (hend : stop.rest = []) :
    IsCutInto c [⟨.endOfText, stop.offset, []⟩]
  | token {c start behind : Cursor} {gap : List Char} {t : Token} {later : List Token}
    (hgap : c.Reads gap start) (hblank : ∀ ch ∈ gap, isAsciiBlank ch = true)
    (hstart : t.start = start.offset) (htext : start.Reads t.text behind)
    (hcut : t.IsCutFrom start.rest) (hkind : t.kind ≠ .endOfText) (hne : t.text ≠ [])
    (hlater : IsCutInto behind later) : IsCutInto c (t :: later)

/-- **What the next token is**: the longest match behind the blanks. -/
theorem nextToken_isCutFrom (c : Cursor) :
    ∃ gap start, c.Reads gap start ∧ (∀ ch ∈ gap, isAsciiBlank ch = true) ∧
      (nextToken c).1.start = start.offset ∧ start.Reads (nextToken c).1.text (nextToken c).2 ∧
      (nextToken c).1.IsCutFrom start.rest :=
  ⟨_, (c.overWhile isAsciiBlank).2, ⟨(overWhile_append isAsciiBlank c).symm, rfl⟩,
    fun _ h => List.mem_takeWhile_imp h, rfl, ⟨(List.take_append_drop _ _).symm, rfl⟩,
    tokenAt_isCutFrom _ _⟩

/-- **The tokens are all that is left of a text**, if there is no bound in their way. -/
theorem isCutInto_tokensFrom {bound : Nat} {c : Cursor} (h : c.rest.length < bound) :
    IsCutInto c (tokensFrom bound c) := by
  induction bound generalizing c with
  | zero => exact absurd h (Nat.not_lt_zero _)
  | succ bound ih =>
    obtain ⟨gap, start, hgap, hblank, hstart, htext, hcut⟩ := nextToken_isCutFrom c
    unfold tokensFrom
    dsimp only
    by_cases hend : (nextToken c).1.kind = .endOfText
    · rw [if_pos (by rw [hend]; decide)]
      obtain ⟨hnil, hrest⟩ := hcut.nil_of_endOfText hend
      have hlast : (nextToken c).1 = ⟨.endOfText, start.offset, []⟩ := by
        rw [← hend, ← hstart, ← hnil]
      rw [hlast]
      exact .last hgap hblank hrest
    · rw [if_neg (by rwa [beq_iff_eq])]
      refine .token hgap hblank hstart htext hcut hend (text_nextToken_ne_nil hend) (ih ?_)
      have hlength := (nextToken_passes hend).2
      omega

variable {c : Cursor} {tokens : List Token}

/-- The last token, and no other, is the end of the text. -/
theorem IsCutInto.eq_concat (h : IsCutInto c tokens) :
    ∃ before, tokens = before ++ [⟨.endOfText, c.offset + byteLength c.rest, []⟩] ∧
      ∀ t ∈ before, t.kind ≠ .endOfText ∧ t.text ≠ [] := by
  induction h with
  | @last c stop gap hgap _ hend =>
    have hstop := hgap.reaches.stop_eq
    rw [hend, byteLength_nil, Nat.add_zero] at hstop
    exact ⟨[], by rw [hstop, List.nil_append], fun t ht => absurd ht List.not_mem_nil⟩
  | @token c start behind gap t later hgap _ _ htext _ hkind hne _ ih =>
    obtain ⟨before, rfl, hbefore⟩ := ih
    have hstop := (hgap.reaches.trans htext.reaches).stop_eq
    refine ⟨t :: before, by rw [hstop, List.cons_append], ?_⟩
    exact List.forall_mem_cons.mpr ⟨⟨hkind, hne⟩, hbefore⟩

/-- Each token is read behind the place the tokens begin at. -/
theorem IsCutInto.exists_reads (h : IsCutInto c tokens) :
    ∀ t ∈ tokens, ∃ start behind : Cursor, c.Reaches start ∧ t.start = start.offset ∧
      start.Reads t.text behind ∧ t.IsCutFrom start.rest := by
  induction h with
  | @last c stop gap hgap _ hend =>
    intro t ht
    obtain rfl := List.mem_singleton.mp ht
    exact ⟨stop, stop, hgap.reaches, rfl, ⟨rfl, rfl⟩, .endOfText rfl rfl hend⟩
  | @token c start behind gap t later hgap _ hstart htext hcut _ _ _ ih =>
    refine List.forall_mem_cons.mpr ⟨⟨start, behind, hgap.reaches, hstart, htext, hcut⟩, ?_⟩
    intro t' ht'
    obtain ⟨start', behind', hstart', hoffset, hreads, hcut'⟩ := ih t' ht'
    exact ⟨start', behind', (hgap.reaches.trans htext.reaches).trans hstart', hoffset, hreads,
      hcut'⟩

/-- **Tokens stand one behind another.** -/
theorem IsCutInto.pairwise (h : IsCutInto c tokens) :
    tokens.Pairwise fun a b => a.start < b.start ∧ a.stop ≤ b.start := by
  induction h with
  | last _ _ _ => exact List.pairwise_singleton _ _
  | @token c start behind gap t later _ _ hstart htext _ _ hne hlater ih =>
    refine List.pairwise_cons.mpr ⟨fun b hb => ?_, ih⟩
    obtain ⟨start', -, hstart', hoffset, -⟩ := hlater.exists_reads b hb
    have hbehind := hstart'.offset_le
    have hlength := byteLength_pos hne
    rw [hoffset, Token.stop, hstart, ← htext.2]
    have hstop := htext.2
    omega

/-- Where the last of some tokens stops, or else a place in front of them. -/
def stopBehind (offset : Nat) (tokens : List Token) : Nat :=
  tokens.foldl (fun _ t => t.stop) offset

/-- **Between tokens there are blanks**, and nothing else. -/
theorem IsCutInto.gap {source : List Char} (h : IsCutInto c tokens)
    (hc : (ofText source).Reaches c) {front later : List Token} {t : Token}
    (htokens : tokens = front ++ t :: later) :
    ∃ gap, slice? source (stopBehind c.offset front) t.start = some gap ∧
      ∀ ch ∈ gap, isAsciiBlank ch = true := by
  induction h generalizing front with
  | @last c stop gap hgap hblank _ =>
    cases front with
    | nil =>
      obtain ⟨rfl, -⟩ := List.cons.inj htokens
      exact ⟨gap, hgap.slice?_eq hc, hblank⟩
    | cons first front =>
      obtain ⟨-, hnil⟩ := List.cons.inj htokens
      exact absurd hnil.symm (List.append_ne_nil_of_right_ne_nil front (List.cons_ne_nil t later))
  | @token c start behind gap t' later' hgap hblank hstart htext _ _ _ _ ih =>
    cases front with
    | nil =>
      obtain ⟨rfl, rfl⟩ := List.cons.inj htokens
      rw [hstart]
      exact ⟨gap, hgap.slice?_eq hc, hblank⟩
    | cons first front =>
      obtain ⟨rfl, rfl⟩ := List.cons.inj htokens
      have hstop : t'.stop = behind.offset := by rw [Token.stop, hstart, htext.2]
      have hgap := ih (hc.trans (hgap.reaches.trans htext.reaches)) rfl
      rwa [← hstop] at hgap

/-! ## §4. The tokens of a file -/

/-- What the tokens of a file from an offset on are. -/
structure Cover (source : List Char) (offset : Nat) (tokens : List Token) : Prop where
  /-- The last token, and no other, is the end of the file; all others have a character. -/
  last : ∃ before, tokens = before ++ [⟨.endOfText, byteLength source, []⟩] ∧
    ∀ t ∈ before, t.kind ≠ .endOfText ∧ t.text ≠ []
  /-- Tokens stand one behind another, -/
  ordered : tokens.Pairwise fun a b => a.start < b.start ∧ a.stop ≤ b.start
  /-- in the file, from the offset on, -/
  inFile : ∀ t ∈ tokens, offset ≤ t.start ∧ t.stop ≤ byteLength source
  /-- and cover whole characters: their text. -/
  text : ∀ t ∈ tokens, t.span.text? source = some t.text
  /-- In front of each there are blanks, back to the token before or to the offset. -/
  gap : ∀ front t later, tokens = front ++ t :: later →
    ∃ gap, slice? source (stopBehind offset front) t.start = some gap ∧
      ∀ ch ∈ gap, isAsciiBlank ch = true
  /-- Each is what the file gives first from there on: the longest match, or else an error. -/
  cut : ∀ t ∈ tokens, ∃ before rest, splitAt? source t.start = some (before, rest) ∧
    t.IsCutFrom rest
  /-- A quoted token has its quotes around its value, and no such quote in it. -/
  quoted : ∀ t ∈ tokens, t.kind.isQuoted = true →
    ∃ quote ∈ ['"', '\''], t.text = quote :: t.value ++ [quote] ∧ quote ∉ t.value

/-- Tokens that are all that stands behind a place of a file. -/
theorem IsCutInto.cover {source : List Char} (h : IsCutInto c tokens)
    (hc : (ofText source).Reaches c) : Cover source c.offset tokens := by
  have hstop : c.offset + byteLength c.rest = byteLength source := by
    rw [hc.stop_eq]
    exact Nat.zero_add _
  refine ⟨?_, h.pairwise, fun t ht => ?_, fun t ht => ?_, fun _ _ _ => h.gap hc, fun t ht => ?_,
    fun t ht hquoted => ?_⟩
  · have hlast := h.eq_concat
    rwa [hstop] at hlast
  all_goals obtain ⟨start, behind, hstart, hoffset, hreads, hcut⟩ := h.exists_reads t ht
  · have hbehind := ((hc.trans hstart).trans hreads.reaches).offset_le_byteLength
    rw [Token.stop, hoffset, ← hreads.2]
    exact ⟨hstart.offset_le, hbehind⟩
  · have hslice := hreads.slice?_eq (hc.trans hstart)
    rwa [hreads.2, ← hoffset] at hslice
  · obtain ⟨before, hsource, hlength⟩ := hc.trans hstart
    refine ⟨before, start.rest, splitAt?_eq_some_iff.mpr ⟨hsource.symm, ?_⟩, hcut⟩
    rw [hoffset, hlength]
    exact (Nat.zero_add _).symm
  · exact hcut.quoted hquoted

/-- **The tokens of a file lose nothing of it**, whatever the file and from whatever place on. -/
theorem tokensAt_cover (front rest : List Char) :
    Cover (front ++ rest) (byteLength front) (tokensAt (front ++ rest) (byteLength front)) := by
  have hplace : (ofText (front ++ rest)).Reaches ⟨byteLength front, rest⟩ :=
    ⟨front, rfl, (Nat.zero_add _).symm⟩
  rw [tokensAt, splitAt?_byteLength]
  exact (isCutInto_tokensFrom (Nat.lt_succ_self _)).cover hplace

/-- A space that is no ASCII blank, and a quote without another one, are errors. -/
example :
    (tokensAt "<a b=\"c\" \u00a0='".toList 2).map (fun t => (t.kind, t.start, t.stop)) =
      [(.name, 3, 4), (.equals, 4, 5), (.doubleQuoted, 5, 8), (.error, 9, 11), (.equals, 11, 12),
        (.error, 12, 13), (.endOfText, 13, 13)] := by
  decide +kernel

end SingleFile.Markup
