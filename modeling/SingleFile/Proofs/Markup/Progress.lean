/-
  SingleFile.Proofs.Markup.Progress — A SCAN GOES ON
  ──────────────────────────────────────────────────
  Every reader of markup takes a place in a text and leaves one farther on in
  the same text.  So what is found stands in the order it was read in, and the
  bounds of the readers are never met: any two bounds above the number of
  characters that are left give the same.

  Main results:
    * `markupAt_passes` — a scan goes on behind what it comes upon.  The step.
    * `exists_step_of_mem_templateEnd?`, `exists_step_of_mem_findingsFrom` —
      what a scan finds is found in one of its steps.
    * `findingsFrom_places` — the blocks of a scan stand in the text.  The run.
    * `readAttributes_bound`, `rawTextEnd?_bound`, `templateEnd?_bound`,
      `findingsFrom_bound` — the bounds of the readers do not matter.
-/
import SingleFile.Markup.Extraction
import SingleFile.Proofs.Text.Cuts

namespace SingleFile.Text

/-! ## §1. Places in one text -/

namespace Cursor

/-- Whether a place is farther on in the same text, or the same place. -/
def Reaches (c d : Cursor) : Prop :=
  ∃ passed, c.rest = passed ++ d.rest ∧ d.offset = c.offset + byteLength passed

/-- Whether a place is farther on, by a character at least. -/
def Passes (c d : Cursor) : Prop := c.Reaches d ∧ d.rest.length < c.rest.length

/-- Whether a text stands between two places. -/
def Reads (c : Cursor) (text : List Char) (d : Cursor) : Prop :=
  c.rest = text ++ d.rest ∧ d.offset = c.offset + byteLength text

variable {c d e : Cursor}

theorem Reads.reaches {text : List Char} (h : c.Reads text d) : c.Reaches d := ⟨text, h⟩

theorem Reads.passes {text : List Char} (h : c.Reads text d) (hne : text ≠ []) : c.Passes d := by
  refine ⟨h.reaches, ?_⟩
  rw [h.1, List.length_append]
  exact Nat.lt_add_of_pos_left (List.length_pos_iff.mpr hne)

theorem Reaches.refl (c : Cursor) : c.Reaches c := ⟨[], rfl, rfl⟩

theorem Reaches.trans (hcd : c.Reaches d) (hde : d.Reaches e) : c.Reaches e := by
  obtain ⟨passed, hrest, hoffset⟩ := hcd
  obtain ⟨passed', hrest', hoffset'⟩ := hde
  refine ⟨passed ++ passed', by rw [hrest, hrest', List.append_assoc], ?_⟩
  rw [hoffset', hoffset, byteLength_append, Nat.add_assoc]

theorem Reaches.length_le (h : c.Reaches d) : d.rest.length ≤ c.rest.length := by
  obtain ⟨passed, hrest, -⟩ := h
  rw [hrest, List.length_append]
  exact Nat.le_add_left ..

theorem Passes.reaches (h : c.Passes d) : c.Reaches d := h.1

theorem Reaches.passes (hcd : c.Reaches d) (hde : d.Passes e) : c.Passes e :=
  ⟨hcd.trans hde.1, Nat.lt_of_lt_of_le hde.2 hcd.length_le⟩

theorem Passes.trans (hcd : c.Passes d) (hde : d.Reaches e) : c.Passes e :=
  ⟨hcd.1.trans hde, Nat.lt_of_le_of_lt hde.length_le hcd.2⟩

/-! ## §2. Moving on -/

theorem next_reaches (c : Cursor) : c.Reaches c.next := by
  unfold next
  split
  · exact Reaches.refl c
  · next ch cs hrest => exact ⟨[ch], hrest, by simp⟩

theorem next_passes (h : c.rest ≠ []) : c.Passes c.next := by
  refine ⟨next_reaches c, ?_⟩
  unfold next
  split
  · next hrest => exact absurd hrest h
  · next hrest => simp [hrest]

theorem skip_reaches (n : Nat) (c : Cursor) : c.Reaches (c.skip n) := by
  induction n generalizing c with
  | zero => exact Reaches.refl c
  | succ n ih => exact (next_reaches c).trans (ih c.next)

theorem skip_passes {n : Nat} (h : c.rest ≠ []) (hn : 0 < n) : c.Passes (c.skip n) := by
  cases n with
  | zero => exact absurd hn (Nat.lt_irrefl 0)
  | succ n => exact (next_passes h).trans (skip_reaches n c.next)

theorem toEnd_reaches (c : Cursor) : c.Reaches c.toEnd :=
  ⟨c.rest, (List.append_nil _).symm, rfl⟩

theorem toEnd_passes (h : c.rest ≠ []) : c.Passes c.toEnd :=
  ⟨toEnd_reaches c, List.length_pos_iff.mpr h⟩

theorem overWhile_reaches (test : Char → Bool) (c : Cursor) : c.Reaches (c.overWhile test).2 :=
  ⟨(c.overWhile test).1, (overWhile_append test c).symm, rfl⟩

/-- What is found stands farther on, and what was looked for begins there. -/
theorem find?_spec {needle : List Char} {found : Cursor} (h : c.find? needle = some found) :
    c.Reaches found ∧ ∃ rest, found.rest = needle ++ rest := by
  obtain ⟨offset, text⟩ := c
  simp only [find?] at h
  induction text generalizing offset with
  | nil =>
    rw [findFrom?] at h
    split at h
    · next hempty =>
      obtain rfl := Option.some.inj h
      exact ⟨Reaches.refl _, [], by simpa using hempty⟩
    · exact absurd h (by simp)
  | cons ch cs ih =>
    rw [findFrom?] at h
    split at h
    · next hstarts =>
      obtain rfl := Option.some.inj h
      exact ⟨Reaches.refl _, startsWith_iff.mp hstarts⟩
    · obtain ⟨hreach, hneedle⟩ := ih _ h
      exact ⟨Reaches.trans ⟨[ch], rfl, by simp⟩ hreach, hneedle⟩

/-- What is found is not the end of the text. -/
theorem rest_ne_nil_of_find? {needle : List Char} {found : Cursor}
    (h : c.find? needle = some found) (hneedle : needle ≠ []) : found.rest ≠ [] := by
  obtain ⟨-, rest, hrest⟩ := find?_spec h
  rw [hrest]
  exact List.append_ne_nil_of_left_ne_nil hneedle rest

/-- A search goes over a text that what is looked for does not begin in. -/
theorem find?_append {needle text rest : List Char} {offset : Nat}
    (h : ∀ cs, cs <:+ text → cs ≠ [] → startsWith (cs ++ rest) needle = false) :
    (⟨offset, text ++ rest⟩ : Cursor).find? needle
      = (⟨offset + byteLength text, rest⟩ : Cursor).find? needle := by
  simp only [find?]
  induction text generalizing offset with
  | nil => rfl
  | cons ch cs ih =>
    have hhere : startsWith (ch :: (cs ++ rest)) needle = false :=
      h (ch :: cs) (List.suffix_refl _) (List.cons_ne_nil ch cs)
    rw [byteLength_cons, ← Nat.add_assoc,
      ← ih fun ds hds => h ds (hds.trans (List.suffix_cons ch cs)), List.cons_append, findFrom?,
      hhere]
    rfl

/-- A search for one character goes over a text without it. -/
theorem find?_append_of_not_mem {ch : Char} {text rest : List Char} {offset : Nat}
    (h : ch ∉ text) (needle : List Char) :
    (⟨offset, text ++ rest⟩ : Cursor).find? (ch :: needle)
      = (⟨offset + byteLength text, rest⟩ : Cursor).find? (ch :: needle) := by
  refine find?_append fun cs hcs hne => Bool.eq_false_iff.mpr fun hstarts => ?_
  obtain ⟨d, ds, rfl⟩ := List.exists_cons_of_ne_nil hne
  obtain ⟨more, hmore⟩ := startsWith_iff.mp hstarts
  obtain ⟨rfl, -⟩ := List.cons.inj hmore
  exact h (hcs.subset (List.mem_cons_self ..))

/-- A search ends where what is looked for begins. -/
theorem find?_self {ch : Char} {needle rest : List Char} {offset : Nat} :
    (⟨offset, ch :: needle ++ rest⟩ : Cursor).find? (ch :: needle)
      = some ⟨offset, ch :: needle ++ rest⟩ := by
  have hstarts : startsWith (ch :: (needle ++ rest)) (ch :: needle) = true :=
    startsWith_iff.mpr ⟨rest, rfl⟩
  rw [find?, List.cons_append, findFrom?, if_pos hstarts]

/-- Going over as many characters as a text has leads behind it. -/
theorem skip_append (text rest : List Char) (offset : Nat) :
    (⟨offset, text ++ rest⟩ : Cursor).skip text.length = ⟨offset + byteLength text, rest⟩ := by
  induction text generalizing offset with
  | nil => rfl
  | cons ch cs ih =>
    rw [byteLength_cons, ← Nat.add_assoc]
    exact ih (offset + ch.utf8Size)

theorem behindNext_reaches (c : Cursor) (needle : List Char) :
    c.Reaches (c.behindNext needle) := by
  unfold behindNext
  split
  · next hfind => exact (find?_spec hfind).1.trans (skip_reaches _ _)
  · exact toEnd_reaches c

theorem behindNext_passes {needle : List Char} (h : c.rest ≠ []) (hneedle : needle ≠ []) :
    c.Passes (c.behindNext needle) := by
  unfold behindNext
  split
  · next hfind =>
    exact (find?_spec hfind).1.passes
      (skip_passes (rest_ne_nil_of_find? hfind hneedle) (List.length_pos_iff.mpr hneedle))
  · exact toEnd_passes h

end Cursor

end SingleFile.Text

namespace SingleFile.Markup

open SingleFile.Text Cursor

/-! ## §3. Tags -/

theorem quotedAt_length_pos (quote : Char) (kind : TokenKind) (rest : List Char) :
    0 < (tokenAt.quotedAt quote kind rest).2 := by
  unfold tokenAt.quotedAt
  dsimp only
  split <;> exact Nat.succ_pos _

/-- A token takes a character, where there is one. -/
theorem tokenAt_length_pos {text : List Char} (h : text ≠ []) : 0 < (tokenAt text).2 := by
  unfold tokenAt
  split
  · exact absurd rfl h
  -- Behind the end of the text, every kind has a length of its own, or a first character.
  · split
    · exact Nat.lt_add_right _ (by decide)
    · exact Nat.succ_pos _
  · exact Nat.succ_pos _
  · split
    · exact Nat.lt_add_right _ (by decide)
    · exact Nat.succ_pos _
  · exact Nat.succ_pos _
  · exact Nat.succ_pos _
  · exact Nat.succ_pos _
  · exact Nat.succ_pos _
  · exact Nat.succ_pos _
  · exact quotedAt_length_pos ..
  · exact quotedAt_length_pos ..
  · split
    · exact Nat.lt_add_right _ (by decide)
    · exact Nat.succ_pos _

/-- A token stands in front of the place behind it, and behind blanks. -/
theorem nextToken_reads (c : Cursor) :
    ∃ start : Cursor, c.Reaches start ∧ (nextToken c).1.start = start.offset ∧
      start.Reads (nextToken c).1.text (nextToken c).2 :=
  ⟨_, overWhile_reaches isAsciiBlank c, rfl, (List.take_append_drop _ _).symm, rfl⟩

theorem nextToken_reaches (c : Cursor) : c.Reaches (nextToken c).2 := by
  obtain ⟨start, hstart, -, hreads⟩ := nextToken_reads c
  exact hstart.trans hreads.reaches

/-- A token has a character, unless it is the end of the text. -/
theorem text_nextToken_ne_nil {c : Cursor} (h : (nextToken c).1.kind ≠ .endOfText) :
    (nextToken c).1.text ≠ [] := by
  have hrest : (c.overWhile isAsciiBlank).2.rest ≠ [] := by
    intro hnil
    refine h ?_
    show (tokenAt (c.overWhile isAsciiBlank).2.rest).1 = _
    rw [hnil]
    rfl
  have hlength := tokenAt_length_pos hrest
  show (c.overWhile isAsciiBlank).2.rest.take (tokenAt _).2 ≠ []
  rw [Ne, List.take_eq_nil_iff, not_or]
  exact ⟨Nat.ne_of_gt hlength, hrest⟩

/-- The place behind a token is farther on, unless the token is the end of the text. -/
theorem nextToken_passes {c : Cursor} (h : (nextToken c).1.kind ≠ .endOfText) :
    c.Passes (nextToken c).2 := by
  obtain ⟨start, hstart, -, hreads⟩ := nextToken_reads c
  exact hstart.passes (hreads.passes (text_nextToken_ne_nil h))

theorem readAttributes_reaches {tag : Tag} {c : Cursor} (hc : tag.behind = c) (bound : Nat)
    (s : TagState) : c.Reaches (readAttributes tag bound s).behind := by
  induction bound generalizing tag c s with
  | zero =>
    rw [← hc]
    exact Reaches.refl _
  | succ bound ih =>
    subst hc
    have hnext := nextToken_reaches tag.behind
    unfold readAttributes
    dsimp only
    split
    · exact hnext
    · exact hnext
    · exact overWhile_reaches isAsciiBlank tag.behind
    · exact overWhile_reaches isAsciiBlank tag.behind
    · exact overWhile_reaches isAsciiBlank tag.behind
    · refine hnext.trans (ih ?_ _)
      rfl

/-- The bound of a tag's attributes does not matter. -/
theorem readAttributes_bound {tag : Tag} {a b : Nat} {s : TagState}
    (ha : tag.behind.rest.length < a) (hb : tag.behind.rest.length < b) :
    readAttributes tag a s = readAttributes tag b s := by
  induction a generalizing tag b s with
  | zero => exact absurd ha (Nat.not_lt_zero _)
  | succ a ih =>
    cases b with
    | zero => exact absurd hb (Nat.not_lt_zero _)
    | succ b =>
      unfold readAttributes
      dsimp only
      split
      · rfl
      · rfl
      · rfl
      · rfl
      · rfl
      · next hend =>
        have hlength := (nextToken_passes hend).2
        exact ih (by dsimp only; omega) (by dsimp only; omega)

theorem readTag?_passes {c : Cursor} {tag : Tag} (h : readTag? c = some tag) :
    c.Passes tag.behind := by
  unfold readTag? at h
  dsimp only at h
  split at h
  · next hkind =>
    obtain rfl := Option.some.inj h
    have hopen : (nextToken c).1.kind ≠ .endOfText := by
      rw [hkind]
      decide
    refine (nextToken_passes hopen).trans (readAttributes_reaches ?_ _ _)
    rfl
  · next hkind =>
    obtain rfl := Option.some.inj h
    have hopen : (nextToken c).1.kind ≠ .endOfText := by
      rw [hkind]
      decide
    refine (nextToken_passes hopen).trans (readAttributes_reaches ?_ _ _)
    rfl
  · exact absurd h (by simp)

/-- Where a scan goes on once it has come upon something at a place. -/
def Opening.behind (found : Cursor) : Opening → Cursor
  | .skipped behind => behind
  | .openComment _ behind => behind
  | .tag t => t.behind
  | .text => found.next

/-- **A scan goes on behind what it comes upon.** -/
theorem markupAt_passes {c : Cursor} (h : c.rest ≠ []) : c.Passes ((markupAt c).behind c) := by
  unfold markupAt
  split
  · split
    · next hfind =>
      exact (skip_passes h (by decide)).trans
        ((find?_spec hfind).1.trans (skip_reaches _ _))
    · exact toEnd_passes h
  · split
    · exact behindNext_passes h (by decide)
    · split
      · next hread => exact readTag?_passes hread
      · exact next_passes h

/-- What a scan comes upon leads farther on from where the scan looked for it. -/
theorem markupAt_passes_of_find? {c found : Cursor} (h : c.find? ['<'] = some found) :
    c.Passes ((markupAt found).behind found) :=
  (find?_spec h).1.passes (markupAt_passes (rest_ne_nil_of_find? h (by decide)))

/-- A tag that is not whole is an issue, and no block. -/
theorem block_not_mem_brokenTag (tag : Tag) (raw : RawBlock) :
    Finding.block raw ∉ brokenTag tag := by
  unfold brokenTag
  split <;> simp

/-! ## §4. The ends of blocks -/

/-- Whether an end tag begins at a place behind another one, and ends farther on. -/
def EndTag.IsBehind (c : Cursor) (e : EndTag) : Prop :=
  ∃ start : Cursor, c.Reaches start ∧ start.offset = e.start ∧ start.Reaches e.behind

theorem EndTag.IsBehind.of_reaches {c d : Cursor} {e : EndTag} (h : e.IsBehind d)
    (hcd : c.Reaches d) : e.IsBehind c := by
  obtain ⟨start, hstart, hoffset, hbehind⟩ := h
  exact ⟨start, hcd.trans hstart, hoffset, hbehind⟩

theorem EndTag.IsBehind.reaches {c : Cursor} {e : EndTag} (h : e.IsBehind c) :
    c.Reaches e.behind := by
  obtain ⟨start, hstart, -, hbehind⟩ := h
  exact hstart.trans hbehind

theorem afterName?_reaches {name : List Char} {c behind : Cursor}
    (h : afterName? name c = some behind) : c.Reaches behind := by
  induction name generalizing c with
  | nil =>
    obtain rfl := Option.some.inj h
    exact Reaches.refl c
  | cons n ns ih =>
    unfold afterName? at h
    split at h
    · exact absurd h (by simp)
    · split at h
      · exact (next_reaches c).trans (ih h)
      · exact absurd h (by simp)

theorem rawTextEnd?_isBehind {name : List Char} {bound : Nat} {c : Cursor} {e : EndTag}
    (h : rawTextEnd? name bound c = some e) : e.IsBehind c := by
  induction bound generalizing c with
  | zero => exact absurd h (by simp [rawTextEnd?])
  | succ bound ih =>
    unfold rawTextEnd? at h
    split at h
    · exact absurd h (by simp)
    · next found hfind =>
      have hfound := (find?_spec hfind).1
      have hname := skip_reaches 2 found
      dsimp only at h
      split at h
      · next behind hbehind =>
        obtain rfl := Option.some.inj h
        have hafter := afterName?_reaches (Option.filter_eq_some_iff.mp hbehind).1
        exact ⟨found, hfound, rfl, (hname.trans hafter).trans (behindNext_reaches _ _)⟩
      · exact (ih h).of_reaches (hfound.trans hname)

/-- The bound of a search for an end tag does not matter. -/
theorem rawTextEnd?_bound {name : List Char} {a b : Nat} {c : Cursor} (ha : c.rest.length < a)
    (hb : c.rest.length < b) : rawTextEnd? name a c = rawTextEnd? name b c := by
  induction a generalizing b c with
  | zero => exact absurd ha (Nat.not_lt_zero _)
  | succ a ih =>
    cases b with
    | zero => exact absurd hb (Nat.not_lt_zero _)
    | succ b =>
      unfold rawTextEnd?
      split
      · rfl
      · next found hfind =>
        have hpass : c.Passes (found.skip 2) := (find?_spec hfind).1.passes
          (skip_passes (rest_ne_nil_of_find? hfind (by decide)) (by decide))
        have hlength := hpass.2
        dsimp only
        split
        · rfl
        · exact ih (by omega) (by omega)

/-! ## §5. Templates -/

/-- What one step of the scan of a template leads to: its end, or the place and the open elements
that the scan goes on with. -/
inductive TemplateStep where
  | ends (ending : Option EndTag)
  | goesOn (behind : Cursor) (opened : List String)

/-- What a tag inside a template leads to. -/
def templateTag (start : Nat) (tag : Tag) (opened : List String) : TemplateStep :=
  if tag.isEnd then
    match closeElement tag.name opened with
    | some left => .goesOn tag.behind left
    | none =>
      if sameName tag.name "template" then .ends (some ⟨start, tag.behind⟩)
      else .goesOn tag.behind opened
  else if tag.isSelfClosing then .goesOn tag.behind opened
  else if isRawTextElement tag.name then
    match findRawTextEnd tag.name tag.behind with
    | some ending => .goesOn ending.behind opened
    | none => .ends none
  else .goesOn tag.behind (tag.name :: opened)

/-- One step of the scan of a template, and what it finds. -/
def templateStep (c : Cursor) (opened : List String) : TemplateStep × List Finding :=
  match c.find? ['<'] with
  | none => (.ends none, [])
  | some found =>
    match markupAt found with
    | .skipped behind => (.goesOn behind opened, [])
    | .openComment span behind => (.goesOn behind opened, [.issue ⟨.unterminatedComment, span⟩])
    | .text => (.goesOn found.next opened, [])
    | .tag tag => (templateTag found.offset tag opened, brokenTag tag)

/-- **The scan of a template is one step after another.** -/
theorem templateEnd?_succ (bound : Nat) (c : Cursor) (opened : List String) :
    templateEnd? (bound + 1) c opened =
      match templateStep c opened with
      | (.ends ending, found) => (ending, found)
      | (.goesOn behind left, found) =>
        ((templateEnd? bound behind left).1, found ++ (templateEnd? bound behind left).2) := by
  rw [templateEnd?, templateStep]
  cases c.find? ['<'] with
  | none => rfl
  | some found =>
    dsimp only
    cases markupAt found with
    | skipped behind => rfl
    | openComment span behind => rfl
    | text => rfl
    | tag t =>
      dsimp only
      rw [templateTag]
      -- What the tag found comes in front of what is found behind it.
      split
      · cases closeElement t.name opened with
        | some left => rfl
        | none =>
          dsimp only
          split
          · simp
          · rfl
      · split
        · rfl
        · split
          · cases findRawTextEnd t.name t.behind with
            | some ending => rfl
            | none => simp
          · rfl

theorem findRawTextEnd_isBehind {name : String} {c : Cursor} {e : EndTag}
    (h : findRawTextEnd name c = some e) : e.IsBehind c :=
  rawTextEnd?_isBehind h

/-- Behind a tag the scan of a template goes on no earlier than the tag ends. -/
theorem templateTag_goesOn {start : Nat} {tag : Tag} {opened left : List String}
    {behind : Cursor} (h : templateTag start tag opened = .goesOn behind left) :
    tag.behind.Reaches behind := by
  have hself : ∀ {left' : List String},
      TemplateStep.goesOn tag.behind left' = .goesOn behind left → tag.behind.Reaches behind := by
    intro left' he
    obtain ⟨rfl, -⟩ := TemplateStep.goesOn.inj he
    exact Reaches.refl _
  unfold templateTag at h
  split at h
  · split at h
    · exact hself h
    · split at h
      · exact absurd h (by simp)
      · exact hself h
  · split at h
    · exact hself h
    · split at h
      · split at h
        · next ending hending =>
          obtain ⟨rfl, -⟩ := TemplateStep.goesOn.inj h
          exact (findRawTextEnd_isBehind hending).reaches
        · exact absurd h (by simp)
      · exact hself h

/-- Only an end tag ends a template, and it is its own end. -/
theorem templateTag_ends {start : Nat} {tag : Tag} {opened : List String} {e : EndTag}
    (h : templateTag start tag opened = .ends (some e)) : e = ⟨start, tag.behind⟩ := by
  unfold templateTag at h
  split at h
  · split at h
    · exact absurd h (by simp)
    · split at h
      · exact (Option.some.inj (TemplateStep.ends.inj h)).symm
      · exact absurd h (by simp)
  · split at h
    · exact absurd h (by simp)
    · split at h
      · split at h
        · exact absurd h (by simp)
        · exact absurd h (by simp)
      · exact absurd h (by simp)

/-- **What a step of the scan of a template does**: it goes on farther on in the text, or it ends
there, and it finds issues only. -/
theorem templateStep_spec (c : Cursor) (opened : List String) :
    (∀ behind left, (templateStep c opened).1 = .goesOn behind left → c.Passes behind) ∧
      (∀ e, (templateStep c opened).1 = .ends (some e) → e.IsBehind c) ∧
      ∀ raw, Finding.block raw ∉ (templateStep c opened).2 := by
  -- Anything but a tag leaves the open elements as they are.
  have hother {d behind : Cursor} {left : List String} (hd : c.Passes d)
      (he : TemplateStep.goesOn d opened = .goesOn behind left) : c.Passes behind := by
    obtain ⟨rfl, -⟩ := TemplateStep.goesOn.inj he
    exact hd
  unfold templateStep
  split
  · simp
  · next found hfind =>
    have hpass := markupAt_passes_of_find? hfind
    split
    · next behind hmarkup =>
      rw [hmarkup] at hpass
      exact ⟨fun _ _ => hother hpass, by simp, by simp⟩
    · next span behind hmarkup =>
      rw [hmarkup] at hpass
      exact ⟨fun _ _ => hother hpass, by simp, by simp⟩
    · next hmarkup =>
      rw [hmarkup] at hpass
      exact ⟨fun _ _ => hother hpass, by simp, by simp⟩
    · next tag hmarkup =>
      rw [hmarkup] at hpass
      refine ⟨fun behind left he => ?_, fun e he => ?_, block_not_mem_brokenTag tag⟩
      · exact hpass.trans (templateTag_goesOn he)
      · obtain rfl := templateTag_ends he
        have hbehind := markupAt_passes (rest_ne_nil_of_find? hfind (by decide))
        rw [hmarkup] at hbehind
        exact ⟨found, (find?_spec hfind).1, rfl, hbehind.reaches⟩

theorem templateEnd?_isBehind {bound : Nat} {c : Cursor} {opened : List String} {e : EndTag}
    (h : (templateEnd? bound c opened).1 = some e) : e.IsBehind c := by
  induction bound generalizing c opened with
  | zero => exact absurd h (by simp [templateEnd?])
  | succ bound ih =>
    obtain ⟨hgoesOn, hends, -⟩ := templateStep_spec c opened
    rw [templateEnd?_succ] at h
    split at h
    · next ending found hstep =>
      rw [hstep] at hends
      exact hends e (congrArg _ h)
    · next behind left found hstep =>
      rw [hstep] at hgoesOn
      exact (ih h).of_reaches (hgoesOn behind left rfl).reaches

/-- **What is found in a template** is found in one of the steps of its scan. -/
theorem exists_step_of_mem_templateEnd? {bound : Nat} {c : Cursor} {opened : List String}
    {f : Finding} (h : f ∈ (templateEnd? bound c opened).2) :
    ∃ d left, c.Reaches d ∧ f ∈ (templateStep d left).2 := by
  induction bound generalizing c opened with
  | zero => exact absurd h List.not_mem_nil
  | succ bound ih =>
    obtain ⟨hgoesOn, -, -⟩ := templateStep_spec c opened
    have hhere : f ∈ (templateStep c opened).2 → ∃ d left, c.Reaches d ∧
        f ∈ (templateStep d left).2 := fun h => ⟨c, opened, Reaches.refl c, h⟩
    rw [templateEnd?_succ] at h
    split at h
    · next ending found hstep =>
      rw [hstep] at hhere
      exact hhere h
    · next behind left found hstep =>
      rw [hstep] at hhere hgoesOn
      rcases List.mem_append.mp h with h | h
      · exact hhere h
      · obtain ⟨d, left', hd, hfound⟩ := ih h
        exact ⟨d, left', (hgoesOn behind left rfl).reaches.trans hd, hfound⟩

/-- Inside a template only issues are found. -/
theorem block_not_mem_templateEnd? (bound : Nat) (c : Cursor) (opened : List String)
    (raw : RawBlock) : Finding.block raw ∉ (templateEnd? bound c opened).2 := by
  intro h
  obtain ⟨d, left, -, hfound⟩ := exists_step_of_mem_templateEnd? h
  exact (templateStep_spec d left).2.2 raw hfound

/-- The bound of the scan of a template does not matter. -/
theorem templateEnd?_bound {a b : Nat} {c : Cursor} {opened : List String}
    (ha : c.rest.length < a) (hb : c.rest.length < b) :
    templateEnd? a c opened = templateEnd? b c opened := by
  induction a generalizing b c opened with
  | zero => exact absurd ha (Nat.not_lt_zero _)
  | succ a ih =>
    cases b with
    | zero => exact absurd hb (Nat.not_lt_zero _)
    | succ b =>
      rw [templateEnd?_succ, templateEnd?_succ]
      split
      · rfl
      · next behind left found hstep =>
        have hlength := ((templateStep_spec c opened).1 behind left (by rw [hstep])).2
        rw [ih (b := b) (by omega) (by omega)]

/-! ## §6. Findings -/

/-- Whether a block's content stands behind a place. -/
def RawBlock.IsBehind (c : Cursor) (raw : RawBlock) : Prop :=
  c.Reaches raw.content ∧ ∃ stop : Cursor, raw.content.Reaches stop ∧ stop.offset = raw.contentStop

theorem blockEnd_isBehind {tag : Tag} {e : EndTag} (h : (blockEnd tag).1 = some e) :
    e.IsBehind tag.behind := by
  unfold blockEnd at h
  split at h
  · obtain rfl := Option.some.inj h
    exact ⟨tag.behind, Reaches.refl _, rfl, Reaches.refl _⟩
  · split at h
    · exact templateEnd?_isBehind h
    · exact findRawTextEnd_isBehind h

theorem block_not_mem_blockEnd (tag : Tag) (raw : RawBlock) :
    Finding.block raw ∉ (blockEnd tag).2 := by
  unfold blockEnd
  split
  · simp
  · split
    · exact block_not_mem_templateEnd? _ _ _ raw
    · simp

theorem readBlock_reaches (tag : Tag) : tag.behind.Reaches (readBlock tag).2 := by
  unfold readBlock
  split
  · next ending findings hend =>
    exact (blockEnd_isBehind (by rw [hend])).reaches
  · exact toEnd_reaches _

theorem readBlock_isBehind {tag : Tag} {raw : RawBlock}
    (h : Finding.block raw ∈ (readBlock tag).1) : raw.IsBehind tag.behind := by
  unfold readBlock at h
  have hissues := block_not_mem_blockEnd tag raw
  split at h
  · next ending findings hend =>
    rw [hend] at hissues
    rcases List.mem_append.mp h with h | h
    · exact absurd h hissues
    · obtain rfl := Finding.block.inj (List.mem_singleton.mp h)
      obtain ⟨stop, hstop, hoffset, -⟩ := blockEnd_isBehind (show (blockEnd tag).1 = some ending by
        rw [hend])
      exact ⟨Reaches.refl _, stop, hstop, hoffset⟩
  · next findings hend =>
    rw [hend] at hissues
    rcases List.mem_append.mp h with h | h
    · exact absurd h hissues
    · exact absurd (List.mem_singleton.mp h) (by simp)

/-- One step of the scan of a component: what is found, and where the scan goes on. -/
def scanStep? (c : Cursor) : Option (List Finding × Cursor) :=
  (c.find? ['<']).map fun found =>
    match markupAt found with
    | .skipped behind => ([], behind)
    | .openComment span behind => ([.issue ⟨.unterminatedComment, span⟩], behind)
    | .text => ([], found.next)
    | .tag tag =>
      if tag.isEnd then (brokenTag tag, tag.behind)
      else (brokenTag tag ++ (readBlock tag).1, (readBlock tag).2)

/-- **The scan of a component is one step after another.** -/
theorem findingsFrom_succ (bound : Nat) (c : Cursor) :
    findingsFrom (bound + 1) c =
      match scanStep? c with
      | none => []
      | some (found, behind) => found ++ findingsFrom bound behind := by
  rw [findingsFrom, scanStep?]
  cases c.find? ['<'] with
  | none => rfl
  | some found =>
    dsimp only [Option.map_some]
    cases markupAt found with
    | skipped behind => rfl
    | openComment span behind => rfl
    | text => rfl
    | tag t =>
      dsimp only
      split <;> rfl

/-- **What a step of the scan does**: it goes on farther on in the text, and the blocks it finds
stand behind the place it came from. -/
theorem scanStep?_spec {c behind : Cursor} {found : List Finding}
    (h : scanStep? c = some (found, behind)) :
    c.Passes behind ∧ ∀ raw, Finding.block raw ∈ found → raw.IsBehind c := by
  unfold scanStep? at h
  obtain ⟨start, hfind, h⟩ := Option.map_eq_some_iff.mp h
  have hpass := markupAt_passes_of_find? hfind
  split at h
  · next hmarkup =>
    obtain ⟨rfl, rfl⟩ := Prod.mk.inj h
    rw [hmarkup] at hpass
    exact ⟨hpass, by simp⟩
  · next hmarkup =>
    obtain ⟨rfl, rfl⟩ := Prod.mk.inj h
    rw [hmarkup] at hpass
    exact ⟨hpass, by simp⟩
  · next hmarkup =>
    obtain ⟨rfl, rfl⟩ := Prod.mk.inj h
    rw [hmarkup] at hpass
    exact ⟨hpass, by simp⟩
  · next tag hmarkup =>
    rw [hmarkup] at hpass
    split at h
    · obtain ⟨rfl, rfl⟩ := Prod.mk.inj h
      exact ⟨hpass, fun raw hraw => absurd hraw (block_not_mem_brokenTag tag raw)⟩
    · obtain ⟨rfl, rfl⟩ := Prod.mk.inj h
      refine ⟨hpass.trans (readBlock_reaches tag), fun raw hraw => ?_⟩
      obtain ⟨hcontent, hstop⟩ := readBlock_isBehind
        ((List.mem_append.mp hraw).resolve_left (block_not_mem_brokenTag tag raw))
      exact ⟨hpass.reaches.trans hcontent, hstop⟩

/-- **What a scan finds** is found in one of its steps. -/
theorem exists_step_of_mem_findingsFrom {bound : Nat} {c : Cursor} {f : Finding}
    (h : f ∈ findingsFrom bound c) :
    ∃ d found behind, c.Reaches d ∧ scanStep? d = some (found, behind) ∧ f ∈ found := by
  induction bound generalizing c with
  | zero => exact absurd h List.not_mem_nil
  | succ bound ih =>
    rw [findingsFrom_succ] at h
    split at h
    · exact absurd h List.not_mem_nil
    · next found behind hstep =>
      rcases List.mem_append.mp h with h | h
      · exact ⟨c, found, behind, Reaches.refl c, hstep, h⟩
      · obtain ⟨d, found', behind', hd, hstep', hfound⟩ := ih h
        exact ⟨d, found', behind', (scanStep?_spec hstep).1.reaches.trans hd, hstep', hfound⟩

/-- **The blocks of a scan stand in the text.** -/
theorem findingsFrom_places {bound : Nat} {c : Cursor} {raw : RawBlock}
    (h : Finding.block raw ∈ findingsFrom bound c) : raw.IsBehind c := by
  obtain ⟨d, found, behind, hd, hstep, hfound⟩ := exists_step_of_mem_findingsFrom h
  obtain ⟨hcontent, hstop⟩ := (scanStep?_spec hstep).2 raw hfound
  exact ⟨hd.trans hcontent, hstop⟩

/-- The bound of a scan does not matter. -/
theorem findingsFrom_bound {a b : Nat} {c : Cursor} (ha : c.rest.length < a)
    (hb : c.rest.length < b) : findingsFrom a c = findingsFrom b c := by
  induction a generalizing b c with
  | zero => exact absurd ha (Nat.not_lt_zero _)
  | succ a ih =>
    cases b with
    | zero => exact absurd hb (Nat.not_lt_zero _)
    | succ b =>
      rw [findingsFrom_succ, findingsFrom_succ]
      split
      · rfl
      · next found behind hstep =>
        have hlength := (scanStep?_spec hstep).1.2
        rw [ih (b := b) (by omega) (by omega)]

/-! ## §7. Without bounds -/

/-- The findings from a place on. -/
def findingsAt (c : Cursor) : List Finding := findingsFrom (c.rest.length + 1) c

/-- A scan goes on where its first step led to. -/
theorem findingsAt_eq (c : Cursor) :
    findingsAt c =
      match scanStep? c with
      | none => []
      | some (found, behind) => found ++ findingsAt behind := by
  rw [findingsAt, findingsFrom_succ]
  cases hstep : scanStep? c with
  | none => rfl
  | some step =>
    have hlength := (scanStep?_spec hstep).1.2
    exact congrArg (step.1 ++ ·) (findingsFrom_bound hlength (Nat.lt_succ_self _))

/-- The end of a template from a place on, and what is found in front of it. -/
def templateEndAt (c : Cursor) (opened : List String) : Option EndTag × List Finding :=
  templateEnd? (c.rest.length + 1) c opened

/-- The scan of a template goes on where its first step led to. -/
theorem templateEndAt_eq (c : Cursor) (opened : List String) :
    templateEndAt c opened =
      match templateStep c opened with
      | (.ends ending, found) => (ending, found)
      | (.goesOn behind left, found) =>
        ((templateEndAt behind left).1, found ++ (templateEndAt behind left).2) := by
  rw [templateEndAt, templateEnd?_succ]
  obtain ⟨hgoesOn, -, -⟩ := templateStep_spec c opened
  split
  · rfl
  · next behind left found hstep =>
    rw [hstep] at hgoesOn
    rw [templateEnd?_bound (hgoesOn behind left rfl).2 (Nat.lt_succ_self _)]
    rfl

end SingleFile.Markup
