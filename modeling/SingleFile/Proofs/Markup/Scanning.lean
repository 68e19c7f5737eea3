/-
  SingleFile.Proofs.Markup.Scanning — EVERY BRACKET IS LOOKED AT
  ──────────────────────────────────────────────────────────────
  A component is scanned by four loops: over the file, over a template, over a
  raw text and over the tokens of a tag.  Each turn of them leads farther on
  in the file, and whatever they search, they search from a place of the file.
  So they all end, and a bracket is either looked at or inside of something
  that the scan has gone over.

  Main results:
    * `scanLoop_advances`, `templateLoop_advances`, `rawTextLoop_advances`,
      `tagLoop_advances` — a turn leads farther on.
    * `runs_findings`, `runs_templateEndAt`, `runs_findRawTextEnd`,
      `runs_attributesAt` — the readers do what their loops come to.
    * `reaches_of_searched` — all searches begin at places of the file.
    * `scanLoop_looksAt`, `templateLoop_looksAt` — no bracket is missed.
    * `scanning_neverStrands` — all of it, for every file.
-/
import SingleFile.Proofs.Text.Loops

namespace SingleFile.Markup

open SingleFile.Text Cursor

/-! ## §1. The loops -/

/-- The scan of a file: a place, and what has been found in front of it. -/
def scanLoop : Loop (Cursor × List Finding) (List Finding) where
  turn s :=
    match scanStep? s.1 with
    | none => .inr s.2
    | some (found, behind) => .inl (behind, s.2 ++ found)
  place s := s.1

/-- The scan of a template: a place, the open elements and what has been found. -/
def templateLoop : Loop (Cursor × List String × List Finding) (Option EndTag × List Finding) where
  turn s :=
    match templateStep s.1 s.2.1 with
    | (.ends ending, found) => .inr (ending, s.2.2 ++ found)
    | (.goesOn behind left, found) => .inl (behind, left, s.2.2 ++ found)
  place s := s.1

/-- The scan of a raw text for the end tag of a name. -/
def rawTextLoop (name : String) : Loop Cursor (Option EndTag) where
  turn c :=
    match c.find? ['<', '/'] with
    | none => .inr none
    | some found =>
      match (afterName? name.toList (found.skip 2)).filter endsName with
      | some behind => .inr (some ⟨found.offset, behind.behindNext ['>']⟩)
      | none => .inl (found.skip 2)
  place c := c

/-- The reading of a tag, token by token: the tag up to its latest token, and its attributes. -/
def tagLoop : Loop (Tag × TagState) Tag where
  turn s :=
    let (token, behind) := nextToken s.1.behind
    match token.kind with
    | .rightAngle => .inr { s.1 with attributes := s.2.attributes, behind := behind }
    | .slashRightAngle =>
      .inr { s.1 with attributes := s.2.attributes, behind := behind, isSelfClosing := true }
    | .tagOpen => .inr (readAttributes.broken s.1 s.2)
    | .closeTagOpen => .inr (readAttributes.broken s.1 s.2)
    | .endOfText => .inr (readAttributes.broken s.1 s.2)
    | _ => .inl ({ s.1 with behind := behind }, s.2.add token)
  place s := s.1.behind

/-! ## §2. A turn leads farther on -/

theorem scanLoop_advances : scanLoop.Advances := by
  intro s t h
  simp only [scanLoop] at h
  split at h
  · exact absurd h Sum.inr_ne_inl
  · next found behind hstep =>
    obtain rfl := Sum.inl.inj h
    exact (scanStep?_spec hstep).1

theorem templateLoop_advances : templateLoop.Advances := by
  intro s t h
  simp only [templateLoop] at h
  split at h
  · exact absurd h Sum.inr_ne_inl
  · next behind left found hstep =>
    obtain rfl := Sum.inl.inj h
    exact (templateStep_spec s.1 s.2.1).1 behind left (by rw [hstep])

theorem rawTextLoop_advances (name : String) : (rawTextLoop name).Advances := by
  intro c d h
  simp only [rawTextLoop] at h
  split at h
  · exact absurd h Sum.inr_ne_inl
  · next found hfind =>
    split at h
    · exact absurd h Sum.inr_ne_inl
    · obtain rfl := Sum.inl.inj h
      exact (find?_spec hfind).1.passes
        (skip_passes (rest_ne_nil_of_find? hfind (by decide)) (by decide))

theorem tagLoop_advances : tagLoop.Advances := by
  intro s t h
  simp only [tagLoop] at h
  split at h
  · exact absurd h Sum.inr_ne_inl
  · exact absurd h Sum.inr_ne_inl
  · exact absurd h Sum.inr_ne_inl
  · exact absurd h Sum.inr_ne_inl
  · exact absurd h Sum.inr_ne_inl
  · next hend =>
    obtain rfl := Sum.inl.inj h
    exact nextToken_passes hend

/-! ## §3. What the loops come to -/

/-- The scan of a file finds what its loop comes to, behind what has been found before. -/
theorem runs_findingsAt (c : Cursor) (before : List Finding) :
    scanLoop.Runs (c, before) (before ++ findingsAt c) := by
  induction hn : c.rest.length using Nat.strongRecOn generalizing c before with
  | ind n ih =>
    rw [findingsAt_eq]
    cases hstep : scanStep? c with
    | none =>
      rw [List.append_nil]
      exact .ends (by simp only [scanLoop, hstep])
    | some step =>
      obtain ⟨found, behind⟩ := step
      have hlength := (scanStep?_spec hstep).1.2
      have hturn : scanLoop.turn (c, before) = .inl (behind, before ++ found) := by
        simp only [scanLoop, hstep]
      have hlater := ih _ (hn ▸ hlength) behind (before ++ found) rfl
      rw [List.append_assoc] at hlater
      exact .goesOn hturn hlater

theorem runs_findings (source : List Char) :
    scanLoop.Runs (ofText source, []) (findings source) :=
  runs_findingsAt (ofText source) []

theorem runs_templateEndAt (c : Cursor) (opened : List String) (before : List Finding) :
    templateLoop.Runs (c, opened, before)
      ((templateEndAt c opened).1, before ++ (templateEndAt c opened).2) := by
  induction hn : c.rest.length using Nat.strongRecOn generalizing c opened before with
  | ind n ih =>
    rw [templateEndAt_eq]
    rcases hstep : templateStep c opened with ⟨ending | ⟨behind, left⟩, found⟩
    · exact .ends (by simp only [templateLoop, hstep])
    · have hlength := ((templateStep_spec c opened).1 behind left (by rw [hstep])).2
      have hturn : templateLoop.turn (c, opened, before)
          = .inl (behind, left, before ++ found) := by
        simp only [templateLoop, hstep]
      have hlater := ih _ (hn ▸ hlength) behind left (before ++ found) rfl
      rw [List.append_assoc] at hlater
      exact .goesOn hturn hlater

theorem runs_findRawTextEnd (name : String) (c : Cursor) :
    (rawTextLoop name).Runs c (findRawTextEnd name c) := by
  induction hn : c.rest.length using Nat.strongRecOn generalizing c with
  | ind n ih =>
    rw [findRawTextEnd_eq]
    cases hfind : c.find? ['<', '/'] with
    | none => exact .ends (by simp only [rawTextLoop, hfind])
    | some found =>
      dsimp only
      cases hname : (afterName? name.toList (found.skip 2)).filter endsName with
      | some behind => exact .ends (by simp only [rawTextLoop, hfind, hname])
      | none =>
        have hturn : (rawTextLoop name).turn c = .inl (found.skip 2) := by
          simp only [rawTextLoop, hfind, hname]
        have hlength := (rawTextLoop_advances name c _ hturn).2
        exact .goesOn hturn (ih _ (hn ▸ hlength) _ rfl)

/-- The attributes of a tag are read token by token. -/
theorem readAttributes_succ (tag : Tag) (bound : Nat) (s : TagState) :
    readAttributes tag (bound + 1) s =
      match tagLoop.turn (tag, s) with
      | .inl (longer, s) => readAttributes longer bound s
      | .inr whole => whole := by
  rw [readAttributes]
  cases hkind : (nextToken tag.behind).1.kind <;> simp only [tagLoop, hkind]

theorem runs_attributesAt (tag : Tag) (s : TagState) :
    tagLoop.Runs (tag, s) (attributesAt tag s) := by
  induction hn : tag.behind.rest.length using Nat.strongRecOn generalizing tag s with
  | ind n ih =>
    rw [attributesAt, readAttributes_succ]
    cases hturn : tagLoop.turn (tag, s) with
    | inr whole => exact .ends hturn
    | inl state =>
      obtain ⟨longer, left⟩ := state
      have hlength : longer.behind.rest.length < tag.behind.rest.length :=
        (tagLoop_advances (tag, s) (longer, left) hturn).2
      have hlater := ih _ (hn ▸ hlength) longer left rfl
      dsimp only
      rw [readAttributes_bound hlength (Nat.lt_succ_self _)]
      exact .goesOn hturn hlater

/-! ## §4. Where searches begin -/

/-- Whether what begins at a bracket is searched for its end from a place on. -/
inductive SearchedByMarkup (found : Cursor) : Cursor → Prop where
  /-- A comment, behind its first four characters. -/
  | comment (h : found.isAt ['<', '!', '-', '-'] = true) : SearchedByMarkup found (found.skip 4)
  /-- A declaration or an instruction, from its bracket on. -/
  | declaration (h : found.isAt ['<', '!', '-', '-'] = false)
    (h' : (found.isAt ['<', '!'] || found.isAt ['<', '?']) = true) : SearchedByMarkup found found

/-- Whether a raw text behind a place is searched from a place on. -/
inductive SearchedInRawText (name : String) (c : Cursor) : Cursor → Prop where
  | turn {d : Cursor} (h : (rawTextLoop name).Visits c d) : SearchedInRawText name c d
  /-- Behind the name of the end tag, for its bracket. -/
  | ending {d found behind : Cursor} (h : (rawTextLoop name).Visits c d)
    (hfind : d.find? ['<', '/'] = some found)
    (hname : (afterName? name.toList (found.skip 2)).filter endsName = some behind) :
    SearchedInRawText name c behind

/-- Whether a template behind a place is searched from a place on. -/
inductive SearchedInTemplate (c : Cursor) : Cursor → Prop where
  | turn {s : Cursor × List String × List Finding} (h : templateLoop.Visits (c, [], []) s) :
    SearchedInTemplate c s.1
  | markup {s : Cursor × List String × List Finding} {found d : Cursor}
    (h : templateLoop.Visits (c, [], []) s) (hfind : s.1.find? ['<'] = some found)
    (hd : SearchedByMarkup found d) : SearchedInTemplate c d
  | rawText {s : Cursor × List String × List Finding} {found d : Cursor} {tag : Tag}
    (h : templateLoop.Visits (c, [], []) s) (hfind : s.1.find? ['<'] = some found)
    (htag : markupAt found = .tag tag) (hstart : tag.isEnd = false)
    (hopen : tag.isSelfClosing = false) (hraw : isRawTextElement tag.name = true)
    (hd : SearchedInRawText tag.name tag.behind d) : SearchedInTemplate c d

/-- **Whether a file is searched from a place on**, by a loop or in one of its turns. -/
inductive Searched (source : List Char) : Cursor → Prop where
  | turn {s : Cursor × List Finding} (h : scanLoop.Visits (ofText source, []) s) :
    Searched source s.1
  | markup {s : Cursor × List Finding} {found d : Cursor}
    (h : scanLoop.Visits (ofText source, []) s) (hfind : s.1.find? ['<'] = some found)
    (hd : SearchedByMarkup found d) : Searched source d
  | template {s : Cursor × List Finding} {found d : Cursor} {tag : Tag}
    (h : scanLoop.Visits (ofText source, []) s) (hfind : s.1.find? ['<'] = some found)
    (htag : markupAt found = .tag tag) (hstart : tag.isEnd = false)
    (hopen : tag.isSelfClosing = false) (hname : sameName tag.name "template" = true)
    (hd : SearchedInTemplate tag.behind d) : Searched source d
  | rawText {s : Cursor × List Finding} {found d : Cursor} {tag : Tag}
    (h : scanLoop.Visits (ofText source, []) s) (hfind : s.1.find? ['<'] = some found)
    (htag : markupAt found = .tag tag) (hstart : tag.isEnd = false)
    (hopen : tag.isSelfClosing = false) (hname : sameName tag.name "template" = false)
    (hd : SearchedInRawText tag.name tag.behind d) : Searched source d

section

variable {c d : Cursor}

theorem reaches_of_searchedByMarkup (h : SearchedByMarkup c d) : c.Reaches d := by
  cases h with
  | comment => exact skip_reaches 4 c
  | declaration => exact Reaches.refl c

theorem reaches_of_searchedInRawText {name : String} (h : SearchedInRawText name c d) :
    c.Reaches d := by
  cases h with
  | turn hvisits => exact (rawTextLoop_advances name).reaches_of_visits hvisits
  | ending hvisits hfind hname =>
    have hreach := (rawTextLoop_advances name).reaches_of_visits hvisits
    have hafter := afterName?_reaches (Option.filter_eq_some_iff.mp hname).1
    exact hreach.trans ((find?_spec hfind).1.trans ((skip_reaches 2 _).trans hafter))

/-- The place behind a tag is farther on than the place it was looked for from. -/
theorem reaches_behind_tag {c found : Cursor} {tag : Tag} (hfind : c.find? ['<'] = some found)
    (htag : markupAt found = .tag tag) : c.Reaches tag.behind := by
  have hpass := markupAt_passes_of_find? hfind
  rw [htag] at hpass
  exact hpass.reaches

theorem reaches_of_searchedInTemplate (h : SearchedInTemplate c d) : c.Reaches d := by
  cases h with
  | turn hvisits => exact templateLoop_advances.reaches_of_visits hvisits
  | markup hvisits hfind hd =>
    have hreach := templateLoop_advances.reaches_of_visits hvisits
    exact hreach.trans ((find?_spec hfind).1.trans (reaches_of_searchedByMarkup hd))
  | rawText hvisits hfind htag _ _ _ hd =>
    have hreach := templateLoop_advances.reaches_of_visits hvisits
    exact hreach.trans
      ((reaches_behind_tag hfind htag).trans (reaches_of_searchedInRawText hd))

/-- **All searches begin at places of the file.** -/
theorem reaches_of_searched {source : List Char} (h : Searched source d) :
    (ofText source).Reaches d := by
  cases h with
  | turn hvisits => exact scanLoop_advances.reaches_of_visits hvisits
  | markup hvisits hfind hd =>
    have hreach := scanLoop_advances.reaches_of_visits hvisits
    exact hreach.trans ((find?_spec hfind).1.trans (reaches_of_searchedByMarkup hd))
  | template hvisits hfind htag _ _ _ hd =>
    have hreach := scanLoop_advances.reaches_of_visits hvisits
    exact hreach.trans
      ((reaches_behind_tag hfind htag).trans (reaches_of_searchedInTemplate hd))
  | rawText hvisits hfind htag _ _ _ hd =>
    have hreach := scanLoop_advances.reaches_of_visits hvisits
    exact hreach.trans
      ((reaches_behind_tag hfind htag).trans (reaches_of_searchedInRawText hd))

end

/-! ## §5. Brackets -/

/-- Whether a place is inside of what begins at another one and goes on up to a third: a comment,
a declaration, a tag or a block. -/
def IsInside (found behind p : Cursor) : Prop :=
  markupAt found ≠ .text ∧ found.offset < p.offset ∧ p.offset < behind.offset

/-- A bracket that nothing begins with is all that is gone over. -/
theorem isInside_of_lt {found behind p : Cursor} (hbracket : ∃ rest, found.rest = '<' :: rest)
    (hfound : found.offset < p.offset) (hbehind : p.offset < behind.offset)
    (htext : markupAt found = .text → behind = found.next) : IsInside found behind p := by
  refine ⟨fun hmarkup => ?_, hfound, hbehind⟩
  obtain ⟨rest, hrest⟩ := hbracket
  have hnext : found.next.offset = found.offset + 1 := by
    rw [next, hrest]
    rfl
  rw [htext hmarkup, hnext] at hbehind
  omega

/-- **Each bracket of a file is looked at**, or is inside of something that is gone over. -/
theorem scanLoop_looksAt {source rest : List Char} {p : Cursor} (hp : (ofText source).Reaches p)
    (hbracket : p.rest = '<' :: rest) :
    ∃ s found, scanLoop.Visits (ofText source, []) s ∧ s.1.find? ['<'] = some found ∧
      (p = found ∨ ∃ t, scanLoop.turn s = .inl t ∧ IsInside found t.1 p) := by
  obtain ⟨s, found, hvisits, hfind, hfound, hpassed⟩ :=
    scanLoop_advances.exists_turn (s := (ofText source, [])) ['<'] hp hbracket
  replace hfind : s.1.find? ['<'] = some found := hfind
  refine ⟨s, found, hvisits, hfind, hfound.eq_or_lt.imp_right fun hlt => ?_⟩
  cases hstep : scanStep? s.1 with
  | none =>
    -- Where there is a bracket the scan does not end.
    rw [scanStep?, hfind] at hstep
    exact absurd hstep (by simp)
  | some step =>
    obtain ⟨new, behind⟩ := step
    have hturn : scanLoop.turn s = .inl (behind, s.2 ++ new) := by simp only [scanLoop, hstep]
    refine ⟨_, hturn, isInside_of_lt (find?_spec hfind).2 hlt (hpassed _ hturn) fun htext => ?_⟩
    rw [scanStep?, hfind, Option.map_some, htext] at hstep
    exact (Prod.mk.inj (Option.some.inj hstep)).2.symm

/-- **Each bracket of a template is looked at**, or is inside of something that is gone over,
unless the scan of the template ended in front of it. -/
theorem templateLoop_looksAt {c p : Cursor} {rest : List Char} (hp : c.Reaches p)
    (hbracket : p.rest = '<' :: rest) :
    ∃ s found, templateLoop.Visits (c, [], []) s ∧ s.1.find? ['<'] = some found ∧
      (p = found ∨ (∃ t, templateLoop.turn s = .inl t ∧ IsInside found t.1 p) ∨
        ∃ r, templateLoop.turn s = .inr r ∧ found.offset < p.offset) := by
  obtain ⟨s, found, hvisits, hfind, hfound, hpassed⟩ :=
    templateLoop_advances.exists_turn (s := (c, [], [])) ['<'] hp hbracket
  replace hfind : s.1.find? ['<'] = some found := hfind
  refine ⟨s, found, hvisits, hfind, hfound.eq_or_lt.imp_right fun hlt => ?_⟩
  cases hturn : templateLoop.turn s with
  | inr r => exact .inr ⟨r, rfl, hlt⟩
  | inl t =>
    refine .inl ⟨t, rfl, isInside_of_lt (find?_spec hfind).2 hlt (hpassed t hturn) fun htext => ?_⟩
    have hstep : templateStep s.1 s.2.1 = (.goesOn found.next s.2.1, []) := by
      rw [templateStep, hfind]
      dsimp only
      rw [htext]
    simp only [templateLoop, hstep] at hturn
    exact (congrArg Prod.fst (Sum.inl.inj hturn)).symm

/-- **Each bracket and slash of a raw text is looked at**, up to the end tag. -/
theorem rawTextLoop_looksAt {name : String} {c p : Cursor} {rest : List Char} (hp : c.Reaches p)
    (hbracket : p.rest = '<' :: '/' :: rest) :
    ∃ d found, (rawTextLoop name).Visits c d ∧ d.find? ['<', '/'] = some found ∧
      (p = found ∨ ∃ ending, (rawTextLoop name).turn d = .inr (some ending) ∧
        ending.start < p.offset) := by
  obtain ⟨d, found, hvisits, hfind, hfound, hpassed⟩ :=
    (rawTextLoop_advances name).exists_turn (s := c) ['<', '/'] hp hbracket
  replace hfind : d.find? ['<', '/'] = some found := hfind
  refine ⟨d, found, hvisits, hfind, hfound.eq_or_lt.imp_right fun hlt => ?_⟩
  cases hname : (afterName? name.toList (found.skip 2)).filter endsName with
  | some behind =>
    have hturn : (rawTextLoop name).turn d
        = .inr (some ⟨found.offset, behind.behindNext ['>']⟩) := by
      simp only [rawTextLoop, hfind, hname]
    exact ⟨_, hturn, hlt⟩
  | none =>
    -- Between a bracket and the slash behind it no other bracket begins.
    have hnext := hpassed (found.skip 2) (by simp only [rawTextLoop, hfind, hname])
    obtain ⟨passed, hrest, hoffset⟩ := hfound
    obtain ⟨behind, hslash⟩ := (find?_spec hfind).2
    have hskip : (found.skip 2).offset = found.offset + 2 := by
      rw [skip, skip, skip, next, next, hslash]
      rfl
    rw [hslash] at hrest
    replace hnext : p.offset < (found.skip 2).offset := hnext
    cases passed with
    | nil => exact absurd hoffset (Nat.ne_of_gt hlt)
    | cons ch passed =>
      obtain ⟨rfl, hlater⟩ := List.cons.inj hrest
      cases passed with
      | nil =>
        have hsame : '/' :: behind = '<' :: '/' :: rest := hlater.trans hbracket
        exact absurd (List.cons.inj hsame).1 (by decide)
      | cons ch' passed =>
        have hsize := ch'.utf8Size_pos
        have hone : ('<' : Char).utf8Size = 1 := rfl
        rw [byteLength_cons, byteLength_cons, hone] at hoffset
        omega

/-! ## §6. All of it -/

/-- Whether an offset is a place of a file: it does not lie behind the end or inside of a
character, and what stands there is what is read from there on. -/
def IsPlaceOf (source : List Char) (c : Cursor) : Prop :=
  c.offset ≤ byteLength source ∧ ∃ before, splitAt? source c.offset = some (before, c.rest)

theorem isPlaceOf_of_reaches {source : List Char} {c : Cursor} (h : (ofText source).Reaches c) :
    IsPlaceOf source c := by
  refine ⟨h.offset_le_byteLength, ?_⟩
  obtain ⟨before, hsource, hoffset⟩ := h
  have hlength : byteLength before = c.offset := by
    rw [hoffset]
    exact (Nat.zero_add _).symm
  exact ⟨before, splitAt?_eq_some_iff.mpr ⟨hsource.symm, hlength⟩⟩

/-- What there is to say about the scan of a file: no loop of it stands still or searches from
anywhere but a place of the file, so each one ends, with what its reader gives, and each bracket is
looked at unless it is gone over. -/
structure NeverStrands (source : List Char) : Prop where
  scan_increases : ∀ s t, scanLoop.turn s = .inl t → s.1.offset < t.1.offset
  template_increases : ∀ s t, templateLoop.turn s = .inl t → s.1.offset < t.1.offset
  rawText_increases : ∀ name c d, (rawTextLoop name).turn c = .inl d → c.offset < d.offset
  tag_increases : ∀ s t, tagLoop.turn s = .inl t → s.1.behind.offset < t.1.behind.offset
  searched : ∀ c, Searched source c → IsPlaceOf source c
  scan_ends : scanLoop.Runs (ofText source, []) (findings source)
  template_ends : ∀ c opened, templateLoop.Runs (c, opened, []) (templateEndAt c opened)
  rawText_ends : ∀ name c, (rawTextLoop name).Runs c (findRawTextEnd name c)
  tag_ends : ∀ tag s, tagLoop.Runs (tag, s) (attributesAt tag s)
  bracket : ∀ p rest, (ofText source).Reaches p → p.rest = '<' :: rest →
    ∃ s found, scanLoop.Visits (ofText source, []) s ∧ s.1.find? ['<'] = some found ∧
      (p = found ∨ ∃ t, scanLoop.turn s = .inl t ∧ IsInside found t.1 p)
  bracket_template : ∀ c p rest, c.Reaches p → p.rest = '<' :: rest →
    ∃ s found, templateLoop.Visits (c, [], []) s ∧ s.1.find? ['<'] = some found ∧
      (p = found ∨ (∃ t, templateLoop.turn s = .inl t ∧ IsInside found t.1 p) ∨
        ∃ r, templateLoop.turn s = .inr r ∧ found.offset < p.offset)
  bracket_rawText : ∀ name c p rest, c.Reaches p → p.rest = '<' :: '/' :: rest →
    ∃ d found, (rawTextLoop name).Visits c d ∧ d.find? ['<', '/'] = some found ∧
      (p = found ∨ ∃ ending, (rawTextLoop name).turn d = .inr (some ending) ∧
        ending.start < p.offset)

/-- **A scan never strands**: whatever the file, its loops advance, search from places of the file
only and come to an end, and no bracket is missed.  Places are counted without a bound; files are
below 4 GiB, where 32 bits hold every offset of a token. -/
theorem scanning_neverStrands (source : List Char) : NeverStrands source where
  scan_increases s t h := (scanLoop_advances s t h).offset_lt
  template_increases s t h := (templateLoop_advances s t h).offset_lt
  rawText_increases name c d h := (rawTextLoop_advances name c d h).offset_lt
  tag_increases s t h := (tagLoop_advances s t h).offset_lt
  searched _ h := isPlaceOf_of_reaches (reaches_of_searched h)
  scan_ends := runs_findings source
  template_ends c opened := runs_templateEndAt c opened []
  rawText_ends := runs_findRawTextEnd
  tag_ends := runs_attributesAt
  bracket _ _ hp hbracket := scanLoop_looksAt hp hbracket
  bracket_template _ _ _ hp hbracket := templateLoop_looksAt hp hbracket
  bracket_rawText _ _ _ _ hp hbracket := rawTextLoop_looksAt hp hbracket

end SingleFile.Markup
