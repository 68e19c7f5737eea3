/-
  SingleFile.Proofs.Markup.Spans — WHERE BLOCKS, ATTRIBUTES AND ISSUES STAND
  ──────────────────────────────────────────────────────────────────────────
  A span is given by two places that a reader went through, one behind the
  other, so it is a range of the file, at whole characters, and what was read
  between the two places is the text it covers.  A file is short enough for
  its spans if its offsets are 32-bit numbers.

  Main results:
    * `standBetween_add` — a token keeps attributes one behind another.  The
      step; `standBetween_readAttributes` is the run.
    * `exists_places_of_startTag` — the places that a start tag and its end
      lead through.
    * `isReported_of_mem_templateStep`, `isReported_of_mem_scanStep?` — a step
      reports what it comes upon; `isReported_of_mem_findingsFrom` is the run.
    * `extract_isSound` — the spans of a component.
-/
import SingleFile.Proofs.Markup.Padding

namespace SingleFile.Text

/-- A range whose offsets are small enough is a span. -/
theorem Span.ofRange_of_le {start stop : Nat} (hle : start ≤ stop) (hstop : stop ≤ maxOffset) :
    ofRange start stop = ⟨start, stop⟩ := by
  rw [ofRange, Nat.min_eq_left (Nat.le_trans hle hstop), Nat.min_eq_left hstop]

namespace Cursor

variable {c d : Cursor} {source text : List Char}

/-! ## §1. Places of a text -/

/-- A place that is reached from the start of a text cuts it. -/
theorem Reaches.splitAt?_isSome (h : (ofText source).Reaches c) :
    (splitAt? source c.offset).isSome = true := by
  obtain ⟨before, hsource, hoffset⟩ := h
  have hlength : byteLength before = c.offset := by rw [hoffset]; exact (Nat.zero_add _).symm
  have hcut : splitAt? source c.offset = some (before, c.rest) :=
    splitAt?_eq_some_iff.mpr ⟨hsource.symm, hlength⟩
  rw [hcut]
  rfl

theorem Reaches.offset_le_byteLength (h : (ofText source).Reaches c) :
    c.offset ≤ byteLength source := by
  have hstop : c.offset + byteLength c.rest = 0 + byteLength source := h.stop_eq
  omega

/-- **The text between two places is a slice.** -/
theorem Reads.slice?_eq (h : c.Reads text d) (hc : (ofText source).Reaches c) :
    slice? source c.offset d.offset = some text := by
  obtain ⟨before, hsource, hoffset⟩ := hc
  obtain ⟨hrest, hstop⟩ := h
  have hlength : c.offset = byteLength before := by rw [hoffset]; exact Nat.zero_add _
  have hparts : source = before ++ text ++ d.rest := by
    rw [List.append_assoc, ← hrest]
    exact hsource
  rw [hstop, hlength, hparts]
  exact slice?_append before text d.rest

/-- What is read first between two places is the beginning of the slice. -/
theorem Reads.slice?_of_reaches {e : Cursor} (h : c.Reads text d) (hde : d.Reaches e)
    (hc : (ofText source).Reaches c) :
    ∃ later, slice? source c.offset e.offset = some (text ++ later) := by
  obtain ⟨later, hrest, hoffset⟩ := hde
  refine ⟨later, Reads.slice?_eq (d := e) ⟨?_, ?_⟩ hc⟩
  · rw [h.1, hrest, List.append_assoc]
  · rw [hoffset, h.2, byteLength_append, Nat.add_assoc]

end Cursor

end SingleFile.Text

namespace SingleFile.Markup

open SingleFile.Text Cursor

variable {c d e : Cursor}

/-! ## §2. Attributes -/

/-- Whether some attributes, the latest first, stand between two places, one behind another.  The
span of each goes from its name to the end of its value, if it has one. -/
inductive StandBetween (c : Cursor) : Cursor → List Attribute → Prop where
  | none {d : Cursor} (h : c.Reaches d) : StandBetween c d []
  | behind {start named stop d : Cursor} {a : Attribute} {before : List Attribute}
    (hbefore : StandBetween c start before) (hname : start.Reads a.name.toList named)
    (hne : a.name.toList ≠ []) (hvalue : named.Reaches stop)
    (hspan : a.span = ⟨start.offset, stop.offset⟩) (hstop : stop.Reaches d) :
    StandBetween c d (a :: before)

theorem StandBetween.reaches {attributes : List Attribute} (h : StandBetween c d attributes) :
    c.Reaches d := by
  induction h with
  | none h => exact h
  | behind _ hname _ hvalue _ hstop ih =>
    exact ih.trans (hname.reaches.trans (hvalue.trans hstop))

theorem StandBetween.of_reaches {attributes : List Attribute} (h : StandBetween c d attributes)
    (hde : d.Reaches e) : StandBetween c e attributes := by
  cases h with
  | none h => exact .none (h.trans hde)
  | behind hbefore hname hne hvalue hspan hstop =>
    exact .behind hbefore hname hne hvalue hspan (hstop.trans hde)

/-- The attributes that have been read, the latest first. -/
def TagState.read (s : TagState) : List Attribute := s.pending.toList ++ s.done

theorem TagState.reverse_attributes (s : TagState) : s.attributes.reverse = s.read :=
  List.reverse_reverse _

/-- **A token keeps attributes one behind another**, whatever it is. -/
theorem standBetween_add {s : TagState} {t : Token} {start : Cursor}
    (h : StandBetween c d s.read) (hd : d.Reaches start) (hstart : t.start = start.offset)
    (ht : start.Reads t.text e) (hne : t.text ≠ []) : StandBetween c e (s.add t).read := by
  have hkept : StandBetween c e s.read := h.of_reaches (hd.trans ht.reaches)
  have htspan : t.span = ⟨start.offset, e.offset⟩ := by
    rw [Token.span, Token.stop, hstart, ht.2]
  -- A value goes on the attribute that was read last.
  have hvalue : StandBetween c e (s.setValue t).read := by
    unfold TagState.setValue
    split
    · next a hpending =>
      have hread : s.read = a :: s.done := by rw [TagState.read, hpending]; rfl
      rw [hread] at h
      cases h with
      | @behind first named stop _ _ _ hbefore hname hne' hnamed hspan hstop =>
        refine .behind hbefore hname hne' (hnamed.trans (hstop.trans (hd.trans ht.reaches))) ?_
          (Reaches.refl e)
        have hfirst := (hname.reaches.trans hnamed).offset_le
        have hlast := (hstop.trans hd).offset_le
        have htext := ht.reaches.offset_le
        rw [hspan, htspan, Span.cover, Span.mk.injEq]
        dsimp only
        omega
    · exact hkept
  unfold TagState.add
  split
  · exact hkept
  · split
    · exact hvalue
    · refine .behind (h.of_reaches hd) ?_ ?_ (Reaches.refl e) htspan (Reaches.refl e)
      · rwa [String.toList_ofList]
      · rwa [String.toList_ofList]
  · split
    · exact hvalue
    · exact hkept
  · split
    · exact hvalue
    · exact hkept
  · exact hkept

/-- **The attributes of a tag stand one behind another**, behind those that were read before. -/
theorem standBetween_readAttributes (bound : Nat) {tag : Tag} {s : TagState}
    (h : StandBetween c tag.behind s.read) :
    StandBetween c (readAttributes tag bound s).behind
      (readAttributes tag bound s).attributes.reverse := by
  induction bound generalizing tag s with
  | zero =>
    rw [readAttributes, s.reverse_attributes]
    exact h
  | succ bound ih =>
    have hblanks := overWhile_reaches isAsciiBlank tag.behind
    have hnext := nextToken_reaches tag.behind
    rw [← s.reverse_attributes] at h
    unfold readAttributes
    dsimp only
    split
    · exact h.of_reaches hnext
    · exact h.of_reaches hnext
    · exact h.of_reaches hblanks
    · exact h.of_reaches hblanks
    · exact h.of_reaches hblanks
    · next hend =>
      rw [s.reverse_attributes] at h
      obtain ⟨start, hstart, hoffset, hreads⟩ := nextToken_reads tag.behind
      exact ih (standBetween_add h hstart hoffset hreads (text_nextToken_ne_nil hend))

/-- Whether an attribute stands in a part of a file: its span covers its name, and maybe more. -/
structure Attribute.StandsIn (source : List Char) (start stop : Nat) (a : Attribute) : Prop where
  named : a.name ≠ ""
  start_le : start ≤ a.span.start
  le_stop : a.span.stop ≤ stop
  text : ∃ later, a.span.text? source = some (a.name.toList ++ later)

theorem StandBetween.standsIn {source : List Char} {attributes : List Attribute}
    (h : StandBetween c d attributes) (hc : (ofText source).Reaches c) :
    ∀ a ∈ attributes, a.StandsIn source c.offset d.offset := by
  induction h with
  | none _ => exact fun a ha => absurd ha List.not_mem_nil
  | @behind start named stop d a before hbefore hname hne hvalue hspan hstop ih =>
    refine List.forall_mem_cons.mpr ⟨⟨?_, ?_, ?_, ?_⟩, fun b hb => ?_⟩
    · rintro hempty
      exact hne (by rw [hempty]; rfl)
    · rw [hspan]
      exact hbefore.reaches.offset_le
    · rw [hspan]
      exact hstop.offset_le
    · rw [hspan]
      exact hname.slice?_of_reaches hvalue (hc.trans hbefore.reaches)
    · obtain ⟨hnamed, hstart, hend, htext⟩ := ih b hb
      have hlater := (hname.reaches.trans (hvalue.trans hstop)).offset_le
      exact ⟨hnamed, hstart, Nat.le_trans hend hlater, htext⟩

/-- The span of each attribute stands behind those of the attributes before. -/
theorem StandBetween.pairwise {attributes : List Attribute} (h : StandBetween c d attributes) :
    attributes.Pairwise (fun a b => b.span.stop ≤ a.span.start) ∧
      ∀ a ∈ attributes, a.span.stop ≤ d.offset := by
  induction h with
  | none _ => exact ⟨.nil, fun a ha => absurd ha List.not_mem_nil⟩
  | behind _ hname _ hvalue hspan hstop ih =>
    obtain ⟨hordered, hend⟩ := ih
    have hstart := (hname.reaches.trans (hvalue.trans hstop)).offset_le
    refine ⟨List.pairwise_cons.mpr ⟨fun b hb => ?_, hordered⟩,
      List.forall_mem_cons.mpr ⟨?_, fun b hb => Nat.le_trans (hend b hb) hstart⟩⟩
    · rw [hspan]
      exact hend b hb
    · rw [hspan]
      exact hstop.offset_le

/-! ## §3. Start tags -/

/-- A bracket is the beginning of a token. -/
theorem nextToken_of_bracket (h : ∃ rest, c.rest = '<' :: rest) :
    c.Reads (nextToken c).1.text (nextToken c).2 ∧
      ∃ later, (nextToken c).1.text = '<' :: later := by
  obtain ⟨offset, text⟩ := c
  obtain ⟨rest, rfl : text = '<' :: rest⟩ := h
  have hlength := tokenAt_length_pos (List.cons_ne_nil '<' rest)
  obtain ⟨n, hn⟩ := Nat.exists_eq_succ_of_ne_zero (Nat.ne_of_gt hlength)
  refine ⟨⟨(List.take_append_drop _ _).symm, rfl⟩, rest.take n, ?_⟩
  show ('<' :: rest).take (tokenAt ('<' :: rest)).2 = _
  rw [hn]
  rfl

/-- **Where the parts of a start tag stand**: a bracket and the tag's name, and the attributes
behind them. -/
theorem exists_named_of_readTag? {tag : Tag} (hbracket : ∃ rest, c.rest = '<' :: rest)
    (h : readTag? c = some tag) (hstart : tag.isEnd = false) :
    ∃ named, c.Reads ('<' :: tag.name.toList) named ∧
      StandBetween named tag.behind tag.attributes.reverse := by
  obtain ⟨hreads, later, htext⟩ := nextToken_of_bracket hbracket
  rcases readTag?_eq_some h with ⟨-, rfl⟩ | ⟨-, rfl⟩
  · refine ⟨_, ?_, standBetween_readAttributes _ (.none (Reaches.refl _))⟩
    rw [attributesAt, (readAttributes_frame ..).1, Tag.named, String.toList_ofList]
    rw [htext] at hreads ⊢
    exact hreads
  · rw [attributesAt, (readAttributes_frame ..).2.2] at hstart
    exact absurd hstart (by simp [Tag.named])

/-- **The places that a start tag and its end lead through**, in the order of the file. -/
theorem exists_places_of_startTag {source : List Char} {tag : Tag} {ending : EndTag}
    (htag : tag ∈ startTags source) (hend : (blockEnd tag).1 = some ending) :
    ∃ found named stop : Cursor, (ofText source).Reaches found ∧ found.offset = tag.start ∧
      found.Reads ('<' :: tag.name.toList) named ∧
      StandBetween named tag.behind tag.attributes.reverse ∧
      tag.behind.Reaches stop ∧ stop.offset = ending.start ∧ stop.Reaches ending.behind := by
  obtain ⟨found, hfound, hbracket, hmarkup, hstart⟩ := exists_place_of_startTag htag
  obtain ⟨named, hnamed, hattributes⟩ :=
    exists_named_of_readTag? hbracket (readTag?_of_markupAt hmarkup) hstart
  obtain ⟨stop, hstop, hoffset, hbehind⟩ := blockEnd_isBehind hend
  exact ⟨found, named, stop, hfound, (start_of_markupAt hmarkup).symm, hnamed, hattributes, hstop,
    hoffset, hbehind⟩

/-! ## §4. Issues -/

/-- The issue that a tag is broken off. -/
def Tag.brokenOff (tag : Tag) : PlacedIssue :=
  ⟨.unclosedTag tag.name, Span.ofRange tag.start tag.behind.offset⟩

/-- Whether an issue is that of what begins at a bracket: a comment that is not closed, a tag that
is broken off, or a start tag whose block has no end. -/
inductive IsIssueOf (found : Cursor) : PlacedIssue → Prop where
  | comment {span : Span} {behind : Cursor} (hmarkup : markupAt found = .openComment span behind) :
    IsIssueOf found ⟨.unterminatedComment, span⟩
  | brokenOff {tag : Tag} (hmarkup : markupAt found = .tag tag) (hbroken : tag.isBroken = true) :
    IsIssueOf found tag.brokenOff
  | unclosed {tag : Tag} (hmarkup : markupAt found = .tag tag) (hend : (blockEnd tag).1 = none) :
    IsIssueOf found tag.unclosed

/-- Whether an issue is reported behind a place: it is that of what begins at a bracket there. -/
def IsReported (c : Cursor) (placed : PlacedIssue) : Prop :=
  ∃ found : Cursor, c.Reaches found ∧ (∃ rest, found.rest = '<' :: rest) ∧ IsIssueOf found placed

theorem IsReported.of_reaches {placed : PlacedIssue} (h : IsReported d placed)
    (hcd : c.Reaches d) : IsReported c placed := by
  obtain ⟨found, hfound, hspec⟩ := h
  exact ⟨found, hcd.trans hfound, hspec⟩

theorem isReported_of_find? {found : Cursor} {placed : PlacedIssue}
    (hfind : c.find? ['<'] = some found) (h : IsIssueOf found placed) : IsReported c placed :=
  ⟨found, (find?_spec hfind).1, (find?_spec hfind).2, h⟩

theorem mem_brokenTag {tag : Tag} {placed : PlacedIssue} :
    Finding.issue placed ∈ brokenTag tag ↔ tag.isBroken = true ∧ placed = tag.brokenOff := by
  unfold brokenTag
  split
  · next hbroken => simp [hbroken, Tag.brokenOff]
  · next hwhole => simp [hwhole]

/-- **A step in a template reports what it comes upon.** -/
theorem isReported_of_mem_templateStep {opened : List String} {placed : PlacedIssue}
    (h : Finding.issue placed ∈ (templateStep c opened).2) : IsReported c placed := by
  unfold templateStep at h
  split at h
  · exact absurd h List.not_mem_nil
  · next found hfind =>
    refine isReported_of_find? hfind ?_
    split at h
    · exact absurd h List.not_mem_nil
    · next hmarkup =>
      obtain rfl := Finding.issue.inj (List.mem_singleton.mp h)
      exact .comment hmarkup
    · exact absurd h List.not_mem_nil
    · next hmarkup =>
      obtain ⟨hbroken, rfl⟩ := mem_brokenTag.mp h
      exact .brokenOff hmarkup hbroken

theorem isReported_of_mem_templateEnd? {bound : Nat} {opened : List String}
    {placed : PlacedIssue} (h : Finding.issue placed ∈ (templateEnd? bound c opened).2) :
    IsReported c placed := by
  obtain ⟨d, left, hd, hfound⟩ := exists_step_of_mem_templateEnd? h
  exact (isReported_of_mem_templateStep hfound).of_reaches hd

theorem isReported_of_mem_blockEnd {tag : Tag} {placed : PlacedIssue}
    (h : Finding.issue placed ∈ (blockEnd tag).2) : IsReported tag.behind placed := by
  unfold blockEnd at h
  split at h
  · exact absurd h List.not_mem_nil
  · split at h
    · exact isReported_of_mem_templateEnd? h
    · exact absurd h List.not_mem_nil

/-- The issues of a block are those inside it, and that it has no end. -/
theorem mem_readBlock {tag : Tag} {placed : PlacedIssue}
    (h : Finding.issue placed ∈ (readBlock tag).1) :
    Finding.issue placed ∈ (blockEnd tag).2 ∨
      (blockEnd tag).1 = none ∧ placed = tag.unclosed := by
  unfold readBlock at h
  split at h
  · next ending found hend =>
    rw [hend]
    rcases List.mem_append.mp h with h | h
    · exact Or.inl h
    · exact absurd (List.mem_singleton.mp h) (by simp)
  · next found hend =>
    rw [hend]
    rcases List.mem_append.mp h with h | h
    · exact Or.inl h
    · obtain rfl := Finding.issue.inj (List.mem_singleton.mp h)
      exact Or.inr ⟨rfl, rfl⟩

/-- **A step of the scan reports what it comes upon**, and what a template holds. -/
theorem isReported_of_mem_scanStep? {behind : Cursor} {found : List Finding}
    {placed : PlacedIssue} (hstep : scanStep? c = some (found, behind))
    (h : Finding.issue placed ∈ found) : IsReported c placed := by
  unfold scanStep? at hstep
  obtain ⟨start, hfind, hstep⟩ := Option.map_eq_some_iff.mp hstep
  have hpass := markupAt_passes_of_find? hfind
  split at hstep
  · obtain ⟨rfl, rfl⟩ := Prod.mk.inj hstep
    exact absurd h List.not_mem_nil
  · next hmarkup =>
    obtain ⟨rfl, rfl⟩ := Prod.mk.inj hstep
    obtain rfl := Finding.issue.inj (List.mem_singleton.mp h)
    exact isReported_of_find? hfind (.comment hmarkup)
  · obtain ⟨rfl, rfl⟩ := Prod.mk.inj hstep
    exact absurd h List.not_mem_nil
  · next tag hmarkup =>
    rw [hmarkup] at hpass
    have hself (h : Finding.issue placed ∈ brokenTag tag) : IsReported c placed := by
      obtain ⟨hbroken, rfl⟩ := mem_brokenTag.mp h
      exact isReported_of_find? hfind (.brokenOff hmarkup hbroken)
    split at hstep
    · obtain ⟨rfl, rfl⟩ := Prod.mk.inj hstep
      exact hself h
    · obtain ⟨rfl, rfl⟩ := Prod.mk.inj hstep
      rcases List.mem_append.mp h with h | h
      · exact hself h
      · rcases mem_readBlock h with h | ⟨hend, rfl⟩
        · exact (isReported_of_mem_blockEnd h).of_reaches hpass.reaches
        · exact isReported_of_find? hfind (.unclosed hmarkup hend)

/-- **A scan reports what it comes upon.** -/
theorem isReported_of_mem_findingsFrom {bound : Nat} {placed : PlacedIssue}
    (h : Finding.issue placed ∈ findingsFrom bound c) : IsReported c placed := by
  obtain ⟨d, found, behind, hd, hstep, hfound⟩ := exists_step_of_mem_findingsFrom h
  exact (isReported_of_mem_scanStep? hstep hfound).of_reaches hd

/-- A comment that is not closed goes to the end of its text. -/
theorem span_of_openComment {span : Span} {behind : Cursor}
    (h : markupAt c = .openComment span behind) :
    span = Span.ofRange c.offset behind.offset := by
  unfold markupAt at h
  split at h
  · split at h
    · exact absurd h (by simp)
    · obtain ⟨rfl, rfl⟩ := Opening.openComment.inj h
      rfl
  · split at h
    · exact absurd h (by simp)
    · split at h <;> exact absurd h (by simp)

/-- The issue of what begins at a bracket goes from there to a place farther on. -/
theorem IsIssueOf.exists_stop {found : Cursor} {placed : PlacedIssue} (h : IsIssueOf found placed)
    (hbracket : ∃ rest, found.rest = '<' :: rest) :
    ∃ stop, found.Passes stop ∧ placed.span = Span.ofRange found.offset stop.offset := by
  obtain ⟨rest, hrest⟩ := hbracket
  have hpass : found.Passes ((markupAt found).behind found) :=
    markupAt_passes (by rw [hrest]; exact List.cons_ne_nil _ _)
  refine ⟨_, hpass, ?_⟩
  cases h with
  | comment hmarkup =>
    rw [hmarkup]
    exact span_of_openComment hmarkup
  | brokenOff hmarkup _ =>
    rw [hmarkup, ← start_of_markupAt hmarkup]
    rfl
  | unclosed hmarkup _ =>
    rw [hmarkup, ← start_of_markupAt hmarkup]
    rfl

/-! ## §5. Components -/

variable {padding : Padding} {source : List Char} {tag : Tag}

/-- What is reported in a file that is short enough begins with a bracket. -/
theorem IsReported.text?_eq {placed : PlacedIssue} (h : IsReported (ofText source) placed)
    (hsize : byteLength source < 2 ^ 32) :
    ∃ text, placed.span.text? source = some ('<' :: text) := by
  obtain ⟨found, hfound, ⟨rest, hrest⟩, hissue⟩ := h
  obtain ⟨stop, ⟨hstop, hlength⟩, hspan⟩ := hissue.exists_stop ⟨rest, hrest⟩
  have hlast := (hfound.trans hstop).offset_le_byteLength
  rw [hspan, Span.ofRange_of_le hstop.offset_le (by unfold Span.maxOffset; omega)]
  obtain ⟨passed, hpassed⟩ := hstop
  -- What is passed is not empty, so it begins as the rest of the file does.
  cases passed with
  | nil =>
    rw [hpassed.1] at hlength
    exact absurd hlength (Nat.lt_irrefl _)
  | cons ch later =>
    obtain ⟨rfl, -⟩ := List.cons.inj (hrest.symm.trans hpassed.1)
    exact ⟨later, Reads.slice?_eq hpassed hfound⟩

/-- A start tag with an end has a block among the findings. -/
theorem blockTo_mem_findings {ending : EndTag} (htag : tag ∈ startTags source)
    (hend : (blockEnd tag).1 = some ending) :
    Finding.block (tag.blockTo ending) ∈ findings source := by
  have houtcome : outcomeOf tag = .block (tag.blockTo ending) := by rw [outcomeOf, hend]
  rw [← houtcome]
  exact outcomeOf_mem_findingsFrom htag

/-- Whether the spans of a block are sound: its parts stand in order in the file, at whole
characters; the start tag begins with a bracket and its name, and the attributes stand one behind
another between the name and the content; and the content is what the file has there, behind its
padding. -/
structure Block.IsSound (padding : Padding) (source : List Char) (b : Block) : Prop where
  ordered : b.span.start ≤ b.contentSpan.start ∧ b.contentSpan.start ≤ b.contentSpan.stop ∧
    b.contentSpan.stop ≤ b.span.stop ∧ b.span.stop ≤ byteLength source
  places : ∀ offset ∈ [b.span.start, b.contentSpan.start, b.contentSpan.stop, b.span.stop],
    (splitAt? source offset).isSome = true
  opened : ∃ later, b.span.text? source = some ('<' :: b.tag.toList ++ later)
  content : ∃ before text, (⟨0, b.contentSpan.start⟩ : Span).text? source = some before ∧
    b.contentSpan.text? source = some text ∧
    b.content = padding.text b.tag b.lang? before ++ text
  attributes : ∀ a ∈ b.attributes,
    a.StandsIn source (b.span.start + byteLength ('<' :: b.tag.toList)) b.contentSpan.start
  attributesOrdered : b.attributes.Pairwise fun a b => a.span.stop ≤ b.span.start

/-- The spans of a block are the ranges between its tags, if its offsets are small enough. -/
theorem spans_padded (padding : Padding) (source : List Char) {ending : EndTag}
    (hstart : tag.start ≤ tag.behind.offset) (hcontent : tag.behind.offset ≤ ending.start)
    (hbehind : ending.start ≤ ending.behind.offset)
    (hmax : ending.behind.offset ≤ Span.maxOffset) :
    ((tag.blockTo ending).padded source padding).span = ⟨tag.start, ending.behind.offset⟩ ∧
      ((tag.blockTo ending).padded source padding).contentSpan
        = ⟨tag.behind.offset, ending.start⟩ :=
  ⟨Span.ofRange_of_le (Nat.le_trans hstart (Nat.le_trans hcontent hbehind)) hmax,
    Span.ofRange_of_le hcontent (Nat.le_trans hbehind hmax)⟩

/-- The content of a block is what stands between its tags, behind its padding. -/
theorem exists_content_of_startTag {ending : EndTag} (htag : tag ∈ startTags source)
    (hend : (blockEnd tag).1 = some ending) (padding : Padding) :
    ∃ before text, slice? source 0 tag.behind.offset = some before ∧
      slice? source tag.behind.offset ending.start = some text ∧
      ((tag.blockTo ending).padded source padding).content = padding.text tag.name
        ((tag.blockTo ending).padded source padding).lang? before ++ text := by
  obtain ⟨before, text, after, hsource, hbefore, htext, hpadded⟩ :=
    exists_parts_of_block (blockTo_mem_findings htag hend)
  have hbefore : tag.behind.offset = byteLength before := hbefore
  have htext : ending.start = byteLength before + byteLength text := htext
  refine ⟨before, text, ?_, ?_, hpadded padding⟩
  · rw [hbefore, hsource]
    simpa using slice?_append [] before (text ++ after)
  · rw [hbefore, htext, hsource, ← List.append_assoc]
    exact slice?_append before text after

/-- **The block of a start tag has sound spans.** -/
theorem isSound_of_startTag (hsize : byteLength source < 2 ^ 32) {b : Block}
    (htag : tag ∈ startTags source) (hblock : tag.block? padding source = some b) :
    b.IsSound padding source := by
  obtain ⟨ending, hend, rfl⟩ := Tag.block?_eq_some_iff.mp hblock
  obtain ⟨found, named, stop, hfound, hstart, hname, hattributes, hcontent, hstop, hbehind⟩ :=
    exists_places_of_startTag htag hend
  have hsourceNamed : (ofText source).Reaches named := hfound.trans hname.reaches
  have hsourceContent := hsourceNamed.trans hattributes.reaches
  have hsourceStop := hsourceContent.trans hcontent
  have hsourceBehind := hsourceStop.trans hbehind
  -- The offsets stand in order, and the last one is small enough for a span.
  have hopening := (hname.reaches.trans hattributes.reaches).offset_le
  have hlast := hsourceBehind.offset_le_byteLength
  rw [hstart] at hopening
  obtain ⟨hspan, hcontentSpan⟩ := spans_padded padding source hopening
    (hstop ▸ hcontent.offset_le) (hstop ▸ hbehind.offset_le) (by unfold Span.maxOffset; omega)
  have hafterName : named.offset = tag.start + byteLength ('<' :: tag.name.toList) := by
    rw [hname.2, hstart]
  refine ⟨?_, ?_, ?_, ?_, fun a ha => ?_, List.pairwise_reverse.mp hattributes.pairwise.1⟩
  · rw [hspan, hcontentSpan]
    exact ⟨hopening, hstop ▸ hcontent.offset_le, hstop ▸ hbehind.offset_le, hlast⟩
  · rw [hspan, hcontentSpan, ← hstart, ← hstop]
    simp only [List.forall_mem_cons]
    exact ⟨hfound.splitAt?_isSome, hsourceContent.splitAt?_isSome, hsourceStop.splitAt?_isSome,
      hsourceBehind.splitAt?_isSome, List.forall_mem_nil _⟩
  · rw [hspan, ← hstart]
    exact hname.slice?_of_reaches (hattributes.reaches.trans (hcontent.trans hbehind)) hfound
  · rw [hcontentSpan]
    exact exists_content_of_startTag htag hend padding
  · rw [hspan, hcontentSpan]
    show a.StandsIn source (tag.start + byteLength ('<' :: tag.name.toList)) tag.behind.offset
    rw [← hafterName]
    exact hattributes.standsIn hsourceNamed a (List.mem_reverse.mpr ha)

/-- **The spans of a component are sound**, those of its blocks and of its issues. -/
theorem extract_isSound (padding : Padding) (source : List Char)
    (hsize : byteLength source < 2 ^ 32) :
    (∀ b ∈ (extract padding source).descriptor.blocks, b.IsSound padding source) ∧
      ∀ placed ∈ (extract padding source).issues,
        ∃ text, placed.span.text? source = some ('<' :: text) := by
  refine ⟨fun b hb => ?_, fun placed hplaced => ?_⟩
  · obtain ⟨tag, htag, hblock⟩ := exists_startTag_of_mem_blocks hb
    exact isSound_of_startTag hsize htag hblock
  · rcases mem_issues_foldl hplaced with h | h | ⟨b, hb, rfl⟩
    · exact absurd h List.not_mem_nil
    · exact (isReported_of_mem_findingsFrom h).text?_eq hsize
    · -- A block that came too late begins as every block does.
      rw [filterMap_block?_findings] at hb
      obtain ⟨tag, htag, hblock⟩ := List.mem_filterMap.mp hb
      obtain ⟨later, hopened⟩ := (isSound_of_startTag hsize htag hblock).opened
      exact ⟨_, hopened⟩

/-- A script behind a character of two bytes, and a second one that is broken off. -/
def brokenFile : List Char := "é<script a=\"ü\" b>x</script><script></script><style".toList

theorem extract_isSound_brokenFile :
    byteLength brokenFile < 2 ^ 32 ∧
      (∀ b ∈ (extract .spaces brokenFile).descriptor.blocks, b.IsSound .spaces brokenFile) ∧
      (∀ placed ∈ (extract .spaces brokenFile).issues,
        ∃ text, placed.span.text? brokenFile = some ('<' :: text)) ∧
      (extract .spaces brokenFile).descriptor.blocks.map Block.contentSpan = [⟨19, 20⟩] ∧
      (extract .spaces brokenFile).issues.map PlacedIssue.span
        = [⟨29, 46⟩, ⟨46, 52⟩, ⟨46, 52⟩] := by
  have hsize : byteLength brokenFile < 2 ^ 32 := by decide
  obtain ⟨hblocks, hissues⟩ := extract_isSound .spaces brokenFile hsize
  exact ⟨hsize, hblocks, hissues, by decide, by decide⟩

end SingleFile.Markup
