/-
  SingleFile.Proofs.Markup.BrokenTags — TAGS THAT ARE BROKEN OFF
  ──────────────────────────────────────────────────────────────
  A start tag that runs into another tag, or into the end of the file, is
  reported, but it is a start tag nevertheless: what stands behind it is read
  as the content of its block.  So the block of such a tag is left out only if
  it would be left out with a whole tag, too: if it has no end, or if it is a
  second template or script.

  Main results:
    * `rest_of_isBroken` — what stands behind a tag that is broken off.
    * `findRawTextEnd_isSome` — whether a raw text ends.
    * `head?_blocksNamed_eq_some_iff` — the first block of a name.
    * `brokenOff_mem_issues_iff` — what is reported about a start tag.
    * `blocks_skip_brokenOff_iff` — when the block of such a tag is left out.
-/
import SingleFile.Proofs.Markup.Spans
import SingleFile.Proofs.Ordered

namespace SingleFile.Text.Cursor

/-- Two places that are reached from one place are the same if their offsets are. -/
theorem Reaches.eq_of_offset_eq {c d e : Cursor} (hd : c.Reaches d) (he : c.Reaches e)
    (h : d.offset = e.offset) : d = e := by
  obtain ⟨front, hfront, hdoffset⟩ := hd
  obtain ⟨front', hfront', heoffset⟩ := he
  have hlength : byteLength front = byteLength front' := by omega
  have hcut := splitAt?_byteLength front d.rest
  rw [← hfront, hfront', hlength, splitAt?_byteLength] at hcut
  obtain ⟨-, hrest⟩ := Prod.mk.inj (Option.some.inj hcut)
  obtain ⟨doffset, drest⟩ := d
  obtain ⟨eoffset, erest⟩ := e
  obtain rfl : doffset = eoffset := h
  obtain rfl : erest = drest := hrest
  rfl

end SingleFile.Text.Cursor

namespace SingleFile.Markup

open SingleFile.Text Cursor

variable {c : Cursor} {tag : Tag} {padding : Padding} {source : List Char} {name : String}

/-! ## §1. Broken tags -/

/-- Whether a tag is broken off in front of a text: there is none, or it begins with a bracket. -/
def BreaksOff (text : List Char) : Prop := text = [] ∨ ∃ rest, text = '<' :: rest

/-- The tokens that break off a tag are the end of the text and those that begin with a bracket. -/
theorem breaksOff_of_tokenAt {text : List Char}
    (h : (tokenAt text).1 = .tagOpen ∨ (tokenAt text).1 = .closeTagOpen ∨
      (tokenAt text).1 = .endOfText) : BreaksOff text := by
  have hquoted (quote : Char) (kind : TokenKind) (rest : List Char) :
      (tokenAt.quotedAt quote kind rest).1 = kind ∨
        (tokenAt.quotedAt quote kind rest).1 = .error := by
    unfold tokenAt.quotedAt
    dsimp only
    split
    · exact Or.inl rfl
    · exact Or.inr rfl
  unfold tokenAt at h
  split at h
  · exact Or.inl rfl
  · exact Or.inr ⟨_, rfl⟩
  · exact Or.inr ⟨_, rfl⟩
  · exact Or.inr ⟨_, rfl⟩
  · exact Or.inr ⟨_, rfl⟩
  -- No other token breaks off a tag.
  · simp at h
  · simp at h
  · simp at h
  · simp at h
  · next rest => rcases hquoted '"' .doubleQuoted rest with hkind | hkind <;> simp [hkind] at h
  · next rest => rcases hquoted '\'' .singleQuoted rest with hkind | hkind <;> simp [hkind] at h
  · split at h <;> simp at h

theorem readAttributes_isBroken (bound : Nat) (tag : Tag) {s : TagState}
    (hwhole : tag.isBroken = false) (hopen : tag.isSelfClosing = false)
    (h : (readAttributes tag bound s).isBroken = true) :
    (readAttributes tag bound s).isSelfClosing = false ∧
      BreaksOff (readAttributes tag bound s).behind.rest := by
  induction bound generalizing tag s with
  | zero => exact absurd h (by simp [readAttributes, hwhole])
  | succ bound ih =>
    unfold readAttributes at h ⊢
    dsimp only at h ⊢
    split at h
    · exact absurd h (by simp [hwhole])
    · exact absurd h (by simp [hwhole])
    · next hkind => exact ⟨hopen, breaksOff_of_tokenAt (Or.inl hkind)⟩
    · next hkind => exact ⟨hopen, breaksOff_of_tokenAt (Or.inr (Or.inl hkind))⟩
    · next hkind => exact ⟨hopen, breaksOff_of_tokenAt (Or.inr (Or.inr hkind))⟩
    · exact ih { tag with behind := _ } hwhole hopen h

/-- **What stands behind a tag that is broken off**: another tag, or nothing.  Such a tag does not
close itself. -/
theorem rest_of_isBroken (hmarkup : markupAt c = .tag tag) (hbroken : tag.isBroken = true) :
    tag.isSelfClosing = false ∧ BreaksOff tag.behind.rest := by
  rcases readTag?_eq_some (readTag?_of_markupAt hmarkup) with ⟨-, rfl⟩ | ⟨-, rfl⟩
  · exact readAttributes_isBroken _ _ rfl rfl hbroken
  · exact readAttributes_isBroken _ _ rfl rfl hbroken

/-! ## §2. Whether a block ends -/

/-- Whether a raw text ends where a text begins: with a bracket, a slash, and its name in any case,
which is over there. -/
def closesRawText (name : List Char) : List Char → Bool
  | '<' :: '/' :: text =>
    (text.take name.length).map Char.toLower == name.map Char.toLower &&
      (text.drop name.length).head?.all fun c => c == '>' || c == '/' || isAsciiBlank c
  | _ => false

/-- Whether a raw text ends somewhere in a text. -/
def endsRawText (name : List Char) : List Char → Bool
  | [] => false
  | c :: cs => closesRawText name (c :: cs) || endsRawText name cs

theorem endsName_eq (c : Cursor) :
    endsName c = c.rest.head?.all fun c => c == '>' || c == '/' || isAsciiBlank c := by
  obtain ⟨offset, text⟩ := c
  cases text <;> rfl

/-- A name that is over is read where a raw text ends. -/
theorem afterName?_filter_isSome (offset : Nat) (name text : List Char) :
    ((afterName? name ⟨offset, text⟩).filter endsName).isSome
      = closesRawText name ('<' :: '/' :: text) := by
  rw [closesRawText, Bool.eq_iff_iff, Option.isSome_iff_exists, Bool.and_eq_true, beq_iff_eq]
  constructor
  · rintro ⟨behind, hbehind⟩
    obtain ⟨hname, hends⟩ := Option.filter_eq_some_iff.mp hbehind
    obtain ⟨htake, rfl⟩ := afterName?_eq_some.mp hname
    rw [endsName_eq, rest_skip] at hends
    exact ⟨htake, hends⟩
  · rintro ⟨htake, hends⟩
    refine ⟨_, Option.filter_eq_some_iff.mpr ⟨afterName?_eq_some.mpr ⟨htake, rfl⟩, ?_⟩⟩
    rw [endsName_eq, rest_skip]
    exact hends

/-- A raw text that does not end where a text begins may end farther on. -/
theorem findRawTextEnd_isSome_cons (name : String) (offset : Nat) (ch : Char) (cs : List Char) :
    (findRawTextEnd name ⟨offset, ch :: cs⟩).isSome = (closesRawText name.toList (ch :: cs) ||
      (findRawTextEnd name ⟨offset + ch.utf8Size, cs⟩).isSome) := by
  cases hstarts : startsWith (ch :: cs) ['<', '/'] with
  | false =>
    have hcloses : closesRawText name.toList (ch :: cs) = false := by
      unfold closesRawText
      split
      · next heq =>
        rw [heq] at hstarts
        exact absurd hstarts (by simp [startsWith, afterPrefix?])
      · rfl
    rw [findRawTextEnd_cons hstarts, hcloses, Bool.false_or]
  | true =>
    obtain ⟨text, htext⟩ := startsWith_iff.mp hstarts
    obtain ⟨rfl, rfl⟩ : ch = '<' ∧ cs = '/' :: text := by simpa using htext
    have hsize : ('<' : Char).utf8Size = 1 := rfl
    rw [← afterName?_filter_isSome (offset + 2), hsize]
    cases hname : (afterName? name.toList ⟨offset + 2, text⟩).filter endsName with
    | none =>
      rw [findRawTextEnd_slash, Option.isSome_none, Bool.false_or]
      exact fun behind hbehind => by simpa using Option.filter_eq_none_iff.mp hname behind hbehind
    | some behind =>
      have hfind : (⟨offset, '<' :: '/' :: text⟩ : Cursor).find? ['<', '/']
          = some ⟨offset, '<' :: '/' :: text⟩ := find?_self
      have hskip : (⟨offset, '<' :: '/' :: text⟩ : Cursor).skip 2 = ⟨offset + 2, text⟩ := rfl
      rw [findRawTextEnd_eq, hfind]
      dsimp only
      rw [hskip, hname]
      rfl

/-- **Whether a raw text ends**: somewhere behind it, there is its end tag. -/
theorem findRawTextEnd_isSome (name : String) (offset : Nat) (text : List Char) :
    (findRawTextEnd name ⟨offset, text⟩).isSome = endsRawText name.toList text := by
  induction text generalizing offset with
  | nil => rfl
  | cons ch cs ih => rw [findRawTextEnd_isSome_cons, ih, endsRawText]

/-- Whether the block of a start tag ends: a template at the end tag that is left when all elements
in it are closed, anything else at the next end tag of its name. -/
def Tag.isEnded (tag : Tag) : Bool :=
  if sameName tag.name "template" then (templateEndAt tag.behind []).1.isSome
  else endsRawText tag.name.toList tag.behind.rest

theorem isSome_blockEnd (h : tag.isSelfClosing = false) :
    (blockEnd tag).1.isSome = tag.isEnded := by
  rw [blockEnd, Tag.isEnded, h, if_neg Bool.false_ne_true]
  split
  · rfl
  · exact findRawTextEnd_isSome ..

/-! ## §3. First blocks -/

/-- Whether a start tag has a block of a name. -/
def Tag.hasBlock (name : String) (tag : Tag) : Bool :=
  (blockEnd tag).1.isSome && sameName tag.name name

theorem any_block? (name : String) (tag : Tag) :
    (tag.block? padding source).any (fun b => sameName b.tag name) = tag.hasBlock name := by
  unfold Tag.block? outcomeOf Tag.hasBlock
  cases (blockEnd tag).1 <;> rfl

/-- **The first block of a name** is that of a start tag with no such block in front. -/
theorem head?_blocksNamed_eq_some_iff {b : Block} :
    (blocksNamed name ((startTags source).filterMap (Tag.block? padding source))).head? = some b ↔
      ∃ tag ∈ startTags source, tag.block? padding source = some b ∧ tag.hasBlock name = true ∧
        ∀ earlier ∈ startTags source, earlier.start < tag.start →
          earlier.hasBlock name = false := by
  have htest : (fun tag : Tag => (tag.block? padding source).any fun b => sameName b.tag name)
      = Tag.hasBlock name := funext fun tag => any_block? name tag
  rw [blocksNamed, List.head?_filter, List.find?_filterMap, htest, Option.bind_eq_some_iff]
  simp only [find?_eq_some_iff_of_ordered Tag.start (startTags_ordered source), and_assoc]
  constructor
  · rintro ⟨tag, htag, hblock, hfirst, hb⟩
    exact ⟨tag, htag, hb, hblock, hfirst⟩
  · rintro ⟨tag, htag, hb, hblock, hfirst⟩
    exact ⟨tag, htag, hblock, hfirst, hb⟩

/-- Whether a start tag is a template or a script behind a block of the same name. -/
def Tag.IsRepeated (source : List Char) (tag : Tag) : Prop :=
  ∃ name ∈ ["template", "script"], sameName tag.name name = true ∧
    ∃ earlier ∈ startTags source, earlier.start < tag.start ∧ earlier.hasBlock name = true

instance (source : List Char) (tag : Tag) : Decidable (tag.IsRepeated source) :=
  inferInstanceAs (Decidable (∃ name ∈ ["template", "script"], sameName tag.name name = true ∧
    ∃ earlier ∈ startTags source, earlier.start < tag.start ∧ earlier.hasBlock name = true))

/-! ## §4. What is reported -/

/-- What begins where a start tag begins is that tag. -/
theorem eq_of_start_eq {found : Cursor} {other : Tag} (htag : tag ∈ startTags source)
    (hfound : (ofText source).Reaches found) (hmarkup : markupAt found = .tag other)
    (h : other.start = tag.start) : other = tag := by
  obtain ⟨place, hplace, -, hplaceMarkup, -⟩ := exists_place_of_startTag htag
  have hother := start_of_markupAt hmarkup
  have htagStart := start_of_markupAt hplaceMarkup
  obtain rfl := hfound.eq_of_offset_eq hplace (by omega)
  exact Opening.tag.inj (hmarkup.symm.trans hplaceMarkup)

/-- An offset in front of the largest one stays what it is in a span. -/
theorem start_ofRange_eq {start stop offset : Nat} (h : offset < Span.maxOffset)
    (heq : (Span.ofRange start stop).start = offset) : start = offset := by
  have hmin : min start Span.maxOffset = offset := heq
  omega

/-- **What is reported about a start tag**: that it is broken off, exactly if it is. -/
theorem brokenOff_mem_issues_iff (htag : tag ∈ startTags source)
    (hstart : tag.start < Span.maxOffset) :
    tag.brokenOff ∈ (extract padding source).issues ↔ tag.isBroken = true := by
  have hspan : tag.brokenOff.span.start = tag.start := Nat.min_eq_left (Nat.le_of_lt hstart)
  constructor
  · intro h
    generalize hplaced : tag.brokenOff = placed at h hspan
    rcases mem_issues_foldl h with h | h | ⟨b, -, rfl⟩
    · exact absurd h List.not_mem_nil
    · obtain ⟨found, hfound, -, hissue⟩ := isReported_of_mem_findingsFrom h
      cases hissue with
      | comment hmarkup => exact absurd hplaced (by simp [Tag.brokenOff])
      | unclosed hmarkup hend => exact absurd hplaced (by simp [Tag.brokenOff, Tag.unclosed])
      | brokenOff hmarkup hbroken =>
        obtain rfl := eq_of_start_eq htag hfound hmarkup (start_ofRange_eq hstart hspan)
        exact hbroken
    · exact absurd hplaced (by simp [Tag.brokenOff])
  · intro hbroken
    refine mem_issues_of_mem (brokenTag_subset_findingsFrom htag ?_)
    exact mem_brokenTag.mpr ⟨hbroken, rfl⟩

/-! ## §5. What is left out -/

/-- A template or script of a descriptor is the first block of its name. -/
theorem head?_of_mem_blocks {blocks : List Block} {b : Block}
    (h : b ∈ (Descriptor.ofBlocks blocks).blocks) (hname : name ∈ ["template", "script"])
    (hsame : sameName b.tag name = true) : (blocksNamed name blocks).head? = some b := by
  have hother {other : String} (hb : b ∈ blocksNamed other blocks)
      (hne : lowerCase name ≠ lowerCase other) : (blocksNamed name blocks).head? = some b := by
    have hnamed := (List.mem_filter.mp hb).2
    rw [sameName_of_ne hsame hne] at hnamed
    exact absurd hnamed Bool.false_ne_true
  have hnames : name = "template" ∨ name = "script" := by simpa using hname
  rcases mem_blocks_ofBlocks.mp h with h | h | h | ⟨-, hcustom⟩
  · rcases hnames with rfl | rfl
    · exact h
    · exact hother (List.mem_of_mem_head? h) (by decide)
  · rcases hnames with rfl | rfl
    · exact hother (List.mem_of_mem_head? h) (by decide)
    · exact h
  · rcases hnames with rfl | rfl <;> exact hother h (by decide)
  · have hplaced : placedNames.any (sameName b.tag) = true := by
      refine List.any_eq_true.mpr ⟨name, ?_, hsame⟩
      rcases hnames with rfl | rfl <;> decide
    exact absurd hcustom (by simp [Block.isCustom, hplaced])

/-- The block of a start tag begins where the tag does, and has its name. -/
theorem start_of_block? {b : Block} (hblock : tag.block? padding source = some b) :
    (blockEnd tag).1.isSome = true ∧ b.tag = tag.name ∧
      b.span.start = min tag.start Span.maxOffset := by
  obtain ⟨ending, hend, rfl⟩ := Tag.block?_eq_some_iff.mp hblock
  exact ⟨by rw [hend]; rfl, rfl, rfl⟩

/-- A block that begins where a start tag does is the block of that tag only. -/
theorem eq_of_block_start {b : Block} (htag : tag ∈ startTags source)
    (hstart : tag.start < Span.maxOffset) {other : Tag} (hother : other ∈ startTags source)
    (hblock : other.block? padding source = some b) (h : b.span.start = tag.start) :
    other = tag := by
  obtain ⟨found, hfound, -, hmarkup, -⟩ := exists_place_of_startTag hother
  have hmin := (start_of_block? hblock).2.2
  exact eq_of_start_eq htag hfound hmarkup (by omega)

/-- **The block of a start tag is one of the descriptor**, unless it is a second template or
script. -/
theorem mem_blocks_iff {b : Block} (htag : tag ∈ startTags source)
    (hstart : tag.start < Span.maxOffset) (hblock : tag.block? padding source = some b) :
    b ∈ (extract padding source).descriptor.blocks ↔ ¬tag.IsRepeated source := by
  obtain ⟨hend, hbtag, hbstart⟩ := start_of_block? hblock
  have hmem : b ∈ (startTags source).filterMap (Tag.block? padding source) :=
    List.mem_filterMap.mpr ⟨tag, htag, hblock⟩
  rw [descriptor_extract]
  constructor
  · rintro hb ⟨name, hname, hsame, earlier, hearlier, hlt, hhas⟩
    obtain ⟨first, hfirst, hfirstBlock, -, hnone⟩ :=
      head?_blocksNamed_eq_some_iff.mp (head?_of_mem_blocks hb hname (hbtag ▸ hsame))
    obtain rfl := eq_of_block_start htag hstart hfirst hfirstBlock (by omega)
    rw [hnone earlier hearlier hlt] at hhas
    exact absurd hhas Bool.false_ne_true
  · intro hfirst
    -- A template or script has no block of its name in front.
    have hhead (name : String) (hname : name ∈ ["template", "script"])
        (hsame : sameName b.tag name = true) :
        (blocksNamed name ((startTags source).filterMap (Tag.block? padding source))).head?
          = some b := by
      have hnamed : sameName tag.name name = true := hbtag ▸ hsame
      refine head?_blocksNamed_eq_some_iff.mpr ⟨tag, htag, hblock, ?_, fun earlier hmem hlt => ?_⟩
      · rw [Tag.hasBlock, hend, hnamed, Bool.and_self]
      · exact Bool.eq_false_iff.mpr fun hhas =>
          hfirst ⟨name, hname, hnamed, earlier, hmem, hlt, hhas⟩
    refine mem_blocks_ofBlocks.mpr ?_
    by_cases htemplate : sameName b.tag "template" = true
    · exact Or.inl (hhead "template" (by decide) htemplate)
    by_cases hscript : sameName b.tag "script" = true
    · exact Or.inr (Or.inl (hhead "script" (by decide) hscript))
    by_cases hstyle : sameName b.tag "style" = true
    · exact Or.inr (Or.inr (Or.inl (List.mem_filter.mpr ⟨hmem, hstyle⟩)))
    · refine Or.inr (Or.inr (Or.inr ⟨hmem, ?_⟩))
      simp [Block.isCustom, placedNames, htemplate, hscript, hstyle]

/-- **When the block of a tag that is broken off is left out**: if it has no end, or if it is a
second template or script.  Otherwise what stands behind the tag, which is another tag or nothing,
begins the content of its block. -/
theorem blocks_skip_brokenOff_iff (padding : Padding) (htag : tag ∈ startTags source)
    (hstart : tag.start < Span.maxOffset)
    (hreported : tag.brokenOff ∈ (extract padding source).issues) :
    BreaksOff tag.behind.rest ∧
      ((∀ b ∈ (extract padding source).descriptor.blocks, b.span.start ≠ tag.start) ↔
        tag.isEnded = false ∨ tag.IsRepeated source) := by
  have hbroken := (brokenOff_mem_issues_iff htag hstart).mp hreported
  obtain ⟨found, hfound, -, hmarkup, -⟩ := exists_place_of_startTag htag
  obtain ⟨hopen, hrest⟩ := rest_of_isBroken hmarkup hbroken
  refine ⟨hrest, fun hskipped => ?_, fun hcases b hb hbstart => ?_⟩
  · by_contra hkept
    rw [not_or, Bool.not_eq_false, ← isSome_blockEnd hopen, Option.isSome_iff_exists] at hkept
    obtain ⟨⟨ending, hend⟩, hfirst⟩ := hkept
    have hblock : tag.block? padding source
        = some ((tag.blockTo ending).padded source padding) :=
      Tag.block?_eq_some_iff.mpr ⟨ending, hend, rfl⟩
    refine hskipped _ ((mem_blocks_iff htag hstart hblock).mpr hfirst) ?_
    rw [(start_of_block? hblock).2.2]
    exact Nat.min_eq_left (Nat.le_of_lt hstart)
  · obtain ⟨other, hother, hblock⟩ := exists_startTag_of_mem_blocks hb
    obtain rfl := eq_of_block_start htag hstart hother hblock hbstart
    rcases hcases with hnone | hrepeated
    · rw [← isSome_blockEnd hopen, (start_of_block? hblock).1] at hnone
      exact absurd hnone (by decide)
    · exact (mem_blocks_iff htag hstart hblock).mp hb hrepeated

/-- A script that is broken off in front of its end, and a block that is broken off without one. -/
def unfinishedFile : List Char := "<script </script><p <b".toList

/-- The second one of these tags. -/
def unfinishedTag : Tag := ⟨"p", 17, false, false, true, [], ⟨20, ['<', 'b']⟩⟩

theorem blocks_skip_brokenOff_unfinishedFile :
    unfinishedTag ∈ startTags unfinishedFile ∧ unfinishedTag.start < Span.maxOffset ∧
      unfinishedTag.brokenOff ∈ (extract .none unfinishedFile).issues ∧
      ∀ b ∈ (extract .none unfinishedFile).descriptor.blocks,
        b.span.start ≠ unfinishedTag.start := by
  have htag : unfinishedTag ∈ startTags unfinishedFile := by decide
  have hstart : unfinishedTag.start < Span.maxOffset := by decide
  have hreported : unfinishedTag.brokenOff ∈ (extract .none unfinishedFile).issues := by decide
  exact ⟨htag, hstart, hreported,
    (blocks_skip_brokenOff_iff .none htag hstart hreported).2.mpr (Or.inl (by decide))⟩

/-- A script that runs into its own end tag. -/
def brokenScript : List Char := "<script </script>".toList

/-- That script is reported, and yet it is the script of its component. -/
theorem brokenScript_kept :
    ∃ tag ∈ startTags brokenScript, tag.brokenOff ∈ (extract .none brokenScript).issues ∧
      ∃ b ∈ (extract .none brokenScript).descriptor.blocks, b.span.start = tag.start := by
  decide

end SingleFile.Markup
