/-
  SingleFile.Proofs.Markup.Accounting — EVERY BLOCK IS ACCOUNTED FOR
  ──────────────────────────────────────────────────────────────────
  Each start tag outside of blocks comes to exactly one thing: a block that
  the descriptor keeps, a duplicate of the template or the script, or a block
  without its end.  The descriptor and the issues hold these shares and no
  others, in the order of the file.

  Main results:
    * `findingsFrom_outcomes` — besides asides, a scan finds what its start
      tags come to.
    * `startTagsFrom_apart` — the blocks of start tags do not overlap, and
      only the last one may lack its end.
    * `foldl_add_madeOf` — an extraction is made of the shares of its start
      tags.  The run; `MadeOf.addBlock` is the step.
    * `extract_accounts` — the account of a component.
-/
import Mathlib.Algebra.Ring.Nat
import Mathlib.Data.List.Forall2
import SingleFile.Proofs.Markup.WrittenDocument

namespace SingleFile.Text.Cursor

open SingleFile.Text

variable {c d : Cursor}

/-! ## §1. Offsets -/

theorem Reaches.offset_le (h : c.Reaches d) : c.offset ≤ d.offset := by
  obtain ⟨passed, -, hoffset⟩ := h
  rw [hoffset]
  exact Nat.le_add_right ..

/-- However far a place is, its text ends where it ended before. -/
theorem Reaches.stop_eq (h : c.Reaches d) :
    d.offset + byteLength d.rest = c.offset + byteLength c.rest := by
  obtain ⟨passed, hrest, hoffset⟩ := h
  rw [hoffset, hrest, byteLength_append, Nat.add_assoc]

theorem Passes.offset_lt (h : c.Passes d) : c.offset < d.offset := by
  obtain ⟨⟨passed, hrest, hoffset⟩, hlength⟩ := h
  cases passed with
  | nil =>
    rw [hrest] at hlength
    exact absurd hlength (Nat.lt_irrefl _)
  | cons ch passed =>
    have hsize := ch.utf8Size_pos
    rw [hoffset, byteLength_cons]
    omega

end SingleFile.Text.Cursor

namespace SingleFile.Markup

open SingleFile.Text Cursor

/-! ## §2. Start tags outside of blocks -/

/-- The start tags that a scan reads a block at, from a place on. -/
def startTagsFrom : Nat → Cursor → List Tag
  | 0, _ => []
  | bound + 1, c =>
    match c.find? ['<'] with
    | none => []
    | some found =>
      match markupAt found with
      | .skipped behind => startTagsFrom bound behind
      | .openComment _ behind => startTagsFrom bound behind
      | .text => startTagsFrom bound found.next
      | .tag tag =>
        if tag.isEnd then startTagsFrom bound tag.behind
        else tag :: startTagsFrom bound (readBlock tag).2

/-- The start tags of a component outside of its blocks. -/
def startTags (source : List Char) : List Tag :=
  startTagsFrom (source.length + 1) (Cursor.ofText source)

/-- The block of a start tag up to an end tag. -/
def Tag.blockTo (tag : Tag) (ending : EndTag) : RawBlock :=
  ⟨tag.name, tag.attributes, tag.start, tag.behind, ending.start, ending.behind.offset⟩

/-- The issue that the block of a start tag has no end. -/
def Tag.unclosed (tag : Tag) : PlacedIssue :=
  ⟨.unclosedBlock tag.name, Span.ofRange tag.start tag.behind.offset⟩

/-- What a start tag comes to. -/
def outcomeOf (tag : Tag) : Finding :=
  match (blockEnd tag).1 with
  | some ending => .block (tag.blockTo ending)
  | none => .issue tag.unclosed

/-- Whether a finding is an aside: a tag or comment that is not whole. -/
def Finding.isAside : Finding → Bool
  | .issue ⟨.unclosedTag _, _⟩ => true
  | .issue ⟨.unterminatedComment, _⟩ => true
  | _ => false

/-- The findings that are no asides. -/
def outcomes (found : List Finding) : List Finding := found.filter fun f => !f.isAside

theorem outcomes_append (found later : List Finding) :
    outcomes (found ++ later) = outcomes found ++ outcomes later :=
  List.filter_append ..

/-- Asides come to nothing. -/
theorem outcomes_eq_nil {found : List Finding} (h : ∀ f ∈ found, f.isAside = true) :
    outcomes found = [] :=
  List.filter_eq_nil_iff.mpr fun f hf => by simp [h f hf]

theorem isAside_of_mem_brokenTag {tag : Tag} {f : Finding} (h : f ∈ brokenTag tag) :
    f.isAside = true := by
  unfold brokenTag at h
  split at h
  · obtain rfl := List.mem_singleton.mp h
    rfl
  · exact absurd h List.not_mem_nil

theorem isAside_of_mem_templateStep {c : Cursor} {opened : List String} {f : Finding}
    (h : f ∈ (templateStep c opened).2) : f.isAside = true := by
  unfold templateStep at h
  split at h
  · exact absurd h List.not_mem_nil
  · split at h
    · exact absurd h List.not_mem_nil
    · obtain rfl := List.mem_singleton.mp h
      rfl
    · exact absurd h List.not_mem_nil
    · exact isAside_of_mem_brokenTag h

/-- Inside a template only asides are found. -/
theorem isAside_of_mem_templateEnd? {bound : Nat} {c : Cursor} {opened : List String}
    {f : Finding} (h : f ∈ (templateEnd? bound c opened).2) : f.isAside = true := by
  obtain ⟨d, left, -, hfound⟩ := exists_step_of_mem_templateEnd? h
  exact isAside_of_mem_templateStep hfound

theorem isAside_of_mem_blockEnd {tag : Tag} {f : Finding} (h : f ∈ (blockEnd tag).2) :
    f.isAside = true := by
  unfold blockEnd at h
  split at h
  · exact absurd h List.not_mem_nil
  · split at h
    · exact isAside_of_mem_templateEnd? h
    · exact absurd h List.not_mem_nil

/-- Besides asides, reading a block finds what its start tag comes to. -/
theorem outcomes_readBlock (tag : Tag) : outcomes (readBlock tag).1 = [outcomeOf tag] := by
  have haside : outcomes (blockEnd tag).2 = [] :=
    outcomes_eq_nil fun f hf => isAside_of_mem_blockEnd hf
  unfold readBlock outcomeOf
  split
  · next ending found heq =>
    rw [heq] at haside ⊢
    rw [outcomes_append, haside]
    rfl
  · next found heq =>
    rw [heq] at haside ⊢
    rw [outcomes_append, haside]
    rfl

/-- **Besides asides, a scan finds what its start tags come to**, each one once and in order. -/
theorem findingsFrom_outcomes (bound : Nat) (c : Cursor) :
    outcomes (findingsFrom bound c) = (startTagsFrom bound c).map outcomeOf := by
  induction bound generalizing c with
  | zero => rfl
  | succ bound ih =>
    rw [findingsFrom, startTagsFrom]
    cases c.find? ['<'] with
    | none => rfl
    | some found =>
      dsimp only
      cases markupAt found with
      | skipped behind => exact ih behind
      | openComment span behind => exact ih behind
      | text => exact ih found.next
      | tag tag =>
        have hbroken : outcomes (brokenTag tag) = [] :=
          outcomes_eq_nil fun f hf => isAside_of_mem_brokenTag hf
        dsimp only
        split
        · rw [outcomes_append, hbroken, ih]
          rfl
        · rw [outcomes_append, outcomes_append, hbroken, outcomes_readBlock, ih]
          rfl

/-! ## §3. Where their blocks stand -/

/-- Reading attributes leaves the name of a tag, its start and its sort as they are. -/
theorem readAttributes_frame (tag : Tag) (bound : Nat) (s : TagState) :
    (readAttributes tag bound s).name = tag.name ∧
      (readAttributes tag bound s).start = tag.start ∧
      (readAttributes tag bound s).isEnd = tag.isEnd := by
  induction bound generalizing tag s with
  | zero => exact ⟨rfl, rfl, rfl⟩
  | succ bound ih =>
    unfold readAttributes
    dsimp only
    split
    · exact ⟨rfl, rfl, rfl⟩
    · exact ⟨rfl, rfl, rfl⟩
    · exact ⟨rfl, rfl, rfl⟩
    · exact ⟨rfl, rfl, rfl⟩
    · exact ⟨rfl, rfl, rfl⟩
    · exact ih _ _

/-- **How a tag is read**: its name first, and then the attributes behind it. -/
theorem readTag?_eq_some {c : Cursor} {tag : Tag} (h : readTag? c = some tag) :
    ((nextToken c).1.kind = .tagOpen ∧ tag = attributesAt
      (.named ((nextToken c).1.text.drop 1) c.offset false (nextToken c).2) .start) ∨
    ((nextToken c).1.kind = .closeTagOpen ∧ tag = attributesAt
      (.named ((nextToken c).1.text.drop 2) c.offset true (nextToken c).2) .start) := by
  unfold readTag? at h
  dsimp only at h
  split at h
  · next hkind => exact Or.inl ⟨hkind, (Option.some.inj h).symm⟩
  · next hkind => exact Or.inr ⟨hkind, (Option.some.inj h).symm⟩
  · exact absurd h (by simp)

/-- What a scan comes upon as a tag is read as one. -/
theorem readTag?_of_markupAt {c : Cursor} {tag : Tag} (h : markupAt c = .tag tag) :
    readTag? c = some tag := by
  unfold markupAt at h
  split at h
  · split at h <;> exact absurd h (by simp)
  · split at h
    · exact absurd h (by simp)
    · split at h
      · next hread =>
        obtain rfl := Opening.tag.inj h
        exact hread
      · exact absurd h (by simp)

/-- A tag starts where it is come upon. -/
theorem start_of_markupAt {c : Cursor} {tag : Tag} (h : markupAt c = .tag tag) :
    tag.start = c.offset := by
  rcases readTag?_eq_some (readTag?_of_markupAt h) with ⟨-, rfl⟩ | ⟨-, rfl⟩
  · exact (readAttributes_frame ..).2.1
  · exact (readAttributes_frame ..).2.1

/-- A scan goes on where the block of a start tag stops. -/
theorem offset_readBlock {tag : Tag} {ending : EndTag} (h : (blockEnd tag).1 = some ending) :
    (readBlock tag).2.offset = (tag.blockTo ending).stop := by
  unfold readBlock
  split
  · next ending' found heq =>
    rw [heq] at h
    obtain rfl := Option.some.inj h
    rfl
  · next found heq =>
    rw [heq] at h
    exact absurd h (by simp)

/-- Nothing is scanned behind a block without its end. -/
theorem rest_readBlock {tag : Tag} (h : (blockEnd tag).1 = none) :
    (readBlock tag).2.rest = [] := by
  unfold readBlock
  split
  · next heq =>
    rw [heq] at h
    exact absurd h (by simp)
  · rfl

theorem startTagsFrom_of_rest_eq_nil {c : Cursor} (h : c.rest = []) (bound : Nat) :
    startTagsFrom bound c = [] := by
  obtain ⟨offset, rest⟩ := c
  obtain rfl : rest = [] := h
  cases bound <;> rfl

/-- Whether the block of a start tag stands behind a place. -/
def Tag.StandsBehind (c : Cursor) (tag : Tag) : Prop :=
  c.offset ≤ tag.start ∧ tag.start < (readBlock tag).2.offset ∧ c.Reaches (readBlock tag).2

theorem Tag.StandsBehind.of_reaches {c d : Cursor} {tag : Tag} (h : tag.StandsBehind d)
    (hcd : c.Reaches d) : tag.StandsBehind c :=
  ⟨Nat.le_trans hcd.offset_le h.1, h.2.1, hcd.trans h.2.2⟩

/-- Whether a start tag has a whole block in front of another start tag. -/
def Tag.EndsBefore (a b : Tag) : Prop :=
  (blockEnd a).1.isSome = true ∧ (readBlock a).2.offset ≤ b.start

/-- **The blocks of start tags do not overlap**, and only the last one may lack its end. -/
theorem startTagsFrom_apart (bound : Nat) (c : Cursor) :
    (∀ tag ∈ startTagsFrom bound c, tag.StandsBehind c) ∧
      (startTagsFrom bound c).Pairwise Tag.EndsBefore := by
  induction bound generalizing c with
  | zero => exact ⟨fun tag htag => absurd htag List.not_mem_nil, .nil⟩
  | succ bound ih =>
    -- What comes behind a place farther on stands behind this place too.
    have hlater {d : Cursor} (hd : c.Reaches d) :
        (∀ tag ∈ startTagsFrom bound d, tag.StandsBehind c) ∧
          (startTagsFrom bound d).Pairwise Tag.EndsBefore :=
      ⟨fun tag htag => ((ih d).1 tag htag).of_reaches hd, (ih d).2⟩
    rw [startTagsFrom]
    split
    · exact ⟨fun tag htag => absurd htag List.not_mem_nil, .nil⟩
    · next found hfind =>
      have hfound := (find?_spec hfind).1
      have hpass := markupAt_passes (rest_ne_nil_of_find? hfind (by decide))
      split
      · next hmarkup =>
        rw [hmarkup] at hpass
        exact hlater (hfound.trans hpass.reaches)
      · next hmarkup =>
        rw [hmarkup] at hpass
        exact hlater (hfound.trans hpass.reaches)
      · next hmarkup =>
        rw [hmarkup] at hpass
        exact hlater (hfound.trans hpass.reaches)
      · next tag hmarkup =>
        have hstart := start_of_markupAt hmarkup
        rw [hmarkup] at hpass
        have hblock := hpass.trans (readBlock_reaches tag)
        split
        · exact hlater (hfound.trans hpass.reaches)
        · have hbehind := hlater (hfound.trans hblock.reaches)
          refine ⟨List.forall_mem_cons.mpr ⟨⟨?_, ?_, hfound.trans hblock.reaches⟩, hbehind.1⟩,
            List.pairwise_cons.mpr ⟨fun next hnext => ⟨?_, ?_⟩, hbehind.2⟩⟩
          · exact Nat.le_trans hfound.offset_le (Nat.le_of_eq hstart.symm)
          · rw [hstart]
            exact hblock.offset_lt
          -- Behind a block without its end there is no other start tag.
          · refine Option.isSome_iff_ne_none.mpr fun hnone => ?_
            rw [startTagsFrom_of_rest_eq_nil (rest_readBlock hnone)] at hnext
            exact absurd hnext List.not_mem_nil
          · exact ((ih _).1 next hnext).1

/-! ## §4. Shares -/

/-- What a start tag contributes to an extraction. -/
inductive Share where
  | template (b : Block)
  | script (b : Block)
  | style (s : StyleBlock)
  | custom (b : Block)
  | duplicate (b : Block)
  | unclosed (tag : Tag)

namespace Share

/-- The template that a share is. -/
def template? : Share → Option Block
  | template b => some b
  | _ => none

/-- The script that a share is. -/
def script? : Share → Option Block
  | script b => some b
  | _ => none

/-- The style that a share is. -/
def style? : Share → Option StyleBlock
  | style s => some s
  | _ => none

/-- The custom block that a share is. -/
def custom? : Share → Option Block
  | custom b => some b
  | _ => none

/-- The issue of a duplicate that a share is. -/
def duplicate? : Share → Option PlacedIssue
  | duplicate b => some ⟨.duplicateBlock b.tag, b.span⟩
  | _ => none

/-- The issue of a block without its end that a share is. -/
def unclosed? : Share → Option PlacedIssue
  | unclosed tag => some tag.unclosed
  | _ => none

/-- The whole block that a share is about. -/
def block? : Share → Option Block
  | template b => some b
  | script b => some b
  | style s => some s.block
  | custom b => some b
  | duplicate b => some b
  | unclosed _ => none

/-- Whether a share may be what becomes of a whole block: its name says what it is, and a template
or script may be a duplicate. -/
inductive IsFor (b : Block) : Share → Prop where
  | template (hname : sameName b.tag "template" = true) : IsFor b (.template b)
  | script (hname : sameName b.tag "script" = true) : IsFor b (.script b)
  | style (hname : sameName b.tag "style" = true) : IsFor b (.style (.ofBlock b))
  | custom (hname : ∀ name ∈ ["template", "script", "style"], sameName b.tag name = false) :
    IsFor b (.custom b)
  | duplicate (hname : sameName b.tag "template" = true ∨ sameName b.tag "script" = true) :
    IsFor b (.duplicate b)

/-- Whether a share is that of a start tag: the tag's whole block, or that it has none. -/
inductive IsOf (padding : Padding) (source : List Char) (tag : Tag) : Share → Prop where
  | block {ending : EndTag} {share : Share} (hend : (blockEnd tag).1 = some ending)
    (hfor : share.IsFor ((tag.blockTo ending).padded source padding)) :
    IsOf padding source tag share
  | unclosed (hend : (blockEnd tag).1 = none) : IsOf padding source tag (.unclosed tag)

end Share

/-- The whole blocks that some shares are about. -/
def wholeBlocks (shares : List Share) : List Block := shares.filterMap Share.block?

/-- Whether an issue is that of a duplicate. -/
def PlacedIssue.isDuplicate (found : PlacedIssue) : Bool :=
  match found.issue with
  | .duplicateBlock _ => true
  | _ => false

/-- Whether an issue is that of a block without its end. -/
def PlacedIssue.isUnclosedBlock (found : PlacedIssue) : Bool :=
  match found.issue with
  | .unclosedBlock _ => true
  | _ => false

/-- Whether an extraction is made of some shares: it has each of them at its place, in order, and
apart from issues that are asides it has nothing else.  The template and the script are the first
whole blocks of these names. -/
structure MadeOf (shares : List Share) (e : Extraction) : Prop where
  template : e.descriptor.template.toList = shares.filterMap Share.template?
  script : e.descriptor.script.toList = shares.filterMap Share.script?
  styles : e.descriptor.styles = shares.filterMap Share.style?
  custom : e.descriptor.custom = shares.filterMap Share.custom?
  duplicates : e.issues.filter (·.isDuplicate) = shares.filterMap Share.duplicate?
  unclosed : e.issues.filter (·.isUnclosedBlock) = shares.filterMap Share.unclosed?
  firstTemplate : e.descriptor.template = (blocksNamed "template" (wholeBlocks shares)).head?
  firstScript : e.descriptor.script = (blocksNamed "script" (wholeBlocks shares)).head?

/-! ## §5. Extractions -/

variable {shares : List Share} {e : Extraction}

theorem filterMap_concat {α β : Type} (f : α → Option β) (xs : List α) (x : α) :
    (xs ++ [x]).filterMap f = xs.filterMap f ++ (f x).toList := by
  rw [List.filterMap_append, List.filterMap_cons, List.filterMap_nil]
  cases f x <;> rfl

/-- One more share, and what it adds. -/
theorem MadeOf.concat (h : MadeOf shares e) (share : Share) {more : Extraction}
    (htemplate : more.descriptor.template.toList
      = e.descriptor.template.toList ++ share.template?.toList)
    (hscript : more.descriptor.script.toList = e.descriptor.script.toList ++ share.script?.toList)
    (hstyles : more.descriptor.styles = e.descriptor.styles ++ share.style?.toList)
    (hcustom : more.descriptor.custom = e.descriptor.custom ++ share.custom?.toList)
    (hduplicates : more.issues.filter (·.isDuplicate)
      = e.issues.filter (·.isDuplicate) ++ share.duplicate?.toList)
    (hunclosed : more.issues.filter (·.isUnclosedBlock)
      = e.issues.filter (·.isUnclosedBlock) ++ share.unclosed?.toList)
    (hfirstTemplate : more.descriptor.template
      = e.descriptor.template.or (blocksNamed "template" share.block?.toList).head?)
    (hfirstScript : more.descriptor.script
      = e.descriptor.script.or (blocksNamed "script" share.block?.toList).head?) :
    MadeOf (shares ++ [share]) more where
  template := by rw [htemplate, h.template, filterMap_concat]
  script := by rw [hscript, h.script, filterMap_concat]
  styles := by rw [hstyles, h.styles, filterMap_concat]
  custom := by rw [hcustom, h.custom, filterMap_concat]
  duplicates := by rw [hduplicates, h.duplicates, filterMap_concat]
  unclosed := by rw [hunclosed, h.unclosed, filterMap_concat]
  firstTemplate := by
    rw [hfirstTemplate, h.firstTemplate, wholeBlocks, wholeBlocks, filterMap_concat,
      blocksNamed, blocksNamed, blocksNamed, List.filter_append, List.head?_append]
  firstScript := by
    rw [hfirstScript, h.firstScript, wholeBlocks, wholeBlocks, filterMap_concat,
      blocksNamed, blocksNamed, blocksNamed, List.filter_append, List.head?_append]

/-- An aside adds nothing that counts. -/
theorem MadeOf.addAside (h : MadeOf shares e) {found : PlacedIssue}
    (hfound : (Finding.issue found).isAside = true) :
    MadeOf shares { e with issues := e.issues ++ [found] } := by
  have hissue : found.isDuplicate = false ∧ found.isUnclosedBlock = false := by
    unfold Finding.isAside at hfound
    split at hfound
    · next heq =>
      obtain rfl := Finding.issue.inj heq
      exact ⟨rfl, rfl⟩
    · next heq =>
      obtain rfl := Finding.issue.inj heq
      exact ⟨rfl, rfl⟩
    · exact absurd hfound (by simp)
  refine ⟨h.template, h.script, h.styles, h.custom, ?_, ?_, h.firstTemplate, h.firstScript⟩
  · rw [← h.duplicates]
    simp [hissue.1]
  · rw [← h.unclosed]
    simp [hissue.2]

theorem MadeOf.addUnclosed (h : MadeOf shares e) (tag : Tag) :
    MadeOf (shares ++ [.unclosed tag]) { e with issues := e.issues ++ [tag.unclosed] } := by
  refine h.concat (.unclosed tag) ?_ ?_ ?_ ?_ ?_ ?_ ?_ ?_
  · exact (List.append_nil _).symm
  · exact (List.append_nil _).symm
  · exact (List.append_nil _).symm
  · exact (List.append_nil _).symm
  · rw [List.filter_append]
    rfl
  · rw [List.filter_append]
    rfl
  · exact (Option.or_none).symm
  · exact (Option.or_none).symm

/-- A second template or script is a duplicate. -/
theorem MadeOf.addDuplicate (h : MadeOf shares e) (b : Block)
    (htemplate : sameName b.tag "template" = true → e.descriptor.template.isSome = true)
    (hscript : sameName b.tag "script" = true → e.descriptor.script.isSome = true) :
    MadeOf (shares ++ [.duplicate b])
      { e with issues := e.issues ++ [⟨.duplicateBlock b.tag, b.span⟩] } := by
  have hkept {name : String} {first : Option Block}
      (hfirst : sameName b.tag name = true → first.isSome = true) :
      first = first.or (blocksNamed name [b]).head? := by
    cases hname : sameName b.tag name with
    | false => simp [blocksNamed, hname]
    | true =>
      obtain ⟨kept, rfl⟩ := Option.isSome_iff_exists.mp (hfirst hname)
      rfl
  refine h.concat (.duplicate b) ?_ ?_ ?_ ?_ ?_ ?_ (hkept htemplate) (hkept hscript)
  · exact (List.append_nil _).symm
  · exact (List.append_nil _).symm
  · exact (List.append_nil _).symm
  · exact (List.append_nil _).symm
  · rw [List.filter_append]
    rfl
  · rw [List.filter_append]
    rfl

/-- **A whole block adds one share**, which is that block or a duplicate. -/
theorem MadeOf.addBlock (h : MadeOf shares e) (b : Block) :
    ∃ share : Share, share.IsFor b ∧ MadeOf (shares ++ [share]) (e.addBlock b) := by
  have hsame (name : String) : sameName b.tag name = (lowerCase b.tag == lowerCase name) := rfl
  unfold Extraction.addBlock
  dsimp only
  -- The cases of the name; of a template or script only the first one is kept.
  split
  · next hname =>
    have htemplate : sameName b.tag "template" = true := by rw [hsame, hname]; rfl
    have hscript : sameName b.tag "script" = false := by rw [hsame, hname]; rfl
    split
    · next hsome =>
      exact ⟨.duplicate b, .duplicate (Or.inl htemplate),
        h.addDuplicate b (fun _ => hsome) (by simp [hscript])⟩
    · next hnone =>
      rw [Option.not_isSome_iff_eq_none] at hnone
      refine ⟨.template b, .template htemplate, h.concat (.template b) ?_ ?_ ?_ ?_ ?_ ?_ ?_ ?_⟩
        <;> simp [hnone, blocksNamed, htemplate, hscript, Share.template?, Share.script?,
          Share.style?, Share.custom?, Share.duplicate?, Share.unclosed?, Share.block?]
  · next hname =>
    have htemplate : sameName b.tag "template" = false := by rw [hsame, hname]; rfl
    have hscript : sameName b.tag "script" = true := by rw [hsame, hname]; rfl
    split
    · next hsome =>
      exact ⟨.duplicate b, .duplicate (Or.inr hscript),
        h.addDuplicate b (by simp [htemplate]) fun _ => hsome⟩
    · next hnone =>
      rw [Option.not_isSome_iff_eq_none] at hnone
      refine ⟨.script b, .script hscript, h.concat (.script b) ?_ ?_ ?_ ?_ ?_ ?_ ?_ ?_⟩
        <;> simp [hnone, blocksNamed, htemplate, hscript, Share.template?, Share.script?,
          Share.style?, Share.custom?, Share.duplicate?, Share.unclosed?, Share.block?]
  · next hname =>
    have htemplate : sameName b.tag "template" = false := by rw [hsame, hname]; rfl
    have hscript : sameName b.tag "script" = false := by rw [hsame, hname]; rfl
    have hstyle : sameName b.tag "style" = true := by rw [hsame, hname]; rfl
    refine ⟨.style (.ofBlock b), .style hstyle,
      h.concat (.style (.ofBlock b)) ?_ ?_ ?_ ?_ ?_ ?_ ?_ ?_⟩
      <;> simp [blocksNamed, htemplate, hscript, StyleBlock.ofBlock, Share.template?,
        Share.script?, Share.style?, Share.custom?, Share.duplicate?, Share.unclosed?, Share.block?]
  · next htemplate hscript hstyle =>
    have hother {name : String} (hlower : lowerCase name = name) (hne : lowerCase b.tag ≠ name) :
        sameName b.tag name = false := by
      rw [hsame, hlower]
      exact beq_eq_false_iff_ne.mpr hne
    have htemplate := hother (by decide) htemplate
    have hscript := hother (by decide) hscript
    have hstyle := hother (by decide) hstyle
    refine ⟨.custom b, .custom ?_, h.concat (.custom b) ?_ ?_ ?_ ?_ ?_ ?_ ?_ ?_⟩
    · simp [htemplate, hscript, hstyle]
    all_goals simp [blocksNamed, htemplate, hscript, Share.template?, Share.script?,
      Share.style?, Share.custom?, Share.duplicate?, Share.unclosed?, Share.block?]

/-- **An extraction is made of the shares of its start tags**, whatever it had before. -/
theorem foldl_add_madeOf (padding : Padding) (source : List Char) {found : List Finding}
    {tags : List Tag} (hfound : outcomes found = tags.map outcomeOf) (h : MadeOf shares e) :
    ∃ more : List Share, List.Forall₂ (Share.IsOf padding source) tags more ∧
      MadeOf (shares ++ more) (found.foldl (Extraction.add source padding) e) := by
  induction found generalizing tags shares e with
  | nil =>
    obtain rfl := List.map_eq_nil_iff.mp hfound.symm
    exact ⟨[], .nil, by rwa [List.append_nil]⟩
  | cons f found ih =>
    rw [List.foldl_cons]
    cases haside : f.isAside with
    | true =>
      have hlater : outcomes found = tags.map outcomeOf := by
        rw [← hfound, outcomes, outcomes, List.filter_cons, haside]
        rfl
      cases f with
      | block raw => exact absurd haside (by simp [Finding.isAside])
      | issue placed => exact ih hlater (h.addAside haside)
    | false =>
      rw [outcomes, List.filter_cons, haside, Bool.not_false, if_pos rfl] at hfound
      cases tags with
      | nil => exact absurd hfound (by simp)
      | cons tag tags =>
        obtain ⟨houtcome, hlater⟩ := List.cons.inj (hfound.trans List.map_cons)
        unfold outcomeOf at houtcome
        split at houtcome
        · next ending hend =>
          obtain rfl := houtcome
          obtain ⟨share, hshare, hmade⟩ :=
            h.addBlock ((tag.blockTo ending).padded source padding)
          obtain ⟨more, heach, hmore⟩ := ih hlater hmade
          exact ⟨share :: more, .cons (.block hend hshare) heach,
            by rwa [List.append_assoc] at hmore⟩
        · next hend =>
          obtain rfl := houtcome
          obtain ⟨more, heach, hmore⟩ := ih hlater (h.addUnclosed tag)
          exact ⟨.unclosed tag :: more, .cons (.unclosed hend) heach,
            by rwa [List.append_assoc] at hmore⟩

/-! ## §6. The account -/

/-- What holds between any two related lists in order holds of what they are related to. -/
theorem pairwise_of_forall₂ {α β : Type} {P : α → β → Prop} {R : α → α → Prop}
    {S : β → β → Prop} {xs : List α} {ys : List β} (hP : List.Forall₂ P xs ys)
    (hR : xs.Pairwise R) (h : ∀ a b x y, P a x → P b y → R a b → S x y) : ys.Pairwise S := by
  rw [List.pairwise_iff_getElem] at hR ⊢
  intro i j hi hj hij
  have hlength := hP.length_eq
  exact h _ _ _ _ (hP.get (by omega) hi) (hP.get (by omega) hj) (hR i j (by omega) (by omega) hij)

/-- A share for a block is about that block. -/
theorem Share.IsFor.block?_eq {b : Block} {share : Share} (h : share.IsFor b) :
    share.block? = some b := by
  cases h <;> rfl

/-- The whole block that the share of a start tag is about is that tag's. -/
theorem Share.IsOf.eq_padded {padding : Padding} {source : List Char} {tag : Tag} {share : Share}
    {b : Block} (h : share.IsOf padding source tag) (hb : share.block? = some b) :
    ∃ ending, (blockEnd tag).1 = some ending ∧
      b.span = Span.ofRange tag.start (readBlock tag).2.offset := by
  cases h with
  | @block ending _ hend hfor =>
    obtain rfl := Option.some.inj (hb.symm.trans hfor.block?_eq)
    exact ⟨ending, hend, by rw [offset_readBlock hend]; rfl⟩
  | unclosed hend => exact absurd hb (by simp [Share.block?])

/-- Only a start tag without its end has the share of an unclosed block. -/
theorem Share.IsOf.eq_of_unclosed {padding : Padding} {source : List Char} {tag tag' : Tag}
    (h : Share.IsOf padding source tag (.unclosed tag')) :
    tag = tag' ∧ (blockEnd tag').1 = none := by
  cases h with
  | block _ hfor => exact nomatch hfor
  | unclosed hend => exact ⟨rfl, hend⟩

/-- Reading a block finds last what its start tag comes to. -/
theorem readBlock_eq_concat (tag : Tag) :
    ∃ asides, (readBlock tag).1 = asides ++ [outcomeOf tag] := by
  unfold readBlock outcomeOf
  split
  · next ending found heq =>
    rw [heq]
    exact ⟨found, rfl⟩
  · next found heq =>
    rw [heq]
    exact ⟨found, rfl⟩

theorem findingsFrom_of_rest_eq_nil {c : Cursor} (h : c.rest = []) (bound : Nat) :
    findingsFrom bound c = [] := by
  obtain ⟨offset, rest⟩ := c
  obtain rfl : rest = [] := h
  cases bound <;> rfl

/-- Behind a block without its end nothing is found. -/
theorem findingsFrom_ends {bound : Nat} {c : Cursor} {tag : Tag}
    (htag : tag ∈ startTagsFrom bound c) (hend : (blockEnd tag).1 = none) :
    ∃ found, findingsFrom bound c = found ++ [.issue tag.unclosed] := by
  induction bound generalizing c with
  | zero => exact absurd htag List.not_mem_nil
  | succ bound ih =>
    have hbehind {d : Cursor} (front : List Finding) (htag : tag ∈ startTagsFrom bound d) :
        ∃ found, front ++ findingsFrom bound d = found ++ [.issue tag.unclosed] := by
      obtain ⟨found, hfound⟩ := ih htag
      exact ⟨front ++ found, by rw [hfound, List.append_assoc]⟩
    rw [startTagsFrom] at htag
    rw [findingsFrom]
    cases hfind : c.find? ['<'] with
    | none =>
      rw [hfind] at htag
      exact absurd htag List.not_mem_nil
    | some start =>
      rw [hfind] at htag
      dsimp only at htag ⊢
      cases hmarkup : markupAt start with
      | skipped behind =>
        rw [hmarkup] at htag
        exact ih htag
      | openComment span behind =>
        rw [hmarkup] at htag
        exact hbehind [.issue ⟨.unterminatedComment, span⟩] htag
      | text =>
        rw [hmarkup] at htag
        exact ih htag
      | tag other =>
        rw [hmarkup] at htag
        dsimp only at htag ⊢
        cases hcloses : other.isEnd with
        | true =>
          rw [hcloses] at htag
          exact hbehind _ htag
        | false =>
          rw [hcloses] at htag
          rw [if_neg Bool.false_ne_true] at htag ⊢
          rcases List.mem_cons.mp htag with rfl | htag
          · obtain ⟨asides, hasides⟩ := readBlock_eq_concat tag
            have houtcome : outcomeOf tag = .issue tag.unclosed := by rw [outcomeOf, hend]
            rw [findingsFrom_of_rest_eq_nil (rest_readBlock hend), hasides, houtcome,
              List.append_nil, ← List.append_assoc]
            exact ⟨_, rfl⟩
          · exact hbehind _ htag

/-- **The account of an extraction.**  Each start tag outside of blocks has one share, the
extraction is made of these shares, and a share without its end is the last thing that is found.
The blocks stand apart from each other, in the order of the file. -/
structure Accounts (padding : Padding) (source : List Char) (shares : List Share)
    (e : Extraction) : Prop where
  each : List.Forall₂ (Share.IsOf padding source) (startTags source) shares
  made : MadeOf shares e
  last : shares.Pairwise fun share _ => share.unclosed? = none
  lastIssue : ∀ tag, .unclosed tag ∈ shares → e.issues.getLast? = some tag.unclosed
  apart : (wholeBlocks shares).Pairwise fun a b => a.span.stop ≤ b.span.start
  ordered : ∀ b ∈ wholeBlocks shares, b.span.start ≤ b.span.stop
  /-- Offsets of spans end at 4 GiB. -/
  nonempty : byteLength source < 2 ^ 32 → ∀ b ∈ wholeBlocks shares, b.span.start < b.span.stop

/-- **Every start tag outside of blocks is accounted for**, in every component and with any padding:
it is the template or the script, a style, a custom block, a duplicate or an unclosed block.  Places
are counted without a bound; files are below 4 GiB, where 32 bits hold every offset of a token. -/
theorem extract_accounts (padding : Padding) (source : List Char) :
    ∃ shares, Accounts padding source shares (extract padding source) := by
  obtain ⟨hplaces, happart⟩ := startTagsFrom_apart (source.length + 1) (Cursor.ofText source)
  have hempty : MadeOf [] ⟨Descriptor.empty, []⟩ := ⟨rfl, rfl, rfl, rfl, rfl, rfl, rfl, rfl⟩
  obtain ⟨shares, heach, hmade⟩ :=
    foldl_add_madeOf padding source (findingsFrom_outcomes _ (Cursor.ofText source)) hempty
  -- A whole block of the account is that of a start tag.
  have hblock : ∀ b ∈ wholeBlocks shares, ∃ tag ∈ startTags source,
      b.span = Span.ofRange tag.start (readBlock tag).2.offset := by
    intro b hb
    obtain ⟨share, hshare, hb⟩ := List.mem_filterMap.mp hb
    obtain ⟨i, hi, rfl⟩ := List.getElem_of_mem hshare
    have hlength := heach.length_eq
    obtain ⟨ending, hend, hspan⟩ := (heach.get (i := i) (by omega) hi).eq_padded hb
    exact ⟨_, List.getElem_mem _, hspan⟩
  refine ⟨shares, heach, hmade, ?_, ?_, ?_, ?_, ?_⟩
  · refine pairwise_of_forall₂ heach happart fun a b x y hax _ hab => ?_
    cases hax with
    | block hend hfor => cases hfor <;> rfl
    | unclosed hend =>
      have hwhole := hab.1
      rw [hend] at hwhole
      exact absurd hwhole (by simp)
  · intro tag htag
    obtain ⟨i, hi, hshare⟩ := List.getElem_of_mem htag
    have hlength := heach.length_eq
    have hof := heach.get (i := i) (by omega) hi
    rw [List.get_eq_getElem, List.get_eq_getElem, hshare] at hof
    obtain ⟨htag, hend⟩ := hof.eq_of_unclosed
    obtain ⟨found, hfound⟩ := findingsFrom_ends (htag ▸ List.getElem_mem _) hend
    have hextract : extract padding source =
        (found ++ [Finding.issue tag.unclosed]).foldl (Extraction.add source padding)
          ⟨Descriptor.empty, []⟩ := by rw [← hfound]; rfl
    rw [hextract, List.foldl_append]
    exact List.getLast?_concat ..
  · rw [wholeBlocks, List.pairwise_filterMap]
    refine pairwise_of_forall₂ heach happart fun a b x y hax hby hab => ?_
    intro first hfirst second hsecond
    obtain ⟨_, -, hspan⟩ := hax.eq_padded hfirst
    obtain ⟨_, -, hspan'⟩ := hby.eq_padded hsecond
    rw [hspan, hspan']
    exact Nat.le_min.mpr ⟨Nat.le_trans (Nat.min_le_left ..) hab.2, Nat.min_le_right ..⟩
  · intro b hb
    obtain ⟨tag, htag, hspan⟩ := hblock b hb
    have hplace := (hplaces tag htag).2.1
    rw [hspan, Span.ofRange]
    dsimp only
    omega
  · intro hsize b hb
    obtain ⟨tag, htag, hspan⟩ := hblock b hb
    obtain ⟨-, hplace, hreach⟩ := hplaces tag htag
    have hstop := hreach.stop_eq
    rw [hspan, Span.ofRange, Span.maxOffset]
    simp only [Cursor.ofText] at hstop
    dsimp only
    omega

end SingleFile.Markup
