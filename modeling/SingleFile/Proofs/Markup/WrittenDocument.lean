/-
  SingleFile.Proofs.Markup.WrittenDocument — BLOCKS AS THEY ARE WRITTEN
  ─────────────────────────────────────────────────────────────────────
  A component that is written block after block, with text and comments
  between them, is read as these blocks: the same tags, attributes and
  contents, at the spans they were written at.

  Main results:
    * `findingsAt_block` — a block is found, and the scan goes on behind it.
      The step.
    * `findingsAt_blocks` — all blocks of a document are found.  The run.
    * `extract_document` — what a document without a template consists of.
-/
import SingleFile.Proofs.Markup.RawText
import SingleFile.Proofs.Text.Cuts

namespace SingleFile.Markup

open SingleFile.Text Cursor

/-! ## §1. What is written -/

/-- A block that is no template.  Its name holds no bracket, and its content no end tag of its
own; a tag that closes itself has no content. -/
structure BlockText where
  tag : TagText
  content : Option (List Char)
  noBracket : '<' ∉ tag.name.text := by decide
  notTemplate : sameName (String.ofList tag.name.text) "template" = false := by decide
  notClosed : ∀ text ∈ content, holdsEndTag tag.name.text text = false := by decide

namespace BlockText

/-- The start tag of a block. -/
def startTag (b : BlockText) : List Char := b.tag.written b.content.isNone

/-- What is between the tags of a block. -/
def inside (b : BlockText) : List Char := b.content.getD []

/-- The end tag of a block, if it has one. -/
def endTag (b : BlockText) : List Char :=
  match b.content with
  | none => []
  | some _ => b.tag.name.endTag

/-- A block with its tags. -/
def written (b : BlockText) : List Char := b.startTag ++ (b.inside ++ b.endTag)

/-- The block that is read where one is written. -/
def readAt (offset : Nat) (b : BlockText) : Block :=
  let contentStart := offset + byteLength b.startTag
  ⟨String.ofList b.tag.name.text,
    Span.ofRange offset (offset + byteLength b.written),
    Span.ofRange contentStart (contentStart + byteLength b.inside),
    b.inside,
    attributesReadAt (offset + byteLength ('<' :: b.tag.name.text)) b.tag.attributes⟩

end BlockText

/-- What stands between blocks: text without a bracket, or a comment. -/
inductive Separator where
  | text (cs : List Char) (noBracket : '<' ∉ cs := by decide)
  | comment (t : CommentText)

/-- The text of a separator. -/
def Separator.written : Separator → List Char
  | text cs _ => cs
  | comment t => t.written

/-- A block with what stands in front of it. -/
structure PlacedBlock where
  before : List Separator
  block : BlockText

namespace PlacedBlock

/-- What stands in front of a block. -/
def front (p : PlacedBlock) : List Char := p.before.flatMap Separator.written

/-- A block behind what stands in front of it. -/
def written (p : PlacedBlock) : List Char := p.front ++ p.block.written

end PlacedBlock

/-- A component without a template: its blocks, and what stands behind the last one. -/
structure DocumentText where
  blocks : List PlacedBlock
  behind : List Separator

/-- The text of a component. -/
def DocumentText.written (d : DocumentText) : List Char :=
  d.blocks.flatMap PlacedBlock.written ++ d.behind.flatMap Separator.written

/-- The blocks that are read where some are written. -/
def blocksReadAt : Nat → List PlacedBlock → List Block
  | _, [] => []
  | offset, p :: rest =>
    p.block.readAt (offset + byteLength p.front)
      :: blocksReadAt (offset + byteLength p.written) rest

/-! ## §2. The scan -/

/-- The scan goes over a text without a bracket. -/
theorem findingsAt_text {text : List Char} (h : '<' ∉ text) (offset : Nat) (rest : List Char) :
    findingsAt ⟨offset, text ++ rest⟩ = findingsAt ⟨offset + byteLength text, rest⟩ := by
  rw [findingsAt_eq, findingsAt_eq ⟨offset + byteLength text, rest⟩, scanStep?, scanStep?,
    find?_append_of_not_mem h]

/-- The scan goes over a comment. -/
theorem findingsAt_comment (t : CommentText) (offset : Nat) (rest : List Char) :
    findingsAt ⟨offset, t.written ++ rest⟩
      = findingsAt ⟨offset + byteLength t.written, rest⟩ := by
  have hfind : (⟨offset, t.written ++ rest⟩ : Cursor).find? ['<']
      = some ⟨offset, t.written ++ rest⟩ := find?_self
  rw [findingsAt_eq, scanStep?, hfind, Option.map_some, markupAt_comment]
  rfl

theorem findingsAt_separators (separators : List Separator) (offset : Nat) (rest : List Char) :
    findingsAt ⟨offset, separators.flatMap Separator.written ++ rest⟩
      = findingsAt ⟨offset + byteLength (separators.flatMap Separator.written), rest⟩ := by
  induction separators generalizing offset with
  | nil => rfl
  | cons s separators ih =>
    rw [List.flatMap_cons, List.append_assoc, byteLength_append, ← Nat.add_assoc, ← ih]
    cases s with
    | text cs noBracket => exact findingsAt_text noBracket offset _
    | comment t => exact findingsAt_comment t offset _

/-- A start tag is where a block begins. -/
theorem findingsAt_startTag (t : TagText) (isSelfClosing : Bool) (offset : Nat)
    (rest : List Char) :
    findingsAt ⟨offset, t.written isSelfClosing ++ rest⟩ =
      (readBlock (t.readAt offset isSelfClosing rest)).1
        ++ findingsAt (readBlock (t.readAt offset isSelfClosing rest)).2 := by
  have hfind : (⟨offset, t.written isSelfClosing ++ rest⟩ : Cursor).find? ['<']
      = some ⟨offset, t.written isSelfClosing ++ rest⟩ := find?_self
  rw [findingsAt_eq, scanStep?, hfind, Option.map_some, markupAt_startTag]
  rfl

/-- The block that the scan finds where one is written in front of a text. -/
def BlockText.rawAt (offset : Nat) (b : BlockText) (rest : List Char) : RawBlock :=
  let contentStart := offset + byteLength b.startTag
  ⟨String.ofList b.tag.name.text,
    attributesReadAt (offset + byteLength ('<' :: b.tag.name.text)) b.tag.attributes,
    offset,
    ⟨contentStart, b.inside ++ (b.endTag ++ rest)⟩,
    contentStart + byteLength b.inside,
    offset + byteLength b.written⟩

/-- Behind its start tag a block ends where its end tag is written. -/
theorem blockEnd_written (b : BlockText) (offset : Nat) (rest : List Char) :
    blockEnd (b.tag.readAt offset b.content.isNone (b.inside ++ (b.endTag ++ rest))) =
      (some ⟨offset + byteLength b.startTag + byteLength b.inside,
        ⟨offset + byteLength b.written, rest⟩⟩, []) := by
  have hsize : byteLength b.written
      = byteLength b.startTag + (byteLength b.inside + byteLength b.endTag) := by
    rw [BlockText.written, byteLength_append, byteLength_append]
  rw [hsize, ← Nat.add_assoc, ← Nat.add_assoc]
  cases hcontent : b.content with
  | none =>
    have hinside : b.inside = [] := by rw [BlockText.inside, hcontent]; rfl
    have hend : b.endTag = [] := by rw [BlockText.endTag, hcontent]
    rw [hinside, hend, BlockText.startTag, hcontent]
    rfl
  | some text =>
    have hinside : b.inside = text := by rw [BlockText.inside, hcontent]; rfl
    have hend : b.endTag = b.tag.name.endTag := by rw [BlockText.endTag, hcontent]
    have hclosed : holdsEndTag b.tag.name.text text = false := b.notClosed text hcontent
    have hfound := findRawTextEnd_written b.tag.name b.noBracket hclosed
      (offset + byteLength b.startTag) rest
    rw [BlockText.startTag, hcontent] at hfound
    rw [hinside, hend, BlockText.startTag, hcontent]
    have hopen : (b.tag.readAt offset false (text ++ (b.tag.name.endTag ++ rest))).isSelfClosing
        = false := rfl
    have hname : sameName (b.tag.readAt offset false (text ++ (b.tag.name.endTag ++ rest))).name
        "template" = false := b.notTemplate
    rw [Option.isNone_some, blockEnd, hopen, hname]
    exact congrArg (·, []) hfound

/-- **A block is found**, and the scan goes on behind it. -/
theorem findingsAt_block (b : BlockText) (offset : Nat) (rest : List Char) :
    findingsAt ⟨offset, b.written ++ rest⟩ =
      .block (b.rawAt offset rest) :: findingsAt ⟨offset + byteLength b.written, rest⟩ := by
  have htext : b.written ++ rest = b.startTag ++ (b.inside ++ (b.endTag ++ rest)) := by
    rw [BlockText.written, List.append_assoc, List.append_assoc]
  rw [htext, BlockText.startTag, findingsAt_startTag, readBlock, blockEnd_written]
  rfl

/-- The blocks that the scan finds where some are written in front of a text. -/
def rawBlocksAt (rest : List Char) : Nat → List PlacedBlock → List RawBlock
  | _, [] => []
  | offset, p :: later =>
    p.block.rawAt (offset + byteLength p.front) (later.flatMap PlacedBlock.written ++ rest)
      :: rawBlocksAt rest (offset + byteLength p.written) later

/-- **All blocks of a document are found.** -/
theorem findingsAt_blocks (blocks : List PlacedBlock) (offset : Nat) (rest : List Char) :
    findingsAt ⟨offset, blocks.flatMap PlacedBlock.written ++ rest⟩ =
      (rawBlocksAt rest offset blocks).map Finding.block
        ++ findingsAt ⟨offset + byteLength (blocks.flatMap PlacedBlock.written), rest⟩ := by
  induction blocks generalizing offset with
  | nil => rfl
  | cons p blocks ih =>
    rw [List.flatMap_cons, List.append_assoc, byteLength_append, ← Nat.add_assoc, rawBlocksAt,
      List.map_cons, List.cons_append, ← ih, PlacedBlock.written, List.append_assoc,
      PlacedBlock.front, findingsAt_separators, findingsAt_block, byteLength_append, Nat.add_assoc]

/-! ## §3. The blocks in order -/

theorem paddingText_none (tag : String) (lang : Option String) (before : List Char) :
    Padding.text .none tag lang before = [] := by
  unfold Padding.text
  split <;> rfl

/-- Without padding, a block that is found is the one that is written. -/
theorem padded_rawAt (source : List Char) (b : BlockText) (offset : Nat) (rest : List Char) :
    (b.rawAt offset rest).padded source .none = b.readAt offset := by
  have hcontent : upTo (b.rawAt offset rest).content.rest
      ((b.rawAt offset rest).contentStop - (b.rawAt offset rest).content.offset) = b.inside := by
    rw [BlockText.rawAt]
    dsimp only
    rw [Nat.add_sub_cancel_left, upTo_append]
  rw [RawBlock.padded, hcontent, paddingText_none]
  rfl

theorem padded_rawBlocksAt (source rest : List Char) (offset : Nat) (blocks : List PlacedBlock) :
    (rawBlocksAt rest offset blocks).map (·.padded source .none) = blocksReadAt offset blocks := by
  induction blocks generalizing offset with
  | nil => rfl
  | cons p blocks ih => rw [rawBlocksAt, List.map_cons, padded_rawAt, ih, blocksReadAt]

/-- The blocks of a name, in any case. -/
def blocksNamed (name : String) (blocks : List Block) : List Block :=
  blocks.filter fun b => sameName b.tag name

/-- The blocks of no name that counts. -/
def customBlocks (blocks : List Block) : List Block :=
  blocks.filter fun b => !(sameName b.tag "script" || sameName b.tag "style")

/-- What some blocks without a template make up: the first script, all styles and all custom
blocks, and an issue for each further script. -/
def sorted (blocks : List Block) : Extraction :=
  ⟨⟨none, (blocksNamed "script" blocks).head?,
      (blocksNamed "style" blocks).map StyleBlock.ofBlock, customBlocks blocks⟩,
    (blocksNamed "script" blocks).tail.map fun b => ⟨.duplicateBlock b.tag, b.span⟩⟩

theorem blocksNamed_concat (name : String) (blocks : List Block) (b : Block) :
    blocksNamed name (blocks ++ [b]) =
      if sameName b.tag name then blocksNamed name blocks ++ [b] else blocksNamed name blocks := by
  rw [blocksNamed, List.filter_append, List.filter_cons, List.filter_nil]
  cases sameName b.tag name with
  | false => exact List.append_nil _
  | true => rfl

theorem customBlocks_concat (blocks : List Block) (b : Block) :
    customBlocks (blocks ++ [b]) =
      if sameName b.tag "script" || sameName b.tag "style" then customBlocks blocks
      else customBlocks blocks ++ [b] := by
  rw [customBlocks, List.filter_append, List.filter_cons, List.filter_nil]
  cases sameName b.tag "script" || sameName b.tag "style" with
  | false => rfl
  | true => exact List.append_nil _

/-- **A block is sorted in** behind those before. -/
theorem addBlock_sorted {b : Block} (h : sameName b.tag "template" = false)
    (blocks : List Block) : (sorted blocks).addBlock b = sorted (blocks ++ [b]) := by
  have hsame : ∀ name, sameName b.tag name = (lowerCase b.tag == lowerCase name) := fun _ => rfl
  rw [sorted, sorted, blocksNamed_concat, blocksNamed_concat, customBlocks_concat,
    hsame "script", hsame "style", Extraction.addBlock]
  dsimp only
  split
  · next htag =>
    rw [hsame, htag] at h
    exact absurd h (by decide)
  · next htag =>
    rw [htag]
    cases blocksNamed "script" blocks with
    | nil => rfl
    | cons first later =>
      show Extraction.mk _ _ = Extraction.mk _ (List.map _ (later ++ [b]))
      rw [List.map_append]
      rfl
  · next htag =>
    rw [htag]
    show Extraction.mk ⟨_, _, _, _⟩ _ = Extraction.mk ⟨_, _, List.map _ (_ ++ [b]), _⟩ _
    rw [List.map_append]
    rfl
  · next htemplate hscript hstyle =>
    have hscript' : (lowerCase b.tag == lowerCase "script") = false :=
      beq_eq_false_iff_ne.mpr hscript
    have hstyle' : (lowerCase b.tag == lowerCase "style") = false :=
      beq_eq_false_iff_ne.mpr hstyle
    rw [hscript', hstyle']
    rfl

/-- Blocks are sorted in one after another. -/
theorem foldl_addBlock_sorted {added : List Block}
    (h : ∀ b ∈ added, sameName b.tag "template" = false) (blocks : List Block) :
    added.foldl Extraction.addBlock (sorted blocks) = sorted (blocks ++ added) := by
  induction added generalizing blocks with
  | nil => rw [List.append_nil]; rfl
  | cons b added ih =>
    rw [List.foldl_cons, addBlock_sorted (h b (List.mem_cons_self ..)),
      ih (fun b' hb' => h b' (List.mem_cons_of_mem b hb')), List.append_assoc]
    rfl

theorem notTemplate_of_mem_blocksReadAt {offset : Nat} {blocks : List PlacedBlock} {b : Block}
    (h : b ∈ blocksReadAt offset blocks) : sameName b.tag "template" = false := by
  induction blocks generalizing offset with
  | nil => exact absurd h (List.not_mem_nil)
  | cons p blocks ih =>
    rcases List.mem_cons.mp h with rfl | h
    · exact p.block.notTemplate
    · exact ih h

/-- **A document without a template consists of the blocks it is written from**: with the same
tags, attributes and contents, at the spans they are written at, and in order.  All scripts but
the first are issues, and there are no others. -/
theorem extract_document (d : DocumentText) :
    extract .none d.written = sorted (blocksReadAt 0 d.blocks) := by
  have hbehind : findingsAt ⟨byteLength (d.blocks.flatMap PlacedBlock.written),
      d.behind.flatMap Separator.written⟩ = [] := by
    have hover := findingsAt_separators d.behind
      (byteLength (d.blocks.flatMap PlacedBlock.written)) []
    rwa [List.append_nil] at hover
  have hfindings : findings d.written
      = (rawBlocksAt (d.behind.flatMap Separator.written) 0 d.blocks).map Finding.block := by
    have hall := findingsAt_blocks d.blocks 0 (d.behind.flatMap Separator.written)
    rwa [Nat.zero_add, hbehind, List.append_nil] at hall
  have hadded : extract .none d.written
      = ((rawBlocksAt (d.behind.flatMap Separator.written) 0 d.blocks).map
          (·.padded d.written .none)).foldl Extraction.addBlock (sorted []) := by
    rw [extract, hfindings, List.foldl_map, List.foldl_map]
    rfl
  rw [hadded, padded_rawBlocksAt,
    foldl_addBlock_sorted (fun b hb => notTemplate_of_mem_blocksReadAt hb), List.nil_append]

/-- A component as it is written. -/
example :
    DocumentText.written
      { blocks := [
          { before := [.text ['\n']]
            block :=
              { tag :=
                  { name := { first := 's', later := "cript".toList }
                    attributes := [
                      { blanks := { text := [' '] }, name := "lang".toList
                        value := some { mark := .double, text := "ts".toList } }]
                    blanks := .none }
                content := some "a </ b".toList } }]
        behind := [.text ['\n']] }
      = "\n<script lang=\"ts\">a </ b</script>\n".toList := by
  decide

end SingleFile.Markup
