/-
  SingleFile.Proofs.Markup.Descriptor — WHAT A DESCRIPTOR IS MADE OF
  ──────────────────────────────────────────────────────────────────
  A component is sorted block by block; in the end its descriptor holds the
  first template, the first script, all styles and all other blocks of the
  start tags outside of blocks.  The issues are those that the scan found, and
  one for each block that came too late.

  Main results:
    * `addBlock_eq` — what one more block does, by its name.
    * `descriptor_addBlock`, `descriptor_extract` — the descriptor of some
      blocks.  The step and the run.
    * `mem_issues_foldl` — where the issues of an extraction come from.
    * `exists_step_of_startTag` — where a start tag outside of blocks stands.
-/
import SingleFile.Proofs.Markup.Accounting

namespace SingleFile.Markup

open SingleFile.Text Cursor

variable {padding : Padding} {source : List Char} {e : Extraction}

/-! ## §1. Names -/

theorem sameName_eq (a b : String) : sameName a b = (lowerCase a == lowerCase b) := rfl

/-- A name is no two others at once. -/
theorem sameName_of_ne {a b c : String} (h : sameName a b = true)
    (hne : lowerCase b ≠ lowerCase c) : sameName a c = false := by
  rw [sameName_eq, beq_iff_eq] at h
  rw [sameName_eq, h]
  exact beq_eq_false_iff_ne.mpr hne

/-- The names of the blocks that have places of their own. -/
def placedNames : List String := ["template", "script", "style"]

/-- Whether a block has no place of its own. -/
def Block.isCustom (b : Block) : Bool := !placedNames.any (sameName b.tag)

/-! ## §2. One block -/

/-- The issue that a block came too late. -/
def Extraction.refused (e : Extraction) (b : Block) : Extraction :=
  { e with issues := e.issues ++ [⟨.duplicateBlock b.tag, b.span⟩] }

/-- **What one more block does**, by its name. -/
theorem addBlock_eq (e : Extraction) (b : Block) :
    e.addBlock b =
      if sameName b.tag "template" then
        if e.descriptor.template.isSome then e.refused b
        else { e with descriptor := { e.descriptor with template := some b } }
      else if sameName b.tag "script" then
        if e.descriptor.script.isSome then e.refused b
        else { e with descriptor := { e.descriptor with script := some b } }
      else if sameName b.tag "style" then
        { e with descriptor :=
            { e.descriptor with styles := e.descriptor.styles ++ [StyleBlock.ofBlock b] } }
      else { e with descriptor := { e.descriptor with custom := e.descriptor.custom ++ [b] } } := by
  have hlower : lowerCase "template" = "template" ∧ lowerCase "script" = "script" ∧
      lowerCase "style" = "style" := by decide
  obtain ⟨htemplate, hscript, hstyle⟩ := hlower
  unfold Extraction.addBlock
  simp only [sameName_eq, htemplate, hscript, hstyle]
  split
  · next hname => rw [hname]; rfl
  · next hname => rw [hname]; rfl
  · next hname => rw [hname]; rfl
  · next hnoTemplate hnoScript hnoStyle =>
    rw [if_neg (by simpa using hnoTemplate), if_neg (by simpa using hnoScript),
      if_neg (by simpa using hnoStyle)]

/-- A block, if its name is the one asked for. -/
def Block.named? (name : String) (b : Block) : Option Block :=
  if sameName b.tag name then some b else none

/-- **What one more block does to a descriptor.**  A template or script stays what it is once there
is one; styles and other blocks are added behind those before. -/
theorem descriptor_addBlock (e : Extraction) (b : Block) :
    (e.addBlock b).descriptor =
      ⟨e.descriptor.template.or (b.named? "template"), e.descriptor.script.or (b.named? "script"),
        e.descriptor.styles ++ (b.named? "style").toList.map StyleBlock.ofBlock,
        e.descriptor.custom ++ [b].filter Block.isCustom⟩ := by
  have hother {name : String} (other : String) (hname : sameName b.tag name = true)
      (hne : lowerCase name ≠ lowerCase other) : b.named? other = none := by
    rw [Block.named?, sameName_of_ne hname hne]
    rfl
  have hplaced {name : String} (hname : sameName b.tag name = true) (hmem : name ∈ placedNames) :
      [b].filter Block.isCustom = [] := by
    have hany : placedNames.any (sameName b.tag) = true := List.any_eq_true.mpr ⟨name, hmem, hname⟩
    simp [Block.isCustom, hany]
  obtain ⟨⟨template, script, styles, custom⟩, issues⟩ := e
  rw [addBlock_eq]
  dsimp only
  split
  · next hname =>
    have hself : b.named? "template" = some b := if_pos hname
    rw [hother "script" hname (by decide), hother "style" hname (by decide),
      hplaced hname (by decide), hself]
    cases template <;> simp [Extraction.refused]
  · next htemplate =>
    have htemplate : b.named? "template" = none := if_neg htemplate
    split
    · next hname =>
      have hself : b.named? "script" = some b := if_pos hname
      rw [hother "style" hname (by decide), hplaced hname (by decide), htemplate, hself]
      cases script <;> simp [Extraction.refused]
    · next hscript =>
      have hscript : b.named? "script" = none := if_neg hscript
      split
      · next hname =>
        have hself : b.named? "style" = some b := if_pos hname
        rw [hplaced hname (by decide), htemplate, hscript, hself]
        simp
      · next hstyle =>
        have hcustom : b.isCustom = true := by
          simp_all [Block.isCustom, placedNames, Block.named?]
        have hstyle : b.named? "style" = none := if_neg hstyle
        rw [htemplate, hscript, hstyle]
        simp [hcustom]

/-- The issues that one more block adds: that it came too late, or none. -/
theorem issues_addBlock (e : Extraction) (b : Block) :
    (e.addBlock b).issues = e.issues ∨
      (e.addBlock b).issues = e.issues ++ [⟨.duplicateBlock b.tag, b.span⟩] := by
  rw [addBlock_eq]
  split
  · split
    · exact Or.inr rfl
    · exact Or.inl rfl
  · split
    · split
      · exact Or.inr rfl
      · exact Or.inl rfl
    · split <;> exact Or.inl rfl

/-! ## §3. Many blocks -/

/-- The descriptor of some blocks: the first template and the first script, all styles, and all
blocks without a place of their own. -/
def Descriptor.ofBlocks (blocks : List Block) : Descriptor :=
  ⟨(blocksNamed "template" blocks).head?, (blocksNamed "script" blocks).head?,
    (blocksNamed "style" blocks).map StyleBlock.ofBlock, blocks.filter Block.isCustom⟩

/-- All blocks of a descriptor. -/
def Descriptor.blocks (d : Descriptor) : List Block :=
  d.template.toList ++ d.script.toList ++ d.styles.map StyleBlock.block ++ d.custom

/-- The whole block that a finding is, with its padded content. -/
def Finding.block? (padding : Padding) (source : List Char) : Finding → Option Block
  | .block raw => some (raw.padded source padding)
  | .issue _ => none

theorem blocksNamed_append (name : String) (front blocks : List Block) :
    blocksNamed name (front ++ blocks) = blocksNamed name front ++ blocksNamed name blocks :=
  List.filter_append ..

theorem blocksNamed_singleton (name : String) (b : Block) :
    blocksNamed name [b] = (b.named? name).toList := by
  rw [blocksNamed, Block.named?, List.filter_singleton]
  cases sameName b.tag name <;> rfl

/-- **One more block is sorted in** behind those before, whatever its name. -/
theorem descriptor_addBlock_ofBlocks {blocks : List Block}
    (h : e.descriptor = .ofBlocks blocks) (b : Block) :
    (e.addBlock b).descriptor = .ofBlocks (blocks ++ [b]) := by
  rw [descriptor_addBlock, h]
  simp only [Descriptor.ofBlocks, blocksNamed_append, blocksNamed_singleton, List.head?_append,
    List.map_append, List.filter_append]
  cases b.named? "template" <;> cases b.named? "script" <;> rfl

/-- **The descriptor of some findings** is that of their blocks. -/
theorem descriptor_foldl_add (found : List Finding) {blocks : List Block}
    (h : e.descriptor = .ofBlocks blocks) :
    (found.foldl (Extraction.add source padding) e).descriptor =
      .ofBlocks (blocks ++ found.filterMap (Finding.block? padding source)) := by
  induction found generalizing e blocks with
  | nil => rw [List.foldl_nil, List.filterMap_nil, List.append_nil, h]
  | cons finding found ih =>
    rw [List.foldl_cons]
    cases finding with
    | issue placed => exact ih h
    | block raw =>
      rw [Extraction.add, ih (descriptor_addBlock_ofBlocks h _), List.append_assoc]
      rfl

/-- Where the issues of an extraction come from: they were there before, the scan found them, or a
block that it found came too late. -/
theorem mem_issues_foldl {found : List Finding} {placed : PlacedIssue}
    (h : placed ∈ (found.foldl (Extraction.add source padding) e).issues) :
    placed ∈ e.issues ∨ .issue placed ∈ found ∨
      ∃ b ∈ found.filterMap (Finding.block? padding source),
        placed = ⟨.duplicateBlock b.tag, b.span⟩ := by
  induction found generalizing e with
  | nil => exact Or.inl h
  | cons finding found ih =>
    rw [List.foldl_cons] at h
    cases finding with
    | issue other =>
      rcases ih h with h | h | h
      · rcases List.mem_append.mp h with h | h
        · exact Or.inl h
        · obtain rfl := List.mem_singleton.mp h
          exact Or.inr (Or.inl (List.mem_cons_self ..))
      · exact Or.inr (Or.inl (List.mem_cons_of_mem _ h))
      · exact Or.inr (Or.inr h)
    | block raw =>
      rcases ih h with h | h | ⟨b, hb, rfl⟩
      · rcases issues_addBlock e (raw.padded source padding) with hissues | hissues
        · exact Or.inl (hissues ▸ h)
        · rcases List.mem_append.mp (hissues ▸ h) with h | h
          · exact Or.inl h
          · exact Or.inr (Or.inr ⟨_, List.mem_cons_self .., List.mem_singleton.mp h⟩)
      · exact Or.inr (Or.inl (List.mem_cons_of_mem _ h))
      · exact Or.inr (Or.inr ⟨b, List.mem_cons_of_mem _ hb, rfl⟩)

/-- An issue stays one. -/
theorem issues_subset_foldl (found : List Finding) (e : Extraction) :
    e.issues ⊆ (found.foldl (Extraction.add source padding) e).issues := by
  induction found generalizing e with
  | nil => exact fun _ h => h
  | cons finding found ih =>
    refine List.Subset.trans ?_ (ih _)
    cases finding with
    | issue placed => exact List.subset_append_left ..
    | block raw =>
      rcases issues_addBlock e (raw.padded source padding) with hissues | hissues
      · exact fun placed h => hissues ▸ h
      · exact fun placed h => hissues ▸ List.mem_append_left _ h

/-- What the scan found amiss is an issue. -/
theorem mem_issues_of_mem {found : List Finding} {placed : PlacedIssue}
    (h : .issue placed ∈ found) :
    placed ∈ (found.foldl (Extraction.add source padding) e).issues := by
  obtain ⟨front, behind, rfl⟩ := List.append_of_mem h
  rw [List.foldl_append, List.foldl_cons]
  exact issues_subset_foldl behind _ (List.mem_append_right _ (List.mem_singleton_self _))

/-! ## §4. The blocks of start tags -/

/-- The block of a start tag with its padded content, if it has an end. -/
def Tag.block? (padding : Padding) (source : List Char) (tag : Tag) : Option Block :=
  (outcomeOf tag).block? padding source

theorem Tag.block?_eq_some_iff {tag : Tag} {b : Block} :
    tag.block? padding source = some b ↔
      ∃ ending, (blockEnd tag).1 = some ending ∧
        b = (tag.blockTo ending).padded source padding := by
  unfold Tag.block? outcomeOf
  cases (blockEnd tag).1 <;> simp [Finding.block?, eq_comm]

theorem filterMap_block?_outcomes (found : List Finding) :
    (outcomes found).filterMap (Finding.block? padding source) =
      found.filterMap (Finding.block? padding source) := by
  rw [outcomes, List.filterMap_filter]
  refine List.filterMap_congr fun finding _ => ?_
  cases finding with
  | block raw => rfl
  | issue placed => exact ite_self none

/-- The blocks that the scan finds are those of the start tags outside of blocks. -/
theorem filterMap_block?_findings (padding : Padding) (source : List Char) :
    (findings source).filterMap (Finding.block? padding source) =
      (startTags source).filterMap (Tag.block? padding source) := by
  rw [← filterMap_block?_outcomes, findings, findingsFrom_outcomes, List.filterMap_map]
  rfl

/-- **The descriptor of a component** is that of the blocks of its start tags. -/
theorem descriptor_extract (padding : Padding) (source : List Char) :
    (extract padding source).descriptor =
      .ofBlocks ((startTags source).filterMap (Tag.block? padding source)) := by
  have hempty : (⟨Descriptor.empty, []⟩ : Extraction).descriptor = .ofBlocks [] := rfl
  rw [extract, descriptor_foldl_add (findings source) hempty, List.nil_append,
    filterMap_block?_findings]

theorem mem_blocks_ofBlocks {blocks : List Block} {b : Block} :
    b ∈ (Descriptor.ofBlocks blocks).blocks ↔
      (blocksNamed "template" blocks).head? = some b ∨
        (blocksNamed "script" blocks).head? = some b ∨
        b ∈ blocksNamed "style" blocks ∨ b ∈ blocks ∧ b.isCustom = true := by
  have hstyles : ((blocksNamed "style" blocks).map StyleBlock.ofBlock).map StyleBlock.block
      = blocksNamed "style" blocks := by
    rw [List.map_map]
    exact List.map_id _
  simp only [Descriptor.blocks, Descriptor.ofBlocks, hstyles, List.mem_append, Option.mem_toList,
    List.mem_filter, or_assoc]

theorem mem_of_mem_blocks {blocks : List Block} {b : Block}
    (h : b ∈ (Descriptor.ofBlocks blocks).blocks) : b ∈ blocks := by
  rcases mem_blocks_ofBlocks.mp h with h | h | h | h
  · exact List.mem_of_mem_filter (List.mem_of_mem_head? h)
  · exact List.mem_of_mem_filter (List.mem_of_mem_head? h)
  · exact List.mem_of_mem_filter h
  · exact h.1

/-- A block of a descriptor is that of a start tag. -/
theorem exists_startTag_of_mem_blocks {b : Block}
    (h : b ∈ (extract padding source).descriptor.blocks) :
    ∃ tag ∈ startTags source, tag.block? padding source = some b := by
  rw [descriptor_extract] at h
  exact List.mem_filterMap.mp (mem_of_mem_blocks h)

/-- The block of a start tag is one that the scan found. -/
theorem exists_raw_of_mem {b : Block}
    (h : b ∈ (startTags source).filterMap (Tag.block? padding source)) :
    ∃ raw, Finding.block raw ∈ findings source ∧ b = raw.padded source padding := by
  rw [← filterMap_block?_findings] at h
  obtain ⟨finding, hfinding, hb⟩ := List.mem_filterMap.mp h
  cases finding with
  | issue placed => exact absurd hb (by simp [Finding.block?])
  | block raw => exact ⟨raw, hfinding, (Option.some.inj hb).symm⟩

/-- **Where a start tag outside of blocks stands**: at a bracket that the scan comes upon, and what
it comes to there is found. -/
theorem exists_step_of_startTag {bound : Nat} {c : Cursor} {tag : Tag}
    (h : tag ∈ startTagsFrom bound c) :
    ∃ found : Cursor, c.Reaches found ∧ (∃ rest, found.rest = '<' :: rest) ∧
      markupAt found = .tag tag ∧ tag.isEnd = false ∧
      brokenTag tag ++ (readBlock tag).1 ⊆ findingsFrom bound c := by
  induction bound generalizing c with
  | zero => exact absurd h List.not_mem_nil
  | succ bound ih =>
    rw [startTagsFrom] at h
    rw [findingsFrom]
    cases hfind : c.find? ['<'] with
    | none =>
      rw [hfind] at h
      exact absurd h List.not_mem_nil
    | some found =>
      rw [hfind] at h
      dsimp only at h ⊢
      have hpass := (markupAt_passes_of_find? hfind).reaches
      -- A start tag farther on stands in the same text, and is found there.
      have hlater {d : Cursor} (front : List Finding) (hd : c.Reaches d)
          (h : tag ∈ startTagsFrom bound d) :
          ∃ found : Cursor, c.Reaches found ∧ (∃ rest, found.rest = '<' :: rest) ∧
            markupAt found = .tag tag ∧ tag.isEnd = false ∧
            brokenTag tag ++ (readBlock tag).1 ⊆ front ++ findingsFrom bound d := by
        obtain ⟨found, hfound, hbracket, hmarkup, hend, hsubset⟩ := ih h
        exact ⟨found, hd.trans hfound, hbracket, hmarkup, hend,
          List.subset_append_of_subset_right front hsubset⟩
      cases hmarkup : markupAt found with
      | skipped behind =>
        rw [hmarkup] at h hpass
        exact hlater [] hpass h
      | openComment span behind =>
        rw [hmarkup] at h hpass
        exact hlater [.issue ⟨.unterminatedComment, span⟩] hpass h
      | text =>
        rw [hmarkup] at h hpass
        exact hlater [] hpass h
      | tag other =>
        rw [hmarkup] at h hpass
        dsimp only at h ⊢
        split at h
        · next hend =>
          rw [if_pos hend]
          exact hlater (brokenTag other) hpass h
        · next hend =>
          rw [if_neg hend]
          rcases List.mem_cons.mp h with rfl | h
          · exact ⟨found, (find?_spec hfind).1, (find?_spec hfind).2, hmarkup,
              Bool.eq_false_iff.mpr hend, List.subset_append_left ..⟩
          · exact hlater _ (hpass.trans (readBlock_reaches other)) h

/-- A start tag outside of blocks stands at a bracket, where it is read. -/
theorem exists_place_of_startTag {bound : Nat} {c : Cursor} {tag : Tag}
    (h : tag ∈ startTagsFrom bound c) :
    ∃ found : Cursor, c.Reaches found ∧ (∃ rest, found.rest = '<' :: rest) ∧
      markupAt found = .tag tag ∧ tag.isEnd = false := by
  obtain ⟨found, hfound, hbracket, hmarkup, hend, -⟩ := exists_step_of_startTag h
  exact ⟨found, hfound, hbracket, hmarkup, hend⟩

/-- A start tag that is broken off is found to be so. -/
theorem brokenTag_subset_findingsFrom {bound : Nat} {c : Cursor} {tag : Tag}
    (h : tag ∈ startTagsFrom bound c) : brokenTag tag ⊆ findingsFrom bound c := by
  obtain ⟨-, -, -, -, -, hsubset⟩ := exists_step_of_startTag h
  exact List.Subset.trans (List.subset_append_left ..) hsubset

/-- What a start tag comes to is found. -/
theorem outcomeOf_mem_findingsFrom {bound : Nat} {c : Cursor} {tag : Tag}
    (h : tag ∈ startTagsFrom bound c) : outcomeOf tag ∈ findingsFrom bound c := by
  obtain ⟨-, -, -, -, -, hsubset⟩ := exists_step_of_startTag h
  obtain ⟨asides, hfound⟩ := readBlock_eq_concat tag
  refine hsubset (List.mem_append_right _ ?_)
  rw [hfound]
  exact List.mem_append_right _ (List.mem_singleton_self _)

/-- The start tags of a component stand one behind another. -/
theorem startTags_ordered (source : List Char) :
    (startTags source).Pairwise fun a b => a.start < b.start := by
  obtain ⟨hplaces, happart⟩ := startTagsFrom_apart (source.length + 1) (Cursor.ofText source)
  refine happart.imp_of_mem fun ha _ hab => ?_
  exact Nat.lt_of_lt_of_le (hplaces _ ha).2.1 hab.2

end SingleFile.Markup
