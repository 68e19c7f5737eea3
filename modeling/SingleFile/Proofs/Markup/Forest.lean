/-
  SingleFile.Proofs.Markup.Forest — A TEMPLATE ENDS AT ITS OWN END TAG
  ────────────────────────────────────────────────────────────────────
  Inside a template stands a forest: elements in elements, tags that nothing
  closes, raw texts and what is skipped.  Whatever the forest leaves open, it
  opens no template that it does not close, so the end tag behind it is the
  template's.  What follows the template is read as it is read alone.

  Main results:
    * `templateEndAt_piece` — the scan goes over a piece.  The step.
    * `templateEndAt_forest` — the scan goes over a forest.  The run.
    * `findings_template` — a template is found, and what follows it is found
      as it is alone.
    * `extract_template` — a component that begins with a template.
-/
import SingleFile.Proofs.Markup.WrittenDocument
import SingleFile.Proofs.Markup.Displacement

namespace SingleFile.Markup

open SingleFile.Text Cursor

/-! ## §1. What is written -/

/-- The name of a tag as it is read. -/
def TagText.title (t : TagText) : String := String.ofList t.name.text

/-- A piece of a template that holds no others. -/
inductive Piece where
  /-- Text without a bracket. -/
  | text (cs : List Char) (noBracket : '<' ∉ cs)
  | comment (t : CommentText)
  | declaration (t : DeclarationText)
  | selfClosing (t : TagText)
  /-- A start tag that nothing closes. -/
  | unclosed (t : TagText) (notTemplate : sameName t.title "template" = false)
      (notRaw : isRawTextElement t.title = false)
  /-- An element of raw text, which holds no end tag of its own. -/
  | raw (t : TagText) (cs : List Char) (isRaw : isRawTextElement t.title = true)
      (notClosed : holdsEndTag t.name.text cs = false)

/-- The text of a piece. -/
def Piece.written : Piece → List Char
  | text cs _ => cs
  | comment t => t.written
  | declaration t => t.written
  | selfClosing t => t.written true
  | unclosed t _ _ => t.written false
  | raw t cs _ _ => t.written false ++ (cs ++ t.name.endTag)

/-- The names that a piece leaves open. -/
def Piece.leftOpen : Piece → List String
  | unclosed t _ _ => [t.title]
  | _ => []

/-- Pieces and elements, which hold forests themselves; a template may be one of them. -/
inductive Forest where
  | nil
  | piece (p : Piece) (later : Forest)
  | element (t : TagText) (notRaw : isRawTextElement t.title = false) (inside later : Forest)

/-- The text of a forest. -/
def Forest.written : Forest → List Char
  | nil => []
  | piece p later => p.written ++ later.written
  | element t _ inside later =>
    t.written false ++ (inside.written ++ (t.name.endTag ++ later.written))

/-- A template: a start tag of that name, in any case, a forest, and the end tag. -/
structure TemplateText where
  tag : TagText
  inside : Forest
  isTemplate : sameName tag.title "template" = true := by decide

namespace TemplateText

/-- A template with its tags. -/
def written (t : TemplateText) : List Char :=
  t.tag.written false ++ (t.inside.written ++ t.tag.name.endTag)

/-- The block that is read where a file begins with a template. -/
def block (t : TemplateText) : Block :=
  let contentStart := byteLength (t.tag.written false)
  ⟨t.tag.title,
    Span.ofRange 0 (byteLength t.written),
    Span.ofRange contentStart (contentStart + byteLength t.inside.written),
    t.inside.written,
    attributesReadAt (byteLength ('<' :: t.tag.name.text)) t.tag.attributes⟩

end TemplateText

/-! ## §2. Pieces -/

/-- The scan of a template goes on behind a step that finds nothing. -/
theorem templateEndAt_of_goesOn {c behind : Cursor} {opened left : List String}
    (h : templateStep c opened = (.goesOn behind left, [])) :
    templateEndAt c opened = templateEndAt behind left := by
  rw [templateEndAt_eq, h]
  rfl

/-- The scan of a template ends at a step that ends it. -/
theorem templateEndAt_of_ends {c : Cursor} {opened : List String} {ending : Option EndTag}
    (h : templateStep c opened = (.ends ending, [])) :
    templateEndAt c opened = (ending, []) := by
  rw [templateEndAt_eq, h]

/-- The scan of a template goes over a text without a bracket. -/
theorem templateEndAt_text {cs : List Char} (h : '<' ∉ cs) (offset : Nat) (opened : List String)
    (rest : List Char) :
    templateEndAt ⟨offset, cs ++ rest⟩ opened
      = templateEndAt ⟨offset + byteLength cs, rest⟩ opened := by
  rw [templateEndAt_eq, templateEndAt_eq ⟨offset + byteLength cs, rest⟩, templateStep,
    templateStep, find?_append_of_not_mem h]

/-- The scan of a template goes over what is skipped. -/
theorem templateStep_skipped {offset : Nat} {cs : List Char} {behind : Cursor}
    (h : markupAt ⟨offset, '<' :: cs⟩ = .skipped behind) (opened : List String) :
    templateStep ⟨offset, '<' :: cs⟩ opened = (.goesOn behind opened, []) := by
  have hfind : (⟨offset, '<' :: cs⟩ : Cursor).find? ['<'] = some ⟨offset, '<' :: cs⟩ := find?_self
  rw [templateStep, hfind]
  dsimp only
  rw [h]

/-- A tag is a step of the scan of a template. -/
theorem templateStep_tag {offset : Nat} {cs : List Char} {tag : Tag}
    (h : markupAt ⟨offset, '<' :: cs⟩ = .tag tag) (opened : List String) :
    templateStep ⟨offset, '<' :: cs⟩ opened
      = (templateTag offset tag opened, brokenTag tag) := by
  have hfind : (⟨offset, '<' :: cs⟩ : Cursor).find? ['<'] = some ⟨offset, '<' :: cs⟩ := find?_self
  rw [templateStep, hfind]
  dsimp only
  rw [h]

/-- A start tag that is no raw text's opens an element. -/
theorem templateEndAt_startTag (t : TagText) (hraw : isRawTextElement t.title = false)
    (offset : Nat) (opened : List String) (rest : List Char) :
    templateEndAt ⟨offset, t.written false ++ rest⟩ opened
      = templateEndAt ⟨offset + byteLength (t.written false), rest⟩ (t.title :: opened) := by
  refine templateEndAt_of_goesOn ?_
  have htag : templateTag offset (t.readAt offset false rest) opened
      = .goesOn ⟨offset + byteLength (t.written false), rest⟩ (t.title :: opened) := by
    have hraw' : isRawTextElement (t.readAt offset false rest).name = false := hraw
    rw [templateTag, hraw']
    rfl
  exact (templateStep_tag (markupAt_startTag t false offset rest) opened).trans
    (congrArg (·, []) htag)

theorem not_mem_rawTextElement {name : List Char}
    (h : isRawTextElement (String.ofList name) = true) : '<' ∉ name := by
  intro hmem
  obtain ⟨raw, hraw, hsame⟩ := List.any_eq_true.mp h
  have hnone : ∀ raw ∈ rawTextElements, '<' ∉ (lowerCase raw).toList := by decide
  refine hnone raw hraw ?_
  rw [← beq_iff_eq.mp hsame, lowerCase, String.toList_ofList, String.toList_ofList]
  exact List.mem_map.mpr ⟨'<', hmem, rfl⟩

/-- An element of raw text is one piece. -/
theorem templateEndAt_raw (t : TagText) {cs : List Char} (hraw : isRawTextElement t.title = true)
    (hclosed : holdsEndTag t.name.text cs = false) (offset : Nat) (opened : List String)
    (rest : List Char) :
    templateEndAt ⟨offset, t.written false ++ (cs ++ (t.name.endTag ++ rest))⟩ opened =
      templateEndAt ⟨offset + byteLength (t.written false) + byteLength cs
        + byteLength t.name.endTag, rest⟩ opened := by
  refine templateEndAt_of_goesOn ?_
  have hfound := findRawTextEnd_written t.name (not_mem_rawTextElement hraw) hclosed
    (offset + byteLength (t.written false)) rest
  have htag : templateTag offset (t.readAt offset false (cs ++ (t.name.endTag ++ rest))) opened
      = .goesOn ⟨offset + byteLength (t.written false) + byteLength cs
        + byteLength t.name.endTag, rest⟩ opened := by
    have hraw' : isRawTextElement
      (t.readAt offset false (cs ++ (t.name.endTag ++ rest))).name = true := hraw
    have hfound' : findRawTextEnd (t.readAt offset false (cs ++ (t.name.endTag ++ rest))).name
      (t.readAt offset false (cs ++ (t.name.endTag ++ rest))).behind = _ := hfound
    rw [templateTag, hraw', hfound']
    rfl
  exact (templateStep_tag (markupAt_startTag t false offset _) opened).trans
    (congrArg (·, []) htag)

/-- **The scan goes over a piece**, which opens no more than it leaves open. -/
theorem templateEndAt_piece (p : Piece) (offset : Nat) (opened : List String)
    (rest : List Char) :
    templateEndAt ⟨offset, p.written ++ rest⟩ opened
      = templateEndAt ⟨offset + byteLength p.written, rest⟩ (p.leftOpen ++ opened) := by
  cases p with
  | text cs noBracket => exact templateEndAt_text noBracket offset opened rest
  | comment t =>
    exact templateEndAt_of_goesOn (templateStep_skipped (markupAt_comment t offset rest) opened)
  | declaration t =>
    exact templateEndAt_of_goesOn
      (templateStep_skipped (markupAt_declaration t offset rest) opened)
  | selfClosing t =>
    refine templateEndAt_of_goesOn ?_
    exact templateStep_tag (markupAt_startTag t true offset rest) opened
  | unclosed t notTemplate notRaw => exact templateEndAt_startTag t notRaw offset opened rest
  | raw t cs isRaw notClosed =>
    have hraw := templateEndAt_raw t isRaw notClosed offset opened rest
    rw [Piece.written, List.append_assoc, List.append_assoc, hraw, byteLength_append,
      byteLength_append, ← Nat.add_assoc, ← Nat.add_assoc]
    rfl

/-! ## §3. Forests -/

/-- Whether no name is that of a template. -/
def NoTemplates (names : List String) : Prop := ∀ name ∈ names, sameName name "template" = false

theorem noTemplates_nil : NoTemplates [] := fun _ hmem => absurd hmem List.not_mem_nil

theorem NoTemplates.append {names more : List String} (h : NoTemplates names)
    (hmore : NoTemplates more) : NoTemplates (names ++ more) := fun name hname =>
  (List.mem_append.mp hname).elim (h name) (hmore name)

theorem Piece.noTemplates (p : Piece) : NoTemplates p.leftOpen := by
  cases p with
  | unclosed t notTemplate notRaw =>
    intro name hname
    rw [List.mem_singleton.mp hname]
    exact notTemplate
  | _ => exact noTemplates_nil

/-- An end tag closes its element and what is open in it, or else an element of the same name in
it; either way no template. -/
theorem closeElement_append {left : List String} (h : NoTemplates left) (name : String)
    (opened : List String) :
    ∃ left', NoTemplates left' ∧ closeElement name (left ++ name :: opened)
      = some (left' ++ opened) := by
  induction left with
  | nil =>
    refine ⟨[], noTemplates_nil, ?_⟩
    have hself : sameName name name = true := beq_self_eq_true _
    rw [List.nil_append, closeElement, if_pos hself]
    rfl
  | cons top left ih =>
    have hleft : NoTemplates left := fun n hn => h n (List.mem_cons_of_mem _ hn)
    rw [List.cons_append, closeElement]
    split
    · next hsame =>
      have hname : sameName name "template" = false := by
        rw [sameName, ← beq_iff_eq.mp hsame]
        exact h top (List.mem_cons_self ..)
      refine ⟨left ++ [name], hleft.append fun n hn => ?_, by rw [List.append_assoc]; rfl⟩
      rw [List.mem_singleton.mp hn]
      exact hname
    · exact ih hleft

/-- An end tag that closes an element is no end of the template. -/
theorem templateEndAt_endTag (n : TagName) {opened left : List String}
    (h : closeElement (String.ofList n.text) opened = some left) (offset : Nat)
    (rest : List Char) :
    templateEndAt ⟨offset, n.endTag ++ rest⟩ opened
      = templateEndAt ⟨offset + byteLength n.endTag, rest⟩ left := by
  refine templateEndAt_of_goesOn ?_
  have htag : templateTag offset (n.endReadAt offset rest) opened
      = .goesOn ⟨offset + byteLength n.endTag, rest⟩ left := by
    have hclose : closeElement (n.endReadAt offset rest).name opened = some left := h
    rw [templateTag, hclose]
    rfl
  exact (templateStep_tag (markupAt_endTag n offset rest) opened).trans
    (congrArg (·, []) htag)

/-- **The scan goes over a forest**, which leaves no template open. -/
theorem templateEndAt_forest (f : Forest) (offset : Nat) (opened : List String)
    (rest : List Char) :
    ∃ left, NoTemplates left ∧ templateEndAt ⟨offset, f.written ++ rest⟩ opened
      = templateEndAt ⟨offset + byteLength f.written, rest⟩ (left ++ opened) := by
  induction f generalizing offset opened rest with
  | nil => exact ⟨[], noTemplates_nil, rfl⟩
  | piece p later ih =>
    obtain ⟨left, hleft, hlater⟩ := ih (offset + byteLength p.written) (p.leftOpen ++ opened) rest
    refine ⟨left ++ p.leftOpen, hleft.append p.noTemplates, ?_⟩
    rw [Forest.written, List.append_assoc, templateEndAt_piece, hlater, byteLength_append,
      ← Nat.add_assoc, ← List.append_assoc]
  | element t notRaw inside later ihInside ihLater =>
    -- What is open inside the element lies on top of it when its end tag is met.
    obtain ⟨left, hleft, hinside⟩ := ihInside (offset + byteLength (t.written false))
      (t.title :: opened) (t.name.endTag ++ (later.written ++ rest))
    obtain ⟨left', hleft', hclose⟩ := closeElement_append hleft t.title opened
    obtain ⟨left'', hleft'', hlater⟩ := ihLater (offset + byteLength (t.written false)
      + byteLength inside.written + byteLength t.name.endTag) (left' ++ opened) rest
    refine ⟨left'' ++ left', hleft''.append hleft', ?_⟩
    rw [Forest.written, List.append_assoc, List.append_assoc, List.append_assoc,
      templateEndAt_startTag t notRaw, hinside, templateEndAt_endTag t.name hclose, hlater,
      byteLength_append, byteLength_append, byteLength_append, ← Nat.add_assoc, ← Nat.add_assoc,
      ← Nat.add_assoc, ← List.append_assoc]

/-! ## §4. Templates -/

theorem closeElement_eq_none {name : String} {opened : List String}
    (h : ∀ top ∈ opened, sameName top name = false) : closeElement name opened = none := by
  induction opened with
  | nil => rfl
  | cons top opened ih =>
    rw [closeElement, h top (List.mem_cons_self ..), if_neg (by decide)]
    exact ih fun n hn => h n (List.mem_cons_of_mem _ hn)

/-- The end tag of a template ends it where no template is open. -/
theorem templateEndAt_ends (t : TemplateText) {left : List String} (h : NoTemplates left)
    (offset : Nat) (rest : List Char) :
    templateEndAt ⟨offset, t.tag.name.endTag ++ rest⟩ left
      = (some ⟨offset, ⟨offset + byteLength t.tag.name.endTag, rest⟩⟩, []) := by
  have hnone : closeElement t.tag.title left = none := by
    refine closeElement_eq_none fun top htop => ?_
    have hlower : lowerCase t.tag.title = lowerCase "template" := beq_iff_eq.mp t.isTemplate
    rw [sameName, hlower]
    exact h top htop
  have htag : templateTag offset (t.tag.name.endReadAt offset rest) left
      = .ends (some ⟨offset, ⟨offset + byteLength t.tag.name.endTag, rest⟩⟩) := by
    have hclose : closeElement (t.tag.name.endReadAt offset rest).name left = none := hnone
    have hname : sameName (t.tag.name.endReadAt offset rest).name "template" = true :=
      t.isTemplate
    rw [templateTag, hclose]
    dsimp only
    rw [hname]
    rfl
  refine templateEndAt_of_ends ?_
  exact (templateStep_tag (markupAt_endTag t.tag.name offset rest) left).trans
    (congrArg (·, []) htag)

/-- **A template ends at its own end tag**, and nothing is found inside it. -/
theorem blockEnd_template (t : TemplateText) (offset : Nat) (rest : List Char) :
    blockEnd (t.tag.readAt offset false (t.inside.written ++ (t.tag.name.endTag ++ rest))) =
      (some ⟨offset + byteLength (t.tag.written false) + byteLength t.inside.written,
        ⟨offset + byteLength t.written, rest⟩⟩, []) := by
  obtain ⟨left, hleft, hforest⟩ := templateEndAt_forest t.inside
    (offset + byteLength (t.tag.written false)) [] (t.tag.name.endTag ++ rest)
  rw [List.append_nil, templateEndAt_ends t hleft] at hforest
  have hname : sameName (t.tag.readAt offset false
    (t.inside.written ++ (t.tag.name.endTag ++ rest))).name "template" = true := t.isTemplate
  rw [blockEnd, hname, TemplateText.written, byteLength_append, byteLength_append,
    ← Nat.add_assoc, ← Nat.add_assoc]
  exact hforest

/-- The block that the scan finds where a file begins with a template. -/
def TemplateText.raw (t : TemplateText) (rest : List Char) : RawBlock :=
  let contentStart := byteLength (t.tag.written false)
  ⟨t.tag.title, attributesReadAt (byteLength ('<' :: t.tag.name.text)) t.tag.attributes, 0,
    ⟨contentStart, t.inside.written ++ (t.tag.name.endTag ++ rest)⟩,
    contentStart + byteLength t.inside.written, byteLength t.written⟩

/-- **A template is found, and what follows it is found as it is alone.** -/
theorem findings_template (t : TemplateText) (rest : List Char) :
    findings (t.written ++ rest) =
      .block (t.raw rest) :: (findings rest).map (Finding.moved (byteLength t.written)) := by
  have htext : t.written ++ rest
      = t.tag.written false ++ (t.inside.written ++ (t.tag.name.endTag ++ rest)) := by
    rw [TemplateText.written, List.append_assoc, List.append_assoc]
  have hwhole : findings (t.written ++ rest) = findingsAt ⟨0, t.written ++ rest⟩ := rfl
  have hend := blockEnd_template t 0 rest
  have hread : readBlock (t.tag.readAt 0 false (t.inside.written ++ (t.tag.name.endTag ++ rest)))
      = ([.block (t.raw rest)], ⟨0 + byteLength t.written, rest⟩) := by
    rw [readBlock, hend]
    dsimp only
    simp only [TemplateText.raw, TagText.readAt, Nat.zero_add]
    rfl
  have hrest : findingsAt ⟨0 + byteLength t.written, rest⟩
      = (findings rest).map (Finding.moved (byteLength t.written)) :=
    findingsFrom_moved (byteLength t.written) _ ⟨0, rest⟩
  rw [hwhole, htext, findingsAt_startTag, hread, hrest]
  rfl

/-! ## §5. The rest of the file -/

variable (n : Nat)

/-- A block that is moved. -/
def Block.moved (b : Block) : Block :=
  { b with span := b.span.movedRange n
           contentSpan := b.contentSpan.movedRange n
           attributes := b.attributes.map (Attribute.moved n) }

/-- A style block that is moved. -/
def StyleBlock.moved (s : StyleBlock) : StyleBlock := { s with block := s.block.moved n }

theorem attribute?_moved (b : Block) (name : String) :
    (b.moved n).attribute? name = (b.attribute? name).map (Attribute.moved n) := by
  rw [Block.attribute?, Block.attribute?, Block.moved, List.find?_map]
  rfl

theorem ofBlock_moved (b : Block) :
    StyleBlock.ofBlock (b.moved n) = (StyleBlock.ofBlock b).moved n := by
  rw [StyleBlock.ofBlock, StyleBlock.ofBlock, Block.hasAttribute, Block.hasAttribute,
    attribute?_moved, attribute?_moved, Option.isSome_map, Option.map_map]
  rfl

/-- Without padding, a block that is moved is padded as it is where it came from. -/
theorem padded_moved (raw : RawBlock) (source file : List Char) :
    (raw.moved n).padded file .none = (raw.padded source .none).moved n := by
  rw [RawBlock.padded, RawBlock.padded, paddingText_none, paddingText_none]
  simp only [RawBlock.moved, Cursor.moved, Block.moved, Span.movedRange_ofRange,
    Nat.add_sub_add_right]

/-- The issue that a block is a duplicate. -/
def duplicate (b : Block) : PlacedIssue := ⟨.duplicateBlock b.tag, b.span⟩

/-- What a file consists of whose rest is read alone as `alone`: its own template, and the other
blocks and the issues of the rest, moved.  A template of the rest is a duplicate. -/
structure IsBehindTemplate (t : Block) (alone whole : Extraction) : Prop where
  template : whole.descriptor.template = some t
  script : whole.descriptor.script = alone.descriptor.script.map (Block.moved n)
  styles : whole.descriptor.styles = alone.descriptor.styles.map (StyleBlock.moved n)
  custom : whole.descriptor.custom = alone.descriptor.custom.map (Block.moved n)
  issues : ∃ before after, alone.issues = before ++ after ∧
    whole.issues = (before ++ alone.descriptor.template.toList.map duplicate ++ after).map
      (PlacedIssue.moved n)

namespace IsBehindTemplate

variable {n} {t : Block} {alone whole : Extraction}

theorem addIssue (h : IsBehindTemplate n t alone whole) (found : PlacedIssue) :
    IsBehindTemplate n t { alone with issues := alone.issues ++ [found] }
      { whole with issues := whole.issues ++ [found.moved n] } := by
  obtain ⟨before, after, halone, hwhole⟩ := h.issues
  refine ⟨h.template, h.script, h.styles, h.custom, before, after ++ [found], ?_, ?_⟩
  · rw [halone, List.append_assoc]
  · dsimp only
    rw [hwhole, ← List.append_assoc, ← List.map_singleton, ← List.map_append]

/-- **A further block is sorted in** as it is alone, but a template is a duplicate. -/
theorem addBlock (h : IsBehindTemplate n t alone whole) (b : Block) :
    IsBehindTemplate n t (alone.addBlock b) (whole.addBlock (b.moved n)) := by
  have hduplicate := h.addIssue (duplicate b)
  have htag : (b.moved n).tag = b.tag := rfl
  unfold Extraction.addBlock
  rw [htag]
  dsimp only
  split
  · have hsome : whole.descriptor.template.isSome = true := by rw [h.template]; rfl
    rw [hsome]
    cases htemplate : alone.descriptor.template with
    | some first => exact hduplicate
    | none =>
      -- Alone, the first template is none too many.
      obtain ⟨before, after, halone, hwhole⟩ := h.issues
      rw [htemplate, Option.toList_none, List.map_nil, List.append_nil, ← halone] at hwhole
      refine ⟨h.template, h.script, h.styles, h.custom, alone.issues, [], ?_, ?_⟩
      · exact (List.append_nil _).symm
      · show whole.issues ++ [_] = (alone.issues ++ [duplicate b] ++ []).map (PlacedIssue.moved n)
        rw [List.append_nil, List.map_append, ← hwhole]
        rfl
  · rw [h.script, Option.isSome_map]
    cases hscript : alone.descriptor.script with
    | some first => exact hduplicate
    | none => exact ⟨h.template, rfl, h.styles, h.custom, h.issues⟩
  · refine ⟨h.template, h.script, ?_, h.custom, h.issues⟩
    show _ ++ [_] = (_ ++ [_]).map (StyleBlock.moved n)
    rw [h.styles, ofBlock_moved, List.map_append]
    rfl
  · refine ⟨h.template, h.script, h.styles, ?_, h.issues⟩
    show _ ++ [_] = (_ ++ [_]).map (Block.moved n)
    rw [h.custom, List.map_append]
    rfl

/-- **What is found behind a template is sorted in** as it is alone. -/
theorem foldl_add {source file : List Char} (found : List Finding)
    (h : IsBehindTemplate n t alone whole) :
    IsBehindTemplate n t (found.foldl (Extraction.add source .none) alone)
      ((found.map (Finding.moved n)).foldl (Extraction.add file .none) whole) := by
  induction found generalizing alone whole with
  | nil => exact h
  | cons finding found ih =>
    rw [List.map_cons, List.foldl_cons, List.foldl_cons]
    refine ih ?_
    cases finding with
    | issue found => exact h.addIssue found
    | block raw =>
      show IsBehindTemplate n t (alone.addBlock (raw.padded source .none))
        (whole.addBlock ((raw.moved n).padded file .none))
      rw [padded_moved n raw source file]
      exact h.addBlock _

end IsBehindTemplate

/-- **What a file consists of that begins with a template**: the template, whose content is the
forest in it, and what follows it as it is alone. -/
theorem extract_template (t : TemplateText) (rest : List Char) :
    IsBehindTemplate (byteLength t.written) t.block (extract .none rest)
      (extract .none (t.written ++ rest)) := by
  have hblock : (t.raw rest).padded (t.written ++ rest) .none = t.block := by
    rw [RawBlock.padded, paddingText_none]
    simp only [TemplateText.raw, Nat.add_sub_cancel_left, upTo_append]
    rfl
  have hstart : Extraction.add (t.written ++ rest) .none ⟨Descriptor.empty, []⟩
      (.block (t.raw rest)) = ⟨{ Descriptor.empty with template := some t.block }, []⟩ := by
    have hname : lowerCase t.block.tag = "template" := beq_iff_eq.mp t.isTemplate
    rw [Extraction.add, hblock, Extraction.addBlock, hname]
    rfl
  rw [extract, extract, findings_template, List.foldl_cons, hstart]
  refine IsBehindTemplate.foldl_add (findings rest) ?_
  exact ⟨rfl, rfl, rfl, rfl, [], [], rfl, rfl⟩

/-- A template in a template, with a paragraph that nothing closes and a raw text. -/
example :
    (TemplateText.mk ⟨⟨'t', "emplate".toList, by decide, by decide⟩, [], .none⟩
      (.element ⟨⟨'t', "emplate".toList, by decide, by decide⟩, [], .none⟩ (by decide)
        (.piece (.unclosed ⟨⟨'p', [], by decide, by decide⟩, [], .none⟩ (by decide) (by decide))
          .nil)
        (.piece (.raw ⟨⟨'s', "tyle".toList, by decide, by decide⟩, [], .none⟩
          "</template>".toList (by decide) (by decide)) .nil))
      (by decide)).written
      = ("<template>" ++ "<template><p></template><style></template></style>"
          ++ "</template>").toList := by
  decide

end SingleFile.Markup
