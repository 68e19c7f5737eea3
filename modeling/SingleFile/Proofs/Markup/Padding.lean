/-
  SingleFile.Proofs.Markup.Padding — PADDED CONTENTS KEEP THEIR PLACES
  ────────────────────────────────────────────────────────────────────
  What is padded by the line has in front of each of its bytes as many line
  feeds as the file has there, so that each byte is on the line it is on in
  the file.  What is padded by the space has, besides, as many characters in
  front.  Whatever the padding, the content itself stays as it is.

  Main results:
    * `exists_parts_of_block` — a found block cuts its file in three.
    * `keepsLines_of_count`, `keepsIndices_of_length` — a padding with as many
      line feeds, or characters, as the text in front of the content.
    * `findings_aligned` — where the content of each block of a component lies
      behind its padding.
-/
import SingleFile.Proofs.Markup.Descriptor
import SingleFile.Proofs.Text.Lines

namespace SingleFile.Markup

open SingleFile.Text Cursor

variable {source before content after front : List Char}

/-! ## §1. The content of a block -/

/-- **A found block cuts its file in three**, and its content is the middle one behind a padding
that depends on what stands in front. -/
theorem exists_parts_of_block {raw : RawBlock} (h : .block raw ∈ findings source) :
    ∃ before content after, source = before ++ (content ++ after) ∧
      raw.content.offset = byteLength before ∧
      raw.contentStop = byteLength before + byteLength content ∧
      ∀ padding, (raw.padded source padding).content
        = padding.text raw.tag (raw.padded source padding).lang? before ++ content := by
  obtain ⟨⟨before, hbefore, hoffset⟩, stop, ⟨content, hcontent, hstop⟩, hstopOffset⟩ :=
    findingsFrom_places h
  have hsource : source = before ++ (content ++ stop.rest) := by rw [← hcontent]; exact hbefore
  have hstart : raw.content.offset = byteLength before := by rw [hoffset]; exact Nat.zero_add _
  have hend : raw.contentStop = byteLength before + byteLength content := by
    rw [← hstopOffset, hstop, hstart]
  refine ⟨before, content, stop.rest, hsource, hstart, hend, fun padding => ?_⟩
  have htaken : upTo raw.content.rest (raw.contentStop - raw.content.offset) = content := by
    rw [hend, hstart, Nat.add_sub_cancel_left, hcontent, upTo_append]
  have hinFront : upTo source raw.content.offset = before := by
    rw [hstart, hsource, upTo_append]
  rw [RawBlock.padded, htaken, hinFront]
  rfl

/-! ## §2. Padding -/

theorem paddingText_template {tag : String} (h : sameName tag "template" = true)
    (padding : Padding) (lang : Option String) (before : List Char) :
    padding.text tag lang before = [] := by
  unfold Padding.text
  rw [if_pos h]

/-- A line of padding is one line, whatever the block. -/
theorem count_paddingLine (tag : String) (lang : Option String) :
    (paddingLine tag lang).count '\n' = 1 := by
  unfold paddingLine
  split <;> rfl

/-- A character is replaced by a line feed exactly if it is one. -/
theorem count_spaces (before : List Char) :
    (before.map fun c => if c == '\n' then '\n' else ' ').count '\n' = before.count '\n' := by
  induction before with
  | nil => rfl
  | cons c before ih =>
    rw [List.map_cons]
    by_cases hfeed : c = '\n'
    · rw [hfeed, beq_self_eq_true, if_pos rfl, List.count_cons_self, List.count_cons_self, ih]
    · rw [beq_eq_false_iff_ne.mpr hfeed, if_neg Bool.false_ne_true,
        List.count_cons_of_ne (by decide), List.count_cons_of_ne hfeed, ih]

/-- **Padding has as many line feeds as the text it stands for.** -/
theorem count_paddingText {tag : String} (h : sameName tag "template" = false) {padding : Padding}
    (hpadding : padding ≠ .none) (lang : Option String) (before : List Char) :
    (padding.text tag lang before).count '\n' = before.count '\n' := by
  unfold Padding.text
  rw [h, if_neg Bool.false_ne_true]
  cases padding with
  | none => exact absurd rfl hpadding
  | lines =>
    dsimp only
    rw [List.count_flatten, List.map_replicate, count_paddingLine, List.sum_replicate_nat,
      Nat.mul_one]
  | spaces => exact count_spaces before

/-- Padding by the space has as many characters as the text it stands for. -/
theorem length_paddingText_spaces {tag : String} (h : sameName tag "template" = false)
    (lang : Option String) (before : List Char) :
    (Padding.spaces.text tag lang before).length = before.length := by
  rw [Padding.text, h, if_neg Bool.false_ne_true]
  exact List.length_map ..

/-! ## §3. Places -/

/-- Whether a content that begins at an offset of a file keeps its lines behind some text: in front
of each of its bytes are as many line feeds as in the file, so it is on the same line. -/
structure KeepsLines (source : List Char) (start : Nat) (content front : List Char) : Prop where
  feeds : ∀ k ≤ byteLength content, (upTo (front ++ content) (byteLength front + k)).count '\n'
    = (upTo source (start + k)).count '\n'
  line : ∀ k ≤ byteLength content, lineNumberAt (front ++ content) (byteLength front + k)
    = lineNumberAt source (start + k)

/-- Whether each character of a content that begins at an offset of a file has the index behind
some text that it has in the file. -/
structure KeepsIndices (source : List Char) (start : Nat) (content front : List Char) : Prop where
  begins : front.length = (upTo source start).length
  char : ∀ i < content.length, (front ++ content)[front.length + i]? = content[i]? ∧
    source[front.length + i]? = content[i]?

/-- A text with as many line feeds as the one it stands for keeps lines. -/
theorem keepsLines_of_count (hsource : source = before ++ (content ++ after))
    (hcount : front.count '\n' = before.count '\n') :
    KeepsLines source (byteLength before) content front := by
  have hfeeds : ∀ k ≤ byteLength content,
      (upTo (front ++ content) (byteLength front + k)).count '\n'
        = (upTo source (byteLength before + k)).count '\n' := by
    intro k hk
    rw [hsource, upTo_append_add, upTo_append_add, upTo_append_of_le hk, List.count_append,
      List.count_append, hcount]
  refine ⟨hfeeds, fun k hk => ?_⟩
  rw [lineNumberAt_eq, lineNumberAt_eq, hfeeds k hk]

/-- A text with as many characters as the one it stands for keeps indices. -/
theorem keepsIndices_of_length (hsource : source = before ++ (content ++ after))
    (hlength : front.length = before.length) :
    KeepsIndices source (byteLength before) content front := by
  have hbefore : upTo source (byteLength before) = before := by rw [hsource, upTo_append]
  refine ⟨by rw [hbefore, hlength], fun i hi => ⟨?_, ?_⟩⟩
  · rw [List.getElem?_append_right (Nat.le_add_right ..), Nat.add_sub_cancel_left]
  · rw [hsource, hlength, List.getElem?_append_right (Nat.le_add_right ..),
      Nat.add_sub_cancel_left, List.getElem?_append_left hi]

/-- Whether the content of a found block lies where it lies in its file, whatever the padding: it
stays as it is behind the padding, on its lines, and with its indices if it is padded by the
space.  A template is not padded. -/
structure RawBlock.IsAligned (source : List Char) (raw : RawBlock) : Prop where
  unpadded : slice? source raw.content.offset raw.contentStop
    = some (raw.padded source .none).content
  template : sameName raw.tag "template" = true → ∀ padding : Padding,
    (raw.padded source padding).content = (raw.padded source .none).content
  lines : sameName raw.tag "template" = false → ∀ padding ≠ Padding.none, ∃ front,
    (raw.padded source padding).content = front ++ (raw.padded source .none).content ∧
      KeepsLines source raw.content.offset (raw.padded source .none).content front ∧
      (padding = .spaces →
        KeepsIndices source raw.content.offset (raw.padded source .none).content front)

/-- **The content of every block keeps its place** behind its padding, that of a duplicate too; and
the blocks of a descriptor are found blocks. -/
theorem findings_aligned (source : List Char) :
    (∀ raw, Finding.block raw ∈ findings source → raw.IsAligned source) ∧
      ∀ padding, ∀ b ∈ (extract padding source).descriptor.blocks,
        ∃ raw, Finding.block raw ∈ findings source ∧ b = raw.padded source padding := by
  refine ⟨fun raw hraw => ?_, fun padding b hb => ?_⟩
  · obtain ⟨before, content, after, hsource, hstart, hstop, hpadded⟩ := exists_parts_of_block hraw
    have hunpadded : (raw.padded source .none).content = content := by
      rw [hpadded, paddingText_none, List.nil_append]
    refine ⟨?_, fun htag padding => ?_, fun htag padding hpadding => ?_⟩
    · rw [hunpadded, hstart, hstop, hsource, ← List.append_assoc]
      exact slice?_append before content after
    · rw [hunpadded, hpadded, paddingText_template htag, List.nil_append]
    · rw [hunpadded, hstart]
      refine ⟨_, hpadded padding, ?_, fun hspaces => ?_⟩
      · exact keepsLines_of_count hsource (count_paddingText htag hpadding ..)
      · subst hspaces
        exact keepsIndices_of_length hsource (length_paddingText_spaces htag ..)
  · rw [descriptor_extract] at hb
    exact exists_raw_of_mem (mem_of_mem_blocks hb)

/-- A style behind a character of two bytes. -/
def styledFile : List Char := "é\r\n<style>\nx</style>".toList

/-- The style of that file. -/
def styledBlock : RawBlock := ⟨"style", [], 4, ⟨11, "\nx</style>".toList⟩, 13, 21⟩

theorem findings_aligned_styledFile :
    Finding.block styledBlock ∈ findings styledFile ∧ styledBlock.IsAligned styledFile ∧
      (styledBlock.padded styledFile .lines).content = "\n\nx".toList ∧
      (styledBlock.padded styledFile .spaces).content = "  \n       \nx".toList := by
  have hfound : Finding.block styledBlock ∈ findings styledFile := by decide
  exact ⟨hfound, (findings_aligned styledFile).1 styledBlock hfound, by decide, by decide⟩

end SingleFile.Markup
