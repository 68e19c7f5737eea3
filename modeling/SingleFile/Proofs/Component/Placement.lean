/-
  SingleFile.Proofs.Component.Placement — WHERE A SCRIPT STANDS IN ITS FILE
  ─────────────────────────────────────────────────────────────────────────
  The script of a component is padded by the line, so each of its lines has
  the number that it has in the component file.

  Main results:
    * `script_of_findings` — the script of a component is a block that the
      scan found.
    * `script_isPlaced` — each line of it is a part of the file's line of the
      same number.
-/
import Mathlib.Algebra.Ring.Nat
import SingleFile.Markup.Extraction
import SingleFile.Proofs.Markup.Padding

namespace SingleFile.Markup

open SingleFile.Text Cursor

/-! ## §1. The script of a component -/

/-- **The script of a component is a block that the scan found.** -/
theorem script_of_findings {source : List Char} {padding : Padding} {b : Block}
    (h : (extract padding source).descriptor.script = some b) :
    ∃ raw, Finding.block raw ∈ findings source ∧ lowerCase raw.tag = "script" ∧
      b = raw.padded source padding := by
  rw [descriptor_extract] at h
  obtain ⟨hb, hname⟩ := List.mem_filter.mp (List.mem_of_mem_head? h)
  obtain ⟨raw, hraw, rfl⟩ := exists_raw_of_mem hb
  exact ⟨raw, hraw, beq_iff_eq.mp hname, rfl⟩

/-! ## §2. Its place -/

/-- The text of a line of padding, without its line feed. -/
def paddingMark (b : Block) : List Char :=
  if b.lang?.isNone then ['/', '/'] else []

/-- The padding of a block behind some text. -/
def linePadding (b : Block) (before : List Char) : List Char :=
  (List.replicate (before.count '\n') (paddingMark b ++ ['\n'])).flatten

/-- A block that stands between two texts of a file, padded by the line: behind the padding, each
of its lines is the part of the file's line of the same number that lies in the block. -/
structure StandsBetween (source before content after : List Char) (b : Block) : Prop where
  source_eq : source = before ++ (content ++ after)
  span_eq : b.contentSpan = ⟨byteLength before, byteLength before + byteLength content⟩
  content_eq : b.content = linePadding b before ++ content
  /-- The lines that the block does not begin in are padding, and nothing stands behind it. -/
  padding : ∀ i < before.count '\n', (lines b.content)[i]? = some (paddingMark b)
  /-- All others are in the file; only the first one may begin, and only the last one may end,
  inside a line of it. -/
  line : ∀ j < (lines content).length, ∃ line, (lines content)[j]? = some line ∧
    (lines b.content)[before.count '\n' + j]? = some line ∧
    (lines source)[before.count '\n' + j]? =
      some ((if j = 0 then lastLine before else []) ++ line
        ++ if j + 1 = (lines content).length then firstLine after else [])
  length_eq : (lines b.content).length = before.count '\n' + (lines content).length

theorem feed_not_mem_paddingMark (b : Block) : '\n' ∉ paddingMark b := by
  unfold paddingMark
  split <;> decide

theorem lines_padded (b : Block) (before content : List Char) :
    lines (linePadding b before ++ content)
      = List.replicate (before.count '\n') (paddingMark b) ++ lines content :=
  lines_replicate (feed_not_mem_paddingMark b) _ content

/-- What is padded by the line stands where it stood in its file. -/
theorem standsBetween_of_padded {source before content after : List Char} {b : Block}
    (hsource : source = before ++ (content ++ after))
    (hspan : b.contentSpan = ⟨byteLength before, byteLength before + byteLength content⟩)
    (hcontent : b.content = linePadding b before ++ content) :
    StandsBetween source before content after b := by
  have hlines : lines b.content
      = List.replicate (before.count '\n') (paddingMark b) ++ lines content := by
    rw [hcontent, lines_padded]
  refine ⟨hsource, hspan, hcontent, fun i hi => ?_, fun j hj => ?_, ?_⟩
  · rw [hlines, List.getElem?_append_left (by rwa [List.length_replicate]),
      List.getElem?_replicate_of_lt hi]
  · have hcount : j ≤ content.count '\n' := by
      rw [length_lines] at hj
      exact Nat.le_of_lt_succ hj
    refine ⟨(lines content)[j], List.getElem?_eq_getElem hj, ?_, ?_⟩
    · rw [hlines, List.getElem?_append_right (by rw [List.length_replicate]; omega),
        List.length_replicate, Nat.add_sub_cancel_left, List.getElem?_eq_getElem hj]
    · rw [hsource, lines_behind, lines_inFront content after hcount, List.getElem?_eq_getElem hj,
        length_lines, Option.map_some, Option.map_some]
      simp only [Nat.add_right_cancel_iff]
      refine congrArg some ?_
      split <;> split <;> simp
  · rw [hlines, List.length_append, List.length_replicate]

/-- **Each line of a script is a part of the file's line of the same number.** -/
theorem script_isPlaced {source : List Char} {b : Block} (hsize : byteLength source < 2 ^ 32)
    (h : (extract .lines source).descriptor.script = some b) :
    ∃ before content after, StandsBetween source before content after b := by
  obtain ⟨raw, hraw, htag, hb⟩ := script_of_findings h
  obtain ⟨before, content, after, hsource, hstart, hend, hpadded⟩ := exists_parts_of_block hraw
  refine ⟨before, content, after, standsBetween_of_padded hsource ?_ ?_⟩
  · rw [hb]
    show Span.ofRange raw.content.offset raw.contentStop = _
    have hwhole : byteLength before + byteLength content ≤ byteLength source := by
      rw [hsource, byteLength_append, byteLength_append]
      omega
    rw [hstart, hend, Span.ofRange, Span.maxOffset, Nat.min_eq_left (by omega),
      Nat.min_eq_left (by omega)]
  · have hname : sameName raw.tag "template" = false := by
      rw [sameName, htag]
      rfl
    have hmark : ∀ lang : Option String, paddingLine raw.tag lang
        = (if lang.isNone then ['/', '/'] else []) ++ ['\n'] := by
      intro lang
      have hscript : sameName raw.tag "script" = true := by
        rw [sameName, htag]
        rfl
      rw [paddingLine, hscript]
      cases lang <;> rfl
    rw [hb, hpadded, Padding.text, hname, hmark]
    rfl

end SingleFile.Markup
