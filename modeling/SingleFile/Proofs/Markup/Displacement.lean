/-
  SingleFile.Proofs.Markup.Displacement — THE SAME TEXT FARTHER ON
  ────────────────────────────────────────────────────────────────
  A reader of markup looks at the characters behind its place only.  What it
  reads from the same characters farther on in a file is the same, with all
  offsets moved by the same number of bytes.

  Main results:
    * `markupAt_moved` — what begins at a place that is moved.
    * `scanStep?_moved` — one step of a scan that is moved.  The step.
    * `findingsFrom_moved` — the findings of a scan that is moved.  The run.
-/
import SingleFile.Proofs.Markup.Progress

namespace SingleFile.Text

/-! ## §1. Places that are moved -/

/-- A span that is moved. -/
def Span.moved (n : Nat) (s : Span) : Span := ⟨s.start + n, s.stop + n⟩

/-- A span of a range that is moved; offsets behind the largest one become it. -/
def Span.movedRange (n : Nat) (s : Span) : Span := Span.ofRange (s.start + n) (s.stop + n)

theorem Span.movedRange_ofRange (n start stop : Nat) :
    (Span.ofRange start stop).movedRange n = Span.ofRange (start + n) (stop + n) := by
  simp only [Span.movedRange, Span.ofRange, Span.mk.injEq]
  omega

theorem Span.cover_moved (n : Nat) (a b : Span) :
    (a.moved n).cover (b.moved n) = (a.cover b).moved n := by
  simp only [Span.moved, Span.cover, Span.mk.injEq]
  omega

namespace Cursor

/-- A place that is moved: the same characters, so many bytes farther on. -/
def moved (n : Nat) (c : Cursor) : Cursor := ⟨c.offset + n, c.rest⟩

variable (n : Nat) (c : Cursor)

@[simp] theorem rest_moved : (c.moved n).rest = c.rest := rfl

theorem next_moved : (c.moved n).next = c.next.moved n := by
  obtain ⟨offset, rest⟩ := c
  cases rest with
  | nil => rfl
  | cons ch cs => simp [moved, next, Nat.add_right_comm]

theorem skip_moved (count : Nat) : (c.moved n).skip count = (c.skip count).moved n := by
  induction count generalizing c with
  | zero => rfl
  | succ count ih => rw [skip, skip, next_moved, ih]

theorem toEnd_moved : (c.moved n).toEnd = c.toEnd.moved n := by
  simp [moved, toEnd, Nat.add_right_comm]

theorem overWhile_moved (test : Char → Bool) :
    (c.moved n).overWhile test = ((c.overWhile test).1, (c.overWhile test).2.moved n) := by
  simp [moved, overWhile, Nat.add_right_comm]

theorem find?_moved (needle : List Char) :
    (c.moved n).find? needle = (c.find? needle).map (moved n) := by
  obtain ⟨offset, text⟩ := c
  simp only [find?, moved]
  induction text generalizing offset with
  | nil =>
    rw [findFrom?, findFrom?]
    split <;> rfl
  | cons ch cs ih =>
    rw [findFrom?, findFrom?]
    split
    · rfl
    · rw [Nat.add_right_comm, ih]

theorem behindNext_moved (needle : List Char) :
    (c.moved n).behindNext needle = (c.behindNext needle).moved n := by
  rw [behindNext, behindNext, find?_moved]
  cases c.find? needle with
  | none => exact toEnd_moved n c
  | some found => exact skip_moved n found _

end Cursor

end SingleFile.Text

namespace SingleFile.Markup

open SingleFile.Text Cursor

variable (n : Nat)

/-! ## §2. Tags -/

/-- A token that is moved. -/
def Token.moved (t : Token) : Token := { t with start := t.start + n }

/-- An attribute that is moved. -/
def Attribute.moved (a : Attribute) : Attribute := { a with span := a.span.moved n }

/-- What has been read of a tag that is moved. -/
def TagState.moved (s : TagState) : TagState :=
  ⟨s.done.map (Attribute.moved n), s.pending.map (Attribute.moved n), s.awaiting⟩

/-- A tag that is moved. -/
def Tag.moved (tag : Tag) : Tag :=
  { tag with start := tag.start + n
             attributes := tag.attributes.map (Attribute.moved n)
             behind := tag.behind.moved n }

theorem nextToken_moved (c : Cursor) :
    nextToken (c.moved n) = ((nextToken c).1.moved n, (nextToken c).2.moved n) := by
  unfold nextToken
  rw [overWhile_moved]
  simp [Token.moved, Cursor.moved, Nat.add_right_comm]

theorem Token.span_moved (t : Token) : (t.moved n).span = t.span.moved n := by
  simp [Token.moved, Token.span, Token.stop, Span.moved, Nat.add_right_comm]

theorem TagState.attributes_moved (s : TagState) :
    (s.moved n).attributes = s.attributes.map (Attribute.moved n) := by
  cases hpending : s.pending <;> simp [TagState.moved, TagState.attributes, hpending]

theorem TagState.setValue_moved (s : TagState) (t : Token) :
    (s.moved n).setValue (t.moved n) = (s.setValue t).moved n := by
  obtain ⟨done, pending, awaiting⟩ := s
  cases pending with
  | none => rfl
  | some a =>
    simp only [TagState.moved, TagState.setValue, Option.map_some, Token.span_moved,
      Attribute.moved, Span.cover_moved, List.map_cons, Option.map_none]
    rfl

theorem TagState.add_moved (s : TagState) (t : Token) :
    (s.moved n).add (t.moved n) = (s.add t).moved n := by
  have hset := s.setValue_moved n t
  have hkind : (t.moved n).kind = t.kind := rfl
  have hawaiting : (s.moved n).awaiting = s.awaiting := rfl
  unfold TagState.add
  rw [hkind, hawaiting, hset, Token.span_moved]
  split
  · cases hpending : s.pending <;> simp [TagState.moved, hpending]
  · split
    · rfl
    · cases hpending : s.pending <;>
        simp [TagState.moved, Token.moved, Attribute.moved, hpending]
  · split <;> rfl
  · split <;> rfl
  · rfl

theorem readAttributes_moved (tag : Tag) (bound : Nat) (s : TagState) :
    readAttributes (tag.moved n) bound (s.moved n) = (readAttributes tag bound s).moved n := by
  induction bound generalizing tag s with
  | zero =>
    rw [readAttributes, readAttributes, TagState.attributes_moved]
    rfl
  | succ bound ih =>
    have hbroken : readAttributes.broken (tag.moved n) (s.moved n)
        = (readAttributes.broken tag s).moved n := by
      simp only [readAttributes.broken, TagState.attributes_moved, Tag.moved, overWhile_moved]
    have htoken : nextToken (tag.moved n).behind
        = ((nextToken tag.behind).1.moved n, (nextToken tag.behind).2.moved n) :=
      nextToken_moved n tag.behind
    rw [readAttributes, readAttributes, htoken]
    dsimp only
    rw [show ((nextToken tag.behind).1.moved n).kind = (nextToken tag.behind).1.kind from rfl,
        TagState.attributes_moved, hbroken, TagState.add_moved]
    split
    · rfl
    · rfl
    · rfl
    · rfl
    · rfl
    · exact ih { tag with behind := (nextToken tag.behind).2 } _

theorem readTag?_moved (c : Cursor) : readTag? (c.moved n) = (readTag? c).map (Tag.moved n) := by
  have hread : ∀ (isEnd : Bool) (name : String) (behind : Cursor) (bound : Nat),
      readAttributes ⟨name, c.offset + n, isEnd, false, false, [], behind.moved n⟩ bound
          TagState.start
        = (readAttributes ⟨name, c.offset, isEnd, false, false, [], behind⟩ bound
            TagState.start).moved n := by
    intro isEnd name behind bound
    exact readAttributes_moved n ⟨name, c.offset, isEnd, false, false, [], behind⟩ bound
      TagState.start
  rw [readTag?, readTag?, nextToken_moved]
  dsimp only
  rw [show ((nextToken c).1.moved n).kind = (nextToken c).1.kind from rfl]
  split
  · exact congrArg some (hread ..)
  · exact congrArg some (hread ..)
  · rfl

/-- What begins at a place that is moved. -/
def Opening.moved : Opening → Opening
  | .skipped behind => .skipped (behind.moved n)
  | .openComment span behind => .openComment (span.movedRange n) (behind.moved n)
  | .tag t => .tag (t.moved n)
  | .text => .text

/-- **What begins at a place that is moved.** -/
theorem markupAt_moved (c : Cursor) : markupAt (c.moved n) = (markupAt c).moved n := by
  have hat : ∀ text, (c.moved n).isAt text = c.isAt text := fun _ => rfl
  rw [markupAt, markupAt, hat, hat, hat, skip_moved, find?_moved, toEnd_moved, behindNext_moved,
    readTag?_moved]
  split
  · cases (c.skip 4).find? ['-', '-', '>'] with
    | none => exact congrArg (Opening.openComment · _) (Span.movedRange_ofRange n _ _).symm
    | some found => exact congrArg Opening.skipped (skip_moved n found 3)
  · split
    · rfl
    · cases readTag? c <;> rfl

/-! ## §3. The ends of blocks -/

/-- An end tag that is moved. -/
def EndTag.moved (e : EndTag) : EndTag := ⟨e.start + n, e.behind.moved n⟩

theorem afterName?_moved (name : List Char) (c : Cursor) :
    afterName? name (c.moved n) = (afterName? name c).map (Cursor.moved n) := by
  induction name generalizing c with
  | nil => rfl
  | cons ch chs ih =>
    rw [afterName?, afterName?, rest_moved, next_moved]
    split
    · rfl
    · split
      · exact ih _
      · rfl

theorem rawTextEnd?_moved (name : List Char) (bound : Nat) (c : Cursor) :
    rawTextEnd? name bound (c.moved n) = (rawTextEnd? name bound c).map (EndTag.moved n) := by
  induction bound generalizing c with
  | zero => rfl
  | succ bound ih =>
    rw [rawTextEnd?, rawTextEnd?, find?_moved]
    cases c.find? ['<', '/'] with
    | none => rfl
    | some found =>
      have hfilter : ((afterName? name (found.skip 2)).map (Cursor.moved n)).filter endsName
          = ((afterName? name (found.skip 2)).filter endsName).map (Cursor.moved n) := by
        cases afterName? name (found.skip 2) with
        | none => rfl
        | some behind =>
          rw [Option.map_some, Option.filter_some, Option.filter_some,
            show endsName (behind.moved n) = endsName behind from rfl]
          split <;> rfl
      dsimp only [Option.map_some]
      rw [skip_moved, afterName?_moved, hfilter]
      cases (afterName? name (found.skip 2)).filter endsName with
      | none => exact ih _
      | some behind =>
        dsimp only [Option.map_some, EndTag.moved]
        rw [behindNext_moved]
        rfl

theorem findRawTextEnd_moved (name : String) (c : Cursor) :
    findRawTextEnd name (c.moved n) = (findRawTextEnd name c).map (EndTag.moved n) :=
  rawTextEnd?_moved n name.toList _ c

/-! ## §4. Findings -/

/-- A block that is moved. -/
def RawBlock.moved (raw : RawBlock) : RawBlock :=
  { raw with attributes := raw.attributes.map (Attribute.moved n)
             start := raw.start + n
             content := raw.content.moved n
             contentStop := raw.contentStop + n
             stop := raw.stop + n }

/-- An issue that is moved. -/
def PlacedIssue.moved (found : PlacedIssue) : PlacedIssue :=
  { found with span := found.span.movedRange n }

/-- A finding that is moved. -/
def Finding.moved : Finding → Finding
  | .block raw => .block (raw.moved n)
  | .issue found => .issue (found.moved n)

/-- A step of the scan of a template that is moved. -/
def TemplateStep.moved : TemplateStep → TemplateStep
  | .ends ending => .ends (ending.map (EndTag.moved n))
  | .goesOn behind opened => .goesOn (behind.moved n) opened

theorem brokenTag_moved (tag : Tag) :
    brokenTag (tag.moved n) = (brokenTag tag).map (Finding.moved n) := by
  rw [brokenTag, brokenTag, show (tag.moved n).isBroken = tag.isBroken from rfl]
  split
  · exact congrArg (fun span => [Finding.issue ⟨.unclosedTag tag.name, span⟩])
      (Span.movedRange_ofRange n _ _).symm
  · rfl

theorem templateTag_moved (start : Nat) (tag : Tag) (opened : List String) :
    templateTag (start + n) (tag.moved n) opened = (templateTag start tag opened).moved n := by
  rw [templateTag, templateTag, show (tag.moved n).isEnd = tag.isEnd from rfl,
    show (tag.moved n).isSelfClosing = tag.isSelfClosing from rfl,
    show (tag.moved n).name = tag.name from rfl,
    show (tag.moved n).behind = tag.behind.moved n from rfl, findRawTextEnd_moved]
  split
  · cases closeElement tag.name opened with
    | some left => rfl
    | none =>
      dsimp only
      split <;> rfl
  · split
    · rfl
    · split
      · cases findRawTextEnd tag.name tag.behind <;> rfl
      · rfl

theorem templateStep_moved (c : Cursor) (opened : List String) :
    templateStep (c.moved n) opened =
      ((templateStep c opened).1.moved n, (templateStep c opened).2.map (Finding.moved n)) := by
  rw [templateStep, templateStep, find?_moved]
  cases c.find? ['<'] with
  | none => rfl
  | some found =>
    dsimp only [Option.map_some]
    rw [markupAt_moved]
    cases markupAt found with
    | skipped behind => rfl
    | openComment span behind => rfl
    | text => exact congrArg (TemplateStep.goesOn · opened, []) (next_moved n found)
    | tag t =>
      dsimp only [Opening.moved]
      rw [brokenTag_moved]
      exact congrArg (·, _) (templateTag_moved n found.offset t opened)

theorem templateEnd?_moved (bound : Nat) (c : Cursor) (opened : List String) :
    templateEnd? bound (c.moved n) opened =
      ((templateEnd? bound c opened).1.map (EndTag.moved n),
        (templateEnd? bound c opened).2.map (Finding.moved n)) := by
  induction bound generalizing c opened with
  | zero => rfl
  | succ bound ih =>
    rw [templateEnd?_succ, templateEnd?_succ, templateStep_moved]
    obtain ⟨step, found⟩ := templateStep c opened
    cases step with
    | ends ending => rfl
    | goesOn behind left =>
      dsimp only [TemplateStep.moved]
      rw [ih, List.map_append]

theorem blockEnd_moved (tag : Tag) :
    blockEnd (tag.moved n) =
      ((blockEnd tag).1.map (EndTag.moved n), (blockEnd tag).2.map (Finding.moved n)) := by
  rw [blockEnd, blockEnd, show (tag.moved n).isSelfClosing = tag.isSelfClosing from rfl,
    show (tag.moved n).name = tag.name from rfl,
    show (tag.moved n).behind = tag.behind.moved n from rfl, findRawTextEnd_moved]
  split
  · rfl
  · split
    · exact templateEnd?_moved n _ tag.behind []
    · rfl

theorem readBlock_moved (tag : Tag) :
    readBlock (tag.moved n) =
      ((readBlock tag).1.map (Finding.moved n), (readBlock tag).2.moved n) := by
  rw [readBlock, readBlock, blockEnd_moved]
  obtain ⟨ending, found⟩ := blockEnd tag
  cases ending with
  | some ending =>
    dsimp only [Option.map_some]
    rw [List.map_append]
    rfl
  | none =>
    dsimp only [Option.map_none]
    rw [List.map_append, show (tag.moved n).behind = tag.behind.moved n from rfl, toEnd_moved]
    exact congrArg
      (fun span => (_ ++ [Finding.issue ⟨.unclosedBlock tag.name, span⟩], tag.behind.toEnd.moved n))
      (Span.movedRange_ofRange n _ _).symm

/-- **One step of a scan that is moved.** -/
theorem scanStep?_moved (c : Cursor) :
    scanStep? (c.moved n) =
      (scanStep? c).map fun step => (step.1.map (Finding.moved n), step.2.moved n) := by
  rw [scanStep?, scanStep?, find?_moved]
  cases c.find? ['<'] with
  | none => rfl
  | some found =>
    dsimp only [Option.map_some]
    rw [markupAt_moved]
    cases markupAt found with
    | skipped behind => rfl
    | openComment span behind => rfl
    | text => exact congrArg (fun behind => some ([], behind)) (next_moved n found)
    | tag t =>
      dsimp only [Opening.moved]
      rw [brokenTag_moved, readBlock_moved, show (t.moved n).isEnd = t.isEnd from rfl]
      split
      · rfl
      · rw [List.map_append]

/-- **The findings of a scan that is moved.** -/
theorem findingsFrom_moved (bound : Nat) (c : Cursor) :
    findingsFrom bound (c.moved n) = (findingsFrom bound c).map (Finding.moved n) := by
  induction bound generalizing c with
  | zero => rfl
  | succ bound ih =>
    rw [findingsFrom_succ, findingsFrom_succ, scanStep?_moved]
    cases scanStep? c with
    | none => rfl
    | some step =>
      dsimp only [Option.map_some]
      rw [ih, List.map_append]

end SingleFile.Markup
