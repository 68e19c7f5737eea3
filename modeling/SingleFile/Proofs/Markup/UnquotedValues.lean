/-
  SingleFile.Proofs.Markup.UnquotedValues — VALUES WITHOUT QUOTES
  ───────────────────────────────────────────────────────────────
  A value may be written without quotes, up to the next blank.  It is read
  whole as long as it could be a name; a slash cuts it, although it may be
  part of a value: what stands in front of the slash is the value then, and
  what stands behind it are attributes of their own.

  Main results:
    * `done_prefix_attributes` — what is complete stays as it is.
    * `namesValue_of_awaiting` — what is awaited is a name, or nothing.
    * `spelled_ne_of_cut` — attributes one of which is cut.
    * `markupAt_entries` — when a start tag is read as it is written.
-/
import Mathlib.Data.List.TakeWhile
import SingleFile.Proofs.Markup.Accounting

namespace SingleFile.Markup

open SingleFile.Text Cursor

variable {tag : Tag} {done : List Attribute} {a : Attribute} {offset : Nat} {rest : List Char}

/-! ## §1. Names and values -/

/-- The name and the value of an attribute that is written. -/
def EntryText.spelled : EntryText → String × Option String
  | ordinary a => (String.ofList a.name, a.value.map fun v => String.ofList v.text)
  | unquoted a _ v => (String.ofList a.name, some (String.ofList v.text))

/-- The name and the value of an attribute that was read. -/
def Attribute.spelled (a : Attribute) : String × Option String := (a.name, a.value)

theorem EntryText.spelled_readAt (offset : Nat) (e : EntryText) :
    (e.readAt offset).spelled = e.spelled := by
  cases e <;> rfl

theorem spelled_entriesReadAt (offset : Nat) (entries : List EntryText) :
    (entriesReadAt offset entries).map Attribute.spelled = entries.map EntryText.spelled := by
  induction entries generalizing offset with
  | nil => rfl
  | cons e entries ih => rw [entriesReadAt, List.map_cons, List.map_cons, ih, e.spelled_readAt]

/-! ## §2. Values that are awaited -/

/-- A token adds to the attributes that are complete. -/
theorem done_suffix_add (s : TagState) (t : Token) : s.done <:+ (s.add t).done := by
  have hvalue : s.done <:+ (s.setValue t).done := by
    unfold TagState.setValue
    split
    · exact List.suffix_cons ..
    · exact List.suffix_refl _
  unfold TagState.add
  split
  · exact List.suffix_refl _
  · split
    · exact hvalue
    · exact List.suffix_append ..
  · split
    · exact hvalue
    · exact List.suffix_refl _
  · split
    · exact hvalue
    · exact List.suffix_refl _
  · exact List.suffix_refl _

/-- **What is complete stays as it is**, whatever is read behind it. -/
theorem done_prefix_attributes (bound : Nat) (tag : Tag) (s : TagState) :
    s.done.reverse <+: (readAttributes tag bound s).attributes := by
  have hnow : s.done.reverse <+: s.attributes :=
    List.reverse_prefix.mpr (List.suffix_append ..)
  induction bound generalizing tag s with
  | zero => exact hnow
  | succ bound ih =>
    unfold readAttributes
    dsimp only
    split
    · exact hnow
    · exact hnow
    · exact hnow
    · exact hnow
    · exact hnow
    · exact (List.reverse_prefix.mpr (done_suffix_add s _)).trans
        (ih _ _ (List.reverse_prefix.mpr (List.suffix_append ..)))

/-- Whether some attributes are those that were complete, and one behind them whose value is a name,
if it has a value. -/
def NamesValue (done attributes : List Attribute) : Prop :=
  ∃ (a : Attribute) (later : List Attribute), attributes = done.reverse ++ a :: later ∧
    ∀ value, a.value = some value → ∀ c ∈ value.toList, isNameChar c = true

/-- An attribute that is complete stays the one behind those that were complete before. -/
theorem namesValue_of_done {s : TagState} (hs : s.done = a :: done)
    (ha : ∀ value, a.value = some value → ∀ c ∈ value.toList, isNameChar c = true) :
    NamesValue done (attributesAt tag s).attributes := by
  obtain ⟨later, hlater⟩ := done_prefix_attributes (tag.behind.rest.length + 1) tag s
  rw [hs, List.reverse_cons, List.append_assoc] at hlater
  exact ⟨a, later, hlater.symm, ha⟩

/-- A name in front of which the value of an attribute was awaited is this value. -/
theorem namesValue_of_name (blanks : Blanks) {c : Char} {cs : List Char} (hc : isNameChar c = true)
    (hbehind : tag.behind = ⟨offset, blanks.text ++ c :: cs⟩) :
    NamesValue done (attributesAt tag ⟨done, some a, true⟩).attributes := by
  have hparts : c :: cs = (c :: cs.takeWhile isNameChar) ++ cs.dropWhile isNameChar := by
    rw [List.cons_append, List.takeWhile_append_dropWhile]
  have htoken : nextToken tag.behind =
      (⟨.name, offset + byteLength blanks.text, c :: cs.takeWhile isNameChar⟩,
        ⟨offset + byteLength blanks.text + byteLength (c :: cs.takeWhile isNameChar),
          cs.dropWhile isNameChar⟩) := by
    rw [hbehind, hparts]
    refine nextToken_written blanks _ ⟨c, _, rfl, isAsciiBlank_of_isNameChar hc⟩ ?_
    rw [← hparts]
    exact tokenAt_of_isNameChar hc cs
  rw [attributesAt_add htoken rfl]
  refine namesValue_of_done rfl fun value hvalue => ?_
  obtain rfl := Option.some.inj hvalue
  rw [String.toList_ofList]
  exact List.forall_mem_cons.mpr ⟨hc, fun d hd => List.mem_takeWhile_imp hd⟩

/-- A slash that does not close the tag is passed over. -/
theorem attributesAt_slash {d : Char} {cs : List Char} {s : TagState} (hd : d ≠ '>')
    (hbehind : tag.behind = ⟨offset, '/' :: d :: cs⟩) :
    attributesAt tag s = attributesAt { tag with behind := ⟨offset + 1, d :: cs⟩ } s := by
  have htoken : nextToken tag.behind = (⟨.slash, offset, ['/']⟩, ⟨offset + 1, d :: cs⟩) := by
    rw [hbehind]
    refine nextToken_written .none ['/'] ⟨'/', [], rfl, by decide⟩ ?_
    show tokenAt ('/' :: d :: cs) = _
    unfold tokenAt
    simp [hd]
  have hlength : (d :: cs).length < tag.behind.rest.length := by rw [hbehind]; simp
  unfold attributesAt
  rw [readAttributes, htoken]
  exact readAttributes_bound hlength (Nat.lt_succ_self _)

/-- **A value that was awaited is a name**, or there is none: the slashes in front of it are passed
over, and what follows them is read instead. -/
theorem namesValue_of_awaiting {value : List Char} (hvalue : ∀ c ∈ value, isUnquotedChar c = true)
    (hblank : ∃ c cs, rest = c :: cs ∧ isAsciiBlank c = true) (hopen : tag.isSelfClosing = false)
    (hrest : ∀ (tag : Tag) (offset : Nat), tag.isSelfClosing = false →
      tag.behind = ⟨offset, rest⟩ →
      NamesValue done (attributesAt tag ⟨done, some a, true⟩).attributes)
    (hbehind : tag.behind = ⟨offset, value ++ rest⟩) :
    NamesValue done (attributesAt tag ⟨done, some a, true⟩).attributes := by
  induction value generalizing tag offset with
  | nil => exact hrest tag offset hopen hbehind
  | cons c value ih =>
    obtain ⟨hc, hlater⟩ := List.forall_mem_cons.mp hvalue
    cases hname : isNameChar c with
    | true => exact namesValue_of_name .none hname hbehind
    | false =>
      obtain rfl : c = '/' := by
        rw [isNameChar_eq, hc, Bool.true_and] at hname
        simpa using hname
      -- What follows the slash is part of the value or a blank, so the slash closes no tag.
      obtain ⟨d, ds, hds, hd⟩ : ∃ d ds, value ++ rest = d :: ds ∧ d ≠ '>' := by
        cases value with
        | nil =>
          obtain ⟨d, ds, rfl, hblank⟩ := hblank
          refine ⟨d, ds, rfl, ?_⟩
          rintro rfl
          exact absurd hblank (by decide)
        | cons d ds =>
          refine ⟨d, ds ++ rest, rfl, ?_⟩
          rintro rfl
          exact absurd (hlater '>' (List.mem_cons_self ..)) (by decide)
      rw [List.cons_append, hds] at hbehind
      rw [attributesAt_slash hd hbehind]
      exact ih hlater hopen (by rw [hds])

/-- **What stands behind a value** gives it a name, or ends the tag. -/
theorem namesValue_of_entries {entries : List EntryText} {blanks : Blanks} {isSelfClosing : Bool}
    (ha : a.value = none) (hopen : tag.isSelfClosing = false)
    (hbehind : tag.behind = ⟨offset, entries.flatMap EntryText.written
      ++ (blanks.text ++ (closingBracket isSelfClosing ++ rest))⟩) :
    NamesValue done (attributesAt tag ⟨done, some a, true⟩).attributes := by
  have hname (b : AttributeText) {more : List Char}
      (hbehind : tag.behind = ⟨offset, b.written ++ more⟩) :
      NamesValue done (attributesAt tag ⟨done, some a, true⟩).attributes := by
    obtain ⟨c, cs, hcs⟩ := List.exists_cons_of_ne_nil b.name_ne_nil
    have hc : isNameChar c = true := b.isName c (by rw [hcs]; exact List.mem_cons_self ..)
    rw [AttributeText.written, hcs, List.append_assoc, List.append_assoc] at hbehind
    exact namesValue_of_name b.blanks hc hbehind
  cases entries with
  | nil =>
    rw [attributesAt_closingBracket tag _ blanks isSelfClosing hopen hbehind]
    refine ⟨a, [], ?_, fun value hvalue => ?_⟩
    · exact List.reverse_cons
    · rw [ha] at hvalue
      exact absurd hvalue (by simp)
  | cons e entries =>
    rw [List.flatMap_cons, List.append_assoc] at hbehind
    cases e with
    | ordinary b => exact hname b hbehind
    | unquoted b isBare v =>
      rw [EntryText.written, List.append_assoc] at hbehind
      exact hname b hbehind

/-! ## §3. Values that are cut -/

/-- A blank stands behind the last attribute of a tag, if its value is without quotes. -/
theorem exists_blank_behind {e : EntryText} {entries : List EntryText} {blanks : Blanks}
    (hblanks : (e :: entries).getLast?.any EntryText.isUnquoted = true → blanks.text ≠ [])
    (he : e.isUnquoted = true) (rest : List Char) :
    ∃ c cs, entries.flatMap EntryText.written ++ (blanks.text ++ rest) = c :: cs ∧
      isAsciiBlank c = true := by
  cases entries with
  | nil =>
    obtain ⟨c, cs, hcs⟩ := List.exists_cons_of_ne_nil (hblanks he)
    refine ⟨c, cs ++ rest, by rw [hcs]; rfl, blanks.isBlank c ?_⟩
    rw [hcs]
    exact List.mem_cons_self ..
  | cons e' entries =>
    rw [List.flatMap_cons, List.append_assoc]
    exact e'.exists_blank _

/-- **A value without quotes is read as a name**, or not at all, whatever stands behind it. -/
theorem namesValue_of_unquoted {b : AttributeText} {isBare : b.value = none} {v : UnquotedValue}
    {entries : List EntryText} {blanks : Blanks} {isSelfClosing : Bool}
    (hblanks : (EntryText.unquoted b isBare v :: entries).getLast?.any EntryText.isUnquoted = true →
      blanks.text ≠ [])
    (hopen : tag.isSelfClosing = false) {s : TagState} (hs : s.awaiting = false)
    (hbehind : tag.behind = ⟨offset, (EntryText.unquoted b isBare v).written
      ++ (entries.flatMap EntryText.written
        ++ (blanks.text ++ (closingBracket isSelfClosing ++ rest)))⟩) :
    NamesValue (s.pending.toList ++ s.done) (attributesAt tag s).attributes := by
  rw [EntryText.written, AttributeText.written_of_bare isBare, List.append_assoc,
    List.append_assoc, List.cons_append] at hbehind
  rw [attributesAt_name b hs hbehind (by decide), attributesAt_equals rfl]
  refine namesValue_of_awaiting v.isUnquoted (exists_blank_behind hblanks rfl _) hopen ?_ rfl
  exact fun _ _ hopen hbehind => namesValue_of_entries rfl hopen hbehind

/-- **Attributes one of which is cut by a slash are not read as they are written.** -/
theorem spelled_ne_of_cut (tag : Tag) {entries : List EntryText}
    (hcut : ∃ e ∈ entries, e.isUncut = false) {blanks : Blanks} {isSelfClosing : Bool}
    (hblanks : entries.getLast?.any EntryText.isUnquoted = true → blanks.text ≠ [])
    (hopen : tag.isSelfClosing = false) {s : TagState} (hs : s.awaiting = false)
    (hbehind : tag.behind = ⟨offset, entries.flatMap EntryText.written
      ++ (blanks.text ++ (closingBracket isSelfClosing ++ rest))⟩) :
    (attributesAt tag s).attributes.map Attribute.spelled
      ≠ s.attributes.map Attribute.spelled ++ entries.map EntryText.spelled := by
  induction entries generalizing tag s offset with
  | nil => exact absurd hcut (by simp)
  | cons e entries ih =>
    rw [List.flatMap_cons, List.append_assoc] at hbehind
    cases he : e.isUncut with
    | true =>
      -- The attribute is read, and one farther on is cut.
      have hlater : ∃ e ∈ entries, e.isUncut = false := by simpa [he] using hcut
      have hlast : entries.getLast?.any EntryText.isUnquoted = true → blanks.text ≠ [] := by
        intro hlast
        refine hblanks ?_
        cases entries with
        | nil => exact absurd hlast (by simp)
        | cons e' entries => rwa [List.getLast?_cons_cons]
      have hdelimits := delimits_entries entries
        (delimits_blanks blanks (delimits_closingBracket isSelfClosing rest))
      obtain ⟨s', hs', hattributes, hread⟩ := attributesAt_entry he tag hs hbehind hdelimits
      have hih := ih { tag with behind := ⟨offset + byteLength e.written, _⟩ } hlater hlast hopen
        hs' rfl
      rwa [hattributes, List.map_append, List.map_singleton, e.spelled_readAt,
        List.append_assoc, List.singleton_append, ← List.map_cons, ← hread] at hih
    | false =>
      cases e with
      | ordinary b => exact absurd he (by simp [EntryText.isUncut])
      | unquoted b isBare v =>
        obtain ⟨a, later, hattributes, hvalue⟩ := namesValue_of_unquoted hblanks hopen hs hbehind
        rw [hattributes, List.map_append]
        intro heq
        -- Both go on behind what was read before, so the value would be a name.
        have hspelled := (List.cons.inj (List.append_cancel_left heq)).1
        have hread : a.value = some (String.ofList v.text) := congrArg Prod.snd hspelled
        have hslash : '/' ∈ v.text := by simpa [EntryText.isUncut] using he
        exact absurd (hvalue _ hread '/' (by rwa [String.toList_ofList])) (by decide)

/-! ## §4. Start tags -/

/-- **When a start tag is read as it is written**: it is always read as a tag, and with the names
and values of its attributes, in order, exactly if no slash stands in a value without quotes.  Then
all of it is read as it is written, with the spans of its attributes and what stands behind it. -/
theorem markupAt_entries (t : EntryTag) (isSelfClosing : Bool) (offset : Nat) (rest : List Char) :
    ∃ tag, markupAt ⟨offset, t.written isSelfClosing ++ rest⟩ = .tag tag ∧
      (tag.attributes.map Attribute.spelled = t.entries.map EntryText.spelled ↔
        ∀ e ∈ t.entries, e.isUncut = true) ∧
      ((∀ e ∈ t.entries, e.isUncut = true) → tag = t.readAt offset isSelfClosing rest) := by
  have hread := readTag?_inside t isSelfClosing offset rest
  have hwhole (huncut : ∀ e ∈ t.entries, e.isUncut = true) :=
    Option.some.inj (hread.symm.trans (readTag?_entryTag t huncut isSelfClosing offset rest))
  refine ⟨_, markupAt_of_isAlpha t.name.isLetter hread,
    ⟨fun hspelled => ?_, fun huncut => ?_⟩, hwhole⟩
  · by_contra hcut
    have hexists : ∃ e ∈ t.entries, e.isUncut = false := by simpa using hcut
    exact spelled_ne_of_cut _ hexists t.blanks_ne_nil rfl (s := .start) rfl
      (congrArg (Cursor.mk _) (List.append_assoc ..)) hspelled
  · rw [hwhole huncut]
    exact spelled_entriesReadAt _ _

/-- A script with a value that two slashes cut. -/
def slashedTag : EntryTag where
  name := ⟨'s', "cript".toList, by decide, by decide⟩
  entries := [.unquoted ⟨⟨[' '], by decide⟩, "src".toList, none, by decide, by decide, by decide⟩
    rfl ⟨"./a/b.js".toList, by decide, by decide⟩]
  blanks := ⟨[' '], by decide⟩
  blanks_ne_nil := by decide

/-- The file of that script is what stands in front of the first slash. -/
theorem slashedTag_readInParts :
    slashedTag.written false = "<script src=./a/b.js >".toList ∧
      slashedTag.entries.map EntryText.spelled = [("src", some "./a/b.js")] ∧
      (readTag? ⟨0, slashedTag.written false ++ "</script>".toList⟩).map
        (fun tag => tag.attributes.map Attribute.spelled)
        = some [("src", some "."), ("a", none), ("b.js", none)] ∧
      (extract .none (slashedTag.written false ++ "</script>".toList)).descriptor.script.bind
        Block.src? = some "." := by
  decide

end SingleFile.Markup
