/-
  SingleFile.Proofs.Text.Positions — OFFSETS AND POSITIONS
  ────────────────────────────────────────────────────────
  The index of a text turns an offset into a line and a column, and a line
  into the offset where it starts.  The two undo each other: the start of the
  line of an offset and its column add up to the offset, and an offset taken
  from a line and a column of it has that line and column again.

  The list of line starts ascends, so the line of an offset is found by
  halving that list; an offset that is no start has its line in front of the
  place it would take.

  Main results:
    * `lineStart?_succ_eq_some_iff` — where the lines start.
    * `position_eq_of_between` — what decides the position of an offset.
    * `position_eq_searchPosition` — positions are found by halves.
    * `ofText_isExact` — all of it, for every text and offset.
-/
import SingleFile.Proofs.Ordered
import SingleFile.Proofs.Text.Cuts
import SingleFile.Proofs.Text.Lines

namespace SingleFile.Text

/-- Whether a position comes no later than another one. -/
def Position.NotBehind (a b : Position) : Prop :=
  a.line < b.line ∨ a.line = b.line ∧ a.column ≤ b.column

namespace LineIndex

/-! ## §1. The starts of lines -/

/-- Where all lines start. -/
def starts (index : LineIndex) : List Nat := 0 :: index.laterStarts

/-- Behind each line feed there is a start, and behind nothing else. -/
theorem startsAfter_getElem?_eq_some_iff {text : List Char} {offset n start : Nat} :
    (startsAfter offset text)[n]? = some start ↔
      ∃ front rest, text = front ++ '\n' :: rest ∧ front.count '\n' = n ∧
        offset + byteLength front + 1 = start := by
  have hfeed : ('\n' : Char).utf8Size = 1 := rfl
  induction text generalizing offset n with
  | nil => simp [startsAfter]
  | cons c text ih =>
    by_cases h : c = '\n'
    · subst h
      rw [startsAfter, if_pos rfl, hfeed]
      constructor
      · intro hstart
        cases n with
        | zero => exact ⟨[], text, rfl, rfl, Option.some.inj hstart⟩
        | succ n =>
          obtain ⟨front, rest, rfl, hcount, hlength⟩ := ih.mp hstart
          refine ⟨'\n' :: front, rest, rfl, ?_, ?_⟩
          · rw [List.count_cons_self, hcount]
          · rw [byteLength_cons, hfeed]
            omega
      · rintro ⟨front, rest, htext, rfl, hlength⟩
        cases front with
        | nil => exact congrArg some hlength
        | cons d front =>
          obtain ⟨rfl, rfl⟩ := List.cons.inj htext
          rw [byteLength_cons, hfeed] at hlength
          rw [List.count_cons_self, List.getElem?_cons_succ]
          exact ih.mpr ⟨front, rest, rfl, rfl, by omega⟩
    · rw [startsAfter, if_neg h]
      refine ih.trans ?_
      constructor
      · rintro ⟨front, rest, rfl, hcount, hlength⟩
        refine ⟨c :: front, rest, rfl, ?_, ?_⟩
        · rw [List.count_cons_of_ne h, hcount]
        · rw [byteLength_cons]
          omega
      · rintro ⟨front, rest, htext, hcount, hlength⟩
        cases front with
        | nil => exact absurd (List.cons.inj htext).1 h
        | cons d front =>
          obtain ⟨rfl, rfl⟩ := List.cons.inj htext
          rw [List.count_cons_of_ne h] at hcount
          rw [byteLength_cons] at hlength
          exact ⟨front, rest, rfl, hcount, by omega⟩

/-- **Where the lines start**: each but the first one just behind a line feed. -/
theorem lineStart?_succ_eq_some_iff {text : List Char} {n start : Nat} :
    (ofText text).lineStart? (n + 1) = some start ↔
      ∃ front rest, text = front ++ '\n' :: rest ∧ front.count '\n' = n ∧
        byteLength front + 1 = start := by
  show (startsAfter 0 text)[n]? = some start ↔ _
  rw [startsAfter_getElem?_eq_some_iff]
  simp only [Nat.zero_add]

/-- Lines start one behind the other. -/
theorem startsAfter_increasing (text : List Char) (offset : Nat) :
    (startsAfter offset text).Pairwise (· < ·) := by
  induction text generalizing offset with
  | nil => exact List.Pairwise.nil
  | cons c text ih =>
    rw [startsAfter]
    split
    · exact List.pairwise_cons.mpr ⟨fun next h => lt_of_mem_startsAfter h, ih _⟩
    · exact ih _

/-- The starts of a text's lines ascend, and none is there twice. -/
theorem starts_increasing (text : List Char) : (ofText text).starts.Pairwise (· < ·) :=
  List.pairwise_cons.mpr ⟨fun _ h => lt_of_mem_startsAfter h, startsAfter_increasing text 0⟩

theorem starts_ascending (text : List Char) : (ofText text).starts.Pairwise (· ≤ ·) :=
  (starts_increasing text).imp Nat.le_of_lt

theorem lineStart?_isSome_iff (index : LineIndex) (n : Nat) :
    (index.lineStart? n).isSome ↔ n < index.lineCount := by
  rw [lineStart?, isSome_getElem?, List.length_cons, lineCount]

theorem lineStart?_lt {text : List Char} {i j a b : Nat} (h : i < j)
    (ha : (ofText text).lineStart? i = some a) (hb : (ofText text).lineStart? j = some b) :
    a < b := by
  obtain ⟨hi, rfl⟩ := List.getElem?_eq_some_iff.mp ha
  obtain ⟨hj, rfl⟩ := List.getElem?_eq_some_iff.mp hb
  exact List.pairwise_iff_getElem.mp (starts_increasing text) i j hi hj h

/-- A text has no more line feeds than bytes. -/
theorem count_feed_le (text : List Char) : text.count '\n' ≤ byteLength text := by
  induction text with
  | nil => exact Nat.le_refl _
  | cons c text ih =>
    have hsize := c.utf8Size_pos
    have hcount : (c :: text).count '\n' ≤ text.count '\n' + 1 := by
      rw [List.count_cons]
      split <;> omega
    rw [byteLength_cons]
    omega

/-- No line starts behind the end of the text, and there are no more lines than its bytes make
room for. -/
theorem lineStart?_inText {text : List Char} {n start : Nat}
    (h : (ofText text).lineStart? n = some start) :
    n ≤ byteLength text ∧ start ≤ byteLength text := by
  cases n with
  | zero =>
    obtain rfl : 0 = start := Option.some.inj h
    exact ⟨Nat.zero_le _, Nat.zero_le _⟩
  | succ n =>
    obtain ⟨front, rest, rfl, rfl, rfl⟩ := lineStart?_succ_eq_some_iff.mp h
    have hfeed : ('\n' : Char).utf8Size = 1 := rfl
    have hcount := count_feed_le front
    rw [byteLength_append, byteLength_cons, hfeed]
    omega

/-! ## §2. The position of an offset -/

/-- The last entry that passes is the one whose index is the number of those behind the first. -/
theorem getElem?_length_takeWhile (p : Nat → Bool) (first : Nat) (later : List Nat) :
    (first :: later)[(later.takeWhile p).length]?
      = some ((later.takeWhile p).getLast?.getD first) := by
  induction later generalizing first with
  | nil => rfl
  | cons second later ih =>
    by_cases h : p second
    · rw [List.takeWhile_cons_of_pos h, List.length_cons, List.getElem?_cons_succ, ih,
        List.getLast?_cons, Option.getD_some]
    · rw [List.takeWhile_cons_of_neg h]
      rfl

/-- The lines up to that of an offset are those that start no later. -/
theorem reach_starts (index : LineIndex) (offset : Nat) :
    reach index.starts offset = (index.position offset).line + 1 :=
  reach_cons_of_le (Nat.zero_le offset) index.laterStarts

/-- **The line of an offset starts, and the column goes on from there to the offset.** -/
theorem lineStart?_position (text : List Char) (offset : Nat) :
    ∃ start, (ofText text).lineStart? ((ofText text).position offset).line = some start ∧
      start + ((ofText text).position offset).column = offset := by
  have hstart := getElem?_length_takeWhile (· ≤ offset) 0 (ofText text).laterStarts
  refine ⟨_, hstart, ?_⟩
  have hreach := reach_starts (ofText text) offset
  have hle := (le_iff_lt_reach (starts_ascending text) offset hstart).mpr (by
    rw [hreach]
    exact Nat.lt_succ_self _)
  exact Nat.add_sub_of_le hle

/-- **What decides the position of an offset**: the line that starts at or before it, with no
other start up to the offset behind that one. -/
theorem position_eq_of_between {text : List Char} {n start column : Nat}
    (h : (ofText text).lineStart? n = some start)
    (hnext : ∀ next, (ofText text).lineStart? (n + 1) = some next → start + column < next) :
    (ofText text).position (start + column) = ⟨n, column⟩ := by
  have hreach := reach_eq_of_between (starts_ascending text) h (Nat.le_add_right start column) hnext
  rw [reach_starts] at hreach
  have hline := Nat.succ.inj hreach
  obtain ⟨start', hstart', hcolumn⟩ := lineStart?_position text (start + column)
  rw [hline, h] at hstart'
  obtain rfl := Option.some.inj hstart'
  have hcolumn := Nat.add_left_cancel hcolumn
  calc (ofText text).position (start + column)
      = ⟨((ofText text).position (start + column)).line,
          ((ofText text).position (start + column)).column⟩ := rfl
    _ = ⟨n, column⟩ := by rw [hline, hcolumn]

/-- The line of an offset is the number of line feeds in front of it. -/
theorem line_position (text : List Char) (offset : Nat) :
    ((ofText text).position offset).line = (upTo text offset).count '\n' :=
  length_takeWhile_startsAfter text 0 offset

/-- A later offset has no earlier position. -/
theorem position_notBehind (text : List Char) {a b : Nat} (h : a ≤ b) :
    ((ofText text).position a).NotBehind ((ofText text).position b) := by
  have hreach := reach_mono (starts_ascending text) h
  rw [reach_starts, reach_starts] at hreach
  obtain ⟨s, hs, hacolumn⟩ := lineStart?_position text a
  obtain ⟨t, ht, hbcolumn⟩ := lineStart?_position text b
  by_cases hline : ((ofText text).position a).line = ((ofText text).position b).line
  · -- On one line both columns go on from the same start.
    rw [hline, ht] at hs
    obtain rfl := Option.some.inj hs
    exact Or.inr ⟨hline, by omega⟩
  · exact Or.inl (by omega)

/-! ## §3. The search -/

/-- The position that a search by halves finds: an offset that starts no line is on the line in
front of the one it would start. -/
def searchPosition (index : LineIndex) (offset : Nat) : Position :=
  let line := match bisect index.starts offset with
    | .found line => line
    | .missing line => line - 1
  ⟨line, offset - index.starts.getD line 0⟩

/-- **Positions are found by halves.** -/
theorem position_eq_searchPosition (text : List Char) (offset : Nat) :
    (ofText text).position offset = (ofText text).searchPosition offset := by
  have hreach := reach_starts (ofText text) offset
  obtain ⟨start, hstart, hcolumn⟩ := lineStart?_position text offset
  have hline : (match bisect (ofText text).starts offset with
      | .found line => line
      | .missing line => line - 1) = ((ofText text).position offset).line := by
    by_cases hmem : offset ∈ (ofText text).starts
    · obtain ⟨n, hn⟩ := List.mem_iff_getElem?.mp hmem
      rw [reach_eq_of_getElem? (starts_increasing text) hn] at hreach
      rw [bisect_eq_of_getElem? (starts_increasing text) hn]
      exact Nat.succ.inj hreach
    · rw [bisect_eq_of_not_mem (starts_ascending text) hmem, hreach]
      rfl
  have hstart : (ofText text).starts.getD ((ofText text).position offset).line 0 = start := by
    rw [List.getD_eq_getElem?_getD]
    show ((ofText text).lineStart? _).getD 0 = start
    rw [hstart, Option.getD_some]
  unfold searchPosition
  simp only [hline, hstart]
  rw [show offset - start = ((ofText text).position offset).column by omega]

/-! ## §4. The index of a text -/

/-- What an index says about a text. -/
structure IsExact (index : LineIndex) (text : List Char) : Prop where
  /-- There is one line more than there are line feeds, -/
  lineCount_eq : index.lineCount = text.count '\n' + 1
  /-- and every line has a start, no other number has one. -/
  start_iff : ∀ n, (index.lineStart? n).isSome ↔ n < index.lineCount
  /-- The first line starts with the text, -/
  firstStart : index.lineStart? 0 = some 0
  /-- every later one just behind the line feed that ends the one before, -/
  laterStart_iff : ∀ n start, index.lineStart? (n + 1) = some start ↔
    ∃ front rest, text = front ++ '\n' :: rest ∧ front.count '\n' = n ∧
      byteLength front + 1 = start
  /-- so that lines start one behind the other, -/
  increasing : ∀ i j a b, i < j → index.lineStart? i = some a → index.lineStart? j = some b → a < b
  /-- and all in the text, so that the width that holds its length holds every start and line. -/
  inText : ∀ n start, index.lineStart? n = some start → n ≤ byteLength text ∧
    start ≤ byteLength text
  /-- The line of an offset is the number of line feeds in front of it, -/
  line_eq : ∀ offset, (index.position offset).line = (upTo text offset).count '\n'
  /-- a line of the text, even behind the end; its start and the column are the offset. -/
  start_add_column : ∀ offset, ∃ start, index.lineStart? (index.position offset).line = some start ∧
    start + (index.position offset).column = offset
  /-- Messages count lines from 1. -/
  number_eq : ∀ offset, index.lineNumber offset = (index.position offset).line + 1
  /-- A start and a column in front of the next start make an offset of that line and column. -/
  offset_eq : ∀ n start column, index.lineStart? n = some start →
    (∀ next, index.lineStart? (n + 1) = some next → start + column < next) →
    index.position (start + column) = ⟨n, column⟩
  /-- A later offset has no earlier position. -/
  monotone : ∀ a b, a ≤ b → (index.position a).NotBehind (index.position b)
  /-- A search by halves finds the position. -/
  searched : ∀ offset, index.position offset = index.searchPosition offset

/-- **The index of a text is exact**, whatever the text, and for offsets behind its end too. -/
theorem ofText_isExact (text : List Char) : (ofText text).IsExact text where
  lineCount_eq := lineCount_ofText text
  start_iff := lineStart?_isSome_iff (ofText text)
  firstStart := rfl
  laterStart_iff := fun _ _ => lineStart?_succ_eq_some_iff
  increasing := fun _ _ _ _ => lineStart?_lt
  inText := fun _ _ => lineStart?_inText
  line_eq := line_position text
  start_add_column := lineStart?_position text
  number_eq := fun _ => rfl
  offset_eq := fun _ _ _ => position_eq_of_between
  monotone := fun _ _ => position_notBehind text
  searched := position_eq_searchPosition text

/-- A line feed is on the line it ends; an offset behind the text is on the last line. -/
example :
    (ofText "a\r\nbc\n".toList).position 2 = ⟨0, 2⟩ ∧
    (ofText "a\r\nbc\n".toList).position 3 = ⟨1, 0⟩ ∧
    (ofText "a\r\nbc\n".toList).position 9 = ⟨2, 3⟩ := by
  decide

end LineIndex

end SingleFile.Text
