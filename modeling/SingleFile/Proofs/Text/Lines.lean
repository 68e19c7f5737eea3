/-
  SingleFile.Proofs.Text.Lines — THE LINES OF A TEXT
  ──────────────────────────────────────────────────
  A text has one more line than it has line feeds.  Where two texts meet, the
  last line of the one and the first line of the other become one line; all
  other lines stay what they are.

  Main results:
    * `lines_behind` — the lines of a text behind another one.
    * `lines_inFront` — the lines of a text in front of another one.
    * `lineNumberAt_eq` — the line of an offset.
-/
import SingleFile.Text.LineIndex

namespace SingleFile.Text

/-- The lines of a text, without the line feeds that end them. -/
def lines (text : List Char) : List (List Char) := text.splitOn '\n'

/-- The first line of a text. -/
def firstLine (text : List Char) : List Char := (lines text).headD []

/-- The last line of a text. -/
def lastLine (text : List Char) : List Char := (lines text).getLastD []

/-! ## §1. One character -/

theorem lines_feed (text : List Char) : lines ('\n' :: text) = [] :: lines text := by
  rw [lines, List.splitOn_cons_eq_if_modifyHead, beq_self_eq_true, if_pos rfl]
  rfl

theorem lines_cons {c : Char} (h : c ≠ '\n') (text : List Char) :
    lines (c :: text) = (lines text).modifyHead (c :: ·) := by
  rw [lines, List.splitOn_cons_eq_if_modifyHead, if_neg (by simpa using h)]
  rfl

theorem length_lines (text : List Char) : (lines text).length = text.count '\n' + 1 := by
  induction text with
  | nil => rfl
  | cons c text ih =>
    by_cases h : c = '\n'
    · rw [h, lines_feed, List.length_cons, ih, List.count_cons_self]
    · rw [lines_cons h, List.length_modifyHead, ih, List.count_cons_of_ne h]

theorem lines_ne_nil (text : List Char) : lines text ≠ [] := by
  refine List.ne_nil_of_length_pos ?_
  rw [length_lines]
  exact Nat.succ_pos _

theorem lastLine_feed (text : List Char) : lastLine ('\n' :: text) = lastLine text := by
  rw [lastLine, lastLine, lines_feed, List.getLastD_cons]

theorem lastLine_cons {c : Char} (h : c ≠ '\n') (text : List Char) :
    lastLine (c :: text) = if text.count '\n' = 0 then c :: lastLine text else lastLine text := by
  have hlength := length_lines text
  rw [lastLine, lastLine, lines_cons h]
  match hlines : lines text with
  | [] => exact absurd hlines (lines_ne_nil text)
  | [line] =>
    have hcount : text.count '\n' = 0 := by
      rw [hlines] at hlength
      exact (Nat.succ.inj hlength).symm
    rw [if_pos hcount]
    rfl
  | first :: second :: later =>
    have hcount : text.count '\n' ≠ 0 := by
      rw [hlines, List.length_cons, List.length_cons] at hlength
      omega
    rw [if_neg hcount]
    rfl

/-! ## §2. Two texts -/

/-- **The lines of a text behind another one.**  The first one begins in the last line of the text
in front. -/
theorem lines_behind (front text : List Char) (j : Nat) :
    (lines (front ++ text))[front.count '\n' + j]? =
      (lines text)[j]?.map fun line => if j = 0 then lastLine front ++ line else line := by
  induction front generalizing j with
  | nil =>
    have hself : (fun line : List Char => if j = 0 then lastLine [] ++ line else line) = id := by
      funext line
      exact ite_self _
    rw [hself, Option.map_id_fun, List.count_nil, Nat.zero_add]
    rfl
  | cons c front ih =>
    by_cases h : c = '\n'
    · subst h
      rw [List.cons_append, lines_feed, List.count_cons_self, Nat.add_right_comm,
        List.getElem?_cons_succ, ih, lastLine_feed]
    · rw [List.cons_append, lines_cons h, List.count_cons_of_ne h, List.getElem?_modifyHead, ih,
        lastLine_cons h]
      -- The character is in the last line of the text in front if there is no feed in it.
      by_cases hfirst : front.count '\n' + j = 0
      · obtain ⟨hcount, rfl⟩ := Nat.add_eq_zero_iff.mp hfirst
        rw [if_pos hfirst, if_pos hcount, Option.map_map]
        rfl
      · rw [if_neg hfirst]
        by_cases hj : j = 0
        · rw [if_neg (by omega)]
        · simp only [hj, if_false]

/-- **The lines of a text in front of another one.**  The last one goes on with the first line of
the text behind. -/
theorem lines_inFront (text behind : List Char) {i : Nat} (h : i ≤ text.count '\n') :
    (lines (text ++ behind))[i]? =
      (lines text)[i]?.map fun line =>
        if i = text.count '\n' then line ++ firstLine behind else line := by
  induction text generalizing i with
  | nil =>
    obtain rfl := Nat.le_zero.mp h
    rw [List.nil_append, firstLine]
    match hlines : lines behind with
    | [] => exact absurd hlines (lines_ne_nil behind)
    | line :: later => rfl
  | cons c text ih =>
    by_cases hc : c = '\n'
    · subst hc
      rw [List.count_cons_self] at h
      rw [List.cons_append, lines_feed, lines_feed, List.count_cons_self]
      cases i with
      | zero =>
        have hfirst : 0 ≠ text.count '\n' + 1 := (Nat.succ_ne_zero _).symm
        simp only [hfirst, if_false]
        rfl
      | succ i =>
        rw [List.getElem?_cons_succ, List.getElem?_cons_succ, ih (Nat.le_of_succ_le_succ h)]
        simp only [Nat.add_right_cancel_iff]
    · rw [List.count_cons_of_ne hc] at h
      rw [List.cons_append, lines_cons hc, lines_cons hc, List.count_cons_of_ne hc,
        List.getElem?_modifyHead, List.getElem?_modifyHead, ih h]
      by_cases hi : i = 0
      · rw [if_pos hi, if_pos hi, Option.map_map, Option.map_map]
        refine congrArg (Option.map · _) (funext fun line => ?_)
        show c :: (if _ then _ else _) = if _ then c :: line ++ _ else c :: line
        split <;> rfl
      · rw [if_neg hi, if_neg hi]

/-- A line feed separates the lines in front of it from those behind it. -/
theorem lines_append_feed (front behind : List Char) :
    lines (front ++ '\n' :: behind) = lines front ++ lines behind := by
  induction front with
  | nil => exact lines_feed behind
  | cons c front ih =>
    by_cases h : c = '\n'
    · rw [h, List.cons_append, lines_feed, lines_feed, ih, List.cons_append]
    · rw [List.cons_append, lines_cons h, lines_cons h, ih]
      match hlines : lines front with
      | [] => exact absurd hlines (lines_ne_nil front)
      | line :: later => rfl

/-- A text without a line feed is one line. -/
theorem lines_of_not_mem {text : List Char} (h : '\n' ∉ text) : lines text = [text] :=
  List.splitOn_eq_singleton h

/-- The same line over and over, in front of a text. -/
theorem lines_replicate {line : List Char} (h : '\n' ∉ line) (n : Nat) (text : List Char) :
    lines ((List.replicate n (line ++ ['\n'])).flatten ++ text)
      = List.replicate n line ++ lines text := by
  induction n with
  | zero => rfl
  | succ n ih =>
    rw [List.replicate_succ, List.flatten_cons, List.append_assoc, List.append_assoc,
      List.singleton_append, lines_append_feed, ih, lines_of_not_mem h, List.replicate_succ]
    rfl

/-! ## §3. Line numbers -/

theorem lt_of_mem_startsAfter {text : List Char} {start next : Nat}
    (h : next ∈ LineIndex.startsAfter start text) : start < next := by
  induction text generalizing start with
  | nil => exact absurd h List.not_mem_nil
  | cons c text ih =>
    have hsize := c.utf8Size_pos
    rw [LineIndex.startsAfter] at h
    have hlater (h : next ∈ LineIndex.startsAfter (start + c.utf8Size) text) : start < next := by
      have := ih h
      omega
    split at h
    · rcases List.mem_cons.mp h with rfl | h
      · omega
      · exact hlater h
    · exact hlater h

theorem takeWhile_startsAfter_eq_nil {start offset : Nat} (h : offset ≤ start)
    (text : List Char) : (LineIndex.startsAfter start text).takeWhile (· ≤ offset) = [] := by
  cases hstarts : LineIndex.startsAfter start text with
  | nil => rfl
  | cons next later =>
    have hbehind : start < next := lt_of_mem_startsAfter (hstarts ▸ List.mem_cons_self ..)
    exact List.takeWhile_cons_of_neg (by rw [decide_eq_true_eq]; omega)

/-- As many lines start up to an offset as there are line feeds in front of it. -/
theorem length_takeWhile_startsAfter (text : List Char) (start offset : Nat) :
    ((LineIndex.startsAfter start text).takeWhile (· ≤ offset)).length
      = (upTo text (offset - start)).count '\n' := by
  induction text generalizing start with
  | nil => rfl
  | cons c text ih =>
    have hlater := ih (start + c.utf8Size)
    rw [← Nat.sub_sub] at hlater
    by_cases hfront : offset ≤ start
    · rw [takeWhile_startsAfter_eq_nil hfront, Nat.sub_eq_zero_of_le hfront]
      rfl
    · rw [upTo, if_neg (Nat.sub_ne_zero_of_lt (Nat.lt_of_not_le hfront)), LineIndex.startsAfter]
      by_cases hfeed : c = '\n'
      · have hsize : c.utf8Size = 1 := by rw [hfeed]; rfl
        rw [if_pos hfeed, List.takeWhile_cons_of_pos (by rw [decide_eq_true_eq]; omega),
          List.length_cons, hlater, hfeed, List.count_cons_self]
      · rw [if_neg hfeed, List.count_cons_of_ne hfeed, hlater]

/-- **The line of an offset** is one more than the line feeds in front of it. -/
theorem lineNumberAt_eq (text : List Char) (offset : Nat) :
    lineNumberAt text offset = (upTo text offset).count '\n' + 1 :=
  congrArg (· + 1) (length_takeWhile_startsAfter text 0 offset)

end SingleFile.Text
