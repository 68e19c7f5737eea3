/-
  SingleFile.Proofs.Script.FoundWords — WHERE WORDS AND MARKS ARE FOUND
  ─────────────────────────────────────────────────────────────────────
  Marks are looked for behind an offset, and words in front of one.  So what
  is found stands behind a word that is known to stand in the text, and
  behind the brace that a class begins with.

  Main results:
    * `le_of_keywordBefore?` — a word is found no farther back than it stands.
    * `modifiersBackwards_brace` — looking for modifiers ends at a brace.
    * `modifiersBetween_bounds`, `modifiersBetween_apart` — modifiers stand
      behind the floor and in front of the key, one in front of another.
-/
import SingleFile.Proofs.Script.Layout
import SingleFile.Proofs.Script.PlainTrees

namespace SingleFile.Script

open SingleFile.Text

variable {source : List Char}

/-! ## §1. Looking forwards -/

/-- Where a word stands, the text begins with it behind a cut. -/
theorem exists_parts_of_standsAt {offset : Nat} {word : String} (hword : word.toList ≠ [])
    (h : standsAt source offset word = true) :
    ∃ before behind, source = before ++ (word.toList ++ behind) ∧ byteLength before = offset := by
  rw [standsAt, textFrom] at h
  split at h
  · next before rest hsplit =>
    obtain ⟨hsource, hoffset⟩ := splitAt?_eq_some_iff.mp hsplit
    obtain ⟨behind, rfl⟩ := startsWith_iff.mp h
    exact ⟨before, behind, hsource.symm, hoffset⟩
  · obtain ⟨behind, hnil⟩ := startsWith_iff.mp h
    exact absurd (List.append_eq_nil_iff.mp hnil.symm).1 hword

theorem le_skipBlanks (source : List Char) (offset : Nat) : offset ≤ skipBlanks source offset :=
  Nat.le_add_right ..

/-- A mark is looked for behind the blanks, and blanked where it stands. -/
theorem blankMark_eq (source : List Char) (offset : Nat) (mark : String) :
    blankMark source offset mark = [.look (skipBlanks source offset)] ∨
      ∃ found, blankMark source offset mark = [.look found, .blank found (found + 1)] ∧
        offset ≤ found ∧ behindMark source offset mark = found + 1 := by
  unfold blankMark behindMark
  dsimp only
  split
  · exact .inr ⟨_, rfl, le_skipBlanks source offset, rfl⟩
  · exact .inl rfl

/-- At one place there is one mark. -/
theorem blankMark_or (source : List Char) (offset : Nat) :
    blankMark source offset "?" = [.look (skipBlanks source offset)] ∨
      blankMark source offset "!" = [.look (skipBlanks source offset)] := by
  unfold blankMark
  dsimp only
  by_cases hfirst : standsAt source (skipBlanks source offset) "?" = true
  · right
    refine congrArg _ (if_neg fun hsecond => ?_)
    obtain ⟨before, behind, hsource, hoffset⟩ := exists_parts_of_standsAt (by decide) hfirst
    obtain ⟨before', behind', hsource', hoffset'⟩ := exists_parts_of_standsAt (by decide) hsecond
    have hsplit := splitAt?_eq_some_iff.mpr ⟨hsource.symm, hoffset⟩
    rw [splitAt?_eq_some_iff.mpr ⟨hsource'.symm, hoffset'⟩] at hsplit
    obtain ⟨-, hrest⟩ := Prod.mk.inj (Option.some.inj hsplit)
    exact absurd (List.cons.inj hrest).1 (by decide)
  · exact .inl (congrArg _ (if_neg hfirst))

/-! ## §2. Looking backwards -/

/-- What is no part of a run ends it. -/
theorem dropWhile_append_cons {α : Type} {p : α → Bool} {c : α} (hc : p c = false)
    (xs ys : List α) : (xs ++ c :: ys).dropWhile p = xs.dropWhile p ++ c :: ys := by
  rw [List.dropWhile_append, List.dropWhile_cons_of_neg (by simp [hc])]
  split
  · next hnil => rw [List.isEmpty_iff.mp hnil, List.nil_append]
  · rfl

theorem takeWhile_append_cons {α : Type} {p : α → Bool} {c : α} (hc : p c = false)
    (xs ys : List α) : (xs ++ c :: ys).takeWhile p = xs.takeWhile p := by
  rw [List.takeWhile_append, List.takeWhile_cons_of_neg (by simp [hc])]
  split
  · next hall => rw [List.append_nil, (List.takeWhile_prefix p).eq_of_length hall]
  · rfl

/-- **A word is found no farther back than it stands**, if it does not end in white space. -/
theorem le_of_keywordBefore? {offset place found : Nat} {word : String} {c : Char}
    {more : List Char} (hlast : word.toList.reverse = c :: more) (hc : isWhiteSpace c = false)
    (hsize : word.utf8ByteSize = byteLength word.toList)
    (hstands : standsAt source place word = true)
    (hbehind : place + word.utf8ByteSize ≤ offset)
    (h : keywordBefore? source offset word = some found) : place ≤ found := by
  have hne : word.toList ≠ [] := fun hnil => by
    rw [hnil] at hlast
    exact List.cons_ne_nil _ _ hlast.symm
  obtain ⟨before, behind, hsource, hplace⟩ := exists_parts_of_standsAt hne hstands
  rw [keywordBefore?, textBefore] at h
  split at h
  · next front tail hsplit =>
    obtain ⟨hwhole, hoffset⟩ := splitAt?_eq_some_iff.mp hsplit
    -- The text in front of the offset has the word, and something behind it.
    rw [hsource, ← List.append_assoc] at hwhole
    obtain ⟨gap, rfl, -⟩ := exists_append_of_byteLength_le hwhole.symm (by
      rw [byteLength_append]
      omega)
    rw [List.reverse_append, List.reverse_append, hlast, List.cons_append,
      dropWhile_append_cons hc] at h
    split at h
    · obtain rfl := Option.some.inj h
      have hword := congrArg byteLength hlast
      rw [byteLength_reverse] at hword
      rw [← List.cons_append, byteLength_append, byteLength_append, byteLength_reverse]
      omega
    · exact absurd h (by simp)
  · rw [List.dropWhile_nil] at h
    split at h
    · next hstarts =>
      obtain ⟨rest, hrest⟩ := startsWith_iff.mp hstarts
      rw [hlast] at hrest
      exact absurd hrest (by simp)
    · exact absurd h (by simp)

/-! ## §3. Modifiers -/

/-- **Looking for modifiers ends at a brace**: what stands behind it is the floor of what is
found. -/
theorem modifiersBackwards_brace (floor bound : Nat) (text before : List Char) :
    modifiersBackwards floor bound (text ++ '\x7b' :: before)
      = modifiersBackwards (floor + byteLength ('\x7b' :: before)) bound text := by
  induction bound generalizing text with
  | zero => rfl
  | succ bound ih =>
    have hspace := dropWhile_append_cons (p := isWhiteSpace) (c := '\x7b') (by decide) text before
    rw [modifiersBackwards, modifiersBackwards]
    dsimp only
    rw [hspace, takeWhile_append_cons (by decide),
      List.drop_append_of_le_length (List.takeWhile_sublist isWordChar).length_le]
    generalize (text.dropWhile isWhiteSpace).drop _ = front
    cases (text.dropWhile isWhiteSpace).takeWhile isWordChar with
    | nil =>
      cases front with
      | nil => rfl
      | cons x front =>
        rw [List.cons_append]
        split
        · next heq =>
          obtain ⟨rfl, rfl⟩ := List.cons.inj heq
          exact ih front
        · next hstar =>
          split
          · next heq =>
            obtain ⟨rfl, rfl⟩ := List.cons.inj heq
            exact (hstar _ rfl).elim
          · rfl
          · next heq => exact absurd heq (by simp)
        · next heq => exact absurd heq (by simp)
    | cons x word =>
      dsimp only
      rw [ih, byteLength_append, ← Nat.add_assoc, Nat.add_right_comm]

/-- Modifiers stand in the text that is looked through. -/
theorem modifiersBackwards_bounds {floor bound : Nat} {text : List Char} {m : Modifier}
    (h : m ∈ modifiersBackwards floor bound text) :
    floor ≤ m.start ∧ m.start ≤ m.stop ∧ m.stop ≤ floor + byteLength text := by
  obtain ⟨before, word, behind, htext, hstart, hstop, -⟩ := spelled_of_mem_modifiersBackwards h
  have hlength := congrArg byteLength htext
  rw [byteLength_reverse, byteLength_append, byteLength_append] at hlength
  omega

/-- Each modifier stands in front of those that are found before it. -/
theorem modifiersBackwards_apart (floor bound : Nat) (text : List Char) :
    (modifiersBackwards floor bound text).Pairwise fun a b => b.stop ≤ a.start := by
  induction bound generalizing text with
  | zero => exact .nil
  | succ bound ih =>
    rw [modifiersBackwards]
    dsimp only
    split
    · exact ih _
    · exact .nil
    · split
      · exact .cons (fun m hm => (modifiersBackwards_bounds hm).2.2) (ih _)
      · exact .nil

/-- Whether modifiers that are looked for between two offsets stand behind a third one: behind the
first, or behind a brace. -/
def IsFloor (source : List Char) (floor key least : Nat) : Prop :=
  least ≤ floor ∨ ∃ brace < key, standsAt source brace "\x7b" = true ∧ least ≤ brace + 1

theorem IsFloor.mono {floor key key' least : Nat} (h : IsFloor source floor key least)
    (hle : key ≤ key') : IsFloor source floor key' least := by
  rcases h with h | ⟨brace, hbrace, hstands⟩
  · exact .inl h
  · exact .inr ⟨brace, Nat.lt_of_lt_of_le hbrace hle, hstands⟩

/-- **Modifiers stand between the floor and the key.** -/
theorem modifiersBetween_bounds {floor key least : Nat} {m : Modifier} (hle : floor ≤ key)
    (hfloor : IsFloor source floor key least) (h : m ∈ modifiersBetween source floor key) :
    least ≤ m.start ∧ m.start ≤ m.stop ∧ m.stop ≤ key := by
  rw [modifiersBetween, Nat.min_eq_left hle] at h
  obtain ⟨hstart, hordered, hstop⟩ := modifiersBackwards_bounds h
  rw [byteLength_reverse] at hstop
  cases hslice : slice? source floor key with
  | none =>
    rw [hslice] at h
    exact absurd h (by simp [modifiersBackwards])
  | some middle =>
    obtain ⟨a, b, hsource, ha, hkey⟩ := slice?_eq_some hslice
    rw [hslice, Option.getD_some] at h hstop
    rw [byteLength_append] at hkey
    refine ⟨?_, hordered, by omega⟩
    rcases hfloor with hleast | ⟨brace, hbrace, hstands, hleast⟩
    · omega
    · by_cases hfront : brace < floor
      · omega
      · -- The brace is in the text that is looked through, and nothing in front of it is found.
        obtain ⟨before, behind, hparts, hplace⟩ := exists_parts_of_standsAt (by decide) hstands
        rw [hsource, List.append_assoc] at hparts
        obtain ⟨front, rfl, hmiddle⟩ := exists_append_of_byteLength_le hparts (by omega)
        rw [byteLength_append] at hplace
        have hcut : (front ++ ['\x7b']) ++ behind = middle ++ b := by
          rw [hmiddle, List.append_assoc]
          rfl
        have hbraceSize : byteLength ['\x7b'] = 1 := by decide
        obtain ⟨rest, hrest, -⟩ := exists_append_of_byteLength_le hcut (by
          rw [byteLength_append]
          omega)
        rw [hrest, List.reverse_append, List.reverse_append, List.reverse_singleton,
          List.singleton_append, modifiersBackwards_brace] at h
        have hbehind := (modifiersBackwards_bounds h).1
        rw [byteLength_cons, byteLength_reverse] at hbehind
        rw [byteLength_cons, byteLength_nil] at hbraceSize
        omega

theorem modifiersBetween_apart (source : List Char) (floor key : Nat) :
    (modifiersBetween source floor key).Pairwise fun a b => b.stop ≤ a.start :=
  modifiersBackwards_apart ..

end SingleFile.Script
