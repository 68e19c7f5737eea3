/-
  SingleFile.Proofs.Script.EditPlaces — WHERE EDITS LEAVE CHARACTERS
  ──────────────────────────────────────────────────────────────────
  Ranges may overlap in any way: what begins inside a range that is replaced
  already is dropped.  All others keep the number of line feeds, so what they
  leave of a text stays on its line.  A character is known by how many
  characters stand in front of it; `KeepsLines` says where it went.

  Main results:
    * `applyFrom_keepsLines` — what the edits from an offset on leave alone.
      The induction.
    * `exists_cut_of_panicked` — a rewrite panics only where it cuts the text
      inside a character.
    * `applyEdits_keepsLines` — edits can be done wherever they fit the text,
      and what they leave alone stays in order and on its line.
-/
import SingleFile.Proofs.Script.EditLines

namespace SingleFile.Script

open SingleFile.Text

/-! ## §1. Cuts -/

/-- **A slice behind a part of a text** cuts the rest in three. -/
theorem exists_parts_of_slice? {front rest old : List Char} {start stop : Nat}
    (hold : slice? (front ++ rest) start stop = some old) (hbehind : byteLength front ≤ start) :
    ∃ kept later, rest = kept ++ (old ++ later) ∧ start = byteLength front + byteLength kept ∧
      stop = start + byteLength old := by
  obtain ⟨a, later, hparts, hstart, hstop⟩ := slice?_eq_some hold
  rw [List.append_assoc] at hparts
  rw [byteLength_append, hstart] at hstop
  -- Both are beginnings of the text, and the front is no longer than what the slice is behind.
  obtain ⟨kept, rfl⟩ : ∃ kept, a = front ++ kept := by
    rcases List.append_eq_append_iff.mp hparts with ⟨kept, ha, -⟩ | ⟨more, hfront, -⟩
    · exact ⟨kept, ha⟩
    · have hmore : more = [] := by
        by_contra hne
        have hpos := byteLength_pos hne
        rw [hfront, byteLength_append] at hbehind
        omega
      exact ⟨[], by rw [hfront, hmore, List.append_nil, List.append_nil]⟩
  rw [List.append_assoc] at hparts
  rw [byteLength_append] at hstart
  exact ⟨kept, later, List.append_cancel_left hparts, hstart.symm, hstop.symm⟩

/-- An edit is done: what stands in front of it is kept, and what it is about is gone. -/
theorem applyFrom_cons {e : Edit} {edits : List Edit} {kept old later : List Char} {offset : Nat}
    (hstart : e.start = offset + byteLength kept) (hstop : e.stop = e.start + byteLength old) :
    applyFrom offset (kept ++ (old ++ later)) (e :: edits)
      = (applyFrom e.stop later edits).map fun after => kept ++ e.text ++ after := by
  have hlength : e.start - offset = byteLength kept := by omega
  have hgone : e.stop - e.start = byteLength old := by omega
  rw [applyFrom, if_neg (by omega), hlength, hgone, splitAt?_byteLength]
  show (splitAt? (old ++ later) (byteLength old)).bind _ = _
  rw [splitAt?_byteLength]
  show (applyFrom e.stop later edits).bind _ = _
  cases applyFrom e.stop later edits <;> rfl

/-! ## §2. Places -/

/-- Whether those characters of a text that are kept stand in another text at given places, in the
same order and each behind as many line feeds. -/
structure KeepsLines (kept : Nat → Prop) (before after : List Char) (place : Nat → Nat) : Prop where
  /-- Only what the text has is kept, and it is the same character. -/
  same : ∀ i, kept i → i < before.length ∧ after[place i]? = before[i]?
  inOrder : ∀ i j, kept i → kept j → i < j → place i < place j
  feeds : ∀ i, kept i → (after.take (place i)).count '\n' = (before.take i).count '\n'

namespace KeepsLines

/-- Whether a character of two texts in a row is kept. -/
def Both (length : Nat) (first second : Nat → Prop) (i : Nat) : Prop :=
  (i < length ∧ first i) ∨ (length ≤ i ∧ second (i - length))

/-- Where a character of two texts in a row stands. -/
def bothPlaces (length newLength : Nat) (first second : Nat → Nat) (i : Nat) : Nat :=
  if i < length then first i else newLength + second (i - length)

variable {kept kept' : Nat → Prop} {before after before' after' : List Char}
  {place place' : Nat → Nat}

/-- A text that nothing is done to. -/
theorem same_text (cs : List Char) : KeepsLines (· < cs.length) cs cs id where
  same _ hi := ⟨hi, rfl⟩
  inOrder _ _ _ _ h := h
  feeds _ _ := rfl

/-- A text of which nothing is kept. -/
theorem nothing (before after : List Char) : KeepsLines (fun _ => False) before after id where
  same _ h := h.elim
  inOrder _ _ h := h.elim
  feeds _ h := h.elim

theorem mono (h : KeepsLines kept before after place) (hle : ∀ i, kept' i → kept i) :
    KeepsLines kept' before after place where
  same i hi := h.same i (hle i hi)
  inOrder i j hi hj := h.inOrder i j (hle i hi) (hle j hj)
  feeds i hi := h.feeds i (hle i hi)

/-- What is kept stands inside the new text. -/
theorem place_lt (h : KeepsLines kept before after place) {i : Nat} (hi : kept i) :
    place i < after.length := by
  obtain ⟨hlt, hsame⟩ := h.same i hi
  rw [List.getElem?_eq_getElem hlt] at hsame
  exact (List.getElem?_eq_some_iff.mp hsame).1

/-- **Two texts in a row**: what is kept of each is kept, if the first keeps its line feeds. -/
theorem append (h : KeepsLines kept before after place)
    (h' : KeepsLines kept' before' after' place')
    (hcount : after.count '\n' = before.count '\n') :
    KeepsLines (Both before.length kept kept') (before ++ before') (after ++ after')
      (bothPlaces before.length after.length place place') where
  same i hi := by
    rcases hi with ⟨hlt, hi⟩ | ⟨hle, hi⟩
    · refine ⟨by rw [List.length_append]; omega, ?_⟩
      rw [bothPlaces, if_pos hlt, List.getElem?_append_left (h.place_lt hi),
        List.getElem?_append_left hlt]
      exact (h.same i hi).2
    · obtain ⟨hlt, hsame⟩ := h'.same _ hi
      refine ⟨by rw [List.length_append]; omega, ?_⟩
      rw [bothPlaces, if_neg (by omega), List.getElem?_append_right (Nat.le_add_right ..),
        List.getElem?_append_right hle, Nat.add_sub_cancel_left]
      exact hsame
  inOrder i j hi hj hij := by
    rcases hi with ⟨hlt, hi⟩ | ⟨hle, hi⟩ <;> rcases hj with ⟨hlt', hj⟩ | ⟨hle', hj⟩
    · rw [bothPlaces, bothPlaces, if_pos hlt, if_pos hlt']
      exact h.inOrder i j hi hj hij
    · have hfirst := h.place_lt hi
      rw [bothPlaces, bothPlaces, if_pos hlt, if_neg (by omega)]
      omega
    · omega
    · have hlater := h'.inOrder _ _ hi hj (by omega)
      rw [bothPlaces, bothPlaces, if_neg (by omega), if_neg (by omega)]
      omega
  feeds i hi := by
    rcases hi with ⟨hlt, hi⟩ | ⟨hle, hi⟩
    · have hfirst := h.place_lt hi
      rw [bothPlaces, if_pos hlt, List.take_append_of_le_length (by omega),
        List.take_append_of_le_length (by omega)]
      exact h.feeds i hi
    · rw [bothPlaces, if_neg (by omega), List.take_length_add_append, List.take_append,
        List.take_of_length_le hle, List.count_append, List.count_append, hcount, h'.feeds _ hi]

end KeepsLines

/-! ## §3. Edits -/

/-- Whether a character of a text is in none of the ranges of some edits; the text begins at an
offset. -/
def IsOutside (offset : Nat) (text : List Char) (edits : List Edit) (i : Nat) : Prop :=
  i < text.length ∧ ∀ e ∈ edits,
    offset + byteLength (text.take i) < e.start ∨ e.stop ≤ offset + byteLength (text.take i)

/-- Whether an edit has a range of a text, and as many line feeds as are in it. -/
def Edit.KeepsFeeds (source : List Char) (e : Edit) : Prop :=
  ∃ old, slice? source e.start e.stop = some old ∧ e.text.count '\n' = old.count '\n'

/-- What is outside of an edit and of those behind it is in front of the edit, or behind it and
outside of the others. -/
theorem IsOutside.cons {offset : Nat} {front gone later : List Char} {e : Edit} {edits : List Edit}
    {i : Nat} (hstart : e.start = offset + byteLength front)
    (hstop : e.stop = offset + byteLength (front ++ gone))
    (h : IsOutside offset (front ++ gone ++ later) (e :: edits) i) :
    KeepsLines.Both (front ++ gone).length
      (KeepsLines.Both front.length (· < front.length) fun _ => False)
      (IsOutside e.stop later edits) i := by
  obtain ⟨hi, houtside⟩ := h
  rw [List.length_append] at hi
  by_cases hlater : (front ++ gone).length ≤ i
  · refine .inr ⟨hlater, by omega, fun x hx => ?_⟩
    have hx := houtside x (List.mem_cons_of_mem _ hx)
    rw [List.take_append, List.take_of_length_le hlater, byteLength_append, ← Nat.add_assoc,
      ← hstop] at hx
    exact hx
  · refine .inl ⟨by omega, ?_⟩
    by_cases hfront : i < front.length
    · exact .inl ⟨hfront, hfront⟩
    · -- The character is in the range: some of what is replaced stands in front, but not all.
      exfalso
      rw [List.length_append] at hlater
      have hother : byteLength (gone.drop (i - front.length)) ≠ 0 := by
        refine Nat.ne_of_gt (byteLength_pos fun hnil => ?_)
        have := List.drop_eq_nil_iff.mp hnil
        omega
      have hwhole := congrArg byteLength (List.take_append_drop (i - front.length) gone)
      have he := houtside e (List.mem_cons_self ..)
      rw [List.take_append_of_le_length (by rw [List.length_append]; omega), List.take_append,
        List.take_of_length_le (by omega), byteLength_append] at he
      rw [byteLength_append] at hwhole hstop
      omega

/-- **What the edits from an offset on leave alone.** -/
theorem applyFrom_keepsLines {source : List Char} {edits : List Edit}
    (hedits : ∀ e ∈ edits, e.KeepsFeeds source) (front rest : List Char) {offset : Nat}
    (hsource : source = front ++ rest) (hoffset : byteLength front = offset) :
    ∃ out place, applyFrom offset rest edits = some out ∧ out.count '\n' = rest.count '\n' ∧
      KeepsLines (IsOutside offset rest (carriedOutFrom offset edits)) rest out place := by
  -- What is carried along is that the rest begins at the end of the last edit.
  induction edits generalizing front rest offset with
  | nil => exact ⟨rest, id, rfl, rfl, (KeepsLines.same_text rest).mono fun i hi => hi.1⟩
  | cons e es ih =>
    obtain ⟨⟨old, hold, hcount⟩, hes⟩ := List.forall_mem_cons.mp hedits
    by_cases hdrop : e.start < offset
    · rw [applyFrom, carriedOutFrom, if_pos hdrop, if_pos hdrop]
      exact ih hes front rest hsource hoffset
    · rw [hsource] at hold
      obtain ⟨kept, later, rfl, hstart, hstop⟩ := exists_parts_of_slice? hold (by omega)
      rw [hoffset] at hstart
      rw [carriedOutFrom, if_neg hdrop, applyFrom_cons hstart hstop]
      have hlater : source = (front ++ kept ++ old) ++ later := by
        rw [hsource]
        simp only [List.append_assoc]
      have hend : byteLength (front ++ kept ++ old) = e.stop := by
        rw [byteLength_append, byteLength_append]
        omega
      obtain ⟨after, place, hafter, hfeeds, hkeeps⟩ :=
        ih hes (front ++ kept ++ old) later hlater hend
      refine ⟨kept ++ e.text ++ after, KeepsLines.bothPlaces (kept ++ old).length
        (kept ++ e.text).length (KeepsLines.bothPlaces kept.length kept.length id id) place,
        by rw [hafter]; rfl, ?_, ?_⟩
      · simp only [List.count_append, hcount, hfeeds]
        omega
      · rw [← List.append_assoc]
        refine ((((KeepsLines.same_text kept).append (.nothing old e.text) rfl).append hkeeps
          ?_).mono fun i hi => hi.cons ?_ ?_)
        · simp only [List.count_append, hcount]
        · exact hstart
        · rw [byteLength_append, hstop, hstart]
          omega

/-- Edits whose ranges are in bounds and split no character can be done from an offset on. -/
theorem exists_applyFrom {source : List Char} {edits : List Edit}
    (hedits : ∀ e ∈ edits, (slice? source e.start e.stop).isSome = true) (front rest : List Char)
    {offset : Nat} (hsource : source = front ++ rest) (hoffset : byteLength front = offset) :
    ∃ out, applyFrom offset rest edits = some out := by
  induction edits generalizing front rest offset with
  | nil => exact ⟨rest, rfl⟩
  | cons e es ih =>
    obtain ⟨hold, hes⟩ := List.forall_mem_cons.mp hedits
    obtain ⟨old, hold⟩ := Option.isSome_iff_exists.mp hold
    by_cases hdrop : e.start < offset
    · rw [applyFrom, if_pos hdrop]
      exact ih hes front rest hsource hoffset
    · rw [hsource] at hold
      obtain ⟨kept, later, rfl, hstart, hstop⟩ := exists_parts_of_slice? hold (by omega)
      rw [hoffset] at hstart
      obtain ⟨after, hafter⟩ := @ih hes (front ++ kept ++ old) later e.stop
        (by rw [hsource]; simp only [List.append_assoc])
        (by rw [byteLength_append, byteLength_append]; omega)
      exact ⟨kept ++ e.text ++ after, by rw [applyFrom_cons hstart hstop, hafter]; rfl⟩

theorem exists_applyEdits {source : List Char} {edits : List Edit}
    (h : ∀ e ∈ edits, (slice? source e.start e.stop).isSome = true) :
    ∃ out, applyEdits source edits = some out :=
  exists_applyFrom (fun e he => h e (List.mem_mergeSort.mp he)) [] source rfl rfl

/-! ## §4. Actions -/

/-- Whether an action has a place in a text: its range, or where it looks, is in bounds and splits
no character. -/
def Action.IsWithin (source : List Char) : Action → Prop
  | .insert offset _ => (splitAt? source offset).isSome
  -- A range that is empty or the wrong way round is passed over.
  | .blank start stop => start < stop → (slice? source start stop).isSome
  | .replace start stop _ => (slice? source start stop).isSome
  | .refuse _ _ => True
  | .look offset => (splitAt? source offset).isSome

instance (source : List Char) : DecidablePred (Action.IsWithin source) := fun a =>
  match a with
  | .insert offset _ => inferInstanceAs (Decidable ((splitAt? source offset).isSome = true))
  | .blank start stop =>
    inferInstanceAs (Decidable (start < stop → (slice? source start stop).isSome = true))
  | .replace start stop _ =>
    inferInstanceAs (Decidable ((slice? source start stop).isSome = true))
  | .refuse _ _ => inferInstanceAs (Decidable True)
  | .look offset => inferInstanceAs (Decidable ((splitAt? source offset).isSome = true))

/-- An action that has a place comes to edits there. -/
theorem Action.edits?_within {source : List Char} {a : Action} (h : a.IsWithin source) :
    ∃ own, a.edits? source = some own ∧
      ∀ e ∈ own, (slice? source e.start e.stop).isSome = true := by
  cases a with
  | insert offset text =>
    obtain ⟨⟨a, b⟩, hsplit⟩ := Option.isSome_iff_exists.mp h
    refine ⟨_, rfl, List.forall_mem_singleton.mpr ?_⟩
    rw [slice?, if_pos (Nat.le_refl _), hsplit, Nat.sub_self]
    show ((splitAt? b 0).bind _).isSome = true
    rw [show splitAt? b 0 = some ([], b) from splitAt?_byteLength [] b]
    rfl
  | blank start stop =>
    rw [Action.edits?]
    by_cases hempty : stop ≤ start
    · rw [if_pos hempty]
      exact ⟨[], rfl, fun e he => absurd he List.not_mem_nil⟩
    · have hslice := h (by omega)
      obtain ⟨old, hold⟩ := Option.isSome_iff_exists.mp hslice
      rw [if_neg hempty, hold]
      exact ⟨_, rfl, List.forall_mem_singleton.mpr hslice⟩
  | replace start stop text =>
    obtain ⟨old, hold⟩ := Option.isSome_iff_exists.mp h
    rw [Action.edits?, hold]
    exact ⟨_, rfl, List.forall_mem_singleton.mpr h⟩
  | refuse construct offset => exact ⟨[], rfl, fun e he => absurd he List.not_mem_nil⟩
  | look offset =>
    obtain ⟨halves, hsplit⟩ := Option.isSome_iff_exists.mp h
    refine ⟨[], ?_, fun e he => absurd he List.not_mem_nil⟩
    rw [Action.edits?, hsplit]
    rfl

/-- Actions that have places come to the edits of each of them. -/
theorem editsOf?_within {source : List Char} {actions : List Action}
    (h : ∀ a ∈ actions, a.IsWithin source) :
    ∃ edits, editsOf? source actions = some edits ∧
      ∀ e ∈ edits, (slice? source e.start e.stop).isSome = true := by
  induction actions with
  | nil => exact ⟨[], rfl, fun e he => absurd he List.not_mem_nil⟩
  | cons a actions ih =>
    obtain ⟨hwithin, hactions⟩ := List.forall_mem_cons.mp h
    obtain ⟨first, hfirst, hfirstWithin⟩ := Action.edits?_within hwithin
    obtain ⟨others, hothers, hothersWithin⟩ := ih hactions
    refine ⟨first ++ others, ?_, fun e he => ?_⟩
    · rw [editsOf?, hfirst, hothers]
      rfl
    · exact (List.mem_append.mp he).elim (hfirstWithin e) (hothersWithin e)

/-- The statements in front of everything else have their place at the start of any text. -/
theorem Plan.front_within {plan : Plan} {e : Edit} (source : List Char) (he : e ∈ plan.front) :
    (slice? source e.start e.stop).isSome = true := by
  unfold Plan.front at he
  split at he
  · exact absurd he List.not_mem_nil
  · obtain rfl := List.mem_singleton.mp he
    exact Option.isSome_iff_exists.mpr ⟨[], slice?_append [] [] source⟩

/-- **A panic is a cut elsewhere than between two characters**: one of the actions has no place in
the text. -/
theorem Plan.exists_cut_of_panicked {plan : Plan} {source : List Char}
    (h : plan.carryOut source = .error .panicked) : ∃ a ∈ plan.actions, ¬a.IsWithin source := by
  by_contra hall
  push Not at hall
  obtain ⟨edits, hedits, hwithin⟩ := editsOf?_within hall
  obtain ⟨out, hout⟩ := @exists_applyEdits source (edits ++ plan.front) fun e he =>
    (List.mem_append.mp he).elim (hwithin e) (Plan.front_within source)
  unfold Plan.carryOut at h
  rw [hedits] at h
  dsimp only at h
  cases hrefusal : firstRefusal? plan.actions with
  | some refusal =>
    rw [hrefusal] at h
    exact absurd h (by simp)
  | none =>
    rw [hrefusal] at h
    dsimp only at h
    rw [show (if plan.prologue.isEmpty = true then [] else [⟨0, 0, plan.prologue.toList⟩])
      = plan.front from rfl, hout] at h
    contradiction

theorem exists_cut_of_panicked {options : RewriteOptions} {source : List Char}
    (h : rewrite options source = .error .panicked) :
    ∃ program, parse ⟨options.typed, true⟩ source = .ok program ∧
      ∃ a ∈ (planOf options source program).actions, ¬a.IsWithin source := by
  unfold rewrite at h
  split at h
  · exact absurd h (by simp)
  · next program hparse => exact ⟨program, hparse, Plan.exists_cut_of_panicked h⟩

/-- Where the actions fit, too, their edits keep the line feeds. -/
theorem editsOf?_keepsFeeds {source : List Char} {actions : List Action}
    (h : ∀ a ∈ actions, a.IsWithin source ∧ a.Fits source) :
    ∃ edits, editsOf? source actions = some edits ∧ ∀ e ∈ edits, e.KeepsFeeds source := by
  obtain ⟨edits, hedits, hwithin⟩ := editsOf?_within fun a ha => (h a ha).1
  refine ⟨edits, hedits, fun e he => ?_⟩
  obtain ⟨old, hold⟩ := Option.isSome_iff_exists.mp (hwithin e he)
  obtain ⟨a, ha, own, hown, he⟩ := (mem_editsOf? hedits e).mp he
  obtain ⟨hgains, hfits⟩ := Action.edits?_spec hown he
  have hremoved : e.removed source = old := Edit.removed_of_slice? hold
  have hloses := hfits.mpr (h a ha).2
  rw [Edit.Fits, hremoved] at hloses
  rw [hremoved] at hgains
  exact ⟨old, hold, Nat.le_antisymm hloses hgains⟩

/-- **What edits leave alone stays in order and on its line**: actions whose ranges are in a text,
overlapping in any way, come to edits that can be done.  The text they make is the one with those
carried out that begin inside no earlier one; it has the line feeds of the other, and every
character outside of what was carried out stands in it behind as many line feeds as before. -/
theorem applyEdits_keepsLines {source : List Char} {actions : List Action}
    (h : ∀ a ∈ actions, a.IsWithin source ∧ a.Fits source) :
    ∃ edits out place, editsOf? source actions = some edits ∧
      applyEdits source edits = some out ∧ Done source (carriedOut edits) source out ∧
      out.count '\n' = source.count '\n' ∧
      KeepsLines (IsOutside 0 source (carriedOut edits)) source out place := by
  obtain ⟨edits, hedits, hfeeds⟩ := editsOf?_keepsFeeds h
  have hsorted : ∀ e ∈ edits.mergeSort Edit.comesBefore, e.KeepsFeeds source := fun e he =>
    hfeeds e (List.mem_mergeSort.mp he)
  obtain ⟨out, place, hout, hcount, hkeeps⟩ := applyFrom_keepsLines hsorted [] source rfl rfl
  refine ⟨edits, out, place, hedits, hout, applyEdits_done (fun e he => ?_) hout, hcount, hkeeps⟩
  obtain ⟨old, hold, -⟩ := hfeeds e he
  exact le_of_slice? hold

/-- A text of four lines. -/
def fourLines : List Char := "a\nbc\nde\nf".toList

/-- Two ranges that overlap, with an insertion where the first one begins and one inside of it. -/
def overlappingActions : List Action :=
  [.replace 2 6 "x", .insert 2 "y", .blank 4 8, .insert 3 "z"]

theorem overlappingActions_fit :
    ∀ a ∈ overlappingActions, a.IsWithin fourLines ∧ a.Fits fourLines := by
  simp only [overlappingActions, List.forall_mem_cons, List.not_mem_nil, false_implies,
    implies_true, and_true]
  refine ⟨⟨rfl, fun old hold => ?_⟩, ⟨rfl, rfl⟩, ⟨fun _ => rfl, trivial⟩, rfl, rfl⟩
  obtain rfl := Option.some.inj hold
  decide

theorem applyEdits_keepsLines_overlapping :
    (∀ a ∈ overlappingActions, a.IsWithin fourLines ∧ a.Fits fourLines) ∧
      ∃ edits out place, editsOf? fourLines overlappingActions = some edits ∧
        applyEdits fourLines edits = some out ∧
        Done fourLines (carriedOut edits) fourLines out ∧
        out.count '\n' = fourLines.count '\n' ∧
        KeepsLines (IsOutside 0 fourLines (carriedOut edits)) fourLines out place :=
  ⟨overlappingActions_fit, applyEdits_keepsLines overlappingActions_fit⟩

end SingleFile.Script
