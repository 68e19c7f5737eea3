/-
  SingleFile.Proofs.Script.BlankedText — WHICH CHARACTERS ARE BLANKED
  ───────────────────────────────────────────────────────────────────
  Edits that only blank move no character, so what they do can be said of one
  character after the other: it is blanked exactly if it begins in the range
  of an edit that is carried out.

  Main results:
    * `applyFrom_blanked` — what blanks do from an offset on.  The induction.
    * `blankedFrom_eq_iff` — when blanks in different places come to the same.
    * `rewrite_eq_blanked` — a rewrite that asks for blanks, by characters.
    * `rewrite_panicked_iff` — when such a rewrite panics.
-/
import SingleFile.Proofs.Script.Columns
import SingleFile.Proofs.Script.EditPlaces

namespace SingleFile.Script

open SingleFile.Text SingleFile.Script.Grammar

/-! ## §1. Edited places -/

/-- Whether an offset is in the range of one of some edits. -/
def IsEdited (edits : List Edit) (offset : Nat) : Prop :=
  ∃ e ∈ edits, e.start ≤ offset ∧ offset < e.stop

instance (edits : List Edit) (offset : Nat) : Decidable (IsEdited edits offset) :=
  inferInstanceAs (Decidable (∃ e ∈ edits, e.start ≤ offset ∧ offset < e.stop))

/-- Whether a character can be seen, so that blanking changes it. -/
def IsVisible (c : Char) : Prop := c ≠ ' ' ∧ c ≠ '\n' ∧ c ≠ '\r'

/-- A text that begins at an offset, with the characters blanked that begin in edited places. -/
def blankedFrom (edits : List Edit) : Nat → List Char → List Char
  | _, [] => []
  | offset, c :: cs =>
    (if IsEdited edits offset then blankText [c] else [c])
      ++ blankedFrom edits (offset + c.utf8Size) cs

variable {source : List Char} {edits edits' : List Edit} {offset offset' : Nat}

theorem blankText_singleton_ne_iff (c : Char) : blankText [c] ≠ [c] ↔ IsVisible c := by
  rw [IsVisible, blankText, List.map_singleton]
  by_cases hend : c = '\n' ∨ c = '\r'
  · rcases hend with rfl | rfl <;> decide
  · obtain ⟨hn, hr⟩ := not_or.mp hend
    have hspace : (if (c == '\n' || c == '\r') = true then c else ' ') = ' ' :=
      if_neg (by simp [hn, hr])
    rw [hspace, ne_eq, List.singleton_inj, eq_comm]
    exact ⟨fun h => ⟨h, hn, hr⟩, fun h => h.1⟩

theorem blankedFrom_append (edits : List Edit) (offset : Nat) (xs ys : List Char) :
    blankedFrom edits offset (xs ++ ys)
      = blankedFrom edits offset xs ++ blankedFrom edits (offset + byteLength xs) ys := by
  induction xs generalizing offset with
  | nil => rfl
  | cons c xs ih =>
    rw [List.cons_append, blankedFrom, blankedFrom, ih, List.append_assoc, byteLength_cons,
      Nat.add_assoc]

/-- Only the edits behind an offset matter for what is behind it. -/
theorem blankedFrom_congr (h : ∀ o, offset ≤ o → (IsEdited edits o ↔ IsEdited edits' o))
    (xs : List Char) : blankedFrom edits offset xs = blankedFrom edits' offset xs := by
  induction xs generalizing offset with
  | nil => rfl
  | cons c xs ih =>
    rw [blankedFrom, blankedFrom, ih fun o ho => h o (by omega)]
    simp only [h offset (Nat.le_refl _)]

theorem blankedFrom_kept {xs : List Char}
    (h : ∀ o, offset ≤ o → o < offset + byteLength xs → ¬IsEdited edits o) :
    blankedFrom edits offset xs = xs := by
  induction xs generalizing offset with
  | nil => rfl
  | cons c xs ih =>
    have hpos := c.utf8Size_pos
    rw [byteLength_cons] at h
    rw [blankedFrom, if_neg (h offset (Nat.le_refl _) (by omega)),
      ih fun o ho hlt => h o (by omega) (by omega)]
    rfl

theorem blankedFrom_whole {xs : List Char}
    (h : ∀ o, offset ≤ o → o < offset + byteLength xs → IsEdited edits o) :
    blankedFrom edits offset xs = blankText xs := by
  induction xs generalizing offset with
  | nil => rfl
  | cons c xs ih =>
    have hpos := c.utf8Size_pos
    rw [byteLength_cons] at h
    rw [blankedFrom, if_pos (h offset (Nat.le_refl _) (by omega)),
      ih fun o ho hlt => h o (by omega) (by omega)]
    rfl

/-! ## §2. Blanks in different places -/

/-- A character is treated alike in two places exactly if it cannot be seen, or is edited in both or
in none of them. -/
theorem blanked_eq_iff (c : Char) :
    (if IsEdited edits offset then blankText [c] else [c])
        = (if IsEdited edits' offset' then blankText [c] else [c]) ↔
      (IsVisible c → (IsEdited edits offset ↔ IsEdited edits' offset')) := by
  rw [← blankText_singleton_ne_iff]
  by_cases h : IsEdited edits offset <;> by_cases h' : IsEdited edits' offset' <;>
    simp [h, h', eq_comm]

/-- **Blanks come to the same in two places exactly if they agree on what can be seen.** -/
theorem blankedFrom_eq_iff {text : List Char} :
    blankedFrom edits offset text = blankedFrom edits' offset' text ↔
      ∀ before c after, text = before ++ c :: after → IsVisible c →
        (IsEdited edits (offset + byteLength before) ↔
          IsEdited edits' (offset' + byteLength before)) := by
  induction text generalizing offset offset' with
  | nil => exact ⟨fun _ before c after h => absurd h (by simp), fun _ => rfl⟩
  | cons c text ih =>
    have hlength : (if IsEdited edits offset then blankText [c] else [c]).length
        = (if IsEdited edits' offset' then blankText [c] else [c]).length := by
      split <;> split <;> rfl
    rw [blankedFrom, blankedFrom]
    constructor
    · intro h before d after htext hvisible
      obtain ⟨hfirst, hrest⟩ := List.append_inj h hlength
      cases before with
      | nil =>
        obtain ⟨rfl, -⟩ := List.cons.inj htext
        exact (blanked_eq_iff c).mp hfirst hvisible
      | cons b before =>
        obtain ⟨rfl, hlater⟩ := List.cons.inj htext
        rw [byteLength_cons, ← Nat.add_assoc, ← Nat.add_assoc]
        exact ih.mp hrest before d after hlater hvisible
    · intro h
      have hrest : blankedFrom edits (offset + c.utf8Size) text
          = blankedFrom edits' (offset' + c.utf8Size) text := by
        refine ih.mpr fun before d after htext hvisible => ?_
        have hlater := h (c :: before) d after (by rw [htext]; rfl) hvisible
        rwa [byteLength_cons, ← Nat.add_assoc, ← Nat.add_assoc] at hlater
      have hfirst : (if IsEdited edits offset then blankText [c] else [c])
          = (if IsEdited edits' offset' then blankText [c] else [c]) :=
        (blanked_eq_iff c).mpr (h [] c text rfl)
      rw [hrest, hfirst]

/-! ## §3. Blanks that are carried out -/

/-- Whether an edit blanks a range of a text. -/
def Edit.Blanked (source : List Char) (e : Edit) : Prop :=
  ∃ old, slice? source e.start e.stop = some old ∧ e.text = blankText old

/-- Edits are carried out behind the offset. -/
theorem le_start_of_mem_carriedOutFrom (hedits : ∀ e ∈ edits, e.start ≤ e.stop) {e : Edit}
    (h : e ∈ carriedOutFrom offset edits) : offset ≤ e.start := by
  induction edits generalizing offset with
  | nil => exact absurd h List.not_mem_nil
  | cons x xs ih =>
    obtain ⟨hx, hxs⟩ := List.forall_mem_cons.mp hedits
    rw [carriedOutFrom] at h
    split at h
    · exact ih hxs h
    · rcases List.mem_cons.mp h with rfl | h
      · omega
      · have := ih hxs h
        omega

/-- **What blanks do from an offset on.** -/
theorem applyFrom_blanked (hedits : ∀ e ∈ edits, e.Blanked source) (front rest : List Char)
    (hsource : source = front ++ rest) (hoffset : byteLength front = offset) :
    applyFrom offset rest edits = some (blankedFrom (carriedOutFrom offset edits) offset rest) := by
  -- What is carried along is that the rest begins at the end of the last edit.
  induction edits generalizing front rest offset with
  | nil =>
    have hnone : ∀ o, ¬IsEdited [] o := fun o ⟨e, he, _⟩ => List.not_mem_nil he
    rw [applyFrom, carriedOutFrom, blankedFrom_kept fun o _ _ => hnone o]
  | cons e es ih =>
    obtain ⟨⟨old, hold, htext⟩, hes⟩ := List.forall_mem_cons.mp hedits
    by_cases hdrop : e.start < offset
    · rw [applyFrom, carriedOutFrom, if_pos hdrop, if_pos hdrop]
      exact ih hes front rest hsource hoffset
    · rw [hsource] at hold
      obtain ⟨kept, later, rfl, hstart, hstop⟩ := exists_parts_of_slice? hold (by omega)
      rw [hoffset] at hstart
      have hlater := @ih e.stop hes (front ++ kept ++ old) later
        (by rw [hsource]; simp only [List.append_assoc])
        (by rw [byteLength_append, byteLength_append]; omega)
      have hordered : ∀ x ∈ es, x.start ≤ x.stop := fun x hx => by
        obtain ⟨_, hslice, -⟩ := hes x hx
        exact le_of_slice? hslice
      have hbehind : ∀ o, IsEdited (carriedOutFrom e.stop es) o → e.stop ≤ o := by
        rintro o ⟨x, hx, hle, -⟩
        exact (le_start_of_mem_carriedOutFrom hordered hx).trans hle
      -- In front of the edit nothing is edited, and behind it only by those that follow.
      have hkept : blankedFrom (e :: carriedOutFrom e.stop es) offset kept = kept := by
        refine blankedFrom_kept fun o _ hlt => ?_
        rintro ⟨x, hx, hle, hin⟩
        rcases List.mem_cons.mp hx with rfl | hx
        · omega
        · have := hbehind o ⟨x, hx, hle, hin⟩
          omega
      have hgone : blankedFrom (e :: carriedOutFrom e.stop es) e.start old = blankText old :=
        blankedFrom_whole fun o hle hlt => ⟨e, List.mem_cons_self .., hle, by omega⟩
      have hrest : blankedFrom (e :: carriedOutFrom e.stop es) e.stop later
          = blankedFrom (carriedOutFrom e.stop es) e.stop later := by
        refine blankedFrom_congr (fun o hle => ⟨?_, ?_⟩) later
        · rintro ⟨x, hx, hfrom, hin⟩
          rcases List.mem_cons.mp hx with rfl | hx
          · omega
          · exact ⟨x, hx, hfrom, hin⟩
        · rintro ⟨x, hx, hrange⟩
          exact ⟨x, List.mem_cons_of_mem _ hx, hrange⟩
      rw [carriedOutFrom, if_neg hdrop, applyFrom_cons hstart hstop, hlater, blankedFrom_append,
        blankedFrom_append, hkept, ← hstart, hgone, ← hstop, hrest, htext, Option.map_some,
        List.append_assoc]

theorem applyEdits_blanked (hedits : ∀ e ∈ edits, e.Blanked source) :
    applyEdits source edits = some (blankedFrom (carriedOut edits) 0 source) :=
  applyFrom_blanked (fun e he => hedits e (List.mem_mergeSort.mp he)) [] source rfl rfl

/-! ## §4. Rewrites -/

theorem Action.WritesNothing.blanked {a : Action} (h : a.WritesNothing) {own : List Edit}
    (hown : a.edits? source = some own) : ∀ e ∈ own, e.Blanked source := by
  intro e he
  cases a with
  | insert offset text => exact h.elim
  | blank start stop =>
    rw [Action.edits?] at hown
    split at hown
    · obtain rfl := Option.some.inj hown
      exact absurd he List.not_mem_nil
    · obtain ⟨old, hold, rfl⟩ := Option.map_eq_some_iff.mp hown
      obtain rfl := List.mem_singleton.mp he
      exact ⟨old, hold, rfl⟩
  | replace start stop text => exact h.elim
  | refuse construct offset =>
    obtain rfl := Option.some.inj hown
    exact absurd he List.not_mem_nil
  | look offset =>
    rw [Action.eq_nil_of_look hown] at he
    exact absurd he List.not_mem_nil

/-- An action that writes nothing comes to edits exactly if it has a place in the text. -/
theorem Action.WritesNothing.edits?_eq_none {a : Action} (h : a.WritesNothing)
    (hplace : ¬a.IsWithin source) : a.edits? source = none := by
  cases a with
  | insert offset text => exact h.elim
  | blank start stop =>
    obtain ⟨hlt, hcut⟩ := Classical.not_imp.mp hplace
    rw [Action.edits?, if_neg (by omega), Option.not_isSome_iff_eq_none.mp hcut]
    rfl
  | replace start stop text => exact h.elim
  | refuse construct offset => exact absurd trivial hplace
  | look offset =>
    rw [Action.edits?, Option.not_isSome_iff_eq_none.mp hplace]
    rfl

section

variable {options : RewriteOptions} {program : Program} {out : List Char}

/-- Whether a place of a text is edited for a program. -/
def IsEditedPlace (options : RewriteOptions) (source : List Char) (program : Program)
    (offset : Nat) : Prop :=
  IsEdited (carriedOut ((planOf options source program).edits source)) offset

/-- **A rewrite that asks for blanks**: what it does to each character. -/
theorem rewrite_eq_blanked (hparse : parse ⟨options.typed, true⟩ source = .ok program)
    (hform : options.form = .preserved) (hitems : writeNothing program.items = true)
    (hwhole : ∀ n ∈ program.items, n.isThinned options program.items = false)
    (h : rewrite options source = .ok out) :
    out = blankedFrom (carriedOut ((planOf options source program).edits source)) 0 source := by
  obtain ⟨edits, hedits, -, hout⟩ := Plan.carryOut_eq_ok_iff.mp (carryOut_of_rewrite hparse h)
  rw [Plan.edits, hedits, front_of_preserved hform, Option.getD_some, List.append_nil]
  rw [front_of_preserved hform, List.append_nil, applyEdits_blanked fun e he => ?_] at hout
  · exact (Option.some.inj hout).symm
  · obtain ⟨a, ha, own, hown, he⟩ := (mem_editsOf? hedits e).mp he
    exact (planOf_blanks hform hitems hwhole a ha).blanked hown e he

/-- **When a rewrite panics that asks for blanks**: exactly if it blanks or looks elsewhere than
between two characters. -/
theorem rewrite_panicked_iff (hparse : parse ⟨options.typed, true⟩ source = .ok program)
    (hform : options.form = .preserved) (hitems : writeNothing program.items = true)
    (hwhole : ∀ n ∈ program.items, n.isThinned options program.items = false) :
    rewrite options source = .error .panicked ↔
      ∃ a ∈ (planOf options source program).actions, ¬a.IsWithin source := by
  constructor
  · intro h
    obtain ⟨program', hparse', a, ha, hcut⟩ := exists_cut_of_panicked h
    obtain rfl := Except.ok.inj (hparse.symm.trans hparse')
    exact ⟨a, ha, hcut⟩
  · rintro ⟨a, ha, hcut⟩
    rw [rewrite, hparse]
    exact Plan.carryOut_panicked ha
      ((planOf_blanks hform hitems hwhole a ha).edits?_eq_none hcut)

end

end SingleFile.Script
