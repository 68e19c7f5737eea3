/-
  SingleFile.Proofs.Text.Loops — LOOPS THAT GO OVER A TEXT
  ────────────────────────────────────────────────────────
  A loop turns one state into the next one, or ends with a result.  It goes
  over a text if every state is at a place of that text.  Where a loop passes a
  character in each turn, and each turn goes on behind the first thing that it
  finds, nothing of that kind is missed.

  Main results:
    * `Advances.reaches_of_visits` — a loop that advances stays in its text.
    * `Advances.exists_turn` — what it looks for, it finds or goes over.
-/
import SingleFile.Proofs.Markup.Spans

namespace SingleFile.Text

/-! ## §1. Places -/

namespace Cursor

variable {c d e : Cursor}

/-- Of two places of one text the one at the larger offset is farther on. -/
theorem Reaches.of_offset_le (hd : c.Reaches d) (he : c.Reaches e) (h : d.offset ≤ e.offset) :
    d.Reaches e := by
  obtain ⟨passed, hrest, hoffset⟩ := hd
  obtain ⟨passed', hrest', hoffset'⟩ := he
  have hsame : passed ++ d.rest = passed' ++ e.rest := hrest.symm.trans hrest'
  rcases List.append_eq_append_iff.mp hsame with ⟨more, rfl, hmore⟩ | ⟨more, rfl, hmore⟩
  · refine ⟨more, hmore, ?_⟩
    rw [hoffset', hoffset, byteLength_append, Nat.add_assoc]
  · -- The first place is behind the second one, so there is nothing between them.
    rw [byteLength_append] at hoffset
    obtain rfl : more = [] := by
      by_contra hne
      have hpos := byteLength_pos hne
      omega
    refine ⟨[], hmore.symm, ?_⟩
    rw [hoffset', hoffset]
    rfl

/-- Two places of one text with the same offset are the same. -/
theorem Reaches.eq_of_offset (h : c.Reaches d) (hoffset : c.offset = d.offset) : c = d := by
  obtain ⟨passed, hrest, hstop⟩ := h
  obtain rfl : passed = [] := by
    by_contra hne
    have hpos := byteLength_pos hne
    omega
  exact (Cursor.mk.injEq ..).mpr ⟨hoffset, hrest⟩

/-- A place that is reached is the same place or stands at a larger offset. -/
theorem Reaches.eq_or_lt (h : c.Reaches d) : d = c ∨ c.offset < d.offset := by
  rcases Nat.lt_or_eq_of_le h.offset_le with hlt | heq
  · exact .inr hlt
  · exact .inl (h.eq_of_offset heq).symm

/-- What stands farther on is found, if nothing like it stands in front of it. -/
theorem find?_of_reaches {needle rest : List Char} (h : c.Reaches d)
    (hd : d.rest = needle ++ rest) :
    ∃ found, c.find? needle = some found ∧ found.Reaches d := by
  obtain ⟨passed, hrest, hoffset⟩ := h
  obtain ⟨offset, text⟩ := c
  obtain ⟨there, left⟩ := d
  obtain rfl : text = passed ++ left := hrest
  obtain rfl : there = offset + byteLength passed := hoffset
  induction passed generalizing offset with
  | nil =>
    have hstarts : startsWith left needle = true := startsWith_iff.mpr ⟨rest, hd⟩
    refine ⟨⟨offset, left⟩, ?_, Reaches.refl _⟩
    rw [List.nil_append, find?]
    cases left with
    | nil =>
      have hnil : needle = [] := (List.append_eq_nil_iff.mp hd.symm).1
      rw [findFrom?, hnil]
      rfl
    | cons ch cs => rw [findFrom?, if_pos hstarts]
  | cons ch passed ih =>
    rw [List.cons_append, find?, findFrom?, byteLength_cons, ← Nat.add_assoc]
    by_cases hstarts : startsWith (ch :: (passed ++ left)) needle = true
    · rw [if_pos hstarts]
      exact ⟨_, rfl, ch :: passed, rfl, Nat.add_assoc ..⟩
    · rw [if_neg hstarts]
      exact ih (offset + ch.utf8Size) hd

end Cursor

open Cursor

/-! ## §2. Loops -/

/-- A loop over a text: what one turn makes of a state, and the place that a state has come to. -/
structure Loop (σ ρ : Type) where
  turn : σ → σ ⊕ ρ
  place : σ → Cursor

namespace Loop

variable {σ ρ : Type} {l : Loop σ ρ} {s t : σ}

/-- Whether a loop ends with a result, turn by turn. -/
inductive Runs (l : Loop σ ρ) : σ → ρ → Prop where
  | ends {s : σ} {r : ρ} (h : l.turn s = .inr r) : Runs l s r
  | goesOn {s t : σ} {r : ρ} (h : l.turn s = .inl t) (later : Runs l t r) : Runs l s r

/-- Whether a loop that starts in a state comes to another one. -/
inductive Visits (l : Loop σ ρ) (s : σ) : σ → Prop where
  | start : Visits l s s
  | next {t u : σ} (before : Visits l s t) (h : l.turn t = .inl u) : Visits l s u

/-- Whether a loop passes a character in each turn. -/
def Advances (l : Loop σ ρ) : Prop :=
  ∀ s t, l.turn s = .inl t → (l.place s).Passes (l.place t)

/-- What a loop comes to behind its first turn, it comes to. -/
theorem Visits.behind {u : σ} (h : l.turn s = .inl t) (later : l.Visits t u) : l.Visits s u := by
  induction later with
  | start => exact .next .start h
  | next _ hturn ih => exact .next ih hturn

/-- **A loop that advances stays in its text.** -/
theorem Advances.reaches_of_visits (h : l.Advances) (hvisits : l.Visits s t) :
    (l.place s).Reaches (l.place t) := by
  induction hvisits with
  | start => exact Reaches.refl _
  | next _ hturn ih => exact ih.trans (h _ _ hturn).reaches

/-- **What a loop looks for, it finds or goes over**: for each place where the text stands there is
a turn that finds it first, or finds something in front of it and does not go on in front of it. -/
theorem Advances.exists_turn (h : l.Advances) {p : Cursor} (needle : List Char)
    {rest : List Char} (hp : (l.place s).Reaches p) (hneedle : p.rest = needle ++ rest) :
    ∃ t found, l.Visits s t ∧ (l.place t).find? needle = some found ∧ found.Reaches p ∧
      ∀ u, l.turn t = .inl u → p.offset < (l.place u).offset := by
  induction hn : (l.place s).rest.length using Nat.strongRecOn generalizing s with
  | ind n ih =>
    obtain ⟨found, hfind, hfound⟩ := find?_of_reaches hp hneedle
    by_cases hpassed : ∀ u, l.turn s = .inl u → p.offset < (l.place u).offset
    · exact ⟨s, found, .start, hfind, hfound, hpassed⟩
    · -- The next turn begins no farther on than the place, which is left to the turns behind it.
      push Not at hpassed
      obtain ⟨u, hturn, hle⟩ := hpassed
      have hpass := h s u hturn
      obtain ⟨t, found', hvisits, hrest⟩ :=
        ih _ (hn ▸ hpass.2) (hpass.reaches.of_offset_le hp hle) rfl
      exact ⟨t, found', hvisits.behind hturn, hrest⟩

end Loop

end SingleFile.Text
