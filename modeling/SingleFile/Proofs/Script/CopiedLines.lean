/-
  SingleFile.Proofs.Script.CopiedLines — LINE FEEDS OF COPIED TEXT
  ────────────────────────────────────────────────────────────────
  A lowering writes texts of its own, all of them single lines, and copies
  parts of the script into them.  Parts that stand one after another inside a
  range have no more line feeds than the range, so a text that copies each of
  them once fits in its place.

  Main results:
    * `feedsBefore_inOrder` — the line feeds of parts one after another.
    * `replace_fits` — a replacement that copies such parts once fits.
    * `sum_lineFeeds_le` — the line feeds of texts, each made from its parts.
-/
import Mathlib.Data.List.Flatten
import Mathlib.Data.List.Forall2
import SingleFile.Proofs.Script.ErasureLines

namespace SingleFile.Script

open SingleFile.Text

/-! ## §1. Spans one after another -/

/-- The number of line feeds that begin before an offset. -/
def feedsBefore (source : List Char) (offset : Nat) : Nat := (upTo source offset).count '\n'

/-- Whether spans stand one after another between two offsets. -/
def inOrder (stop : Nat) : Nat → List Span → Bool
  | start, [] => start ≤ stop
  | start, s :: rest => start ≤ s.start && s.start ≤ s.stop && inOrder stop s.stop rest

theorem feedsBefore_mono (source : List Char) {a b : Nat} (h : a ≤ b) :
    feedsBefore source a ≤ feedsBefore source b := by
  induction source generalizing a b with
  | nil => exact Nat.le_refl _
  | cons c cs ih =>
    simp only [feedsBefore, upTo] at ih ⊢
    split
    · simp
    -- The smaller offset is behind this character, so the larger one is too.
    · rw [if_neg (by omega), List.count_cons, List.count_cons]
      have hrest := ih (a := a - c.utf8Size) (b := b - c.utf8Size) (by omega)
      omega

/-- The line feeds of a slice are those that begin between its ends. -/
theorem feedsBefore_slice? {source t : List Char} {start stop : Nat}
    (h : slice? source start stop = some t) :
    start ≤ stop ∧ feedsBefore source start + t.count '\n' = feedsBefore source stop := by
  rw [slice?] at h
  split at h
  · next hle =>
    obtain ⟨⟨front, rest⟩, hfront, h⟩ := Option.bind_eq_some_iff.mp h
    obtain ⟨⟨middle, behind⟩, hmiddle, h⟩ := Option.bind_eq_some_iff.mp h
    obtain rfl := Option.some.inj h
    -- The text up to the end of the slice is what is in front of it and the slice.
    have hboth := splitAt?_add hfront hmiddle
    rw [show start + (stop - start) = stop by omega] at hboth
    refine ⟨hle, ?_⟩
    rw [feedsBefore, feedsBefore, upTo_of_splitAt? hfront, upTo_of_splitAt? hboth,
        List.count_append]
  · simp at h

/-- The text at a span has no more line feeds than begin between its ends. -/
theorem feedsBefore_textAt (source : List Char) {s : Span} (h : s.start ≤ s.stop) :
    feedsBefore source s.start + lineFeeds (textAt source s) ≤ feedsBefore source s.stop := by
  cases ht : s.text? source with
  | none =>
    have hempty : textAt source s = "" := by
      rw [textAt, ht]
      rfl
    rw [hempty]
    exact feedsBefore_mono source h
  | some t =>
    have htext : lineFeeds (textAt source s) = t.count '\n' := by
      rw [textAt, ht, lineFeeds]
      show (String.ofList t).toList.count '\n' = _
      rw [String.toList_ofList]
    rw [htext]
    exact Nat.le_of_eq (feedsBefore_slice? ht).2

/-- The line feeds in the texts at some spans. -/
def feedsAt (source : List Char) (spans : List Span) : Nat :=
  (spans.map fun s => lineFeeds (textAt source s)).sum

theorem feedsAt_singleton (source : List Char) (s : Span) :
    feedsAt source [s] = lineFeeds (textAt source s) := by
  simp [feedsAt]

theorem feedsAt_append (source : List Char) (spans more : List Span) :
    feedsAt source (spans ++ more) = feedsAt source spans + feedsAt source more := by
  rw [feedsAt, List.map_append, List.sum_append]
  rfl

theorem feedsAt_sublist (source : List Char) {fewer spans : List Span}
    (h : fewer.Sublist spans) : feedsAt source fewer ≤ feedsAt source spans := by
  induction h with
  | slnil => exact Nat.le_refl _
  | cons s _ ih =>
    simp only [feedsAt, List.map_cons, List.sum_cons] at ih ⊢
    omega
  | cons_cons s _ ih =>
    simp only [feedsAt, List.map_cons, List.sum_cons] at ih ⊢
    omega

/-- **Texts at spans one after another** have together no more line feeds than the text around
them. -/
theorem feedsBefore_inOrder (source : List Char) {spans : List Span} {start stop : Nat}
    (h : inOrder stop start spans = true) :
    feedsBefore source start + feedsAt source spans ≤ feedsBefore source stop := by
  induction spans generalizing start with
  | nil => exact feedsBefore_mono source (of_decide_eq_true h)
  | cons s rest ih =>
    simp only [inOrder, Bool.and_eq_true, decide_eq_true_eq] at h
    -- The text in front of the first span, the span, and the text behind it.
    have hrest := ih h.2
    have hfront := feedsBefore_mono source h.1.1
    have hspan := feedsBefore_textAt source h.1.2
    simp only [feedsAt, List.map_cons, List.sum_cons] at hrest ⊢
    omega

/-- **A replacement that copies texts at spans one after another fits.** -/
theorem replace_fits {source : List Char} {spans : List Span} {start stop : Nat} {text : String}
    (h : inOrder stop start spans = true) (htext : lineFeeds text ≤ feedsAt source spans) :
    (Action.replace start stop text).Fits source := by
  intro old hold
  have hbound := feedsBefore_inOrder source h
  have hslice := (feedsBefore_slice? hold).2
  rw [lineFeeds] at htext
  omega

/-! ## §2. Texts of a lowering -/

/-- The digits of a number are a single line. -/
theorem lineFeeds_repr (n : Nat) : lineFeeds (Nat.repr n) = 0 := by
  rw [lineFeeds, List.count_eq_zero]
  intro h
  rw [Nat.repr, String.toList_ofList] at h
  have hdigit : '\n'.isDigit = true := Nat.isDigit_of_mem_toDigits (by omega) (by omega) h
  simp [Char.isDigit] at hdigit

namespace Helper

theorem lineFeeds_name (h : Helper) : lineFeeds h.name = 0 := by cases h <;> decide

theorem lineFeeds_parameters (h : Helper) : lineFeeds h.parameters = 0 := by cases h <;> decide

theorem lineFeeds_body (h : Helper) : lineFeeds h.body = 0 := by
  cases h with
  | interopDefault => decide +kernel
  | exportStar =>
    -- A long literal is slow to decode, so its two halves are counted apart.
    refine (lineFeeds_append _ _).trans ?_
    decide +kernel

/-- The declaration of a helper is a single line. -/
theorem lineFeeds_declaration (h : Helper) : lineFeeds h.declaration = 0 := by
  show lineFeeds ("function " ++ h.name ++ h.parameters ++ " " ++ h.body) = 0
  simp only [lineFeeds_append, lineFeeds_name, lineFeeds_parameters, lineFeeds_body]
  decide

/-- A call of a helper is a single line but for its arguments. -/
theorem lineFeeds_call (h : Helper) (mode : HelperMode) (arguments : String) :
    lineFeeds (h.call mode arguments) = lineFeeds arguments := by
  have hclose : lineFeeds ")" = 0 := by decide
  cases mode with
  | shared =>
    have hopen : lineFeeds "(" = 0 := by decide
    show lineFeeds (h.name ++ "(" ++ arguments ++ ")") = lineFeeds arguments
    simp only [lineFeeds_append, lineFeeds_name, hopen, hclose, Nat.zero_add, Nat.add_zero]
  | inline =>
    have hword : lineFeeds "(function " = 0 := by decide
    have hspace : lineFeeds " " = 0 := by decide
    have hopen : lineFeeds ")(" = 0 := by decide
    show lineFeeds ("(function " ++ h.parameters ++ " " ++ h.body ++ ")(" ++ arguments ++ ")")
      = lineFeeds arguments
    simp only [lineFeeds_append, lineFeeds_parameters, lineFeeds_body, hword, hspace, hopen,
      hclose, Nat.zero_add, Nat.add_zero]

end Helper

/-- A text of fixed words around a name and a value. -/
theorem lineFeeds_varText (name value : String) :
    lineFeeds (varText name value) = lineFeeds name + lineFeeds value := by
  show lineFeeds ("var " ++ name ++ " = " ++ value ++ ";") = _
  simp only [lineFeeds_append]
  show 0 + _ + 0 + _ + 0 = _
  omega

theorem lineFeeds_exportOf (name value : String) :
    lineFeeds (exportOf name value) = lineFeeds name + lineFeeds value := by
  show lineFeeds ("exports." ++ name ++ " = " ++ value ++ ";") = _
  simp only [lineFeeds_append]
  show 0 + _ + 0 + _ + 0 = _
  omega

theorem lineFeeds_join (texts : List String) :
    lineFeeds (String.join texts) = (texts.map lineFeeds).sum := by
  induction texts with
  | nil => rfl
  | cons t rest ih => rw [String.join_cons, lineFeeds_append, ih, List.map_cons, List.sum_cons]

/-- Texts with a single line between them. -/
theorem lineFeeds_intercalate {separator : String} (h : lineFeeds separator = 0)
    (texts : List String) :
    lineFeeds (separator.intercalate texts) = (texts.map lineFeeds).sum := by
  induction texts with
  | nil => rfl
  | cons t rest ih =>
    cases rest with
    | nil => simp
    | cons u more =>
      rw [String.intercalate_cons_cons, lineFeeds_append, lineFeeds_append, ih, h, Nat.add_zero]
      rfl

/-- The line feeds in some texts, each bounded by those of a part of the script. -/
theorem sum_lineFeeds_le {β : Type} {source : List Char} {items : List β} {texts : List String}
    {plain : β → Prop} {copied : β → List Span}
    (h : List.Forall₂ (fun x t => plain x → lineFeeds t ≤ feedsAt source (copied x)) items texts)
    (hplain : ∀ x ∈ items, plain x) :
    (texts.map lineFeeds).sum ≤ feedsAt source (items.flatMap copied) := by
  induction h with
  | nil => exact Nat.le_refl _
  | cons hfirst _ ih =>
    have hle := hfirst (hplain _ (List.mem_cons_self ..))
    have hrest := ih fun x hx => hplain x (List.mem_cons_of_mem _ hx)
    rw [List.flatMap_cons, feedsAt_append, List.map_cons, List.sum_cons]
    omega

end SingleFile.Script
