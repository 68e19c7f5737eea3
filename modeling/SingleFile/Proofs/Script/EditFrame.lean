/-
  SingleFile.Proofs.Script.EditFrame — WHAT EDITS LEAVE ALONE
  ───────────────────────────────────────────────────────────
  Edits are sorted, and one that begins inside an earlier one is dropped.
  `Done` says what the others make of a text: in front of each edit the text
  is kept as it is, and the text of the edit stands in place of what it
  replaces.

  Main results:
    * `applyEdits_done` — an edited text, piece by piece.
    * `Plan.carryOut_done` — the same for a plan.
    * `Done.blanked` — edits that blank leave every character in its place.
-/
import Mathlib.Algebra.Ring.Nat
import Mathlib.Data.List.Forall2
import SingleFile.Proofs.Text.Cuts
import SingleFile.Script.Rewrite

namespace SingleFile.Script

open SingleFile.Text

/-! ## §1. Edits that are carried out -/

/-- The text that an edit replaces. -/
def Edit.removed (source : List Char) (e : Edit) : List Char :=
  (slice? source e.start e.stop).getD []

theorem Edit.removed_of_slice? {source old text : List Char} {start stop : Nat}
    (h : slice? source start stop = some old) : Edit.removed source ⟨start, stop, text⟩ = old := by
  rw [Edit.removed, h]
  rfl

/-- The edits of a sorted list that are carried out from an offset on. -/
def carriedOutFrom : Nat → List Edit → List Edit
  | _, [] => []
  | offset, e :: es =>
    if e.start < offset then carriedOutFrom offset es else e :: carriedOutFrom e.stop es

/-- The edits that are carried out; all others begin inside one of them. -/
def carriedOut (edits : List Edit) : List Edit :=
  carriedOutFrom 0 (edits.mergeSort Edit.comesBefore)

theorem mem_of_mem_carriedOutFrom {e : Edit} {edits : List Edit} {offset : Nat}
    (h : e ∈ carriedOutFrom offset edits) : e ∈ edits := by
  induction edits generalizing offset with
  | nil => exact h
  | cons x xs ih =>
    rw [carriedOutFrom] at h
    split at h
    · exact List.mem_cons_of_mem _ (ih h)
    · rcases List.mem_cons.mp h with rfl | h
      · exact List.mem_cons_self ..
      · exact List.mem_cons_of_mem _ (ih h)

theorem mem_of_mem_carriedOut {e : Edit} {edits : List Edit} (h : e ∈ carriedOut edits) :
    e ∈ edits :=
  List.mem_mergeSort.mp (mem_of_mem_carriedOutFrom h)

/-- Of some edits the first one is carried out. -/
theorem carriedOut_ne_nil {edits : List Edit} (h : edits ≠ []) : carriedOut edits ≠ [] := by
  rw [carriedOut]
  cases hsorted : edits.mergeSort Edit.comesBefore with
  | nil =>
    have hperm := List.mergeSort_perm edits Edit.comesBefore
    rw [hsorted] at hperm
    exact absurd hperm.symm.eq_nil h
  | cons e rest =>
    rw [carriedOutFrom, if_neg (Nat.not_lt_zero _)]
    exact List.cons_ne_nil _ _

/-- **A rest of a text with edits done to it**: what stands in front of an edit is kept, and the
text of the edit stands in place of what it replaces. -/
inductive Done (source : List Char) : List Edit → List Char → List Char → Prop where
  | nil (rest : List Char) : Done source [] rest rest
  | cons {e : Edit} {edits : List Edit} {rest out : List Char} (kept : List Char)
    (h : Done source edits rest out) :
    Done source (e :: edits) (kept ++ e.removed source ++ rest) (kept ++ e.text ++ out)

/-- One edit after another is done to the rest of a text. -/
theorem applyFrom_done {source front rest out : List Char} {edits : List Edit} {offset : Nat}
    (hordered : ∀ e ∈ edits, e.start ≤ e.stop)
    (hsplit : splitAt? source offset = some (front, rest))
    (h : applyFrom offset rest edits = some out) :
    Done source (carriedOutFrom offset edits) rest out := by
  induction edits generalizing offset front rest out with
  | nil =>
    obtain rfl := Option.some.inj h
    exact .nil rest
  | cons e es ih =>
    have hes : ∀ e ∈ es, e.start ≤ e.stop := fun x hx => hordered x (List.mem_cons_of_mem _ hx)
    have hle := hordered e (List.mem_cons_self ..)
    rw [applyFrom] at h
    rw [carriedOutFrom]
    split at h
    · next hdrop =>
      -- The edit begins inside an earlier one: the text stays as it is.
      rw [if_pos hdrop]
      exact ih hes hsplit h
    · next hkeep =>
      rw [if_neg hkeep]
      obtain ⟨⟨kept, behind⟩, hkept, h⟩ := Option.bind_eq_some_iff.mp h
      obtain ⟨⟨gone, later⟩, hgone, h⟩ := Option.bind_eq_some_iff.mp h
      obtain ⟨after, hafter, h⟩ := Option.bind_eq_some_iff.mp h
      obtain rfl := Option.some.inj h
      -- Both cuts of the rest are cuts of the whole text, so the text between them is the one
      -- that the edit replaces.
      have hstart : splitAt? source e.start = some (front ++ kept, behind) := by
        have hcut := splitAt?_add hsplit hkept
        rwa [show offset + (e.start - offset) = e.start by omega] at hcut
      have hstop : splitAt? source e.stop = some (front ++ kept ++ gone, later) := by
        have hcut := splitAt?_add hstart hgone
        rwa [show e.start + (e.stop - e.start) = e.stop by omega] at hcut
      have hremoved : e.removed source = gone := by
        rw [Edit.removed, slice?_of_splitAt? hle hstart hgone]
        rfl
      have hrest : rest = kept ++ e.removed source ++ later := by
        rw [hremoved, ← splitAt?_append hkept, ← splitAt?_append hgone, List.append_assoc]
      rw [hrest]
      exact .cons kept (ih hes hstop hafter)

/-- **An edited text, piece by piece.** -/
theorem applyEdits_done {source out : List Char} {edits : List Edit}
    (hordered : ∀ e ∈ edits, e.start ≤ e.stop) (h : applyEdits source edits = some out) :
    Done source (carriedOut edits) source out := by
  have hstart : splitAt? source 0 = some ([], source) := by
    cases source <;> rfl
  exact applyFrom_done (fun e he => hordered e (List.mem_mergeSort.mp he)) hstart h

/-! ## §2. Plans -/

/-- The edit that puts the prologue in front, if there is one. -/
def Plan.front (plan : Plan) : List Edit :=
  if plan.prologue.isEmpty then [] else [⟨0, 0, plan.prologue.toList⟩]

/-- All edits of a plan; none where an action cuts the text inside a character. -/
def Plan.edits (plan : Plan) (source : List Char) : List Edit :=
  (editsOf? source plan.actions).getD [] ++ plan.front

/-- **What a plan comes to**: its edits are done, unless it refuses something. -/
theorem Plan.carryOut_eq_ok_iff {plan : Plan} {source out : List Char} :
    plan.carryOut source = .ok out ↔
      ∃ edits, editsOf? source plan.actions = some edits ∧ firstRefusal? plan.actions = none ∧
        applyEdits source (edits ++ plan.front) = some out := by
  unfold Plan.carryOut
  cases editsOf? source plan.actions with
  | none => simp
  | some edits =>
    cases firstRefusal? plan.actions with
    | some refusal => simp
    | none =>
      -- The edit of the prologue is made where the plan is carried out.
      have hfront : (if plan.prologue.isEmpty = true then []
          else [⟨0, 0, plan.prologue.toList⟩]) = plan.front := rfl
      simp only [Option.some.injEq, true_and, exists_eq_left']
      rw [hfront]
      cases applyEdits source (edits ++ plan.front) <;> simp

/-- Where some actions fit a text, each of them does. -/
theorem exists_edits?_of_mem {source : List Char} {actions : List Action} {edits : List Edit}
    (h : editsOf? source actions = some edits) {a : Action} (ha : a ∈ actions) :
    ∃ own, a.edits? source = some own := by
  induction actions generalizing edits with
  | nil => exact absurd ha List.not_mem_nil
  | cons b actions ih =>
    rw [editsOf?] at h
    obtain ⟨first, hfirst, h⟩ := Option.bind_eq_some_iff.mp h
    obtain ⟨later, hlater, -⟩ := Option.bind_eq_some_iff.mp h
    rcases List.mem_cons.mp ha with rfl | ha
    · exact ⟨first, hfirst⟩
    · exact ih hlater ha

/-- **A cut inside a character is a panic**, whatever else is asked for. -/
theorem Plan.carryOut_panicked {plan : Plan} {source : List Char} {a : Action}
    (ha : a ∈ plan.actions) (h : a.edits? source = none) :
    plan.carryOut source = .error .panicked := by
  unfold Plan.carryOut
  cases hedits : editsOf? source plan.actions with
  | none => rfl
  | some edits =>
    obtain ⟨own, hown⟩ := exists_edits?_of_mem hedits ha
    rw [h] at hown
    contradiction

/-- The edits of some actions are the edits of each of them. -/
theorem mem_editsOf? {source : List Char} {actions : List Action} {edits : List Edit}
    (h : editsOf? source actions = some edits) (e : Edit) :
    e ∈ edits ↔ ∃ a ∈ actions, ∃ own, a.edits? source = some own ∧ e ∈ own := by
  induction actions generalizing edits with
  | nil =>
    obtain rfl := Option.some.inj h
    simp
  | cons a actions ih =>
    rw [editsOf?] at h
    obtain ⟨first, hfirst, h⟩ := Option.bind_eq_some_iff.mp h
    obtain ⟨others, hothers, h⟩ := Option.bind_eq_some_iff.mp h
    obtain rfl := Option.some.inj h
    rw [List.mem_append, ih hothers]
    constructor
    · rintro (he | ⟨b, hb, own, hown, he⟩)
      · exact ⟨a, List.mem_cons_self .., first, hfirst, he⟩
      · exact ⟨b, List.mem_cons_of_mem _ hb, own, hown, he⟩
    · rintro ⟨b, hb, own, hown, he⟩
      rcases List.mem_cons.mp hb with rfl | hb
      · rw [hfirst] at hown
        obtain rfl := Option.some.inj hown
        exact Or.inl he
      · exact Or.inr ⟨b, hb, own, hown, he⟩

/-- To look at a text changes nothing in it. -/
theorem Action.eq_nil_of_look {source : List Char} {offset : Nat} {edits : List Edit}
    (h : (Action.look offset).edits? source = some edits) : edits = [] := by
  obtain ⟨-, -, rfl⟩ := Option.map_eq_some_iff.mp h
  rfl

/-- The edits of an action stand the right way round. -/
theorem Action.edits?_ordered {source : List Char} {a : Action} {edits : List Edit}
    (h : a.edits? source = some edits) : ∀ e ∈ edits, e.start ≤ e.stop := by
  intro e he
  cases a with
  | insert offset text =>
    obtain rfl := Option.some.inj h
    obtain rfl := List.mem_singleton.mp he
    exact Nat.le_refl _
  | blank start stop =>
    rw [Action.edits?] at h
    split at h
    · obtain rfl := Option.some.inj h
      simp at he
    · obtain ⟨old, hold, rfl⟩ := Option.map_eq_some_iff.mp h
      obtain rfl := List.mem_singleton.mp he
      exact le_of_slice? hold
  | replace start stop text =>
    obtain ⟨old, hold, rfl⟩ := Option.map_eq_some_iff.mp h
    obtain rfl := List.mem_singleton.mp he
    exact le_of_slice? hold
  | refuse construct offset =>
    obtain rfl := Option.some.inj h
    simp at he
  | look offset =>
    obtain rfl := Action.eq_nil_of_look h
    simp at he

/-- An edit of a plan is one of an action's, or puts the prologue in front. -/
theorem Plan.mem_edits {plan : Plan} {source : List Char} {e : Edit}
    (h : e ∈ plan.edits source) :
    (∃ a ∈ plan.actions, ∃ own, a.edits? source = some own ∧ e ∈ own) ∨ e ∈ plan.front := by
  rw [Plan.edits] at h
  rcases List.mem_append.mp h with he | he
  · left
    cases hedits : editsOf? source plan.actions with
    | none =>
      rw [hedits] at he
      exact absurd he (List.not_mem_nil)
    | some edits =>
      rw [hedits] at he
      exact (mem_editsOf? hedits e).mp he
  · exact Or.inr he

/-- The statements in front of everything else replace nothing. -/
theorem Plan.front_start {plan : Plan} {e : Edit} (he : e ∈ plan.front) :
    e.start = 0 ∧ e.stop = 0 := by
  rw [Plan.front] at he
  split at he
  · exact absurd he List.not_mem_nil
  · obtain rfl := List.mem_singleton.mp he
    exact ⟨rfl, rfl⟩

theorem Plan.front_ordered {plan : Plan} : ∀ e ∈ plan.front, e.start ≤ e.stop := by
  intro e he
  obtain ⟨hstart, hstop⟩ := Plan.front_start he
  rw [hstart, hstop]

/-- **A plan that is carried out, piece by piece.** -/
theorem Plan.carryOut_done {plan : Plan} {source out : List Char}
    (h : plan.carryOut source = .ok out) :
    Done source (carriedOut (plan.edits source)) source out := by
  obtain ⟨edits, hedits, -, happly⟩ := Plan.carryOut_eq_ok_iff.mp h
  have hall : plan.edits source = edits ++ plan.front := by
    rw [Plan.edits, hedits]
    rfl
  rw [← hall] at happly
  refine applyEdits_done (fun e he => ?_) happly
  rcases Plan.mem_edits he with ⟨a, -, own, hown, he⟩ | he
  · exact Action.edits?_ordered hown e he
  · exact Plan.front_ordered e he

/-! ## §3. Blanking -/

/-- Whether a character is kept or made a space; a line end is always kept. -/
def Blanks (before after : Char) : Prop :=
  after = before ∨ (after = ' ' ∧ before ≠ '\n' ∧ before ≠ '\r')

theorem blankText_blanks (cs : List Char) : List.Forall₂ Blanks cs (blankText cs) := by
  induction cs with
  | nil => exact .nil
  | cons c cs ih =>
    refine .cons ?_ ih
    show Blanks c (if (c == '\n' || c == '\r') = true then c else ' ')
    split
    · exact Or.inl rfl
    · next h =>
      simp only [Bool.or_eq_true, beq_iff_eq, not_or] at h
      exact Or.inr ⟨rfl, h⟩

theorem blanks_self (cs : List Char) : List.Forall₂ Blanks cs cs :=
  List.forall₂_same.mpr fun _ _ => Or.inl rfl

/-- **Edits that blank leave every character in its place.** -/
theorem Done.blanked {source rest out : List Char} {edits : List Edit}
    (h : Done source edits rest out) (hblank : ∀ e ∈ edits, e.text = blankText (e.removed source)) :
    List.Forall₂ Blanks rest out := by
  induction h with
  | nil rest => exact blanks_self rest
  | @cons e edits rest out kept _ ih =>
    have hlater := ih fun x hx => hblank x (List.mem_cons_of_mem _ hx)
    -- What is kept, what is blanked, and what comes behind.
    rw [hblank e (List.mem_cons_self ..)]
    exact List.rel_append (List.rel_append (blanks_self kept) (blankText_blanks _)) hlater

/-- Blanks change nothing exactly if each of them changes nothing. -/
theorem Done.eq_iff_of_blanks {source rest out : List Char} {edits : List Edit}
    (h : Done source edits rest out)
    (hblank : ∀ e ∈ edits, e.text = blankText (e.removed source)) :
    out = rest ↔ ∀ e ∈ edits, e.text = e.removed source := by
  induction h with
  | nil rest => simp
  | @cons e edits rest out kept _ ih =>
    obtain ⟨hfirst, hlater⟩ := List.forall_mem_cons.mp hblank
    have hlength : (kept ++ e.text).length = (kept ++ e.removed source).length := by
      rw [List.length_append, List.length_append, hfirst, length_blankText]
    rw [List.forall_mem_cons, ← ih hlater]
    constructor
    · intro hsame
      obtain ⟨hfront, hrest⟩ := List.append_inj hsame hlength
      exact ⟨List.append_cancel_left hfront, hrest⟩
    · rintro ⟨hedit, hrest⟩
      rw [hedit, hrest]

end SingleFile.Script
