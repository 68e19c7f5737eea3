/-
  SingleFile.Proofs.Script.Evaluation — RUNNING A REWRITE
  ───────────────────────────────────────────────────────
  Edits are put in order by a merge sort, which recurses on the length of
  the list and so does not unfold.  Insertion sort puts edits in the same
  order, those at one place included, and unfolds: with it what a given
  script is rewritten to is decided by running the rewrite.

  Main results:
    * `mergeSort_comesBefore` — both sorts put edits in the same order.
    * `rewrite_eq_ok_iff` — what a rewrite gives, in a form that evaluates.
-/
import Mathlib.Data.List.Sort
import SingleFile.Proofs.Script.EditLines

namespace SingleFile.Script

open SingleFile.Text Grammar

/-! ## §1. The order of edits -/

theorem Edit.comesBefore_trans (a b c : Edit) (hab : a.comesBefore b = true)
    (hbc : b.comesBefore c = true) : a.comesBefore c = true := by
  simp only [Edit.comesBefore, Bool.or_eq_true, Bool.and_eq_true, decide_eq_true_eq,
    beq_iff_eq] at hab hbc ⊢
  omega

theorem Edit.comesBefore_total (a b : Edit) : (a.comesBefore b || b.comesBefore a) = true := by
  simp only [Edit.comesBefore, Bool.or_eq_true, Bool.and_eq_true, decide_eq_true_eq, beq_iff_eq]
  omega

/-- The order of edits, as a relation. -/
def Edit.Before (a b : Edit) : Prop := a.comesBefore b = true

instance : DecidableRel Edit.Before :=
  fun a b => inferInstanceAs (Decidable (a.comesBefore b = true))

/-- An edit is inserted behind those that it does not come before. -/
theorem orderedInsert_append {e : Edit} {front rest : List Edit}
    (hfront : ∀ b ∈ front, ¬e.Before b) (hrest : ∀ b ∈ rest, e.Before b) :
    (front ++ rest).orderedInsert Edit.Before e = front ++ e :: rest := by
  induction front with
  | nil =>
    cases rest with
    | nil => rfl
    | cons b rest =>
      exact List.orderedInsert_cons_of_le _ rest (hrest b (List.mem_cons_self ..))
  | cons b front ih =>
    have hlater := ih fun c hc => hfront c (List.mem_cons_of_mem _ hc)
    rw [List.cons_append, List.orderedInsert_of_not_le _ _ (hfront b (List.mem_cons_self ..)),
        hlater]
    rfl

/-- **Both sorts put edits in the same order.** -/
theorem mergeSort_comesBefore (edits : List Edit) :
    edits.mergeSort Edit.comesBefore = edits.insertionSort Edit.Before := by
  induction edits with
  | nil => exact List.mergeSort_nil
  | cons e rest ih =>
    obtain ⟨front, behind, hwhole, hrest, hfront⟩ :=
      List.mergeSort_cons Edit.comesBefore_trans Edit.comesBefore_total e rest
    have hsorted :=
      List.pairwise_mergeSort Edit.comesBefore_trans Edit.comesBefore_total (e :: rest)
    rw [hwhole] at hsorted
    -- A stable sort puts the first edit behind those that come strictly before it, and in front
    -- of all others, which is where it is inserted.
    have hbehind := (List.pairwise_cons.mp (List.pairwise_append.mp hsorted).2.1).1
    rw [List.insertionSort_cons, ← ih, hrest, hwhole, orderedInsert_append]
    · intro b hb
      rw [Edit.Before]
      simpa using hfront b hb
    · exact hbehind

/-! ## §2. What a rewrite gives -/

/-- What a plan makes of a text, if it is carried out. -/
def Plan.outcome? (plan : Plan) (source : List Char) : Option (List Char) :=
  match editsOf? source plan.actions, firstRefusal? plan.actions with
  | some edits, none => applyFrom 0 source ((edits ++ plan.front).insertionSort Edit.Before)
  | _, _ => none

theorem Plan.outcome?_eq_some_iff {plan : Plan} {source out : List Char} :
    plan.outcome? source = some out ↔ plan.carryOut source = .ok out := by
  rw [Plan.carryOut_eq_ok_iff, Plan.outcome?]
  cases editsOf? source plan.actions with
  | none => simp
  | some edits =>
    cases firstRefusal? plan.actions with
    | some refusal => simp
    | none => simp [applyEdits, mergeSort_comesBefore]

/-- What a script is rewritten to, if it can be. -/
def outcome? (options : RewriteOptions) (source : List Char) : Option (List Char) :=
  match parse ⟨options.typed, true⟩ source with
  | .ok program => (planOf options source program).outcome? source
  | .error _ => none

/-- **What a rewrite gives, in a form that evaluates.** -/
theorem rewrite_eq_ok_iff {options : RewriteOptions} {source out : List Char} :
    rewrite options source = .ok out ↔ outcome? options source = some out := by
  unfold rewrite outcome?
  cases parse ⟨options.typed, true⟩ source with
  | error m => simp
  | ok program => exact Plan.outcome?_eq_some_iff.symm

/-- A rewrite with a property, found by evaluating it. -/
theorem exists_rewrite_of_any {options : RewriteOptions} {source : List Char}
    {p : List Char → Prop} [DecidablePred p]
    (h : (outcome? options source).any (fun out => decide (p out)) = true) :
    ∃ out, rewrite options source = .ok out ∧ p out := by
  obtain ⟨out, hout, hp⟩ := (Option.any_eq_true ..).mp h
  exact ⟨out, rewrite_eq_ok_iff.mpr hout, of_decide_eq_true hp⟩

/-- A program with a property, found by reading it. -/
theorem exists_parse_of_any {language : Language} {source : List Char} {p : Program → Prop}
    [DecidablePred p]
    (h : (parse language source).toOption.any (fun program => decide (p program)) = true) :
    ∃ program, parse language source = .ok program ∧ p program := by
  cases hresult : parse language source with
  | ok program =>
    rw [hresult] at h
    exact ⟨program, rfl, of_decide_eq_true h⟩
  | error mistake =>
    rw [hresult] at h
    exact absurd h (by simp [Except.toOption])

end SingleFile.Script
