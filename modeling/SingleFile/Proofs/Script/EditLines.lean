/-
  SingleFile.Proofs.Script.EditLines — LINE FEEDS UNDER EDITS
  ───────────────────────────────────────────────────────────
  What edits do to the number of line feeds adds up: each takes away the line
  feeds of the text it replaces and adds those of its own text.  No edit of an
  action takes away more than it adds, so nothing is ever made up for: the
  number is kept exactly if every edit that is carried out keeps it.

  Main results:
    * `Done.count` — the line feeds of an edited text.
    * `Action.edits?_spec` — an action never loses line feeds, and its edits fit
      if it does.
    * `Plan.carryOut_keeps_iff` — a plan keeps the number of line feeds
      exactly if all actions that are carried out fit.
-/
import SingleFile.Proofs.Script.EditFrame

namespace SingleFile.Script

open SingleFile.Text

/-! ## §1. Edits -/

/-- Whether an edit adds no more line feeds than it takes away. -/
def Edit.Fits (source : List Char) (e : Edit) : Prop :=
  e.text.count '\n' ≤ (e.removed source).count '\n'

/-- The line feeds in the texts of some edits. -/
def addedFeeds (edits : List Edit) : Nat := (edits.map fun e => e.text.count '\n').sum

/-- The line feeds in the texts that some edits replace. -/
def removedFeeds (source : List Char) (edits : List Edit) : Nat :=
  (edits.map fun e => (e.removed source).count '\n').sum

/-- **The line feeds of an edited text.** -/
theorem Done.count {source rest out : List Char} {edits : List Edit}
    (h : Done source edits rest out) :
    out.count '\n' + removedFeeds source edits = rest.count '\n' + addedFeeds edits := by
  induction h with
  | nil rest => rfl
  | cons kept _ ih =>
    simp only [removedFeeds, addedFeeds, List.map_cons, List.sum_cons, List.count_append] at ih ⊢
    omega

/-- Where no edit adds less than it takes away, only edits that fit keep the sum. -/
theorem addedFeeds_eq_iff {source : List Char} {edits : List Edit}
    (hgain : ∀ e ∈ edits, (e.removed source).count '\n' ≤ e.text.count '\n') :
    removedFeeds source edits ≤ addedFeeds edits ∧
      (addedFeeds edits = removedFeeds source edits ↔ ∀ e ∈ edits, e.Fits source) := by
  induction edits with
  | nil => exact ⟨Nat.le_refl 0, fun _ e he => absurd he (by simp), fun _ => rfl⟩
  | cons e es ih =>
    obtain ⟨hle, hiff⟩ := ih fun x hx => hgain x (List.mem_cons_of_mem _ hx)
    have he := hgain e (List.mem_cons_self ..)
    simp only [addedFeeds, removedFeeds, List.map_cons, List.sum_cons] at hle hiff ⊢
    -- No edit makes up for another one: each takes away at most what it adds.
    refine ⟨by omega, fun h => ?_, fun h => ?_⟩
    · have hsum := hiff.mp (by omega)
      intro x hx
      rcases List.mem_cons.mp hx with rfl | hx
      · rw [Edit.Fits]
        omega
      · exact hsum x hx
    · have hsum := hiff.mpr fun x hx => h x (List.mem_cons_of_mem _ hx)
      have hfit := h e (List.mem_cons_self ..)
      rw [Edit.Fits] at hfit
      omega

/-! ## §2. Actions -/

/-- Whether an action adds no line feeds: an inserted text has none, and a replacement no more
than the text it replaces, if its range fits at all. -/
def Action.Fits (source : List Char) : Action → Prop
  | .insert _ text => text.toList.count '\n' = 0
  | .blank _ _ => True
  | .replace start stop text =>
    ∀ old, slice? source start stop = some old → text.toList.count '\n' ≤ old.count '\n'
  | .refuse _ _ => True
  | .look _ => True

theorem slice?_self {source t : List Char} {offset : Nat}
    (h : slice? source offset offset = some t) : t = [] := by
  rw [slice?, if_pos (Nat.le_refl _)] at h
  obtain ⟨⟨a, b⟩, -, h⟩ := Option.bind_eq_some_iff.mp h
  rw [Nat.sub_self] at h
  cases b <;> simp_all [splitAt?]

theorem removed_insertion (source : List Char) (offset : Nat) (text : List Char) :
    Edit.removed source ⟨offset, offset, text⟩ = [] := by
  show (slice? source offset offset).getD [] = []
  cases h : slice? source offset offset with
  | none => rfl
  | some t => exact slice?_self h

/-- **The edits of an action**: they take away no more line feeds than they add, and fit exactly
if the action does. -/
theorem Action.edits?_spec {source : List Char} {a : Action} {edits : List Edit}
    (h : a.edits? source = some edits) {e : Edit} (he : e ∈ edits) :
    (e.removed source).count '\n' ≤ e.text.count '\n' ∧ (e.Fits source ↔ a.Fits source) := by
  cases a with
  | insert offset text =>
    obtain rfl := Option.some.inj h
    obtain rfl := List.mem_singleton.mp he
    refine ⟨?_, ?_⟩
    · rw [removed_insertion]
      exact Nat.zero_le _
    · rw [Edit.Fits, removed_insertion, List.count_nil, Nat.le_zero]
      rfl
  | blank start stop =>
    rw [Action.edits?] at h
    split at h
    · obtain rfl := Option.some.inj h
      simp at he
    · obtain ⟨old, hold, rfl⟩ := Option.map_eq_some_iff.mp h
      obtain rfl := List.mem_singleton.mp he
      have hcount := count_blankText old
      refine ⟨?_, fun _ => trivial, fun _ => ?_⟩
      · rw [Edit.removed_of_slice? hold]
        exact Nat.le_of_eq hcount.symm
      · rw [Edit.Fits, Edit.removed_of_slice? hold]
        exact Nat.le_of_eq hcount
  | replace start stop text =>
    obtain ⟨old, hold, rfl⟩ := Option.map_eq_some_iff.mp h
    obtain rfl := List.mem_singleton.mp he
    -- Padding fills up to the line feeds of the old text and never cuts the new one.
    have hcount : (padded old text.toList).count '\n'
        = text.toList.count '\n' + (old.count '\n' - text.toList.count '\n') := by
      simp [padded]
    refine ⟨?_, ?_⟩
    · rw [Edit.removed_of_slice? hold, hcount]
      omega
    · rw [Edit.Fits, Edit.removed_of_slice? hold, hcount]
      constructor
      · intro hfits other hother
        obtain rfl := Option.some.inj (hold.symm.trans hother)
        omega
      · intro hfits
        have hle := hfits old hold
        omega
  | refuse construct offset =>
    obtain rfl := Option.some.inj h
    simp at he
  | look offset =>
    obtain rfl := Action.eq_nil_of_look h
    simp at he

/-! ## §3. Plans -/

/-- Whether an edit of an action is carried out when a plan is. -/
def Plan.CarriesOut (plan : Plan) (source : List Char) (a : Action) : Prop :=
  ∃ own, a.edits? source = some own ∧ ∃ e ∈ own, e ∈ carriedOut (plan.edits source)

/-- **A plan never loses line feeds, and keeps their number exactly if its actions do**: those
that are carried out, where the prologue is a single line. -/
theorem Plan.carryOut_keeps_iff {plan : Plan} {source out : List Char}
    (hprologue : plan.prologue.toList.count '\n' = 0) (h : plan.carryOut source = .ok out) :
    source.count '\n' ≤ out.count '\n' ∧ (out.count '\n' = source.count '\n' ↔
      ∀ a ∈ plan.actions, plan.CarriesOut source a → a.Fits source) := by
  have hfront : ∀ e ∈ plan.front,
      (e.removed source).count '\n' ≤ e.text.count '\n' ∧ e.Fits source := by
    intro e he
    rw [Plan.front] at he
    split at he
    · simp at he
    · obtain rfl := List.mem_singleton.mp he
      refine ⟨?_, ?_⟩
      · rw [removed_insertion]
        exact Nat.zero_le _
      · rw [Edit.Fits, removed_insertion]
        exact Nat.le_of_eq hprologue
  have hgain : ∀ e ∈ carriedOut (plan.edits source),
      (e.removed source).count '\n' ≤ e.text.count '\n' := by
    intro e he
    rcases Plan.mem_edits (mem_of_mem_carriedOut he) with ⟨a, -, own, hown, he⟩ | he
    · exact (Action.edits?_spec hown he).1
    · exact (hfront e he).1
  have hcount := (Plan.carryOut_done h).count
  obtain ⟨hle, hiff⟩ := addedFeeds_eq_iff hgain
  -- First in terms of edits, then in terms of the actions they come from.
  have hkeeps : out.count '\n' = source.count '\n' ↔
      ∀ e ∈ carriedOut (plan.edits source), e.Fits source := by
    rw [← hiff]
    omega
  refine ⟨by omega, ?_⟩
  rw [hkeeps]
  constructor
  · rintro hfits a - ⟨own, hown, e, he, hout⟩
    exact (Action.edits?_spec hown he).2.mp (hfits e hout)
  · intro hfits e hout
    rcases Plan.mem_edits (mem_of_mem_carriedOut hout) with ⟨a, ha, own, hown, he⟩ | he
    · exact (Action.edits?_spec hown he).2.mpr (hfits a ha ⟨own, hown, e, he, hout⟩)
    · exact (hfront e he).2

end SingleFile.Script
