/-
  SingleFile.Proofs.Script.EditOrder — THE ORDER OF EDITS DOES NOT MATTER
  ───────────────────────────────────────────────────────────────────────
  Edits are recorded in the order in which a script is visited, and sorted
  before they are done.  Where no two of them overlap, none is dropped, and
  what they make of a text can be said without any order: `edited` goes over
  the text and asks at every offset what is written there.  Ranges may touch,
  and there may be insertions at both ends of a range.

  Main results:
    * `applyFrom_edited` — sorted edits that stand apart are all done.  The
      induction.
    * `edited_perm` — of the order of edits only that of the insertions at one
      place matters.
    * `applyEdits_edited` — actions whose ranges stand apart, in any order.
-/
import SingleFile.Proofs.Script.EditPlaces
import SingleFile.Proofs.Script.Evaluation

namespace SingleFile.Script

open SingleFile.Text

/-! ## §1. What a text becomes -/

/-- Whether an edit inserts its text at an offset; it replaces nothing. -/
def Edit.insertsAt (offset : Nat) (e : Edit) : Bool := e.start == offset && e.stop == offset

/-- Whether an edit replaces a range that starts at an offset. -/
def Edit.replacesAt (offset : Nat) (e : Edit) : Bool := e.start == offset && offset < e.stop

/-- Whether what begins at an offset is in the range of an edit. -/
def Edit.covers (offset : Nat) (e : Edit) : Bool := e.start ≤ offset && offset < e.stop

/-- What is written at an offset: the insertions in their order, and then the text of what
replaces a range from there on. -/
def writtenAt (edits : List Edit) (offset : Nat) : List Char :=
  (edits.filter (·.insertsAt offset)).flatMap Edit.text
    ++ (edits.filter (·.replacesAt offset)).flatMap Edit.text

/-- **A text with edits done to it**, from an offset on: at every place what is written there, and
then the character that stood there unless it is in a range. -/
def edited (edits : List Edit) : Nat → List Char → List Char
  | offset, [] => writtenAt edits offset
  | offset, c :: rest =>
    writtenAt edits offset ++ (if edits.any (·.covers offset) then [] else [c])
      ++ edited edits (offset + c.utf8Size) rest

/-- Whether two edits stand apart: one ends where the other one starts, or in front of it.  Two
insertions always do, and an insertion and a range do unless it is strictly inside. -/
def Edit.Apart (a b : Edit) : Prop := a.stop ≤ b.start ∨ b.stop ≤ a.start

theorem Edit.Apart.symm {a b : Edit} (h : a.Apart b) : b.Apart a := Or.symm h

section

variable {e : Edit} {edits : List Edit} {offset : Nat}

theorem writtenAt_cons_of_ne (h : e.start ≠ offset) :
    writtenAt (e :: edits) offset = writtenAt edits offset := by
  simp [writtenAt, Edit.insertsAt, Edit.replacesAt, h]

theorem writtenAt_eq_nil (h : ∀ x ∈ edits, offset < x.start) : writtenAt edits offset = [] := by
  have hnone : ∀ x ∈ edits, x.start ≠ offset := fun x hx => Nat.ne_of_gt (h x hx)
  have hinserts : edits.filter (·.insertsAt offset) = [] :=
    List.filter_eq_nil_iff.mpr fun x hx => by simp [Edit.insertsAt, hnone x hx]
  have hreplaces : edits.filter (·.replacesAt offset) = [] :=
    List.filter_eq_nil_iff.mpr fun x hx => by simp [Edit.replacesAt, hnone x hx]
  rw [writtenAt, hinserts, hreplaces]
  rfl

/-- The first insertion at an offset comes first. -/
theorem writtenAt_cons_insertion (hstart : e.start = offset) (hstop : e.stop = offset) :
    writtenAt (e :: edits) offset = e.text ++ writtenAt edits offset := by
  simp [writtenAt, Edit.insertsAt, Edit.replacesAt, hstart, hstop]

/-- Where a range starts that is replaced, nothing of a later edit is written. -/
theorem writtenAt_cons_replacement (hstart : e.start = offset) (hstop : offset < e.stop)
    (hlater : ∀ x ∈ edits, e.stop ≤ x.start) : writtenAt (e :: edits) offset = e.text := by
  have hnil : writtenAt edits offset = [] := writtenAt_eq_nil fun x hx => by
    have := hlater x hx
    omega
  have hne : e.stop ≠ offset := Nat.ne_of_gt hstop
  obtain ⟨hinserts, hreplaces⟩ := List.append_eq_nil_iff.mp hnil
  simp only [writtenAt, List.filter_cons, Edit.insertsAt, Edit.replacesAt, hstart, hstop,
    beq_self_eq_true, decide_true, beq_eq_false_iff_ne.mpr hne, Bool.and_false, Bool.and_true,
    if_true, Bool.false_eq_true, if_false, List.flatMap_cons] at hinserts hreplaces ⊢
  rw [hinserts, hreplaces, List.append_nil, List.nil_append]

/-- In front of all edits a text is kept. -/
theorem edited_kept (kept rest : List Char)
    (h : ∀ x ∈ edits, offset + byteLength kept ≤ x.start) :
    edited edits offset (kept ++ rest) = kept ++ edited edits (offset + byteLength kept) rest := by
  induction kept generalizing offset with
  | nil => rfl
  | cons c kept ih =>
    have hc := c.utf8Size_pos
    rw [byteLength_cons] at h ⊢
    have hfree : ∀ x ∈ edits, offset < x.start := fun x hx => by
      have := h x hx
      omega
    have huncovered : edits.any (·.covers offset) = false := List.any_eq_false.mpr fun x hx => by
      have := hfree x hx
      simp only [Edit.covers, Bool.and_eq_true, decide_eq_true_eq]
      omega
    have hrest := ih fun x hx => by
      rw [Nat.add_assoc]
      exact h x hx
    rw [List.cons_append, edited, writtenAt_eq_nil hfree, huncovered, hrest, Nat.add_assoc]
    rfl

/-- Behind its range an edit does nothing any more. -/
theorem edited_behind (rest : List Char) (hstart : e.start < offset) (hstop : e.stop ≤ offset) :
    edited (e :: edits) offset rest = edited edits offset rest := by
  induction rest generalizing offset with
  | nil => exact writtenAt_cons_of_ne (Nat.ne_of_lt hstart)
  | cons c rest ih =>
    have huncovered : e.covers offset = false := by
      simp only [Edit.covers, Bool.and_eq_false_iff, decide_eq_false_iff_not]
      omega
    have hrest : edited (e :: edits) (offset + c.utf8Size) rest
        = edited edits (offset + c.utf8Size) rest := ih (by omega) (by omega)
    rw [edited, edited, writtenAt_cons_of_ne (Nat.ne_of_lt hstart), List.any_cons, huncovered,
      Bool.false_or, hrest]

/-- Inside its range an edit takes all characters away. -/
theorem edited_inside (gone later : List Char) (hstart : e.start < offset)
    (hstop : e.stop = offset + byteLength gone) (hlater : ∀ x ∈ edits, e.stop ≤ x.start) :
    edited (e :: edits) offset (gone ++ later) = edited edits e.stop later := by
  induction gone generalizing offset with
  | nil =>
    obtain rfl : e.stop = offset := hstop
    exact edited_behind later hstart (Nat.le_refl _)
  | cons c gone ih =>
    have hc := c.utf8Size_pos
    rw [byteLength_cons] at hstop
    have hcovered : e.covers offset = true := by
      simp only [Edit.covers, Bool.and_eq_true, decide_eq_true_eq]
      omega
    have hnothing : writtenAt (e :: edits) offset = [] := by
      rw [writtenAt_cons_of_ne (Nat.ne_of_lt hstart)]
      refine writtenAt_eq_nil fun x hx => ?_
      have := hlater x hx
      omega
    have hrest : edited (e :: edits) (offset + c.utf8Size) (gone ++ later)
        = edited edits e.stop later := ih (by omega) (by omega)
    rw [List.cons_append, edited, hnothing, List.any_cons, hcovered, hrest]
    rfl

/-- **Where an edit stands its text is written**, in place of what is gone. -/
theorem edited_first (gone later : List Char) (hstop : e.stop = e.start + byteLength gone)
    (hlater : ∀ x ∈ edits, e.stop ≤ x.start) :
    edited (e :: edits) e.start (gone ++ later) = e.text ++ edited edits e.stop later := by
  cases gone with
  | nil =>
    -- An insertion: the character behind it stays, unless a later edit takes it.
    have hpoint : e.stop = e.start := hstop
    have hwritten : writtenAt (e :: edits) e.start = e.text ++ writtenAt edits e.start :=
      writtenAt_cons_insertion rfl hpoint
    rw [hpoint]
    cases later with
    | nil => exact hwritten
    | cons c later =>
      have hc := c.utf8Size_pos
      have huncovered : e.covers e.start = false := by
        simp only [Edit.covers, Bool.and_eq_false_iff, decide_eq_false_iff_not]
        omega
      have hrest : edited (e :: edits) (e.start + c.utf8Size) later
          = edited edits (e.start + c.utf8Size) later :=
        edited_behind later (by omega) (by omega)
      rw [List.nil_append, edited, edited, hwritten, List.any_cons, huncovered, Bool.false_or,
        hrest]
      simp only [List.append_assoc]
  | cons c gone =>
    have hc := c.utf8Size_pos
    rw [byteLength_cons] at hstop
    have hcovered : e.covers e.start = true := by
      simp only [Edit.covers, Bool.and_eq_true, decide_eq_true_eq]
      omega
    have hrest : edited (e :: edits) (e.start + c.utf8Size) (gone ++ later)
        = edited edits e.stop later := edited_inside gone later (by omega) (by omega) hlater
    rw [List.cons_append, edited, writtenAt_cons_replacement rfl (by omega) hlater,
      List.any_cons, hcovered, hrest]
    simp

end

/-! ## §2. Sorted edits -/

/-- Sorted edits that stand apart stand one behind another. -/
theorem Edit.stop_le_of_comesBefore {a b : Edit} (hbefore : a.comesBefore b = true)
    (hordered : b.start ≤ b.stop) (h : a.Apart b) : a.stop ≤ b.start := by
  simp only [Edit.comesBefore, Bool.or_eq_true, Bool.and_eq_true, decide_eq_true_eq,
    beq_iff_eq] at hbefore
  rcases h with h | h
  · exact h
  · omega

/-- **Sorted edits that stand apart are all done**: none is dropped, and what they make of the text
is what is written at each place. -/
theorem applyFrom_edited {edits : List Edit} (front rest : List Char) {offset : Nat}
    (hwithin : ∀ e ∈ edits, (slice? (front ++ rest) e.start e.stop).isSome = true)
    (hoffset : byteLength front = offset) (hbehind : ∀ e ∈ edits, offset ≤ e.start)
    (hchain : edits.Pairwise fun a b => a.stop ≤ b.start) :
    carriedOutFrom offset edits = edits ∧
      applyFrom offset rest edits = some (edited edits offset rest) := by
  -- The induction is on the edits; the rest of the text begins where the last one ended.
  induction edits generalizing front rest offset with
  | nil =>
    refine ⟨rfl, ?_⟩
    have hkept : edited [] offset (rest ++ []) = rest ++ [] :=
      edited_kept rest [] fun _ h => absurd h List.not_mem_nil
    rw [List.append_nil] at hkept
    rw [applyFrom, hkept]
  | cons e edits ih =>
    obtain ⟨hlater, hchain⟩ := List.pairwise_cons.mp hchain
    obtain ⟨hslice, hwithin⟩ := List.forall_mem_cons.mp hwithin
    have hstarts := hbehind e (List.mem_cons_self ..)
    obtain ⟨old, hold⟩ := Option.isSome_iff_exists.mp hslice
    obtain ⟨kept, later, rfl, hstart, hstop⟩ := exists_parts_of_slice? hold (by omega)
    rw [hoffset] at hstart
    have hsame : front ++ (kept ++ (old ++ later)) = (front ++ kept ++ old) ++ later := by
      simp only [List.append_assoc]
    rw [hsame] at hwithin
    have hend : byteLength (front ++ kept ++ old) = e.stop := by
      rw [byteLength_append, byteLength_append]
      omega
    obtain ⟨hcarried, hdone⟩ := ih (front ++ kept ++ old) later hwithin hend hlater hchain
    have hkept : ∀ x ∈ e :: edits, offset + byteLength kept ≤ x.start := by
      intro x hx
      rcases List.mem_cons.mp hx with rfl | hx
      · omega
      · have := hlater x hx
        omega
    refine ⟨?_, ?_⟩
    · rw [carriedOutFrom, if_neg (by omega), hcarried]
    · rw [applyFrom_cons hstart hstop, hdone, edited_kept kept _ hkept, ← hstart,
        edited_first old later hstop hlater]
      simp

/-! ## §3. The order of edits -/

theorem edited_congr {edits others : List Edit}
    (hwritten : ∀ offset, writtenAt others offset = writtenAt edits offset)
    (hcovers : ∀ offset, others.any (·.covers offset) = edits.any (·.covers offset))
    (offset : Nat) (rest : List Char) : edited others offset rest = edited edits offset rest := by
  induction rest generalizing offset with
  | nil => exact hwritten offset
  | cons c rest ih => rw [edited, edited, hwritten, hcovers, ih]

/-- Of edits that stand apart at most one replaces a range that starts at an offset. -/
theorem length_filter_replacesAt {edits : List Edit} (h : edits.Pairwise Edit.Apart)
    (offset : Nat) : (edits.filter (·.replacesAt offset)).length ≤ 1 := by
  have hpairwise := h.sublist (List.filter_sublist (p := (·.replacesAt offset)))
  have hall : ∀ e ∈ edits.filter (·.replacesAt offset), e.start = offset ∧ offset < e.stop := by
    intro e he
    have := (List.mem_filter.mp he).2
    simpa [Edit.replacesAt] using this
  rcases hfound : edits.filter (·.replacesAt offset) with _ | ⟨a, _ | ⟨b, rest⟩⟩
  · rw [hfound]
    exact Nat.zero_le _
  · rw [hfound]
    exact Nat.le_refl _
  · rw [hfound] at hpairwise hall
    obtain ⟨hastart, hastop⟩ := hall a (List.mem_cons_self ..)
    obtain ⟨hbstart, hbstop⟩ := hall b (List.mem_cons_of_mem _ (List.mem_cons_self ..))
    have hapart : a.Apart b := (List.pairwise_cons.mp hpairwise).1 b (List.mem_cons_self ..)
    rw [Edit.Apart] at hapart
    omega

theorem eq_of_perm_of_length_le_one {α : Type} {xs ys : List α} (h : xs.Perm ys)
    (hlength : ys.length ≤ 1) : xs = ys := by
  match ys, hlength with
  | [], _ => exact h.eq_nil
  | [y], _ => exact h.eq_singleton

/-- **Of the order of edits that stand apart only that of the insertions at one place matters.** -/
theorem edited_perm {edits others : List Edit} (hperm : others.Perm edits)
    (hapart : edits.Pairwise Edit.Apart)
    (hinserts : ∀ offset,
      others.filter (·.insertsAt offset) = edits.filter (·.insertsAt offset))
    (offset : Nat) (rest : List Char) : edited others offset rest = edited edits offset rest := by
  refine edited_congr (fun offset => ?_) (fun offset => ?_) offset rest
  · have hreplaces : others.filter (·.replacesAt offset) = edits.filter (·.replacesAt offset) :=
      eq_of_perm_of_length_le_one (hperm.filter _) (length_filter_replacesAt hapart offset)
    rw [writtenAt, writtenAt, hinserts, hreplaces]
  · exact hperm.any_eq

/-- Sorting keeps the order of the insertions at one place. -/
theorem filter_insertsAt_mergeSort (edits : List Edit) (offset : Nat) :
    (edits.mergeSort Edit.comesBefore).filter (·.insertsAt offset)
      = edits.filter (·.insertsAt offset) := by
  have hequal : (edits.filter (·.insertsAt offset)).Pairwise fun a b => a.comesBefore b = true := by
    refine List.pairwise_of_forall_mem_list fun a ha b hb => ?_
    have ha := (List.mem_filter.mp ha).2
    have hb := (List.mem_filter.mp hb).2
    simp only [Edit.insertsAt, Bool.and_eq_true, beq_iff_eq] at ha hb
    simp only [Edit.comesBefore, Bool.or_eq_true, Bool.and_eq_true, decide_eq_true_eq, beq_iff_eq]
    omega
  -- The sort is stable: what is in order already is a part of the sorted list in that order.
  have hsublist : (edits.filter (·.insertsAt offset)).Sublist
      (edits.mergeSort Edit.comesBefore) :=
    List.sublist_mergeSort Edit.comesBefore_trans Edit.comesBefore_total hequal
      List.filter_sublist
  have hfiltered := hsublist.filter (·.insertsAt offset)
  rw [List.filter_filter, show (fun a => Edit.insertsAt offset a && Edit.insertsAt offset a)
    = (·.insertsAt offset) from funext fun a => Bool.and_self _] at hfiltered
  have hlength := ((List.mergeSort_perm edits Edit.comesBefore).filter
    (·.insertsAt offset)).length_eq
  exact (hfiltered.eq_of_length hlength.symm).symm

/-- **Edits that stand apart are all done, whatever their order is.** -/
theorem applyEdits_of_apart {source : List Char} {edits : List Edit}
    (hwithin : ∀ e ∈ edits, (slice? source e.start e.stop).isSome = true)
    (hapart : edits.Pairwise Edit.Apart) :
    (carriedOut edits).Perm edits ∧ applyEdits source edits = some (edited edits 0 source) := by
  have hperm := List.mergeSort_perm edits Edit.comesBefore
  have hordered : ∀ e ∈ edits, e.start ≤ e.stop := fun e he => by
    obtain ⟨old, hold⟩ := Option.isSome_iff_exists.mp (hwithin e he)
    exact le_of_slice? hold
  have hsorted := List.pairwise_mergeSort Edit.comesBefore_trans Edit.comesBefore_total edits
  have hchain : (edits.mergeSort Edit.comesBefore).Pairwise fun a b => a.stop ≤ b.start := by
    have hboth := hsorted.and (hapart.perm hperm.symm Edit.Apart.symm)
    refine hboth.imp_of_mem fun {a b} _ hb h => ?_
    exact Edit.stop_le_of_comesBefore h.1 (hordered b (hperm.mem_iff.mp hb)) h.2
  obtain ⟨hcarried, hdone⟩ := applyFrom_edited [] source
    (fun e he => hwithin e (hperm.mem_iff.mp he)) byteLength_nil (fun e _ => Nat.zero_le _) hchain
  refine ⟨?_, ?_⟩
  · rw [carriedOut, hcarried]
    exact hperm
  · rw [applyEdits, hdone, edited_perm hperm hapart (filter_insertsAt_mergeSort edits)]

/-! ## §4. Actions -/

/-- The range that an action is about, if it does anything to the text. -/
def Action.range? : Action → Option Span
  | .insert offset _ => some ⟨offset, offset⟩
  | .blank start stop => if stop ≤ start then none else some ⟨start, stop⟩
  | .replace start stop _ => some ⟨start, stop⟩
  | .refuse _ _ => none
  | .look _ => none

/-- Whether two actions stand apart: their ranges do not overlap, and an insertion is not strictly
inside the range of the other one. -/
def Action.Apart (a b : Action) : Prop :=
  ∀ r ∈ a.range?, ∀ s ∈ b.range?, r.stop ≤ s.start ∨ s.stop ≤ r.start

instance : DecidableRel Action.Apart := fun a b =>
  inferInstanceAs (Decidable (∀ r ∈ a.range?, ∀ s ∈ b.range?, r.stop ≤ s.start ∨ s.stop ≤ r.start))

/-- Whether an action inserts at an offset, or replaces nothing there, which is the same. -/
def Action.insertsAt (offset : Nat) (a : Action) : Bool := a.range? == some ⟨offset, offset⟩

/-- The edits of an action; none where it does not fit the text. -/
def Action.editsIn (source : List Char) (a : Action) : List Edit := (a.edits? source).getD []

variable {source : List Char} {a : Action} {actions others : List Action} {edits : List Edit}

theorem Action.editsIn_look (source : List Char) (offset : Nat) :
    (Action.look offset).editsIn source = [] := by
  unfold Action.editsIn
  cases hlook : (Action.look offset).edits? source with
  | none => rfl
  | some own => exact Action.eq_nil_of_look hlook

/-- An action comes to one edit over its range, or to none. -/
theorem Action.editsIn_range (source : List Char) (a : Action) :
    a.editsIn source = [] ∨
      ∃ e, a.editsIn source = [e] ∧ a.range? = some ⟨e.start, e.stop⟩ := by
  unfold Action.editsIn
  cases a with
  | insert offset text => exact .inr ⟨_, rfl, rfl⟩
  | blank start stop =>
    rw [Action.edits?, Action.range?]
    by_cases hempty : stop ≤ start
    · rw [if_pos hempty]
      exact .inl rfl
    · rw [if_neg hempty, if_neg hempty]
      cases slice? source start stop with
      | none => exact .inl rfl
      | some old => exact .inr ⟨_, rfl, rfl⟩
  | replace start stop text =>
    rw [Action.edits?, Action.range?]
    cases slice? source start stop with
    | none => exact .inl rfl
    | some old => exact .inr ⟨_, rfl, rfl⟩
  | refuse construct offset => exact .inl rfl
  | look offset => exact .inl (Action.editsIn_look source offset)

theorem Action.range?_of_mem {e : Edit} (h : e ∈ a.editsIn source) :
    a.range? = some ⟨e.start, e.stop⟩ := by
  rcases a.editsIn_range source with hnone | ⟨x, hone, hrange⟩
  · rw [hnone] at h
    exact absurd h List.not_mem_nil
  · rw [hone] at h
    obtain rfl := List.mem_singleton.mp h
    exact hrange

theorem editsOf?_eq_flatMap (h : editsOf? source actions = some edits) :
    edits = actions.flatMap (·.editsIn source) := by
  induction actions generalizing edits with
  | nil => exact (Option.some.inj h).symm
  | cons a actions ih =>
    rw [editsOf?] at h
    obtain ⟨first, hfirst, h⟩ := Option.bind_eq_some_iff.mp h
    obtain ⟨later, hlater, h⟩ := Option.bind_eq_some_iff.mp h
    obtain rfl := Option.some.inj h
    rw [List.flatMap_cons, ← ih hlater, Action.editsIn, hfirst]
    rfl

/-- The edits of actions that stand apart do so, too. -/
theorem apart_flatMap_editsIn (h : actions.Pairwise Action.Apart) :
    (actions.flatMap (·.editsIn source)).Pairwise Edit.Apart := by
  refine List.pairwise_flatMap.mpr ⟨fun a _ => ?_, h.imp fun {a b} hab e he x hx => ?_⟩
  · rcases a.editsIn_range source with hnone | ⟨e, hone, -⟩
    · rw [hnone]
      exact .nil
    · rw [hone]
      exact List.pairwise_singleton ..
  · exact hab _ (Action.range?_of_mem he) _ (Action.range?_of_mem hx)

/-- What is made of each member of a list is looked for in the members that it is made of. -/
theorem filter_flatMap_eq {α β : Type} {f : α → List β} {p : β → Bool} {q : α → Bool} {xs : List α}
    (h : ∀ x ∈ xs, ∀ y ∈ f x, p y = q x) : (xs.flatMap f).filter p = (xs.filter q).flatMap f := by
  induction xs with
  | nil => rfl
  | cons x xs ih =>
    obtain ⟨hx, hxs⟩ := List.forall_mem_cons.mp h
    rw [List.flatMap_cons, List.filter_append, ih hxs, List.filter_cons]
    cases hq : q x with
    | true =>
      rw [List.filter_eq_self.mpr fun y hy => (hx y hy).trans hq]
      rfl
    | false =>
      rw [List.filter_eq_nil_iff.mpr fun y hy => by simp [hx y hy, hq]]
      rfl

/-- The insertions at an offset come from the actions that insert there. -/
theorem filter_insertsAt_flatMap (source : List Char) (actions : List Action) (offset : Nat) :
    (actions.flatMap (·.editsIn source)).filter (·.insertsAt offset)
      = (actions.filter (·.insertsAt offset)).flatMap (·.editsIn source) := by
  refine filter_flatMap_eq fun a _ e he => ?_
  rw [Action.insertsAt, Action.range?_of_mem he]
  exact Bool.eq_iff_iff.mpr (by simp [Edit.insertsAt])

/-- **Actions that stand apart are all done, whatever their order is.**  The text has at every
place what is written there: the insertions in the order in which they were recorded, then what
replaces a range that starts there.  Any other order of the actions gives the same text, if it
keeps that of the insertions at one place. -/
theorem applyEdits_edited (hwithin : ∀ a ∈ actions, a.IsWithin source)
    (hapart : actions.Pairwise Action.Apart) :
    ∃ edits, editsOf? source actions = some edits ∧ (carriedOut edits).Perm edits ∧
      applyEdits source edits = some (edited edits 0 source) ∧
      ∀ others : List Action, others.Perm actions →
        (∀ offset, others.filter (·.insertsAt offset) = actions.filter (·.insertsAt offset)) →
        ∃ reordered, editsOf? source others = some reordered ∧
          (carriedOut reordered).Perm reordered ∧
          applyEdits source reordered = some (edited edits 0 source) := by
  obtain ⟨edits, hedits, hslices⟩ := editsOf?_within hwithin
  have hall := editsOf?_eq_flatMap hedits
  have hedited : edits.Pairwise Edit.Apart := hall ▸ apart_flatMap_editsIn hapart
  obtain ⟨hcarried, hdone⟩ := applyEdits_of_apart hslices hedited
  refine ⟨edits, hedits, hcarried, hdone, fun others hperm hinserts => ?_⟩
  obtain ⟨reordered, hreordered, hslices'⟩ :=
    editsOf?_within fun a ha => hwithin a (hperm.mem_iff.mp ha)
  have hall' := editsOf?_eq_flatMap hreordered
  have hedits' : reordered.Perm edits := by
    rw [hall, hall']
    exact hperm.flatMap_right _
  have hsame : ∀ offset,
      reordered.filter (·.insertsAt offset) = edits.filter (·.insertsAt offset) := by
    intro offset
    rw [hall, hall', filter_insertsAt_flatMap, filter_insertsAt_flatMap, hinserts]
  obtain ⟨hcarried', hdone'⟩ :=
    applyEdits_of_apart hslices' (hedited.perm hedits'.symm Edit.Apart.symm)
  refine ⟨reordered, hreordered, hcarried', ?_⟩
  rw [hdone', edited_perm hedits' hedited hsame]

/-- Two ranges that touch, with insertions at every end of them. -/
def touchingActions : List Action :=
  [.insert 4 "v", .replace 4 7 "x", .blank 2 4, .insert 2 "y", .insert 4 "w", .insert 7 "z"]

/-- The same actions in another order. -/
def reorderedActions : List Action :=
  [.blank 2 4, .insert 7 "z", .insert 4 "v", .insert 4 "w", .insert 2 "y", .replace 4 7 "x"]

theorem applyEdits_edited_touching :
    (∀ a ∈ touchingActions, a.IsWithin fourLines) ∧ touchingActions.Pairwise Action.Apart ∧
      (∃ edits, editsOf? fourLines touchingActions = some edits ∧
        applyEdits fourLines edits = some "a\ny  vwx\nz\nf".toList) ∧
      ∃ reordered, editsOf? fourLines reorderedActions = some reordered ∧
        applyEdits fourLines reordered = some "a\ny  vwx\nz\nf".toList := by
  have hwithin : ∀ a ∈ touchingActions, a.IsWithin fourLines := by decide
  have hapart : touchingActions.Pairwise Action.Apart := by decide
  obtain ⟨edits, hedits, -, hdone, hothers⟩ := applyEdits_edited hwithin hapart
  have htext : edited edits 0 fourLines = "a\ny  vwx\nz\nf".toList := by
    rw [editsOf?_eq_flatMap hedits]
    decide
  have hinserts : ∀ offset, reorderedActions.filter (·.insertsAt offset)
      = touchingActions.filter (·.insertsAt offset) := by
    intro offset
    by_cases hsmall : offset < 8
    · revert offset
      decide
    · -- Behind the last range there are no insertions.
      have hnone (actions : List Action) (h : ∀ a ∈ actions, ∀ r ∈ a.range?, r.start < 8) :
          actions.filter (·.insertsAt offset) = [] :=
        List.filter_eq_nil_iff.mpr fun a ha hinserts =>
          hsmall (h a ha ⟨offset, offset⟩ (by simpa [Action.insertsAt] using hinserts))
      rw [hnone reorderedActions (by decide), hnone touchingActions (by decide)]
  obtain ⟨reordered, hreordered, -, hdone'⟩ := hothers reorderedActions (by decide) hinserts
  rw [htext] at hdone hdone'
  exact ⟨hwithin, hapart, ⟨edits, hedits, hdone⟩, reordered, hreordered, hdone'⟩

end SingleFile.Script
