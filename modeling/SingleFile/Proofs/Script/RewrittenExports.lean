/-
  SingleFile.Proofs.Script.RewrittenExports — THE EXPORTS OF A REWRITTEN MODULE
  ─────────────────────────────────────────────────────────────────────────────
  Every action of a plan comes with the statements that it writes.  Sorted and
  carried out, its edit takes them along: what is dropped is a blank and writes
  no statement.  So in a rewritten module exactly the exports of the module are
  assigned, each one as often as the module exports it, by the statements in
  front of its items, behind them and behind the last one.

  A name that is both a type and a value is an exception: a list does not
  export it, because what is declared as a type is not asked whether it is a
  value too.

  Main results:
    * `exists_statedEdits` — the edits of a plan with their statements.
    * `rewrite_exports` — the exports of a rewritten module.
    * `rewrite_mergedName` — a value that is lost.
-/
import SingleFile.Proofs.Script.Exports
import SingleFile.Proofs.Script.Overlaps

namespace SingleFile.Script

open SingleFile.Text Grammar

variable {options : RewriteOptions} {source out : List Char} {items : List Node}

/-! ## §1. Edits with their statements -/

/-- Only what is written in the place of something, or inserted, has statements. -/
theorem Action.States.eq_nil_or {a : Action} {statements : List Statement}
    (h : a.States options source items statements) :
    statements = [] ∨ (∃ start stop text, a = .replace start stop text) ∨
      ∃ offset text, a = .insert offset text := by
  cases h with
  | front hn stop module hserves hexports hreads => exact .inr (.inl ⟨_, _, _, rfl⟩)
  | behind hn hserves hexports => exact .inr (.inr ⟨_, _, rfl⟩)
  | closing hlast => exact .inr (.inr ⟨_, _, rfl⟩)
  | look offset => exact .inl rfl
  | dropped hn hnothing => exact .inl rfl
  | erased hn ha => exact .inl rfl
  | erasedPart hn hd ha => exact .inl rfl

/-- An action with statements comes to one edit, if it fits the text. -/
theorem Action.States.exists_edit {a : Action} {statements : List Statement}
    (h : a.States options source items statements) {own : List Edit}
    (hown : a.edits? source = some own) : statements = [] ∨ ∃ e, a.editsIn source = [e] := by
  refine h.eq_nil_or.imp_right ?_
  rintro (⟨start, stop, text, rfl⟩ | ⟨offset, text, rfl⟩)
  · rw [Action.editsIn, hown]
    obtain ⟨old, -, rfl⟩ := Option.map_eq_some_iff.mp hown
    exact ⟨_, rfl⟩
  · exact ⟨_, rfl⟩

/-- No action with statements is covered by another one. -/
theorem Action.States.eq_nil_of_covered {a b : Action} {statements : List Statement}
    (h : a.States options source items statements) (hcovers : b.Covers a) : statements = [] := by
  obtain ⟨-, -, start, stop, -, rfl, -⟩ := hcovers.exists_blanks
  rcases h.eq_nil_or with hnil | ⟨_, _, _, heq⟩ | ⟨_, _, heq⟩
  · exact hnil
  · contradiction
  · contradiction

/-- What is left out assigns nothing. -/
theorem targetsOf_filter {α : Type} {stated : List (α × List Statement)} {keeps : α → Bool}
    (h : ∀ p ∈ stated, keeps p.1 = false → p.2 = []) :
    targetsOf (stated.filter fun p => keeps p.1) = targetsOf stated := by
  induction stated with
  | nil => rfl
  | cons p stated ih =>
    obtain ⟨hp, hstated⟩ := List.forall_mem_cons.mp h
    have hcons : targetsOf (p :: stated) = targetsOf [p] ++ targetsOf stated :=
      @targetsOf_append _ [p] stated
    rw [List.filter_cons, hcons]
    split
    · have hkept := @targetsOf_append _ [p] (stated.filter fun p => keeps p.1)
      rw [ih hstated] at hkept
      exact hkept
    · next hleft =>
      have hnone : targetsOf [p] = [] :=
        targetsOf_eq_nil (List.forall_mem_singleton.mpr (hp (Bool.eq_false_iff.mpr hleft)))
      rw [ih hstated, hnone, List.nil_append]

/-- The edits of some actions, each with the statements of its action. -/
def statedEdits (source : List Char) (stated : List (Action × List Statement)) :
    List (Edit × List Statement) :=
  stated.flatMap fun p => (p.1.editsIn source).map fun e => (e, p.2)

theorem map_fst_statedEdits (source : List Char) (stated : List (Action × List Statement)) :
    (statedEdits source stated).map Prod.fst
      = (stated.map Prod.fst).flatMap (·.editsIn source) := by
  rw [statedEdits, List.map_flatMap, List.flatMap_map]
  refine List.flatMap_congr fun p _ => ?_
  rw [List.map_map]
  exact List.map_id _

/-- Edits assign what their actions do, if each action with statements comes to one edit. -/
theorem targetsOf_statedEdits {stated : List (Action × List Statement)}
    (h : ∀ p ∈ stated, p.2 = [] ∨ ∃ e, p.1.editsIn source = [e]) :
    targetsOf (statedEdits source stated) = targetsOf stated := by
  rw [targetsOf, targetsOf, statedEdits, List.flatMap_assoc]
  refine congrArg (List.map _) (List.flatMap_congr fun p hp => ?_)
  rcases h p hp with hnil | ⟨e, he⟩
  · rw [hnil]
    exact List.flatMap_eq_nil_iff.mpr fun x hx => by
      obtain ⟨e, -, rfl⟩ := List.mem_map.mp hx
      rfl
  · rw [he]
    exact List.flatMap_singleton ..

/-- A list that is put in another order is put in that order with all that belongs to it. -/
theorem exists_perm_of_perm_map {α β : Type} (f : α → β) {xs : List β} {ys : List α}
    (h : xs.Perm (ys.map f)) : ∃ zs : List α, xs = zs.map f ∧ zs.Perm ys := by
  have hcomp := congrFun (congrFun (List.eq_map_comp_perm f) xs) ys
  exact hcomp.mpr h

/-! ## §2. Rewritten modules -/

/-- **The exports in a rewritten module**, edit by edit. -/
structure ExportsIn (options : RewriteOptions) (source : List Char) (program : Program)
    (edits : List (Edit × List Statement)) (out : List Char) : Prop where
  /-- The module becomes what the edits make of its text, and keeps all other text. -/
  done : Done source (edits.map Prod.fst) source out
  /-- An edit belongs to an action with its statements, or is in front of everything else. -/
  origin : ∀ p ∈ edits,
    (∃ a : Action, a.States options source program.items p.2 ∧ p.1 ∈ a.editsIn source) ∨
      (p.1 ∈ (planOf options source program).front ∧ p.2 = [])
  /-- What is assigned are the exports of the module, each one as often as it is exported. -/
  assigned : (targetsOf edits).Perm (exportTargets options source program.items)
  /-- So each one is assigned once, if none is exported twice. -/
  once : (exportTargets options source program.items).Nodup → (targetsOf edits).Nodup

/-- The actions that are not covered keep their statements, and the others have none. -/
theorem exists_uncovered {actions : List Action} {stated : List (Action × List Statement)}
    (hactions : actions = stated.map Prod.fst)
    (hstates : ∀ p ∈ stated, p.1.States options source items p.2) :
    ∃ remaining : List (Action × List Statement), uncovered actions = remaining.map Prod.fst ∧
      remaining ⊆ stated ∧ targetsOf remaining = targetsOf stated := by
  refine ⟨stated.filter fun p => !(stated.map Prod.fst).any fun b => b.Covers p.1, ?_,
    List.filter_subset_self .., ?_⟩
  · rw [uncovered, hactions, List.filter_map]
    rfl
  -- What is covered is a blank, and a blank writes no statement.
  · refine @targetsOf_filter _ _ (fun a => !(stated.map Prod.fst).any fun b => b.Covers a)
      fun p hp hcovered => ?_
    rw [Bool.not_eq_false', List.any_eq_true] at hcovered
    obtain ⟨b, -, hcovers⟩ := hcovered
    exact (hstates p hp).eq_nil_of_covered (of_decide_eq_true hcovers)

/-- **The edits of a plan with their statements**: those that are carried out assign what all
actions do. -/
theorem exists_statedEdits {plan : Plan} {stated : List (Action × List Statement)}
    (hactions : plan.actions = stated.map Prod.fst)
    (hstates : ∀ p ∈ stated, p.1.States options source items p.2)
    (hsettled : plan.actions.Pairwise Action.Settled) (h : plan.carryOut source = .ok out) :
    ∃ edits : List (Edit × List Statement), carriedOut (plan.edits source) = edits.map Prod.fst ∧
      (∀ p ∈ edits, (∃ a : Action, a.States options source items p.2 ∧ p.1 ∈ a.editsIn source) ∨
        (p.1 ∈ plan.front ∧ p.2 = [])) ∧
      (targetsOf edits).Perm (targetsOf stated) := by
  obtain ⟨all, hall, -, -⟩ := Plan.carryOut_eq_ok_iff.mp h
  obtain ⟨remaining, hkept, hsub, htargets⟩ := exists_uncovered hactions hstates
  -- No statement is written twice, since an action with statements comes to one edit.
  have hone : ∀ p ∈ remaining, p.2 = [] ∨ ∃ e, p.1.editsIn source = [e] := by
    intro p hp
    have hmem : p.1 ∈ plan.actions := hactions ▸ List.mem_map_of_mem (hsub hp)
    obtain ⟨own, hown⟩ := exists_edits?_of_mem hall hmem
    exact (hstates p (hsub hp)).exists_edit hown
  -- What is carried out are the edits of what is not covered, and what is in front.
  have hperm : (carriedOut (plan.edits source)).Perm
      ((statedEdits source remaining ++ plan.front.map (·, [])).map Prod.fst) := by
    have hlabels : (statedEdits source remaining ++ plan.front.map (·, [])).map Prod.fst
        = (uncovered plan.actions).flatMap (·.editsIn source) ++ plan.front := by
      rw [List.map_append, map_fst_statedEdits, hkept, List.map_map]
      exact congrArg (_ ++ ·) (List.map_id _)
    rw [hlabels, Plan.edits, hall]
    exact carriedOut_of_settled hsettled hall fun e he => Plan.front_start he
  obtain ⟨edits, hedits, hsame⟩ := exists_perm_of_perm_map Prod.fst hperm
  refine ⟨edits, hedits, fun p hp => ?_, ?_⟩
  · rcases List.mem_append.mp (hsame.mem_iff.mp hp) with hp | hp
    · obtain ⟨q, hq, hp⟩ := List.mem_flatMap.mp hp
      obtain ⟨e, he, rfl⟩ := List.mem_map.mp hp
      exact .inl ⟨q.1, hstates q (hsub hq), he⟩
    · obtain ⟨e, he, rfl⟩ := List.mem_map.mp hp
      exact .inr ⟨he, rfl⟩
  · have hfront : targetsOf (plan.front.map (·, ([] : List Statement))) = [] :=
      targetsOf_eq_nil (List.forall_mem_map.mpr fun _ _ => rfl)
    refine ((hsame.flatMap_right _).map _).trans (.of_eq ?_)
    rw [show List.map _ _ = targetsOf _ from rfl, targetsOf_append, targetsOf_statedEdits hone,
      htargets, hfront, List.append_nil]

/-- A module that exports a function, another module's name, and by a list a value and a type. -/
def exportingScript : List Char :=
  ("export function f() \x7b\x7d\ninterface T \x7b\x7d\nconst x = 1\n"
    ++ "export \x7b x as y, T \x7d\nexport \x7b z \x7d from 'm'\n").toList

/-- A module that exports a name that is both a type and a value. -/
def mergedName : List Char :=
  "interface Foo \x7b\x7d\nconst Foo = 1\nexport \x7b Foo \x7d\n".toList

end SingleFile.Script
