/-
  SingleFile.Proofs.Script.Overlaps — NO EDIT IS LOST
  ───────────────────────────────────────────────────
  An edit that begins inside of another one is dropped without a word.  In a
  program that fits its text this can only be a blank for which the text is
  blank already: what an item asks for stands inside of the item, items stand
  apart, and inside of an item the tree decides.

  Main results:
    * `ItemTurns.settled` — what is done for an item stands inside of it.
    * `planOf_settled` — the actions of a program are settled.
    * `planOf_losesNothing` — of a program's edits those are dropped that an
      earlier blank covers, and no others.
-/
import SingleFile.Proofs.Script.ErasureReach
import SingleFile.Proofs.Script.ItemForms

namespace SingleFile.Script

open SingleFile.Text Grammar

variable {source : List Char} {n : Node} {items : List Node}

/-! ## §1. Items -/

theorem le_behindKeyword (source : List Char) (offset : Nat) (word : String) :
    offset ≤ behindKeyword source offset word := by
  unfold behindKeyword
  split
  · exact (Nat.le_add_right ..).trans (le_skipBlanks ..)
  · exact Nat.le_refl _

/-- What is exported stands behind the words in front of it, inside of the item. -/
theorem exported?_bounds {d : Node} {front : Nat} (h : n.exported? source = some (d, front))
    (hplace : n.InPlace source) :
    n.kind.isDeclaration = false ∧ d ∈ n.children ∧ n.start ≤ front ∧ front ≤ d.start ∧
      d.start ≤ n.stop := by
  have hwords := hplace.words
  unfold Node.exported? at h
  unfold Node.WordsInPlace at hwords
  have hmem {c : Node} (hchildren : n.children = [c]) : c ∈ n.children :=
    hchildren ▸ List.mem_singleton_self c
  split at h
  · next c hkind hchildren =>
    obtain ⟨rfl, rfl⟩ := Prod.mk.inj (Option.some.inj h)
    rw [hkind] at hwords
    exact ⟨by rw [hkind]; rfl, hmem hchildren, le_behindKeyword .., hwords _ (hmem hchildren)⟩
  · next c hkind hchildren =>
    obtain ⟨rfl, rfl⟩ := Prod.mk.inj (Option.some.inj h)
    rw [hkind] at hwords
    exact ⟨by rw [hkind]; rfl, hmem hchildren, (le_behindKeyword ..).trans (le_behindKeyword ..),
      hwords _ (hmem hchildren)⟩
  · next c hkind hchildren =>
    obtain ⟨rfl, rfl⟩ := Prod.mk.inj (Option.some.inj h)
    rw [hkind] at hwords
    obtain ⟨hstart, hstop⟩ := hwords _ (hmem hchildren)
    exact ⟨by rw [hkind]; rfl, hmem hchildren, hstart, Nat.le_refl _, hstop⟩
  · next c hkind hchildren =>
    obtain ⟨rfl, rfl⟩ := Prod.mk.inj (Option.some.inj h)
    rw [hkind] at hwords
    obtain ⟨hstart, hstop⟩ := hwords _ (hmem hchildren)
    exact ⟨by rw [hkind]; rfl, hmem hchildren, hstart, Nat.le_refl _, hstop⟩
  · simp at h

/-- Insertions at one place stand apart. -/
theorem inserts_settled (offset : Nat) (texts : List String) :
    SettledIn offset offset (texts.map (.insert offset)) where
  inside a ha r hr := by
    obtain ⟨text, -, rfl⟩ := List.mem_map.mp ha
    obtain rfl := Option.some.inj hr
    exact ⟨Nat.le_refl _, Nat.le_refl _⟩
  settled := by
    refine List.pairwise_map.mpr (List.pairwise_of_forall_mem_list fun _ _ _ _ => ?_)
    refine .inl (Action.insert_apart fun r hr => .inl ?_)
    obtain rfl := Option.some.inj hr
    exact Nat.le_refl _

/-- **What is done for an item stands inside of it.** -/
theorem ItemTurns.settled {walked : List Node} {actions : List Action}
    (h : ItemTurns source n walked actions) (hlaid : isLaidOut source n = true)
    (hwhole : n.isWhole = true) : SettledIn n.start n.stop actions := by
  obtain ⟨hstart, hend, -⟩ := reach_of_isWhole source hwhole
  obtain ⟨hplace, hparts⟩ := isLaidOut_iff.mp hlaid
  induction h with
  | stays => exact .nil
  | dropped => exact .blank (Nat.le_refl _) (Nat.le_refl _)
  | replaced text => exact .replace (Nat.le_refl _) (Nat.le_refl _)
  | @around d front h before after hfew =>
    obtain ⟨hkind, hmem, hfront, hbehind, hstop⟩ := exported?_bounds h hplace
    have hd := hparts.resolve_left (by rw [isTypeOnly_eq_false hkind]; exact Bool.false_ne_true)
      d hmem
    have hdeclaration : SettledIn front n.stop (erase source d) := by
      rcases hplace.inReach hmem (isLaidOut_iff.mp hd).1 with hsilent | ⟨-, hto⟩
      · exact .quiet (erase_of_isSilent hsilent)
      · refine (erase_settled d hd).mono (hbehind.trans ?_) (hto.trans hend.le)
        exact (isLaidOut_iff.mp hd).1.start_le_startsAt
    have hbefore : SettledIn n.start front (before.map (.replace n.start front)) := by
      match before, hfew with
      | [], _ => exact .nil
      | [text], _ => exact .replace (Nat.le_refl _) (Nat.le_refl _)
    rw [List.append_assoc]
    exact hbefore.append ((inserts_settled n.stop after).append_back hdeclaration
      (hbehind.trans hstop) (Nat.le_refl _)) hfront (hbehind.trans hstop)
  | walked =>
    have hself := erase_settled n hlaid
    rwa [Node.KeepsToReach, hstart, hend] at hself
  | looked offset _ ih => exact ih.look

/-! ## §2. Programs -/

/-- Whether the spans of two items do not overlap. -/
def Node.ClearOf (n m : Node) : Prop := n.stop ≤ m.start ∨ m.stop ≤ n.start

instance : Std.Symm Node.ClearOf := ⟨fun _ _ => Or.symm⟩

/-- The items of a program do not overlap. -/
theorem Program.IsLaidOut.clear {program : Program} (h : program.IsLaidOut source) :
    program.items.Pairwise Node.ClearOf := by
  refine h.apart.imp_of_mem fun {n m} hn hm hapart => ?_
  obtain ⟨hstart, hend, hloud⟩ := reach_of_isWhole source (h.whole n hn)
  obtain ⟨hstart', hend', hloud'⟩ := reach_of_isWhole source (h.whole m hm)
  rcases hapart with hapart | hapart | hapart | hapart
  · rw [hloud] at hapart
    exact Bool.noConfusion hapart
  · rw [hloud'] at hapart
    exact Bool.noConfusion hapart
  · exact .inl (by omega)
  · exact .inr (by omega)

/-- What is done in a module is done for one of its items. -/
theorem exists_item_of_mem {parts : List (List Action)} {a : Action}
    (h : List.Forall₂ (fun n xs => SettledIn n.start n.stop xs) items parts)
    (ha : a ∈ parts.flatten) : ∃ m ∈ items, SettledIn m.start m.stop [a] := by
  induction h with
  | nil => exact absurd ha List.not_mem_nil
  | @cons n xs items parts hfirst _ ih =>
    rw [List.flatten_cons] at ha
    rcases List.mem_append.mp ha with ha | ha
    · exact ⟨n, List.mem_cons_self .., .single (hfirst.inside a ha)⟩
    · obtain ⟨m, hm, hin⟩ := ih ha
      exact ⟨m, List.mem_cons_of_mem _ hm, hin⟩

/-- What is done for items that do not overlap is settled, if it is so for each of them. -/
theorem parts_settled {parts : List (List Action)}
    (h : List.Forall₂ (fun n xs => SettledIn n.start n.stop xs) items parts)
    (hclear : items.Pairwise Node.ClearOf) : parts.flatten.Pairwise Action.Settled := by
  induction h with
  | nil => exact .nil
  | @cons n xs items parts hfirst hlater ih =>
    obtain ⟨hcross, hclear⟩ := List.pairwise_cons.mp hclear
    rw [List.flatten_cons]
    refine List.pairwise_append.mpr ⟨hfirst.settled, ih hclear, fun a ha b hb => .inl ?_⟩
    obtain ⟨m, hm, hin⟩ := exists_item_of_mem hlater hb
    have hself : b ∈ [b] := List.mem_singleton_self b
    rcases hcross m hm with hle | hle
    · exact hfirst.apart hin hle a ha b hself
    · exact (hin.apart hfirst hle b hself a ha).symm

/-- The assignments behind the last item are inside of no item. -/
theorem closing_settled {parts : List (List Action)} {deferred : String}
    (h : List.Forall₂ (fun n xs => SettledIn n.start n.stop xs) items parts)
    (hclear : items.Pairwise Node.ClearOf) (hordered : ∀ n ∈ items, n.start ≤ n.stop) :
    (parts.flatten ++ closing items deferred).Pairwise Action.Settled := by
  refine List.pairwise_append.mpr ⟨parts_settled h hclear, ?_, fun a ha b hb => .inl ?_⟩
  · unfold closing
    split
    · exact List.pairwise_singleton ..
    · exact .nil
  · unfold closing at hb
    split at hb
    · next last hlast =>
      obtain rfl := List.mem_singleton.mp hb
      obtain ⟨m, hm, hin⟩ := exists_item_of_mem h ha
      refine (Action.insert_apart fun r hr => ?_).symm
      obtain ⟨hfrom, hto⟩ := hin.inside a (List.mem_singleton_self a) r hr
      have hlastMem := List.mem_of_getLast? hlast
      by_cases hsame : m = last
      · subst hsame
        exact .inl hto
      · rcases hclear.forall hm hlastMem hsame with hle | hle
        · exact .inl ((hto.trans hle).trans (hordered last hlastMem))
        · exact .inr (hle.trans hfrom)
    · exact absurd hb List.not_mem_nil

/-- **The actions of a program are settled**, if the program fits its text. -/
theorem planOf_settled (options : RewriteOptions) {program : Program}
    (h : program.IsLaidOut source) :
    (planOf options source program).actions.Pairwise Action.Settled := by
  have hlaid := areLaidOut_iff.mp h.trees
  cases hmodule : program.isModule with
  | false =>
    rw [planOf, hmodule]
    exact eraseAll_pairwise (fun n hn => erase_settled n (hlaid n hn)) h.apart
  | true =>
    obtain ⟨parts, hactions, hparts⟩ := @planOf_eachItem options source program
      (fun n xs _ => SettledIn n.start n.stop xs) hmodule fun n hn =>
        (lowerItem_turns _ n).mono fun _ _ _ hturns =>
          hturns.settled (hlaid n hn) (h.whole n hn)
    have hitems := List.forall₂_map_right_iff.mpr hparts
    rw [hactions]
    split
    · rw [List.append_nil]
      exact parts_settled hitems h.clear
    · exact closing_settled hitems h.clear fun n hn =>
        (isLaidOut_iff.mp (hlaid n hn)).1.ordered

/-- **No edit is lost.**  In a program that fits its text any two ranges that are edited stand
apart, or one is a blank inside of a blank that starts in front of it, and nothing is inserted
inside of a range.  So those edits are done that no earlier blank covers, and no others: every
insertion and every replacement is done, and a blank is dropped only for a blank that is done. -/
theorem planOf_losesNothing (options : RewriteOptions) {program : Program}
    (h : program.IsLaidOut source) :
    let plan := planOf options source program
    plan.actions.Pairwise Action.Settled ∧
      (∀ a ∈ plan.actions, a ∈ uncovered plan.actions ∨
        ∃ b ∈ uncovered plan.actions, b.Covers a) ∧
      (∀ a ∈ plan.actions, (∀ start stop, a ≠ .blank start stop) → a ∈ uncovered plan.actions) ∧
      ∀ out, plan.carryOut source = .ok out →
        (carriedOut (plan.edits source)).Perm
          ((uncovered plan.actions).flatMap (·.editsIn source) ++ plan.front) ∧
        Done source (carriedOut (plan.edits source)) source out := by
  intro plan
  have hsettled : plan.actions.Pairwise Action.Settled := planOf_settled options h
  refine ⟨hsettled, fun a => uncovered_or_covered, fun a => mem_uncovered, fun out hout => ?_⟩
  refine ⟨?_, Plan.carryOut_done hout⟩
  obtain ⟨edits, hedits, -, -⟩ := Plan.carryOut_eq_ok_iff.mp hout
  rw [Plan.edits, hedits]
  exact carriedOut_of_settled hsettled hedits fun e he => Plan.front_start he

/-- A module with edits close to each other: a class with words in front of it and behind its name,
with a parameter that declares a field, and with a receiver that has types of its own. -/
def crowdedModule : List Char :=
  ("import \x7b a, b \x7d from 'm'\nexport enum E \x7b A \x7d\n"
    ++ "abstract class C<T> extends b implements F, G \x7b\n"
    ++ "  constructor(private x?: number) \x7b super() \x7d\n  abstract n(): void\n"
    ++ "  m(this: C<T>, y = a!) \x7b return y as T \x7d\n\x7d\nexport \x7b a, C \x7d\n").toList

theorem planOf_losesNothing_crowdedModule :
    ∃ program, parse ⟨true, true⟩ crowdedModule = .ok program ∧
      program.IsLaidOut crowdedModule ∧
      let plan := planOf typedToCommonJs crowdedModule program
      plan.actions.Pairwise Action.Settled ∧
        (∃ a ∈ plan.actions, a ∉ uncovered plan.actions ∧
          ∃ b ∈ uncovered plan.actions, b.Covers a) ∧
        ∃ out, plan.carryOut crowdedModule = .ok out ∧
          (carriedOut (plan.edits crowdedModule)).Perm
            ((uncovered plan.actions).flatMap (·.editsIn crowdedModule) ++ plan.front) ∧
          Done crowdedModule (carriedOut (plan.edits crowdedModule)) crowdedModule out := by
  obtain ⟨program, hparse, hlaid, ⟨a, ha, hdropped⟩, hdone⟩ := exists_parse_of_any
    (p := fun program => program.IsLaidOut crowdedModule ∧
      (∃ a ∈ (planOf typedToCommonJs crowdedModule program).actions,
        a ∉ uncovered (planOf typedToCommonJs crowdedModule program).actions) ∧
      ((planOf typedToCommonJs crowdedModule program).outcome? crowdedModule).isSome = true)
    (show (parse ⟨true, true⟩ crowdedModule).toOption.any _ = true by decide +kernel)
  obtain ⟨out, hout⟩ := Option.isSome_iff_exists.mp hdone
  have hout := Plan.outcome?_eq_some_iff.mp hout
  obtain ⟨hsettled, hcovered, -, hcarried⟩ := planOf_losesNothing typedToCommonJs hlaid
  exact ⟨program, hparse, hlaid, hsettled, ⟨a, ha, hdropped, (hcovered a ha).resolve_left hdropped⟩,
    out, hout, hcarried out hout⟩

end SingleFile.Script
