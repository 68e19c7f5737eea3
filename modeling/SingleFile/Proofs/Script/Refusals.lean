/-
  SingleFile.Proofs.Script.Refusals — UNSUPPORTED CONSTRUCTS ARE REPORTED
  ───────────────────────────────────────────────────────────────────────
  Whatever its module form, a rewrite walks through all that the items of a
  program hold.  So a rewrite that gives a text has come upon nothing that it
  would have to refuse; only what stands in an erased member of a class or in
  an enum may be lost without a word.

  Main results:
    * `lowerItem_refuses` — an item is refused what its parts are refused.  The
      step.
    * `planOf_refuseSame` — the same for a program, be it a module or not.
    * `planOf_refuses`, `planOf_refuseBelow` — a plan refuses what is
      unsupported, and nothing else.
    * `rewrite_reports` — what is unsupported is reported.
    * `rewrite_hiddenDecorator` — a decorator that is lost.
-/
import SingleFile.Proofs.Script.ItemForms
import SingleFile.Proofs.Script.RefusalOrder

namespace SingleFile.Script

open SingleFile.Text Grammar

variable {source : List Char} {n : Node} {nodes : List Node} {known : Module}

/-! ## §1. Modules -/

theorem not_reached_nil {m : Node} (h : Reached [] m) : False := by
  cases h with
  | here hmem => exact absurd hmem List.not_mem_nil
  | inside hmem => exact absurd hmem List.not_mem_nil

/-- In a declaration that is a type there is nothing unsupported. -/
theorem Reached.construct?_of_isTypeOnly {d m : Node} (h : Reached [d] m)
    (hd : isTypeOnly d = true) : m.construct? = none := by
  cases h with
  | here hmem =>
    obtain rfl := List.mem_singleton.mp hmem
    obtain ⟨kind, span, children⟩ := m
    unfold Node.construct?
    split
    · next hkind =>
      obtain rfl : kind = .decorator := hkind
      exact Bool.noConfusion hd
    · rw [if_pos hd]
    · rfl
  | inside hmem hstays =>
    obtain rfl := List.mem_singleton.mp hmem
    rw [Node.isErased, hd, Bool.true_or] at hstays
    exact Bool.noConfusion hstays

/-- What a walk comes to in the items of a module it comes to in what is walked for one of them. -/
theorem Reached.exists_walkedParts {items : List Node} {m : Node} (h : Reached items m)
    (hm : m.construct? ≠ none) : ∃ n ∈ items, Reached n.walkedParts m := by
  cases h with
  | @here _ _ hmem =>
    refine ⟨m, hmem, ?_⟩
    have hwalked : m.walkedParts = [m] := by
      unfold Node.construct? at hm
      unfold Node.walkedParts
      split at hm
      · next hkind => rw [hkind]
      · next hkind => rw [hkind]
      · exact absurd rfl hm
    rw [hwalked]
    exact .here (List.mem_singleton.mpr rfl)
  | @inside _ n _ hmem hstays hwalked hinside =>
    refine ⟨n, hmem, ?_⟩
    have hwhole : Reached [n] m := .inside (List.mem_singleton.mpr rfl) hstays hwalked hinside
    unfold Node.parts at hinside
    unfold Node.walkedParts
    split
    · next hkind =>
      rw [hkind] at hinside
      exact (not_reached_nil hinside).elim
    · next hkind =>
      rw [hkind] at hinside
      exact (not_reached_nil hinside).elim
    · next d hkind hchildren =>
      rw [hkind, hchildren] at hinside
      split
      · next htype => exact absurd (hinside.construct?_of_isTypeOnly htype) hm
      · exact hinside
    · next d hkind hchildren =>
      rw [Node.isErased, hkind, hchildren] at hstays
      rw [hkind, hchildren] at hinside
      rw [if_neg (Bool.eq_false_iff.mp (Bool.or_eq_false_iff.mp hstays).2)]
      exact hinside
    · next value hkind hchildren =>
      rw [hkind, hchildren] at hinside
      exact hinside
    · next hkind =>
      rw [hkind] at hinside
      exact (not_reached_nil hinside).elim
    · next hkind =>
      rw [hkind] at hinside
      exact (not_reached_nil hinside).elim
    · next value hkind hchildren =>
      rw [hkind, hchildren] at hinside
      exact hinside
    · next hkind =>
      rw [hkind] at hinside
      exact (not_reached_nil hinside).elim
    · exact hwhole

/-- Whether some actions refuse what some others do, in the same order. -/
def RefuseSame (actions others : List Action) : Prop := refusalsOf actions = refusalsOf others

theorem RefuseSame.mem_iff {actions others : List Action} (h : RefuseSame actions others)
    {construct : Construct} {offset : Nat} :
    .refuse construct offset ∈ actions ↔ .refuse construct offset ∈ others := by
  rw [← mem_refusalsOf, ← mem_refusalsOf, show refusalsOf actions = refusalsOf others from h]

/-- What becomes of an item refuses what the trees do that the types are taken out of. -/
theorem ItemTurns.refuseSame {walked : List Node} {actions : List Action}
    (h : ItemTurns source n walked actions) : RefuseSame actions (eraseAll source walked) := by
  induction h with
  | stays => rfl
  | dropped => rfl
  | replaced text => rfl
  | @around d front _ before after _ =>
    have hown : RefuseNothing
        (before.map (.replace n.start front) ++ after.map (.insert n.stop)) := by
      intro construct offset ha
      rcases List.mem_append.mp ha with ha | ha
      · obtain ⟨_, -, heq⟩ := List.mem_map.mp ha
        exact Action.noConfusion heq
      · obtain ⟨_, -, heq⟩ := List.mem_map.mp ha
        exact Action.noConfusion heq
    rw [RefuseSame, refusalsOf_append, hown.refusalsOf, eraseAll, eraseAll, List.append_nil,
      List.nil_append]
  | walked => rw [RefuseSame, eraseAll, eraseAll, List.append_nil]
  | looked offset _ ih => exact ih

/-- **For an item its parts are walked**, and nothing else is refused. -/
theorem lowerItem_refuses (known : Module) (n : Node) :
    Lower.Does known (lowerItem n) fun _ xs _ =>
      RefuseSame xs (eraseAll known.source n.walkedParts) :=
  (lowerItem_turns known n).mono fun _ _ _ h => h.refuseSame

/-! ## §2. Programs -/

theorem refuseNothing_of_firstRefusal? {actions : List Action} (h : firstRefusal? actions = none) :
    RefuseNothing actions := by
  induction actions with
  | nil => exact fun _ _ ha => absurd ha List.not_mem_nil
  | cons a rest ih =>
    intro construct offset ha
    unfold firstRefusal? at h
    split at h
    · next heq => exact absurd heq (by simp)
    · exact absurd h (by simp)
    · next hother heq =>
      obtain ⟨rfl, rfl⟩ := List.cons.inj heq
      rcases List.mem_cons.mp ha with rfl | ha
      · exact hother construct offset rfl
      · exact ih h construct offset ha

/-- What some refusals refuse first is among them. -/
theorem mem_of_firstRefusal? {actions : List Action} {construct : Construct} {offset : Nat}
    (h : firstRefusal? actions = some (construct, offset)) :
    .refuse construct offset ∈ actions := by
  induction actions with
  | nil => exact absurd h (by simp [firstRefusal?])
  | cons a rest ih =>
    unfold firstRefusal? at h
    split at h
    · exact absurd h (by simp)
    · next heq =>
      obtain ⟨rfl, rfl⟩ := List.cons.inj heq
      obtain ⟨rfl, rfl⟩ := Prod.mk.inj (Option.some.inj h)
      exact List.mem_cons_self ..
    · next heq =>
      obtain ⟨rfl, rfl⟩ := List.cons.inj heq
      exact List.mem_cons_of_mem _ (ih h)

/-- The trees of a program that types are taken out of. -/
def Program.walkedTrees (program : Program) : List Node :=
  if program.isModule then program.items.flatMap Node.walkedParts else program.items

theorem walkedParts_subset (n : Node) : subtreesOf n.walkedParts ⊆ subtreesOf [n] := by
  have hnone : subtreesOf [] ⊆ subtreesOf [n] := List.nil_subset _
  have hchild {d : Node} (h : n.children = [d]) : subtreesOf [d] ⊆ subtreesOf [n] :=
    h ▸ subtreesOf_children_subset n
  unfold Node.walkedParts
  split
  · exact hnone
  · exact hnone
  · next hchildren =>
    split
    · exact hnone
    · exact hchild hchildren
  · next hchildren =>
    split
    · exact hnone
    · exact hchild hchildren
  · next hchildren => exact hchild hchildren
  · exact hnone
  · exact hnone
  · next hchildren => exact hchild hchildren
  · exact hnone
  · exact List.Subset.refl _

theorem walkedTrees_subset (program : Program) :
    subtreesOf program.walkedTrees ⊆ subtreesOf program.items := by
  unfold Program.walkedTrees
  split
  · intro m hm
    obtain ⟨d, hd, hm⟩ := mem_subtreesOf.mp hm
    obtain ⟨n, hn, hd⟩ := List.mem_flatMap.mp hd
    have hbelow := walkedParts_subset n (mem_subtreesOf.mpr ⟨d, hd, hm⟩)
    exact subtreesOf_singleton_subset (mem_subtreesOf_of_mem hn) hbelow
  · exact List.Subset.refl _

/-- Items are refused what their parts are refused, one item after another. -/
theorem refusalsOf_flatten {items : List Node} {parts : List (List Action)}
    (h : List.Forall₂ (fun n xs => RefuseSame xs (eraseAll source n.walkedParts)) items parts) :
    RefuseSame parts.flatten (eraseAll source (items.flatMap Node.walkedParts)) := by
  induction h with
  | nil => rfl
  | cons hfirst _ ih =>
    rw [RefuseSame, List.flatten_cons, List.flatMap_cons, eraseAll_append, refusalsOf_append,
      refusalsOf_append, show refusalsOf _ = _ from hfirst, show refusalsOf _ = _ from ih]

/-- **For a program its trees are walked**, and nothing else is refused. -/
theorem planOf_refuseSame (options : RewriteOptions) (source : List Char) (program : Program) :
    RefuseSame (planOf options source program).actions (eraseAll source program.walkedTrees) := by
  cases hmodule : program.isModule with
  | false =>
    rw [planOf, Program.walkedTrees, hmodule]
    rfl
  | true =>
    obtain ⟨parts, behind, hactions, hparts, hbehind⟩ :=
      @planOf_items options source program _ hmodule fun known hsource _ _ n _ =>
        hsource ▸ lowerItem_refuses known n
    have hlast : RefuseNothing behind := by
      intro construct offset ha
      obtain ⟨place, text, heq⟩ := hbehind _ ha
      exact absurd heq (by simp)
    rw [RefuseSame, hactions, refusalsOf_append, hlast.refusalsOf, List.append_nil,
      Program.walkedTrees, hmodule, if_pos rfl]
    exact refusalsOf_flatten hparts

/-- **A plan refuses what the walk of its program comes to.** -/
theorem planOf_refuses {options : RewriteOptions} {program : Program} {m : Node}
    {construct : Construct} (h : Reached program.items m) (hm : m.construct? = some construct)
    (source : List Char) : .refuse construct m.start ∈ (planOf options source program).actions := by
  have hwalked : Walked program.walkedTrees m := by
    unfold Program.walkedTrees
    split
    · obtain ⟨n, hn, hreached⟩ := h.exists_walkedParts (by simp [hm])
      have hparts := (hreached.walked (by simp [hm])).1
      exact hparts.mono fun k hk => List.mem_flatMap.mpr ⟨n, hn, hk⟩
    · exact (h.walked (by simp [hm])).1
  have hrefused := (@refuse_mem_eraseAll source _ _ _).mpr ⟨m, hwalked, hm, rfl⟩
  exact (planOf_refuseSame options source program).mem_iff.mpr hrefused

/-- **A plan refuses only what is unsupported in its program.** -/
theorem planOf_refuseBelow (options : RewriteOptions) (source : List Char) (program : Program) :
    RefuseBelow program.items (planOf options source program).actions := by
  intro construct offset ha
  have hrefused := (planOf_refuseSame options source program).mem_iff.mp ha
  obtain ⟨m, hm, hfound⟩ := eraseAll_refuseBelow source _ construct offset hrefused
  exact ⟨m, walkedTrees_subset program hm, hfound⟩

/-- A plan that fails with a construct fails with what it refuses first. -/
theorem firstRefusal?_of_carryOut {plan : Plan} {construct : Construct} {offset : Nat}
    (h : plan.carryOut source = .error (.failed (.unsupported construct offset))) :
    firstRefusal? plan.actions = some (construct, offset) := by
  unfold Plan.carryOut at h
  split at h
  · exact absurd h (by simp)
  · next hrefusal =>
    obtain ⟨rfl, rfl⟩ := RewriteError.unsupported.inj (Halt.failed.inj (Except.error.inj h))
    exact hrefusal
  · dsimp only at h
    split at h <;> exact absurd h (by simp)

/-- **What is unsupported is reported.**  A rewrite that gives a text has passed over nothing that
its program holds, as long as nothing is hidden in erased members and in enums; and what a rewrite
fails with is there, where it says. -/
theorem rewrite_reports {options : RewriteOptions} {source : List Char} {program : Program}
    (hparse : parse ⟨options.typed, true⟩ source = .ok program)
    (hclear : HidesNothing program.items) :
    (∀ out, rewrite options source = .ok out →
      ∀ n, Holds program.items n → n.construct? = none) ∧
    ∀ construct offset, rewrite options source = .error (.failed (.unsupported construct offset)) →
      ∃ n ∈ subtreesOf program.items, n.construct? = some construct ∧ n.start = offset := by
  refine ⟨fun out h n hn => ?_, fun construct offset h => ?_⟩
  · obtain ⟨-, -, hrefusal, -⟩ := Plan.carryOut_eq_ok_iff.mp (carryOut_of_rewrite hparse h)
    by_contra hunsupported
    obtain ⟨m, hreached, hm⟩ := hn.exists_reached hclear hunsupported
    obtain ⟨construct, hconstruct⟩ := Option.ne_none_iff_exists'.mp hm
    exact refuseNothing_of_firstRefusal? hrefusal construct m.start
      (planOf_refuses hreached hconstruct source)
  · rw [rewrite, hparse] at h
    dsimp only at h
    exact planOf_refuseBelow options source program _ _
      (mem_of_firstRefusal? (firstRefusal?_of_carryOut h))

/-! ## §3. Scripts -/

/-- A class with a decorator on a member that stays. -/
def decoratedMethod : List Char :=
  ("abstract class C \x7b abstract m(): void\n @dec n() \x7b\x7d \x7d\n"
    ++ "enum E \x7b A \x7d\n").toList

theorem rewrite_reports_decoratedMethod :
    ∃ program, parse ⟨true, true⟩ decoratedMethod = .ok program ∧ HidesNothing program.items ∧
      ∀ out, rewrite typedToCommonJs decoratedMethod ≠ .ok out := by
  obtain ⟨program, hparse, hclear, hsearch⟩ := exists_parse_of_any
    (p := fun program => (∀ n ∈ subtreesOf program.items, n.kind.isPassedOver = true →
        n.construct? = none → ∀ m ∈ subtreesOf n.parts, m.construct? = none) ∧
      holdsWithin (fun n => n.construct? == some .decorator) 6 program.items = true)
    (show (parse ⟨true, true⟩ decoratedMethod).toOption.any _ = true by decide +kernel)
  have hclear := hidesNothing_of_subtrees hclear
  obtain ⟨n, hn, hdecorator⟩ := exists_holds_of_holdsWithin hsearch
  refine ⟨program, hparse, hclear, fun out h => ?_⟩
  rw [(@rewrite_reports typedToCommonJs _ _ hparse hclear).1 out h n hn] at hdecorator
  exact absurd hdecorator (by decide)

/-- A class with a decorator on a field that is only declared. -/
def hiddenDecorator : List Char := "class C \x7b @dec declare x: string \x7d\n".toList

/-- **A decorator is dropped**: it goes with the field that it stands on, and nothing is said. -/
theorem rewrite_hiddenDecorator :
    (∃ program, parse ⟨true, true⟩ hiddenDecorator = .ok program ∧
        ∃ n, Holds program.items n ∧ n.construct? = some .decorator) ∧
      ∃ out, rewrite typedToCommonJs hiddenDecorator = .ok out ∧ find? ['@'] out = none := by
  refine ⟨?_, exists_rewrite_of_any (by decide +kernel)⟩
  obtain ⟨program, hparse, hsearch⟩ := exists_parse_of_any
    (p := fun program =>
      holdsWithin (fun n => n.construct? == some .decorator) 6 program.items = true)
    (show (parse ⟨true, true⟩ hiddenDecorator).toOption.any _ = true by decide +kernel)
  obtain ⟨n, hn, hdecorator⟩ := exists_holds_of_holdsWithin hsearch
  exact ⟨program, hparse, n, hn, beq_iff_eq.mp hdecorator⟩

end SingleFile.Script
