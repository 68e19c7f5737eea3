/-
  SingleFile.Proofs.Script.RewriteLines — LINE FEEDS OF A REWRITTEN SCRIPT
  ────────────────────────────────────────────────────────────────────────
  A rewrite is meant to keep every line in its place.  It never loses a line
  feed; it brings one in exactly where an enum, a list of another module's
  names or the assignments of local lists copy a string that goes on in the
  next line more often than it stood in the range they replace.

  Main results:
    * `planOf_fitsOrCopies` — all other actions fit the text.
    * `rewrite_keeps_lines_iff` — when a rewrite keeps the number of line feeds.
    * `rewrite_continuedExport` — a local list that brings a line feed in.
-/
import SingleFile.Proofs.Script.Evaluation
import SingleFile.Proofs.Script.ModuleForms

namespace SingleFile.Script

open SingleFile.Text Grammar

/-! ## §1. What may bring line feeds in -/

/-- Whether the copied parts of an item stand inside it, one after another. -/
def Node.copiesInOrder (n : Node) : Bool := inOrder n.stop n.start n.kind.copied

/-- Whether a program stands in its text the way it was read from it: names are single lines, and
what a lowering copies from an item stands inside the item, one part after another. -/
def Program.isFaithful (program : Program) : Bool :=
  havePlainNames program.items && program.items.all Node.copiesInOrder

/-- **The actions that may bring line feeds in**: an enum repeats the keys of its members, a
re-export the names it keeps, and the assignments of local lists are moved behind the last
item. -/
inductive Copies (options : RewriteOptions) (source : List Char) (items : List Node) :
    Action → Prop where
  | enum {n : Node} {a : Action} (hn : n ∈ subtreesOf items) (ha : a ∈ replaceEnum source n) :
    Copies options source items a
  | reexport {n : Node} {list : ExportList} {text : String} (hn : n ∈ items)
    (hlist : n.kind = .exportList list) (hsource : list.source.isSome = true)
    (hform : options.form = .commonJs) : Copies options source items (.replace n.start n.stop text)
  | deferred {last : Node} (hlast : items.getLast? = some last) :
    Copies options source items
      (.insert last.stop (";" ++ (lowered options source items).deferred))

/-- A text on a single line fits anywhere. -/
theorem replace_fits_of_plain {source : List Char} {start stop : Nat} {text : String}
    (h : lineFeeds text = 0) : (Action.replace start stop text).Fits source := by
  intro old _
  rw [← lineFeeds, h]
  exact Nat.zero_le _

/-- **All other actions of an erasure fit.** -/
theorem eraseAll_fitsOrCopies {options : RewriteOptions} {source : List Char} {items : List Node}
    (hplain : havePlainNames items = true) {a : Action} (ha : a ∈ eraseAll source items) :
    a.Fits source ∨ Copies options source items a := by
  rcases (eraseAll_erases ha).fits_or_lowers hplain with hfit | ⟨n, hn, ha⟩
  · exact Or.inl hfit
  · exact Or.inr (.enum hn ha)

/-- **All other actions of a lowering fit.** -/
theorem Lowers.fitsOrCopies {options : RewriteOptions} {source : List Char} {items : List Node}
    {a : Action} (h : Lowers options source items a) (hplain : havePlainNames items = true)
    (hcopies : ∀ n ∈ items, n.copiesInOrder = true) :
    a.Fits source ∨ Copies options source items a := by
  cases h with
  | erases ha => exact eraseAll_fitsOrCopies hplain ha
  | looks offset => exact Or.inl trivial
  | drops hn hitem => exact Or.inl trivial
  | replaces hn hkind htext => exact Or.inl (replace_fits (hcopies _ hn) (htext hplain))
  | reexports hn hlist hsource hform => exact Or.inr (.reexport hn hlist hsource hform)
  | opens hn hfront hform htext => exact Or.inl (replace_fits_of_plain (htext hplain))
  | closes hn hform htext => exact Or.inl (htext hplain)
  | defers hlast hform => exact Or.inr (.deferred hlast)

/-- **All other actions for a program fit.** -/
theorem planOf_fitsOrCopies {options : RewriteOptions} {source : List Char} {program : Program}
    (h : program.isFaithful = true) {a : Action}
    (ha : a ∈ (planOf options source program).actions) :
    a.Fits source ∨ Copies options source program.items a := by
  rw [Program.isFaithful, Bool.and_eq_true, List.all_eq_true] at h
  exact (planOf_lowers ha).fitsOrCopies h.1 h.2

/-! ## §2. The prologue -/

/-- The statements in front of a module are a single line. -/
theorem lineFeeds_modulePrologue (options : RewriteOptions) (items : List Node) (l : Lowering) :
    lineFeeds (modulePrologue options items l) = 0 := by
  have hhelpers : lineFeeds (String.join (l.helpers.map Helper.declaration)) = 0 := by
    rw [lineFeeds_join, List.map_map, List.sum_eq_zero_iff_forall_eq_nat]
    intro count hcount
    obtain ⟨h, -, rfl⟩ := List.mem_map.mp hcount
    exact h.lineFeeds_declaration
  -- In front of the helpers there is at most the mark of a module.
  unfold modulePrologue
  dsimp only
  rw [lineFeeds_append, hhelpers, Nat.add_zero]
  split
  · rw [lineFeeds_append]
    split <;> decide
  · rfl

theorem lineFeeds_prologue (options : RewriteOptions) (source : List Char) (program : Program) :
    lineFeeds (planOf options source program).prologue = 0 := by
  unfold planOf
  split
  · exact lineFeeds_modulePrologue ..
  · rfl

/-! ## §3. Rewrites -/

/-- **When a rewrite keeps the number of line feeds**: it never loses one, and brings none in
exactly if every text that copies, where it is put in place, has no more than the range it
replaces. -/
theorem rewrite_keeps_lines_iff {options : RewriteOptions} {source out : List Char}
    {program : Program} (hparse : parse ⟨options.typed, true⟩ source = .ok program)
    (hfaithful : program.isFaithful = true) (h : rewrite options source = .ok out) :
    source.count '\n' ≤ out.count '\n' ∧ (out.count '\n' = source.count '\n' ↔
      ∀ a ∈ (planOf options source program).actions, Copies options source program.items a →
        (planOf options source program).CarriesOut source a → a.Fits source) := by
  obtain ⟨hle, hiff⟩ := Plan.carryOut_keeps_iff (lineFeeds_prologue options source program)
    (carryOut_of_rewrite hparse h)
  -- Among the actions that are carried out only those that copy are in question.
  refine ⟨hle, hiff.trans ⟨fun hall a ha _ => hall a ha, fun hcopies a ha hout => ?_⟩⟩
  rcases planOf_fitsOrCopies hfaithful ha with hfit | hcopy
  · exact hfit
  · exact hcopies a ha hcopy hout

/-- How typed modules are lowered with shared helpers. -/
def typedOptions : RewriteOptions := ⟨true, .commonJs, .shared, .helper, false⟩

/-- A typed module with all that copies, every string on a line of its own. -/
def copyingScript : List Char :=
  "enum E \x7b 'B' = 'b' \x7d\nexport \x7b E as 'd' \x7d\nexport \x7b e \x7d from 'n'\n".toList

theorem rewrite_keeps_lines_copyingScript :
    ∃ program out, parse ⟨typedOptions.typed, true⟩ copyingScript = .ok program ∧
      program.isFaithful = true ∧ rewrite typedOptions copyingScript = .ok out ∧
      out.count '\n' = copyingScript.count '\n' ∧
      ∀ a ∈ (planOf typedOptions copyingScript program).actions,
        Copies typedOptions copyingScript program.items a →
        (planOf typedOptions copyingScript program).CarriesOut copyingScript a →
        a.Fits copyingScript := by
  have hrun : (parse ⟨typedOptions.typed, true⟩ copyingScript).toOption.any (fun program =>
      program.isFaithful && ((planOf typedOptions copyingScript program).outcome?
        copyingScript).any fun out => out.count '\n' == copyingScript.count '\n') = true := by
    decide +kernel
  cases hparse : parse ⟨typedOptions.typed, true⟩ copyingScript with
  | error m =>
    rw [hparse] at hrun
    simp [Except.toOption] at hrun
  | ok program =>
    rw [hparse] at hrun
    obtain ⟨hfaithful, hkept⟩ := Bool.and_eq_true_iff.mp hrun
    obtain ⟨out, hout, hcount⟩ := (Option.any_eq_true ..).mp hkept
    have hcount := beq_iff_eq.mp hcount
    have hrewrite : rewrite typedOptions copyingScript = .ok out := by
      rw [rewrite_eq_ok_iff, outcome?, hparse]
      exact hout
    have hiff := (rewrite_keeps_lines_iff hparse hfaithful hrewrite).2
    exact ⟨program, out, rfl, hfaithful, hrewrite, hcount, hiff.mp hcount⟩

/-- A local list with a string that goes on in the next line. -/
def continuedExport : List Char := "let x = 1\nexport \x7b x as 'a\\\nb' \x7d\n".toList

/-- **A local list brings a line feed in**: its string moves behind the last item, and the lines
it stood on are kept. -/
theorem rewrite_continuedExport :
    ∃ out, rewrite ⟨false, .commonJs, .shared, .helper, false⟩ continuedExport = .ok out ∧
      out.count '\n' = continuedExport.count '\n' + 1 :=
  exists_rewrite_of_any (by decide +kernel)

end SingleFile.Script
