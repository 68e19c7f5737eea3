/-
  SingleFile.Proofs.Script.ItemActions — WHAT IS DONE ITEM BY ITEM
  ────────────────────────────────────────────────────────────────
  Support layer: the actions of a module are those of its items, one item
  after another, and at most an insertion behind the last one.  So what holds
  of the actions of each item can be read off a plan, in either module form.

  Contents:
    * `lowerEach_forall₂` — what is done for some items.  The run.
    * `planOf_items` — the actions of a module.
    * `ifCommonJs_does_either` — a step in either module form.
-/
import SingleFile.Proofs.Script.LoweringEffects
import SingleFile.Proofs.Script.ModuleForms

namespace SingleFile.Script

open SingleFile.Text

variable {known : Module}

/-! ## §1. Items -/

/-- **What is done for some items** comes one item after another, the actions and the texts that are
put off.  The run. -/
theorem lowerEach_forall₂ {spec : Node → List Action → String → Prop} {nodes : List Node}
    (h : ∀ n ∈ nodes, Lower.Does known (lowerItem n) fun _ => spec n) :
    Lower.Does known (lowerEach nodes) fun _ xs d =>
      ∃ parts : List (List Action × String), xs = (parts.map Prod.fst).flatten ∧
        d = String.join (parts.map Prod.snd) ∧
        List.Forall₂ (fun n part => spec n part.1 part.2) nodes parts := by
  unfold lowerEach
  induction nodes with
  | nil =>
    intro _
    exact ⟨[], "", rfl, String.append_empty.symm, [], rfl, rfl, .nil⟩
  | cons n nodes ih =>
    intro s
    rw [List.forIn_cons]
    obtain ⟨lists, deferred, hlists, hdeferred, hspec⟩ := h n (List.mem_cons_self ..) s
    obtain ⟨lists', deferred', hlists', hdeferred', parts, hparts, htexts, hspecs⟩ :=
      ih (fun m hm => h m (List.mem_cons_of_mem _ hm)) (((lowerItem n).run known).run s).2
    refine ⟨lists' ++ lists, deferred ++ deferred', ?_, ?_,
      (lists.reverse.flatten, deferred) :: parts, ?_, ?_, .cons hspec hspecs⟩
    · exact hlists'.trans (by rw [hlists, List.append_assoc])
    · exact hdeferred'.trans (by rw [hdeferred, String.append_assoc])
    · rw [List.reverse_append, List.flatten_append, hparts, List.map_cons, List.flatten_cons]
    · rw [htexts, List.map_cons, String.join_cons]

/-- The names that a module mentions as values, where that is asked. -/
def referencesOf (options : RewriteOptions) (items : List Node) : Option (List String) :=
  if options.elideImports then some (valueNamesOf items) else none

/-- What is known about a module as a whole. -/
def knownOf (options : RewriteOptions) (source : List Char) (items : List Node) : Module :=
  { source := source
    options := options
    references := referencesOf options items
    typeNames := items.flatMap typeNames }

variable {options : RewriteOptions} {source : List Char} {program : Program}
  {spec : Node → List Action → Prop}

/-- **The actions of a module** come item by item, and behind them the texts that were put off. -/
theorem planOf_eachItem {spec : Node → List Action → String → Prop}
    (hmodule : program.isModule = true)
    (h : ∀ n ∈ program.items,
      Lower.Does (knownOf options source program.items) (lowerItem n) fun _ => spec n) :
    ∃ parts : List (List Action × String),
      (planOf options source program).actions = (parts.map Prod.fst).flatten ++
        (if String.join (parts.map Prod.snd) = "" ∨ program.items = [] then []
          else closing program.items (String.join (parts.map Prod.snd))) ∧
      List.Forall₂ (fun n part => spec n part.1 part.2) program.items parts := by
  have hlowered : lowered options source program.items
      = (((lowerItems program.items).run (knownOf options source program.items)).run
        Lowering.start).2 := rfl
  obtain ⟨lists, deferred, hlists, htext, parts, hparts, htexts, hspecs⟩ :=
    lowerEach_forall₂ h Lowering.start
  have hdone : (((lowerEach program.items).run (knownOf options source program.items)).run
      Lowering.start).2.actions = lists := hlists.trans (List.append_nil _)
  have hputOff : (((lowerEach program.items).run (knownOf options source program.items)).run
      Lowering.start).2.deferred = deferred := htext.trans String.empty_append
  refine ⟨parts, ?_, hspecs⟩
  rw [planOf, if_pos hmodule, hlowered, lowerItems_eq _ program.items Lowering.start rfl, hputOff,
    htexts]
  dsimp only
  split
  · rw [hdone, hparts, List.append_nil]
  · rw [List.reverse_cons, List.flatten_append, List.flatten_singleton, hdone, hparts]

/-- Behind the actions of the items there is at most an insertion. -/
theorem planOf_knownItems (hmodule : program.isModule = true)
    (h : ∀ n ∈ program.items, Lower.Does (knownOf options source program.items) (lowerItem n)
      fun _ xs _ => spec n xs) :
    ∃ parts behind, (planOf options source program).actions = parts.flatten ++ behind ∧
      List.Forall₂ spec program.items parts ∧
      ∀ a ∈ behind, ∃ offset text, a = .insert offset text := by
  obtain ⟨parts, hactions, hspecs⟩ := planOf_eachItem hmodule h
  refine ⟨_, _, hactions, List.forall₂_map_right_iff.mpr hspecs, fun a ha => ?_⟩
  split at ha
  · exact absurd ha List.not_mem_nil
  · rw [closing] at ha
    split at ha
    · exact ⟨_, _, List.mem_singleton.mp ha⟩
    · exact absurd ha List.not_mem_nil

/-- If nothing is put off, there is nothing behind them. -/
theorem planOf_settledItems (hmodule : program.isModule = true)
    (h : ∀ n ∈ program.items, Lower.Does (knownOf options source program.items) (lowerItem n)
      fun _ xs d => spec n xs ∧ d = "") :
    ∃ parts, (planOf options source program).actions = parts.flatten ∧
      List.Forall₂ spec program.items parts := by
  obtain ⟨parts, hactions, hspecs⟩ := planOf_eachItem hmodule h
  have hjoin : String.join (parts.map Prod.snd) = "" := by
    clear hactions h
    generalize program.items = items at hspecs
    induction hspecs with
    | nil => rfl
    | cons hfirst _ ih =>
      rw [List.map_cons, String.join_cons, hfirst.2, String.empty_append]
      exact ih
  rw [if_pos (Or.inl hjoin), List.append_nil] at hactions
  exact ⟨_, hactions, List.forall₂_map_right_iff.mpr (hspecs.imp fun _ _ h => h.1)⟩

/-- The same, for what is done in every module with the same source and references. -/
theorem planOf_items (hmodule : program.isModule = true)
    (h : ∀ known : Module, known.source = source → known.options = options →
      known.references = referencesOf options program.items →
      ∀ n ∈ program.items, Lower.Does known (lowerItem n) fun _ xs _ => spec n xs) :
    ∃ parts behind, (planOf options source program).actions = parts.flatten ++ behind ∧
      List.Forall₂ spec program.items parts ∧
      ∀ a ∈ behind, ∃ offset text, a = .insert offset text :=
  planOf_knownItems hmodule (h (knownOf options source program.items) rfl rfl rfl)

/-! ## §2. Module forms -/

/-- A step does what it does in the form that a module has. -/
theorem ifCommonJs_does_either {α : Type} {whereLowered whereKept : Lower α}
    {result : α → List Action → String → Prop}
    (hlowered : known.options.form = .commonJs → Lower.Does known whereLowered result)
    (hkept : known.options.form = .preserved → Lower.Does known whereKept result) :
    Lower.Does known (do if ← Lower.isCommonJs then whereLowered else whereKept) result := by
  cases hform : known.options.form with
  | commonJs => exact ifCommonJs_does hform (hlowered hform)
  | preserved =>
    have hgives : Lower.Gives known Lower.isCommonJs fun b => b = false := by
      intro s
      refine ⟨rfl, rfl, ?_⟩
      show (known.options.form == .commonJs) = false
      rw [hform]
      rfl
    refine .after hgives ?_
    rintro _ rfl
    exact hkept hform

end SingleFile.Script
