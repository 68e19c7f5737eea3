/-
  SingleFile.Proofs.Script.LoweringSteps — STEPS OF A LOWERING
  ────────────────────────────────────────────────────────────
  A step of a lowering records actions and gives a result.  `Lower.Records`
  says what every recorded action is like and what the result is like; it
  passes through sequences, maps and loops.  The steps that build a text
  record nothing, and the text copies each part of the script at most once.

  Main results:
    * `Lower.Records.bind`, `Lower.Records.forIn` — how the property passes
      through a lowering.
    * `requireText_records`, `importText_records` — an import copies each text
      once.
-/
import SingleFile.Proofs.Script.CopiedLines

namespace SingleFile.Script

open SingleFile.Text

/-! ## §1. Steps of a lowering -/

/-- Whether all that has been decided so far is allowed; where imports and exports stay, nothing
is put off and no helper is asked for. -/
def Lowering.Sound (known : Module) (allowed : Action → Prop) (s : Lowering) : Prop :=
  (∀ l ∈ s.actions, ∀ a ∈ l, allowed a) ∧
    (known.options.form = .commonJs ∨ (s.deferred = "" ∧ s.helpers = []))

/-- A step that records only allowed actions, with what its result is like. -/
def Lower.Records {α : Type} (known : Module) (allowed : Action → Prop) (step : Lower α)
    (result : α → Prop) : Prop :=
  ∀ s : Lowering, s.Sound known allowed →
    result ((step.run known).run s).1 ∧ ((step.run known).run s).2.Sound known allowed

namespace Lower.Records

variable {α β : Type} {known : Module} {allowed : Action → Prop}

theorem pure {result : α → Prop} {a : α} (h : result a) :
    Lower.Records known allowed (Pure.pure a) result :=
  fun _ hs => ⟨h, hs⟩

theorem bind {step : Lower α} {next : α → Lower β} {middle : α → Prop} {result : β → Prop}
    (h : Lower.Records known allowed step middle)
    (h' : ∀ a, middle a → Lower.Records known allowed (next a) result) :
    Lower.Records known allowed (step >>= next) result := by
  intro s hs
  obtain ⟨hmiddle, hsound⟩ := h s hs
  exact h' _ hmiddle ((step.run known).run s).2 hsound

/-- What is known about the module is read without recording anything. -/
theorem bindRead {next : Module → Lower β} {result : β → Prop}
    (h : Lower.Records known allowed (next known) result) :
    Lower.Records known allowed (MonadReader.read >>= next) result :=
  fun s hs => h s hs

/-- A change that neither records nor puts off anything. -/
theorem modify {change : Lowering → Lowering} (hactions : ∀ s, (change s).actions = s.actions)
    (hrest : ∀ s, (change s).deferred = s.deferred ∧ (change s).helpers = s.helpers) :
    Lower.Records known allowed (MonadState.modifyGet fun s => (PUnit.unit, change s))
      fun _ => True := by
  intro s hs
  refine ⟨trivial, ?_, ?_⟩
  · show ∀ l ∈ (change s).actions, _
    rw [hactions s]
    exact hs.1
  · show _ ∨ (change s).deferred = "" ∧ (change s).helpers = []
    rw [(hrest s).1, (hrest s).2]
    exact hs.2

/-- A change that records nothing, where exports are lowered. -/
theorem modify_of_commonJs (hform : known.options.form = .commonJs)
    {change : Lowering → Lowering} (hactions : ∀ s, (change s).actions = s.actions) :
    Lower.Records known allowed (MonadState.modifyGet fun s => (PUnit.unit, change s))
      fun _ => True := by
  intro s hs
  refine ⟨trivial, ?_, Or.inl hform⟩
  show ∀ l ∈ (change s).actions, _
  rw [hactions s]
  exact hs.1

theorem record {actions : List Action} (h : ∀ a ∈ actions, allowed a) :
    Lower.Records known allowed (Lower.record actions) fun _ => True := by
  intro s hs
  refine ⟨trivial, fun l hl => ?_, hs.2⟩
  rcases List.mem_cons.mp hl with rfl | hl
  · exact h
  · exact hs.1 l hl

theorem mapM (result : β → α → Prop) {items : List β} {step : β → Lower α}
    (h : ∀ x ∈ items, Lower.Records known allowed (step x) (result x)) :
    Lower.Records known allowed (items.mapM step) fun found =>
      List.Forall₂ result items found := by
  induction items with
  | nil => exact .pure List.Forall₂.nil
  | cons x rest ih =>
    rw [List.mapM_cons]
    refine .bind (h x (List.mem_cons_self ..)) fun a ha => ?_
    refine .bind (ih fun y hy => h y (List.mem_cons_of_mem _ hy)) fun as has => ?_
    exact .pure (List.Forall₂.cons ha has)

/-- A loop that never ends early keeps what each round does, on the items still to come. -/
theorem forIn {σ : Type} (result : List β → σ → Prop) {items : List β} {start : σ}
    {step : β → σ → Lower (ForInStep σ)} (hstart : result items start)
    (hstep : ∀ x rest s, x ∈ items → result (x :: rest) s →
      Lower.Records known allowed (step x s) fun r => ∃ next, r = .yield next ∧ result rest next) :
    Lower.Records known allowed (ForIn.forIn items start step) (result []) := by
  induction items generalizing start with
  | nil => exact .pure hstart
  | cons x rest ih =>
    rw [List.forIn_cons]
    refine .bind (hstep x rest start (List.mem_cons_self ..) hstart) ?_
    rintro r ⟨next, rfl, hnext⟩
    exact ih hnext fun y more s hy => hstep y more s (List.mem_cons_of_mem _ hy)

theorem mono {step : Lower α} {result weaker : α → Prop}
    (h : Lower.Records known allowed step result) (hle : ∀ a, result a → weaker a) :
    Lower.Records known allowed step weaker :=
  fun s hs => ⟨hle _ (h s hs).1, (h s hs).2⟩

end Lower.Records

variable {known : Module} {allowed : Action → Prop}

theorem text_records (span : Span) :
    Lower.Records known allowed (Lower.text span) fun t => t = textAt known.source span :=
  fun _ hs => ⟨rfl, hs⟩

theorem isCommonJs_records :
    Lower.Records known allowed Lower.isCommonJs fun b => b = (known.options.form == .commonJs) :=
  fun _ hs => ⟨rfl, hs⟩

/-- A step that does one thing where imports and exports are lowered and another where they stay. -/
theorem ifCommonJs_records {α : Type} {whereLowered whereKept : Lower α} {result : α → Prop}
    (h : known.options.form = .commonJs → Lower.Records known allowed whereLowered result)
    (h' : Lower.Records known allowed whereKept result) :
    Lower.Records known allowed
      (do if ← Lower.isCommonJs then whereLowered else whereKept) result := by
  refine .bind isCommonJs_records fun lowers hlowers => ?_
  split
  · next hcommonJs => exact h (beq_iff_eq.mp (hlowers.symm.trans hcommonJs))
  · exact h'

theorem temporary_records :
    Lower.Records known allowed Lower.temporary fun t => lineFeeds t = 0 := by
  intro s hs
  refine ⟨?_, hs⟩
  show lineFeeds ("__sfc_module" ++ Nat.repr (s.temporaries + 1)) = 0
  rw [lineFeeds_append, lineFeeds_repr]
  rfl

theorem callHelper_records (hform : known.options.form = .commonJs) (h : Helper)
    (arguments : String) :
    Lower.Records known allowed (Lower.callHelper h arguments)
      fun t => lineFeeds t = lineFeeds arguments := by
  have htext := h.lineFeeds_call known.options.helpers arguments
  unfold Lower.callHelper
  refine .bindRead ?_
  dsimp only
  split
  · refine .bind (.modify_of_commonJs hform fun s => ?_) fun _ _ => .pure htext
    split <;> rfl
  · exact .pure htext

theorem defaultOf_records (hform : known.options.form = .commonJs) (module : String) :
    Lower.Records known allowed (Lower.defaultOf module) fun t =>
      lineFeeds t = lineFeeds module := by
  unfold Lower.defaultOf
  refine .bindRead ?_
  split
  · refine .bind (callHelper_records hform _ _) fun t ht => .pure ?_
    rw [lineFeeds_append, ht]
    rfl
  · refine .pure ?_
    rw [lineFeeds_append]
    rfl

/-! ## §2. Names in lists -/

/-- Whether a name that is written as a word is a single line. -/
def ModuleName.IsPlain : ModuleName → Prop
  | .word name => lineFeeds name.text = 0
  | .quoted _ _ => True

theorem property_records (object : String) (name : ModuleName) :
    Lower.Records known allowed (Lower.property object name) fun t =>
      name.IsPlain → lineFeeds t ≤ lineFeeds object + feedsAt known.source [name.span] := by
  cases name with
  | word name =>
    refine .pure fun hplain => ?_
    rw [lineFeeds_append, lineFeeds_append, show lineFeeds name.text = 0 from hplain]
    exact Nat.le_add_right ..
  | quoted value span =>
    refine .bind (text_records span) fun t ht => .pure fun _ => ?_
    rw [feedsAt_singleton, lineFeeds_append, lineFeeds_append, lineFeeds_append, ht]
    show lineFeeds object + 0 + _ + 0 ≤ _
    exact Nat.le_refl _

/-! ## §3. Imports -/

/-- Where an import item spells the name of what it imports, if that is not its own name. -/
def ImportItem.copied : ImportItem → List Span
  | .named _ (some name) _ => [name.span]
  | _ => []

/-- Whether the names of an import item are single lines where they are words. -/
def ImportItem.IsPlain (item : ImportItem) : Prop := ∀ name ∈ item.words, lineFeeds name = 0

theorem ImportItem.IsPlain.binding {item : ImportItem} (h : item.IsPlain) :
    lineFeeds item.binding.text = 0 := by
  refine h _ ?_
  unfold ImportItem.words
  split <;> exact List.mem_cons_self ..

theorem ImportItem.IsPlain.imported {binding : Name} {imported : ModuleName} {typeOnly : Bool}
    (h : (ImportItem.named binding (some imported) typeOnly).IsPlain) : imported.IsPlain := by
  cases imported with
  | word name => exact h _ (List.mem_cons_of_mem _ (List.mem_cons_self ..))
  | quoted value span => trivial

theorem importValue_records (hform : known.options.form = .commonJs) (module : String)
    (item : ImportItem) :
    Lower.Records known allowed (importValue module item) fun t =>
      item.IsPlain → lineFeeds t ≤ lineFeeds module + feedsAt known.source item.copied := by
  cases item with
  | defaultItem binding =>
    exact (defaultOf_records hform module).mono fun t ht _ => by omega
  | wholeModule binding => exact .pure fun _ => Nat.le_add_right ..
  | named binding imported typeOnly =>
    cases imported with
    | none =>
      refine .pure fun hplain => ?_
      rw [lineFeeds_append, lineFeeds_append,
          show lineFeeds binding.text = 0 from hplain.binding]
      exact Nat.le_add_right ..
    | some name =>
      unfold importValue
      dsimp only
      split
      · exact (defaultOf_records hform module).mono fun t ht _ => by omega
      · exact (property_records module name).mono fun t ht hplain => ht hplain.imported

/-- **An import becomes statements that copy each text once.** -/
theorem requireText_records (hform : known.options.form = .commonJs) (items : List ImportItem)
    (required : String) :
    Lower.Records known allowed (requireText items required) fun t =>
      (∀ item ∈ items, item.IsPlain) →
        lineFeeds t ≤ feedsAt known.source (items.flatMap ImportItem.copied)
          + lineFeeds required := by
  have hrequired : lineFeeds ("require(" ++ required ++ ")") = lineFeeds required := by
    simp [lineFeeds]
  have hbind (module : String) (item : ImportItem) :
      Lower.Records known allowed
        (do return varText item.binding.text (← importValue module item)) fun t =>
          item.IsPlain → lineFeeds t ≤ lineFeeds module + feedsAt known.source item.copied := by
    refine .bind (importValue_records hform module item) fun value hvalue => .pure fun hplain => ?_
    have hle := hvalue hplain
    rw [lineFeeds_varText, hplain.binding]
    omega
  -- Several names, or a default: the module gets a variable of its own first.
  have hthrough : Lower.Records known allowed (do
      let module ← Lower.temporary
      let bindings ← items.mapM fun item => do
        return varText item.binding.text (← importValue module item)
      return varText module ("require(" ++ required ++ ")") ++ String.join bindings) fun t =>
        (∀ item ∈ items, item.IsPlain) →
          lineFeeds t ≤ feedsAt known.source (items.flatMap ImportItem.copied)
            + lineFeeds required := by
    refine .bind temporary_records fun module hmodule => ?_
    refine .bind (.mapM
      (fun item t => item.IsPlain → lineFeeds t ≤ feedsAt known.source item.copied)
      fun item hitem => ?_) fun bindings hbindings => .pure fun hplain => ?_
    · refine (hbind module item).mono fun t ht hplain => ?_
      have hle := ht hplain
      rwa [hmodule, Nat.zero_add] at hle
    · have hsum := sum_lineFeeds_le hbindings hplain
      rw [lineFeeds_append, lineFeeds_varText, lineFeeds_join, hmodule, hrequired]
      omega
  unfold requireText
  dsimp only
  split
  · refine .pure fun _ => ?_
    rw [lineFeeds_append, hrequired]
    exact Nat.le_add_left ..
  · next item =>
    split
    · refine (hbind _ item).mono fun t ht hplain => ?_
      have hle := ht (hplain item (List.mem_singleton.mpr rfl))
      rw [hrequired] at hle
      rw [List.flatMap_cons, List.flatMap_nil, List.append_nil]
      omega
    · exact hthrough
  · exact hthrough

theorem sum_lineFeeds_concat (texts : List String) (text : String) :
    ((texts ++ [text]).map lineFeeds).sum = (texts.map lineFeeds).sum + lineFeeds text := by
  rw [List.map_append, List.sum_append, List.map_singleton, List.sum_singleton]

theorem lineFeeds_commaSeparated (texts : List String) :
    lineFeeds (", ".intercalate texts) = (texts.map lineFeeds).sum :=
  lineFeeds_intercalate (by decide) texts

/-- The line feeds of an import statement are those of its clauses and of its source. -/
theorem lineFeeds_importClauses (clauses : List String) (required : String) :
    lineFeeds ("import " ++ ", ".intercalate clauses ++ " from " ++ required ++ ";")
      = (clauses.map lineFeeds).sum + lineFeeds required := by
  simp only [lineFeeds_append, lineFeeds_commaSeparated]
  show 0 + _ + 0 + _ + 0 = _
  omega

/-- The names in braces are one clause. -/
theorem lineFeeds_namedClause (named : List String) :
    lineFeeds ("\x7b " ++ ", ".intercalate named ++ " \x7d") = (named.map lineFeeds).sum := by
  rw [lineFeeds_append, lineFeeds_append, lineFeeds_commaSeparated]
  show 0 + _ + 0 = _
  omega

/-- Whether the clauses and the names in braces that are written so far, with what the rest of some
items copies, copy no more than all the items do. -/
def CopiesSoFar (known : Module) (items rest : List ImportItem) (clauses named : List String) :
    Prop :=
  (∀ item ∈ items, item.IsPlain) →
    (clauses.map lineFeeds).sum + (named.map lineFeeds).sum
        + feedsAt known.source (rest.flatMap ImportItem.copied)
      ≤ feedsAt known.source (items.flatMap ImportItem.copied)

section

variable {items rest : List ImportItem} {item : ImportItem} {clauses named : List String}
  {text : String}

/-- A clause that copies no more than its item is one more clause. -/
theorem CopiesSoFar.clause (h : CopiesSoFar known items (item :: rest) clauses named)
    (htext : (∀ item ∈ items, item.IsPlain) → lineFeeds text ≤ feedsAt known.source item.copied) :
    CopiesSoFar known items rest (clauses ++ [text]) named := by
  intro hplain
  have hle := h hplain
  have hone := htext hplain
  rw [List.flatMap_cons, feedsAt_append] at hle
  rw [sum_lineFeeds_concat]
  omega

/-- A name that copies no more than its item is one more name in braces. -/
theorem CopiesSoFar.name (h : CopiesSoFar known items (item :: rest) clauses named)
    (htext : (∀ item ∈ items, item.IsPlain) → lineFeeds text ≤ feedsAt known.source item.copied) :
    CopiesSoFar known items rest clauses (named ++ [text]) := by
  intro hplain
  have hle := h hplain
  have hone := htext hplain
  rw [List.flatMap_cons, feedsAt_append] at hle
  rw [sum_lineFeeds_concat]
  omega

end

/-- **An import statement for some of its names copies each text once.** -/
theorem importText_records (items : List ImportItem) (required : String) :
    Lower.Records known allowed (importText items required) fun t =>
      (∀ item ∈ items, item.IsPlain) →
        lineFeeds t ≤ feedsAt known.source (items.flatMap ImportItem.copied)
          + lineFeeds required := by
  unfold importText
  refine .bind (.forIn (fun rest found => CopiesSoFar known items rest found.1 found.2) ?_ ?_) ?_
  · exact fun _ => Nat.le_of_eq (Nat.zero_add _)
  · rintro item rest ⟨clauses, named⟩ hitem hfound
    have hname (hplain : ∀ item ∈ items, item.IsPlain) : lineFeeds item.binding.text = 0 :=
      (hplain item hitem).binding
    cases item with
    | defaultItem binding =>
      exact .pure ⟨_, rfl, hfound.clause fun hplain => Nat.le_of_eq (hname hplain)⟩
    | wholeModule binding =>
      refine .pure ⟨_, rfl, hfound.clause fun hplain => ?_⟩
      rw [lineFeeds_append, show lineFeeds binding.text = 0 from hname hplain]
      exact Nat.zero_le _
    | named binding imported typeOnly =>
      cases imported with
      | none => exact .pure ⟨_, rfl, hfound.name fun hplain => Nat.le_of_eq (hname hplain)⟩
      | some name =>
        refine .bind (text_records name.span) fun t ht =>
          .pure ⟨_, rfl, hfound.name fun hplain => ?_⟩
        have has : lineFeeds " as " = 0 := by decide
        rw [ImportItem.copied, feedsAt_singleton, ← ht, lineFeeds_append, lineFeeds_append, has,
          show lineFeeds binding.text = 0 from hname hplain]
        exact Nat.le_refl _
  · rintro ⟨clauses, named⟩ hfound
    -- Nothing is to come any more: the statement joins what has been written.
    have hall (hplain : ∀ item ∈ items, item.IsPlain) :
        (clauses.map lineFeeds).sum + (named.map lineFeeds).sum
          ≤ feedsAt known.source (items.flatMap ImportItem.copied) := hfound hplain
    dsimp only
    split
    · refine .pure fun hplain => ?_
      have hle := hall hplain
      rw [lineFeeds_importClauses, sum_lineFeeds_concat, lineFeeds_namedClause]
      omega
    · refine .pure fun hplain => ?_
      have hle := hall hplain
      rw [lineFeeds_importClauses]
      omega

end SingleFile.Script
