/-
  SingleFile.Proofs.Script.LoweringEffects — WHAT STEPS OF A LOWERING DO
  ──────────────────────────────────────────────────────────────────────
  Support layer: a step of a lowering records actions, puts a text off, and
  gives something.  `Lower.Does` says all three of a step; `Lower.Gives` is
  about the steps that only build a text.

  Contents:
    * the texts that steps build, as functions of the script;
    * `Lower.Gives.bind`, `Lower.Gives.mapM_eq`, `Lower.Does.after`,
      `Lower.Does.bind` — how both pass through a lowering;
    * one lemma for each step that items are lowered with.
-/
import SingleFile.Script.Rewrite

namespace SingleFile.Script

open SingleFile.Text

/-! ## §1. Texts -/

/-- The property of an object that a name stands for. -/
def propertyText (source : List Char) (object : String) : ModuleName → String
  | .word name => object ++ "." ++ name.text
  | .quoted _ span => object ++ "[" ++ textAt source span ++ "]"

/-- The default of a module. -/
def defaultText (options : RewriteOptions) (module : String) : String :=
  match options.interop with
  | .helper => Helper.interopDefault.call options.helpers module ++ ".default"
  | .none => module ++ ".default"

/-- The call that reads a module. -/
def requireCall (source : List Char) (span : Span) : String :=
  "require(" ++ textAt source span ++ ")"

/-- A name that a lowering gives to a module. -/
def temporaryName (count : Nat) : String := "__sfc_module" ++ Nat.repr count

/-- What an imported name stands for. -/
def importedText (options : RewriteOptions) (source : List Char) (module : String) :
    ImportItem → String
  | .defaultItem _ => defaultText options module
  | .wholeModule _ => module
  | .named binding none _ => propertyText source module (.word binding)
  | .named _ (some name) _ =>
    if name.is "default" then defaultText options module else propertyText source module name

/-! ## §2. Steps -/

/-- What a step does: the actions that it records in order, the text that it puts off, and what it
gives. -/
def Lower.Does {α : Type} (known : Module) (step : Lower α)
    (result : α → List Action → String → Prop) : Prop :=
  ∀ s, ∃ lists deferred, ((step.run known).run s).2.actions = lists ++ s.actions ∧
    ((step.run known).run s).2.deferred = s.deferred ++ deferred ∧
    result ((step.run known).run s).1 lists.reverse.flatten deferred

/-- What a step gives that neither records nor puts off anything. -/
def Lower.Gives {α : Type} (known : Module) (step : Lower α) (result : α → Prop) : Prop :=
  ∀ s, ((step.run known).run s).2.actions = s.actions ∧
    ((step.run known).run s).2.deferred = s.deferred ∧ result ((step.run known).run s).1

namespace Lower.Gives

variable {α β : Type} {known : Module}

theorem pure {result : α → Prop} {a : α} (h : result a) :
    Lower.Gives known (Pure.pure a) result :=
  fun _ => ⟨rfl, rfl, h⟩

theorem bind {step : Lower α} {next : α → Lower β} {middle : α → Prop} {result : β → Prop}
    (h : Lower.Gives known step middle)
    (h' : ∀ a, middle a → Lower.Gives known (next a) result) :
    Lower.Gives known (step >>= next) result := by
  intro s
  obtain ⟨hactions, hdeferred, hmiddle⟩ := h s
  obtain ⟨hactions', hdeferred', hresult⟩ := h' _ hmiddle ((step.run known).run s).2
  exact ⟨hactions'.trans hactions, hdeferred'.trans hdeferred, hresult⟩

theorem bindRead {next : Module → Lower β} {result : β → Prop}
    (h : Lower.Gives known (next known) result) :
    Lower.Gives known (MonadReader.read >>= next) result :=
  fun s => h s

theorem modify {change : Lowering → Lowering}
    (h : ∀ s, (change s).actions = s.actions ∧ (change s).deferred = s.deferred) :
    Lower.Gives known (MonadState.modifyGet fun s => (PUnit.unit, change s)) fun _ => True :=
  fun s => ⟨(h s).1, (h s).2, trivial⟩

theorem mono {step : Lower α} {result weaker : α → Prop} (h : Lower.Gives known step result)
    (hle : ∀ a, result a → weaker a) : Lower.Gives known step weaker :=
  fun s => ⟨(h s).1, (h s).2.1, hle _ (h s).2.2⟩

/-- A map whose steps give what a function gives. -/
theorem mapM_eq (value : β → α) {items : List β} {step : β → Lower α}
    (h : ∀ x ∈ items, Lower.Gives known (step x) fun a => a = value x) :
    Lower.Gives known (items.mapM step) fun found => found = items.map value := by
  induction items with
  | nil => exact .pure rfl
  | cons x rest ih =>
    rw [List.mapM_cons]
    refine .bind (h x (List.mem_cons_self ..)) ?_
    rintro _ rfl
    refine .bind (ih fun y hy => h y (List.mem_cons_of_mem _ hy)) ?_
    rintro _ rfl
    exact .pure rfl

end Lower.Gives

namespace Lower.Does

variable {α β : Type} {known : Module}

theorem record (actions : List Action) :
    Lower.Does known (Lower.record actions) fun _ xs d => xs = actions ∧ d = "" :=
  fun _ => ⟨[actions], "", rfl, (String.append_empty).symm, List.append_nil _, rfl⟩

theorem eraseTypes (n : Node) :
    Lower.Does known (Lower.eraseTypes n) fun _ xs d => xs = erase known.source n ∧ d = "" :=
  fun _ => ⟨[erase known.source n], "", rfl, (String.append_empty).symm, List.append_nil _, rfl⟩

/-- A step that only gives something comes first. -/
theorem after {step : Lower α} {next : α → Lower β} {middle : α → Prop}
    {result : β → List Action → String → Prop} (h : Lower.Gives known step middle)
    (h' : ∀ a, middle a → Lower.Does known (next a) result) :
    Lower.Does known (step >>= next) result := by
  intro s
  obtain ⟨hactions, hdeferred, hmiddle⟩ := h s
  obtain ⟨lists, deferred, hlists, htext, hresult⟩ := h' _ hmiddle ((step.run known).run s).2
  exact ⟨lists, deferred, hlists.trans (by rw [hactions]), htext.trans (by rw [hdeferred]),
    hresult⟩

theorem bindRead {next : Module → Lower β} {result : β → List Action → String → Prop}
    (h : Lower.Does known (next known) result) :
    Lower.Does known (MonadReader.read >>= next) result :=
  fun s => h s

/-- What two steps do is put together. -/
theorem bind {step : Lower α} {next : α → Lower β} {first : α → List Action → String → Prop}
    {second : β → List Action → String → Prop} (h : Lower.Does known step first)
    (h' : ∀ a, Lower.Does known (next a) second) :
    Lower.Does known (step >>= next) fun b zs d => ∃ a xs ys d₁ d₂, first a xs d₁ ∧
      second b ys d₂ ∧ zs = xs ++ ys ∧ d = d₁ ++ d₂ := by
  intro s
  obtain ⟨lists₁, d₁, hlists₁, htext₁, hfirst⟩ := h s
  obtain ⟨lists₂, d₂, hlists₂, htext₂, hsecond⟩ :=
    h' ((step.run known).run s).1 ((step.run known).run s).2
  refine ⟨lists₂ ++ lists₁, d₁ ++ d₂, ?_, ?_, _, _, _, d₁, d₂, hfirst, hsecond, ?_, rfl⟩
  · exact hlists₂.trans (by rw [hlists₁, List.append_assoc])
  · exact htext₂.trans (by rw [htext₁, String.append_assoc])
  · rw [List.reverse_append, List.flatten_append]

theorem mono {step : Lower α} {result weaker : α → List Action → String → Prop}
    (h : Lower.Does known step result) (hle : ∀ a xs d, result a xs d → weaker a xs d) :
    Lower.Does known step weaker := by
  intro s
  obtain ⟨lists, deferred, hlists, htext, hresult⟩ := h s
  exact ⟨lists, deferred, hlists, htext, hle _ _ _ hresult⟩

/-- A look at the text comes in front of what the next step does. -/
theorem look (offset : Nat) {next : Lower β} {result : β → List Action → String → Prop}
    (h : Lower.Does known next fun b ys d => result b (.look offset :: ys) d) :
    Lower.Does known (Lower.look offset >>= fun _ => next) result := by
  refine ((record [.look offset]).bind fun _ => h).mono ?_
  rintro b _ _ ⟨_, _, ys, _, d, ⟨rfl, rfl⟩, hresult, rfl, rfl⟩
  rwa [String.empty_append]

end Lower.Does

/-! ## §3. Steps that items are lowered with -/

variable {known : Module}

theorem text_gives (span : Span) :
    Lower.Gives known (Lower.text span) fun t => t = textAt known.source span :=
  fun _ => ⟨rfl, rfl, rfl⟩

theorem markExports_gives : Lower.Gives known Lower.markExports fun _ => True :=
  .modify fun _ => ⟨rfl, rfl⟩

theorem temporary_gives :
    Lower.Gives known Lower.temporary fun name => ∃ count, name = temporaryName count :=
  fun s => ⟨rfl, rfl, s.temporaries + 1, rfl⟩

theorem callHelper_gives (h : Helper) (arguments : String) :
    Lower.Gives known (Lower.callHelper h arguments)
      fun t => t = h.call known.options.helpers arguments := by
  unfold Lower.callHelper
  refine .bindRead ?_
  dsimp only
  split
  · refine .bind (.modify fun s => ?_) fun _ _ => .pure rfl
    split <;> exact ⟨rfl, rfl⟩
  · exact .pure rfl

theorem defaultOf_gives (module : String) :
    Lower.Gives known (Lower.defaultOf module) fun t => t = defaultText known.options module := by
  unfold Lower.defaultOf defaultText
  refine .bindRead ?_
  cases known.options.interop with
  | helper =>
    refine .bind (callHelper_gives _ _) ?_
    rintro _ rfl
    exact .pure rfl
  | none => exact .pure rfl

theorem property_gives (object : String) (name : ModuleName) :
    Lower.Gives known (Lower.property object name)
      fun t => t = propertyText known.source object name := by
  cases name with
  | word name => exact .pure rfl
  | quoted value span =>
    refine .bind (text_gives span) ?_
    rintro _ rfl
    exact .pure rfl

theorem isCommonJs_gives (hform : known.options.form = .commonJs) :
    Lower.Gives known Lower.isCommonJs fun b => b = true := by
  intro s
  refine ⟨rfl, rfl, ?_⟩
  show (known.options.form == .commonJs) = true
  rw [hform]
  rfl

/-- Where imports and exports are lowered, a step does what it does there. -/
theorem ifCommonJs_does {α : Type} (hform : known.options.form = .commonJs)
    {whereLowered whereKept : Lower α} {result : α → List Action → String → Prop}
    (h : Lower.Does known whereLowered result) :
    Lower.Does known (do if ← Lower.isCommonJs then whereLowered else whereKept) result := by
  refine .after (isCommonJs_gives hform) ?_
  rintro _ rfl
  exact h

/-- A text is put off. -/
theorem putOff_does (text : String) :
    Lower.Does known (modify fun s => { s with deferred := s.deferred ++ text })
      fun _ xs d => xs = [] ∧ d = text :=
  fun _ => ⟨[], text, rfl, rfl, rfl, rfl⟩

/-- Actions are recorded, and the types of a tree are taken out. -/
theorem recordThenErase_does (actions : List Action) (n : Node) :
    Lower.Does known (do Lower.record actions; Lower.eraseTypes n)
      fun _ xs d => xs = actions ++ erase known.source n ∧ d = "" := by
  refine (Lower.Does.bind (.record actions) fun _ => .eraseTypes n).mono ?_
  rintro _ _ _ ⟨_, _, _, _, _, ⟨rfl, rfl⟩, ⟨rfl, rfl⟩, rfl, rfl⟩
  exact ⟨rfl, rfl⟩

theorem importValue_gives (module : String) (item : ImportItem) :
    Lower.Gives known (importValue module item)
      fun t => t = importedText known.options known.source module item := by
  cases item with
  | defaultItem binding => exact defaultOf_gives module
  | wholeModule binding => exact .pure rfl
  | named binding imported typeOnly =>
    cases imported with
    | none => exact property_gives module (.word binding)
    | some name =>
      unfold importValue importedText
      dsimp only
      split
      · exact defaultOf_gives module
      · exact property_gives module name

end SingleFile.Script
