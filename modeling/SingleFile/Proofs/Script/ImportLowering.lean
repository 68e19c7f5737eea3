/-
  SingleFile.Proofs.Script.ImportLowering — LOWERED IMPORTS KEEP THEIR MEANING
  ────────────────────────────────────────────────────────────────────────────
  An import of several names reads the module once into a variable, and its
  parts off that variable.  An import of a single name reads it off the call
  that loads the module, which is shorter and does the same.

  The variable of the module has a name that no other variable of a lowering
  has, but a script may give that name to an import of its own.  Then the
  items behind it are read off the wrong value, so that this does not happen
  is a condition here (`ImportItem.reads`).

  Main results:
    * `runImports?_items` — what the statements for some items do.
    * `requireText_keepsMeaning` — what an import is lowered to does what it
      means, and so does the longer form of a short one.
    * `requireText_losesModule` — what happens without the condition.
-/
import SingleFile.Proofs.Script.Evaluation
import SingleFile.Proofs.Script.ImportActions
import SingleFile.Proofs.Script.ImportMeaning

namespace SingleFile.Script

open SingleFile.Text

/-! ## §1. Expressions and their texts -/

/-- The default of a module, as an expression. -/
def defaultExpression (options : RewriteOptions) (module : ImportExpression) : ImportExpression :=
  match options.interop, options.helpers with
  | .none, _ => .property module "default"
  | .helper, .shared => .property (.shared module) "default"
  | .helper, .inline => .property (.written module) "default"

/-- The part of a module that an item imports, as an expression. -/
def importedExpression (options : RewriteOptions) (module : ImportExpression) (item : ImportItem) :
    ImportExpression :=
  if item.isDefault then defaultExpression options module
  else match item with
    | .named binding imported _ => .property module ((importedName? binding imported).getD "")
    | _ => module

/-- The statement for an item. -/
def itemStatement (options : RewriteOptions) (module : ImportExpression) (item : ImportItem) :
    ImportStatement :=
  .assign item.binding.text (importedExpression options module item)

theorem isWord_default : IsWord "default" := by decide

/-- The property that a default is read from. -/
theorem SpellsImport.default {object : ImportExpression} {text : String}
    (h : SpellsImport object text) :
    SpellsImport (.property object "default") (text ++ ".default") := by
  have hspells := SpellsImport.word h isWord_default
  rwa [String.append_assoc] at hspells

theorem defaultText_spells {options : RewriteOptions} {module : ImportExpression} {text : String}
    (h : SpellsImport module text) :
    SpellsImport (defaultExpression options module) (defaultText options text) := by
  unfold defaultExpression defaultText
  cases options.interop with
  | none => exact h.default
  | helper =>
    cases options.helpers with
    | shared => exact (SpellsImport.shared h).default
    | inline => exact (SpellsImport.written h).default

theorem isDefault_named (binding : Name) (name : ModuleName) (typeOnly : Bool) :
    (ImportItem.named binding (some name) typeOnly).isDefault = name.is "default" := by
  cases name <;> rfl

/-- A local name is no reserved word, so it is not that of the default. -/
theorem isDefault_unnamed {source : List Char} {binding : Name} {typeOnly : Bool}
    (h : (ImportItem.named binding none typeOnly).IsWellFormed source) :
    (ImportItem.named binding none typeOnly).isDefault = false := by
  have hname : binding.text ≠ "default" := fun heq => h.binding.2 (heq ▸ by decide)
  simpa [ImportItem.isDefault, importedName?] using hname

/-- What an item is lowered to is spelled by its text. -/
theorem importedText_spells {options : RewriteOptions} {source : List Char}
    {module : ImportExpression} {text : String} {item : ImportItem}
    (h : SpellsImport module text) (hitem : item.IsWellFormed source) :
    SpellsImport (importedExpression options module item)
      (importedText options source text item) := by
  unfold importedExpression importedText
  cases item with
  | defaultItem binding => exact defaultText_spells h
  | wholeModule binding => exact h
  | named binding imported typeOnly =>
    cases imported with
    | none =>
      rw [isDefault_unnamed hitem]
      exact .word h hitem.binding.1
    | some name =>
      rw [isDefault_named]
      dsimp only
      split
      · exact defaultText_spells h
      · cases name with
        | word name => exact .word h (hitem.word _ _ _ rfl)
        | quoted value span =>
          obtain ⟨name, rfl, hname⟩ := hitem.quoted _ _ _ _ rfl
          exact .quoted h hname

/-- The name of the variable of a module. -/
theorem isName_temporaryName (count : Nat) : IsName (temporaryName count) := by
  have hdigits : ∀ c ∈ (Nat.repr count).toList, isIdContinue c = true := by
    intro c hc
    rw [Nat.repr_eq_ofList_toDigits, String.toList_ofList] at hc
    have hall : "0123456789".toList.all isIdContinue := by decide
    exact List.all_eq_true.mp hall c (mem_digits_of_isDigit (areDigits_toDigits count c hc))
  have htext : (temporaryName count).toList
      = '_' :: ("_sfc_module".toList ++ (Nat.repr count).toList) := by
    rw [temporaryName, String.toList_append]
    rfl
  refine ⟨⟨'_', _, htext, by decide, fun d hd => ?_⟩, fun hreserved => ?_⟩
  · rcases List.mem_append.mp hd with hd | hd
    · have hall : "_sfc_module".toList.all isIdContinue := by decide
      exact List.all_eq_true.mp hall d hd
    · exact hdigits d hd
  · -- No reserved word begins with an underscore.
    have hall : ∀ word ∈ reservedWords, word.toList.head? ≠ some '_' := by decide
    exact hall _ hreserved (by rw [htext]; rfl)

/-! ## §2. What expressions come to -/

section Runs

variable {Value World : Type} {r : Runtime Value World} {options : RewriteOptions}
  {scope : Scope Value} {module : ImportExpression} {item : ImportItem}

/-- The default that is read off what the helper gives. -/
theorem interop?_bind_get (m : Value) :
    ((r.interop? m).bind fun v => r.get v "default") = r.default? .helper m := by
  rw [Runtime.interop?, Runtime.default?, Option.bind_map]
  refine congrArg _ (funext fun marked => ?_)
  cases marked with
  | true => rfl
  | false => exact r.get_boxed m

/-- What the default comes to, if it is read off what the helper gives. -/
theorem run?_written_default (w : World) :
    (ImportExpression.property (.written module) "default").run? r scope w
      = (module.run? r scope w).bind fun (m, w) => (r.default? .helper m).map (·, w) := by
  rw [ImportExpression.run?, ImportExpression.run?, Option.bind_assoc]
  refine congrArg _ (funext fun (m, w) => ?_)
  dsimp only
  rw [← interop?_bind_get, Option.bind_map, Option.map_bind]
  rfl

/-- A call of the helper by its name does what the helper does where it is written out. -/
theorem run?_shared {f : Value} (hf : scope interopName = some f) (hinterop : IsInterop r f)
    (w : World) :
    (ImportExpression.shared module).run? r scope w
      = (ImportExpression.written module).run? r scope w := by
  rw [ImportExpression.run?, ImportExpression.run?, hf, Option.bind_some]
  exact congrArg _ (funext fun (m, w) => hinterop m w)

/-- What the default of a module comes to. -/
theorem run?_defaultExpression (w : World)
    (hhelper : options.interop = .helper → options.helpers = .shared →
      ∃ f, scope interopName = some f ∧ IsInterop r f) :
    (defaultExpression options module).run? r scope w
      = (module.run? r scope w).bind fun (m, w) => (r.default? options.interop m).map (·, w) := by
  unfold defaultExpression
  cases hinterop : options.interop with
  | none => rfl
  | helper =>
    cases hshared : options.helpers with
    | inline => exact run?_written_default w
    | shared =>
      obtain ⟨f, hf, hcall⟩ := hhelper hinterop hshared
      rw [ImportExpression.run?, run?_shared hf hcall]
      exact run?_written_default w

/-- What an item comes to. -/
theorem run?_importedExpression {source : List Char} (hitem : item.IsWellFormed source) (w : World)
    (hhelper : item.CallsShared options → ∃ f, scope interopName = some f ∧ IsInterop r f) :
    (importedExpression options module item).run? r scope w
      = (module.run? r scope w).bind fun (m, w) =>
        (r.imported? options.interop m item).map (·, w) := by
  unfold importedExpression
  cases hdefault : item.isDefault with
  | true =>
    rw [if_pos rfl, run?_defaultExpression w fun h h' => hhelper ⟨h, h', hdefault⟩]
    refine congrArg _ (funext fun (m, w) => ?_)
    cases item with
    | defaultItem binding => rfl
    | wholeModule binding => cases hdefault
    | named binding imported typeOnly =>
      have hname : importedName? binding imported = some "default" := beq_iff_eq.mp hdefault
      simp only [Runtime.imported?, hname, Option.bind_some, if_true]
  | false =>
    rw [if_neg Bool.false_ne_true]
    cases item with
    | defaultItem binding => cases hdefault
    | wholeModule binding =>
      simp only [Runtime.imported?, Option.map_some]
      exact (Option.bind_fun_some _).symm
    | named binding imported typeOnly =>
      obtain ⟨name, hname⟩ : ∃ name, importedName? binding imported = some name := by
        match imported with
        | none => exact ⟨_, rfl⟩
        | some (.word name) => exact ⟨_, rfl⟩
        | some (.quoted value span) =>
          obtain ⟨name, rfl, -⟩ := hitem.quoted _ _ _ _ rfl
          exact ⟨name, rfl⟩
      have hother : name ≠ "default" := by
        rintro rfl
        rw [ImportItem.isDefault, hname] at hdefault
        cases hdefault
      simp only [Runtime.imported?, hname, Option.getD_some, Option.bind_some, if_neg hother]
      rfl

/-! ## §3. What statements do -/

theorem Scope.bind_of_ne {name other : String} (h : other ≠ name) (v : Value) :
    scope.bind name v other = scope other := if_neg h

theorem bindings?_cons (interop : Interop) (m : Value) (item : ImportItem)
    (rest : List ImportItem) :
    r.bindings? interop m (item :: rest) = (r.imported? interop m item).bind fun v =>
      (r.bindings? interop m rest).map fun bindings => (item.binding.text, v) :: bindings := by
  rw [Runtime.bindings?, List.mapM_cons]
  cases r.imported? interop m item with
  | none => rfl
  | some v =>
    show ((r.bindings? interop m rest).bind fun bindings => some (_ :: bindings)) = _
    cases r.bindings? interop m rest with
    | none => rfl
    | some bindings => rfl

/-- The value of a variable depends on no other one. -/
theorem bindAll_congr {scope scope' : Scope Value} {name : String}
    (bindings : List (String × Value))
    (h : scope name = scope' name ∨ name ∈ bindings.map Prod.fst) :
    scope.bindAll bindings name = scope'.bindAll bindings name := by
  induction bindings generalizing scope scope' with
  | nil => exact h.resolve_right List.not_mem_nil
  | cons b rest ih =>
    refine ih ?_
    by_cases hb : name = b.1
    · exact .inl (by simp [Scope.bind, hb])
    · refine h.imp (fun h => by simp [Scope.bind, hb, h]) fun h => ?_
      exact (List.mem_cons.mp h).resolve_left hb

/-- Whether what is read for an item is in a scope, where the module is in a variable. -/
structure HasReads (r : Runtime Value World) (options : RewriteOptions) (module : String)
    (m : Value) (scope : Scope Value) (item : ImportItem) : Prop where
  module : scope module = some m
  helper : item.CallsShared options → ∃ f, scope interopName = some f ∧ IsInterop r f

/-- Only what is read for an item matters to it. -/
theorem HasReads.congr {module : String} {m : Value} {scope' : Scope Value}
    (h : HasReads r options module m scope item)
    (hsame : ∀ name ∈ item.reads options module, scope' name = scope name) :
    HasReads r options module m scope' item where
  module := (hsame module (List.mem_cons_self ..)).trans h.module
  helper hcalls := by
    obtain ⟨f, hf, hinterop⟩ := h.helper hcalls
    refine ⟨f, (hsame _ (List.mem_cons_of_mem _ ?_)).trans hf, hinterop⟩
    rw [if_pos hcalls]
    exact List.mem_singleton_self _

/-- What the statement for an item does. -/
theorem run?_itemStatement {source : List Char} {module : String} {m : Value}
    (hitem : item.IsWellFormed source) (h : HasReads r options module m scope item) (w : World) :
    (itemStatement options (.named module) item).run? r scope w
      = (r.imported? options.interop m item).map fun v =>
        (scope.bind item.binding.text v, w) := by
  rw [itemStatement, ImportStatement.run?, run?_importedExpression hitem w h.helper,
    ImportExpression.run?, h.module, Option.map_some, Option.bind_some, Option.map_map]
  rfl

/-- **What the statements for some items do**: each local name stands for what its item means, as
long as no variable that is read for an item has been given to one in front of it. -/
theorem runImports?_items {source : List Char} {module : String} {m : Value}
    {items : List ImportItem} (hitems : ∀ item ∈ items, item.IsWellFormed source)
    (hapart : items.Pairwise fun a b => a.binding.text ∉ b.reads options module)
    (hreads : ∀ item ∈ items, HasReads r options module m scope item) (w : World) :
    runImports? r (items.map (itemStatement options (.named module))) scope w
      = (r.bindings? options.interop m items).map fun bindings =>
        (scope.bindAll bindings, w) := by
  induction items generalizing scope with
  | nil => rfl
  | cons item rest ih =>
    obtain ⟨hitem, hrest⟩ := List.forall_mem_cons.mp hitems
    obtain ⟨hfirst, hapart⟩ := List.pairwise_cons.mp hapart
    obtain ⟨hread, hreads⟩ := List.forall_mem_cons.mp hreads
    rw [List.map_cons, runImports?, run?_itemStatement hitem hread, bindings?_cons]
    cases r.imported? options.interop m item with
    | none => rfl
    | some v =>
      -- What is read for the items to come is what it was.
      have hlater (b : ImportItem) (hb : b ∈ rest) :
          HasReads r options module m (scope.bind item.binding.text v) b :=
        (hreads b hb).congr fun name hname =>
          Scope.bind_of_ne (fun heq => hfirst b hb (by rwa [← heq])) v
      rw [Option.map_some, Option.bind_some, Option.bind_some, Option.map_map]
      exact ih hrest hapart hlater

/-! ## §4. Whole imports -/

/-- The statements that go through a variable for the module. -/
def longStatements (options : RewriteOptions) (module specifier : String)
    (items : List ImportItem) : List ImportStatement :=
  .assign module (.loaded specifier) :: items.map (itemStatement options (.named module))

variable {source : List Char} {items : List ImportItem} {loader : Value} {specifier : String}
  {temporary : String}

/-- The local names of some items are those that are bound. -/
theorem map_fst_of_bindings? {interop : Interop} {m : Value} {bindings : List (String × Value)}
    (h : r.bindings? interop m items = some bindings) :
    bindings.map Prod.fst = items.map (·.binding.text) := by
  induction items generalizing bindings with
  | nil =>
    obtain rfl := Option.some.inj h
    rfl
  | cons item rest ih =>
    rw [bindings?_cons] at h
    obtain ⟨v, -, h⟩ := Option.bind_eq_some_iff.mp h
    obtain ⟨others, hothers, rfl⟩ := Option.map_eq_some_iff.mp h
    rw [List.map_cons, List.map_cons, ih hothers]

/-- Statements that load the module, change no variable but that of the module, and then bind the
local names of the items. -/
theorem DoesImport.of_run {statements : List ImportStatement} (behindLoad : Value → Scope Value)
    (hload : ∀ m name, name ≠ temporary → behindLoad m name = scope name)
    (hrun : ∀ w, runImports? r statements scope w
      = (r.call loader (r.string specifier) w).bind fun (m, w) =>
        (r.bindings? options.interop m items).map fun bindings =>
          ((behindLoad m).bindAll bindings, w)) :
    DoesImport r options.interop items temporary loader specifier scope statements where
  fails w hnone := by
    rw [hrun]
    rw [Runtime.importAll?] at hnone
    cases hcall : r.call loader (r.string specifier) w with
    | none => rfl
    | some found =>
      rw [hcall, Option.bind_some] at hnone
      simpa using hnone
  binds w bindings w' hsome := by
    obtain ⟨⟨m, w⟩, hcall, hsome⟩ := Option.bind_eq_some_iff.mp hsome
    obtain ⟨found, hfound, heq⟩ := Option.map_eq_some_iff.mp hsome
    obtain ⟨rfl, rfl⟩ := Prod.mk.inj heq
    refine ⟨(behindLoad m).bindAll found, ?_, fun name hname => bindAll_congr found ?_⟩
    · rw [hrun, hcall, Option.bind_some]
      dsimp only
      rw [hfound, Option.map_some]
    · rw [map_fst_of_bindings? hfound]
      exact hname.imp (hload m name) id

/-- **The long form does what the import means.** -/
theorem longStatements_doImport (hitems : ∀ item ∈ items, item.IsWellFormed source)
    (hapart : items.Pairwise fun a b => a.binding.text ∉ b.reads options temporary)
    (hscope : Provides r options items loader scope) (htemporary : temporary ≠ interopName) :
    DoesImport r options.interop items temporary loader specifier scope
      (longStatements options temporary specifier items) := by
  refine .of_run (scope.bind temporary) (fun m name hname => Scope.bind_of_ne hname m) fun w => ?_
  rw [longStatements, runImports?, ImportStatement.run?, ImportExpression.run?, hscope.loads,
    Option.bind_some, Option.bind_map]
  refine congrArg _ (funext fun (m, w) => ?_)
  refine runImports?_items hitems hapart (fun item hitem => ⟨if_pos rfl, fun hcalls => ?_⟩) w
  obtain ⟨f, hf, hinterop⟩ := hscope.helps item hitem hcalls
  exact ⟨f, (Scope.bind_of_ne htemporary.symm m).trans hf, hinterop⟩

/-- An import without any items loads the module for its effects. -/
theorem effect_doesImport (hscope : Provides r options [] loader scope) :
    DoesImport r options.interop [] temporary loader specifier scope
      [.effect (.loaded specifier)] := by
  refine .of_run (fun _ => scope) (fun _ _ _ => rfl) fun w => ?_
  rw [runImports?, ImportStatement.run?, ImportExpression.run?, hscope.loads, Option.bind_some,
    Option.bind_map]
  rfl

/-- **The short form does what the import of a single item means.** -/
theorem shortStatement_doesImport (hitem : item.IsWellFormed source)
    (hscope : Provides r options [item] loader scope) :
    DoesImport r options.interop [item] temporary loader specifier scope
      [itemStatement options (.loaded specifier) item] := by
  refine .of_run (fun _ => scope) (fun _ _ _ => rfl) fun w => ?_
  rw [runImports?, itemStatement, ImportStatement.run?,
    run?_importedExpression hitem w (hscope.helps item (List.mem_singleton_self item)),
    ImportExpression.run?, hscope.loads, Option.bind_some, Option.map_bind, Option.bind_assoc]
  refine congrArg _ (funext fun (m, w) => ?_)
  show ((Option.map _ (Option.map _ (r.imported? options.interop m item))).bind _)
    = Option.map _ (r.bindings? options.interop m [item])
  rw [bindings?_cons]
  cases r.imported? options.interop m item with
  | none => rfl
  | some v => rfl

end Runs

/-! ## §5. The texts -/

section Texts

variable {known : Module} {source : List Char} {options : RewriteOptions} {items : List ImportItem}
  {span : Span} {specifier : String}

/-- The text of the statements that go through a variable for the module. -/
def longText (options : RewriteOptions) (source : List Char) (span : Span) (module : String)
    (items : List ImportItem) : String :=
  varText module (requireCall source span)
    ++ String.join (items.map fun item => varText item.binding.text
      (importedText options source module item))

/-- The statements for some items are spelled by their texts. -/
theorem itemStatements_spelled {module : ImportExpression} {text : String}
    (hmodule : SpellsImport module text) (hitems : ∀ item ∈ items, item.IsWellFormed source) :
    SpellsStatements (items.map (itemStatement options module))
      (String.join (items.map fun item => varText item.binding.text
        (importedText options source text item))) := by
  induction items with
  | nil => exact .nil
  | cons item rest ih =>
    obtain ⟨hitem, hrest⟩ := List.forall_mem_cons.mp hitems
    rw [List.map_cons, List.map_cons, String.join_cons]
    exact .assign hitem.binding (importedText_spells hmodule hitem) (ih hrest)

theorem longStatements_spelled (count : Nat)
    (hsource : ReadsString (textAt source span).toList specifier)
    (hitems : ∀ item ∈ items, item.IsWellFormed source) :
    SpellsStatements (longStatements options (temporaryName count) specifier items)
      (longText options source span (temporaryName count) items) :=
  .assign (isName_temporaryName count) (.loaded hsource)
    (itemStatements_spelled (.named (isName_temporaryName count)) hitems)

/-- **What an import is lowered to**, given the name of the variable for the module. -/
def requiredText (options : RewriteOptions) (source : List Char) (span : Span) (module : String)
    (items : List ImportItem) : String :=
  match items with
  | [] => requireCall source span ++ ";"
  | [item] =>
    if isShort item then
      varText item.binding.text (importedText options source (requireCall source span) item)
    else longText options source span module [item]
  | _ => longText options source span module items

/-- The next name for a variable of a module. -/
theorem run_temporary {α : Type} (next : String → Lower α) (s : Lowering) :
    ((Lower.temporary >>= next).run known).run s
      = ((next (temporaryName (s.temporaries + 1))).run known).run
        { s with temporaries := s.temporaries + 1 } := rfl

theorem bindItem_gives (module : String) (item : ImportItem) :
    Lower.Gives known (do return varText item.binding.text (← importValue module item))
      fun t => t = varText item.binding.text
        (importedText known.options known.source module item) := by
  refine .bind (importValue_gives module item) ?_
  rintro _ rfl
  exact .pure rfl

theorem bindItems_gives (module : String) (span : Span) (items : List ImportItem) :
    Lower.Gives known (do
      let bindings ← items.mapM fun item => do
        return varText item.binding.text (← importValue module item)
      return varText module ("require(" ++ textAt known.source span ++ ")")
        ++ String.join bindings)
      fun t => t = longText known.options known.source span module items := by
  refine .bind (.mapM_eq _ fun item _ => bindItem_gives module item) ?_
  rintro _ rfl
  exact .pure rfl

theorem requireText_text (span : Span) (items : List ImportItem) (s : Lowering) :
    (((requireText items (textAt known.source span)).run known).run s).1
      = requiredText known.options known.source span (temporaryName (s.temporaries + 1))
        items := by
  unfold requireText requiredText
  dsimp only
  match items with
  | [] => rfl
  | [item] =>
    dsimp only
    split
    · exact (bindItem_gives _ item s).2.2
    · rw [run_temporary]
      exact (bindItems_gives _ span [item] _).2.2
  | first :: second :: rest =>
    dsimp only
    rw [run_temporary]
    exact (bindItems_gives _ span (first :: second :: rest) _).2.2

/-! ## §6. The helper -/

/-- Whether a step forgets no helper, and takes note of one where it is needed. -/
def Lower.Notes {α : Type} (known : Module) (step : Lower α) (h : Helper) (needed : Prop) : Prop :=
  ∀ s, h ∈ s.helpers ∨ needed → h ∈ ((step.run known).run s).2.helpers

namespace Lower.Notes

variable {α β : Type} {h : Helper} {needed needed' : Prop}

/-- A step that leaves the helpers alone. -/
theorem same {step : Lower α} (hsame : ∀ s, ((step.run known).run s).2.helpers = s.helpers) :
    Lower.Notes known step h False :=
  fun s hmem => by rw [hsame s]; exact hmem.resolve_right id

theorem mono {step : Lower α} (hstep : Lower.Notes known step h needed)
    (himp : needed' → needed) : Lower.Notes known step h needed' :=
  fun s hmem => hstep s (hmem.imp_right himp)

theorem bind {step : Lower α} {next : α → Lower β} (hstep : Lower.Notes known step h needed)
    (hnext : ∀ a, Lower.Notes known (next a) h needed') :
    Lower.Notes known (step >>= next) h (needed ∨ needed') := by
  rintro s (hmem | hneeded | hneeded)
  · exact hnext _ _ (.inl (hstep s (.inl hmem)))
  · exact hnext _ _ (.inl (hstep s (.inr hneeded)))
  · exact hnext _ _ (.inr hneeded)

theorem bindRead {next : Module → Lower β} (hnext : Lower.Notes known (next known) h needed) :
    Lower.Notes known (MonadReader.read >>= next) h needed := hnext

/-- A text is built from what a step gives. -/
theorem map {step : Lower α} (f : α → β) (hstep : Lower.Notes known step h needed) :
    Lower.Notes known (do return f (← step)) h needed :=
  hstep

theorem mapM {items : List β} {step : β → Lower α} {needed : β → Prop}
    (hstep : ∀ x ∈ items, Lower.Notes known (step x) h (needed x)) :
    Lower.Notes known (items.mapM step) h (∃ x ∈ items, needed x) := by
  induction items with
  | nil => exact (same fun _ => rfl).mono (by simp)
  | cons x rest ih =>
    obtain ⟨hx, hrest⟩ := List.forall_mem_cons.mp hstep
    rw [List.mapM_cons]
    refine ((hx.bind fun _ => (ih hrest).map _)).mono ?_
    rintro ⟨y, hy, hneeded⟩
    rcases List.mem_cons.mp hy with rfl | hy
    · exact .inl hneeded
    · exact .inr ⟨y, hy, hneeded⟩

end Lower.Notes

theorem callHelper_notes (h : Helper) (arguments : String) :
    Lower.Notes known (Lower.callHelper h arguments) h (known.options.helpers = .shared) := by
  unfold Lower.callHelper
  refine .bindRead fun s hmem => ?_
  dsimp only
  by_cases hshared : known.options.helpers = .shared
  · rw [if_pos (by rw [hshared]; rfl)]
    show h ∈ (if s.helpers.contains h then s else { s with helpers := s.helpers ++ [h] }).helpers
    split
    · next hcontains => exact List.contains_iff_mem.mp hcontains
    · exact List.mem_append_right _ (List.mem_singleton_self h)
  · rw [if_neg (by simpa using hshared)]
    exact hmem.resolve_right hshared

theorem defaultOf_notes (module : String) :
    Lower.Notes known (Lower.defaultOf module) .interopDefault
      (known.options.interop = .helper ∧ known.options.helpers = .shared) := by
  unfold Lower.defaultOf
  refine .bindRead ?_
  cases known.options.interop with
  | none => exact (Lower.Notes.same fun _ => rfl).mono fun h => Interop.noConfusion h.1
  | helper => exact ((callHelper_notes _ _).map _).mono And.right

theorem property_notes (object : String) (name : ModuleName) :
    Lower.Notes known (Lower.property object name) .interopDefault False := by
  cases name <;> exact .same fun _ => rfl

theorem importValue_notes (module : String) {item : ImportItem}
    (hitem : item.IsWellFormed source) :
    Lower.Notes known (importValue module item) .interopDefault
      (item.CallsShared known.options) := by
  have hdefault : Lower.Notes known (Lower.defaultOf module) .interopDefault
      (item.CallsShared known.options) :=
    (defaultOf_notes module).mono fun h => ⟨h.1, h.2.1⟩
  cases item with
  | defaultItem binding => exact hdefault
  | wholeModule binding =>
    exact (Lower.Notes.same fun _ => rfl).mono fun h => Bool.noConfusion h.2.2
  | named binding imported typeOnly =>
    cases imported with
    | none =>
      exact (property_notes module (.word binding)).mono fun h =>
        Bool.noConfusion ((isDefault_unnamed hitem).symm.trans h.2.2)
    | some name =>
      unfold importValue
      dsimp only
      split
      · exact hdefault
      · next hname =>
        exact (property_notes module name).mono fun h =>
          hname ((isDefault_named binding name typeOnly).symm.trans h.2.2)

theorem bindItem_notes (module : String) {item : ImportItem} (hitem : item.IsWellFormed source) :
    Lower.Notes known (do return varText item.binding.text (← importValue module item))
      .interopDefault (item.CallsShared known.options) :=
  (importValue_notes module hitem).map _

/-- **The helper is declared** where an import calls it by its name. -/
theorem requireText_notes (text : String) (hitems : ∀ item ∈ items, item.IsWellFormed source) :
    Lower.Notes known (requireText items text) .interopDefault
      (∃ item ∈ items, item.CallsShared known.options) := by
  have hlong : Lower.Notes known (do
      let module ← Lower.temporary
      let bindings ← items.mapM fun item => do
        return varText item.binding.text (← importValue module item)
      return varText module ("require(" ++ text ++ ")") ++ String.join bindings)
      .interopDefault (∃ item ∈ items, item.CallsShared known.options) := by
    refine ((Lower.Notes.same fun _ => rfl).bind fun module => ?_).mono .inr
    exact (Lower.Notes.mapM fun item hitem => bindItem_notes module (hitems item hitem)).map _
  unfold requireText
  dsimp only
  match items with
  | [] => exact (Lower.Notes.same fun _ => rfl).mono (by simp)
  | [item] =>
    dsimp only
    split
    · refine (bindItem_notes _ (hitems item (List.mem_singleton_self item))).mono ?_
      rintro ⟨other, hother, hcalls⟩
      rwa [List.mem_singleton.mp hother] at hcalls
    · exact hlong
  | first :: second :: rest => exact hlong

/-! ## §7. Imports -/

theorem temporaryName_ne_interopName (count : Nat) : temporaryName count ≠ interopName := by
  intro h
  have htext := congrArg (fun t => t.toList[6]?) h
  rw [temporaryName, String.toList_append, List.getElem?_append_left (by decide)] at htext
  exact absurd htext (by decide)

/-- The long form of an import does what it means. -/
theorem longText_meansImport (count : Nat)
    (hsource : ReadsString (textAt source span).toList specifier)
    (hitems : ∀ item ∈ items, item.IsWellFormed source)
    (hapart : items.Pairwise fun a b => a.binding.text ∉ b.reads options (temporaryName count)) :
    MeansImport options items (temporaryName count) specifier
      (longText options source span (temporaryName count) items) :=
  ⟨_, longStatements_spelled count hsource hitems, fun _ _ _ _ _ hscope =>
    longStatements_doImport hitems hapart hscope (temporaryName_ne_interopName count)⟩

/-- What an import is lowered to does what it means. -/
theorem requiredText_meansImport (count : Nat)
    (hsource : ReadsString (textAt source span).toList specifier)
    (hitems : ∀ item ∈ items, item.IsWellFormed source)
    (hapart : items.Pairwise fun a b => a.binding.text ∉ b.reads options (temporaryName count)) :
    MeansImport options items (temporaryName count) specifier
      (requiredText options source span (temporaryName count) items) := by
  have hlong := longText_meansImport count hsource hitems hapart
  unfold requiredText
  match items with
  | [] =>
    have htext := SpellsStatements.effect (.loaded hsource) .nil
    rw [String.append_empty] at htext
    exact ⟨_, htext, fun _ _ _ _ _ hscope => effect_doesImport hscope⟩
  | [item] =>
    dsimp only
    split
    · have hitem := hitems item (List.mem_singleton_self item)
      have hvalue : SpellsImport (importedExpression options (.loaded specifier) item)
          (importedText options source (requireCall source span) item) :=
        importedText_spells (.loaded hsource) hitem
      have htext := SpellsStatements.assign hitem.binding hvalue .nil
      rw [String.append_empty] at htext
      exact ⟨_, htext, fun _ _ _ _ _ hscope => shortStatement_doesImport hitem hscope⟩
    · exact hlong
  | first :: second :: rest => exact hlong

/-- **Lowered imports keep their meaning**: the text that an import is lowered to binds its local
names to the parts of the module they stand for and loads the module once, as the long form of
every import does; the helper is declared if it is called by its name.  No item may be given the
name of a variable that is read for an item behind it. -/
theorem requireText_keepsMeaning (known : Module) (s : Lowering) (span : Span)
    (specifier : String) (items : List ImportItem)
    (hsource : ReadsString (textAt known.source span).toList specifier)
    (hitems : ∀ item ∈ items, item.IsWellFormed known.source)
    (hapart : items.Pairwise fun a b =>
      a.binding.text ∉ b.reads known.options (temporaryName (s.temporaries + 1))) :
    MeansImport known.options items (temporaryName (s.temporaries + 1)) specifier
        (((requireText items (textAt known.source span)).run known).run s).1 ∧
      MeansImport known.options items (temporaryName (s.temporaries + 1)) specifier
        (longText known.options known.source span (temporaryName (s.temporaries + 1)) items) ∧
      ((∃ item ∈ items, item.CallsShared known.options) → Helper.interopDefault ∈
        (((requireText items (textAt known.source span)).run known).run s).2.helpers) := by
  refine ⟨?_, longText_meansImport _ hsource hitems hapart, fun hcalls => ?_⟩
  · rw [requireText_text]
    exact requiredText_meansImport _ hsource hitems hapart
  · exact requireText_notes _ hitems s (.inr hcalls)

end Texts

/-! ## §8. Two imports -/

/-- The options of a lowering with a shared helper. -/
def sharedOptions : RewriteOptions := ⟨false, .commonJs, .shared, .helper, false⟩

/-- An import of a default and of a name. -/
def pairImport : List Char := "import d, \x7b a as b \x7d from \"m\"\n".toList

/-- The items of that import. -/
def pairItems : List ImportItem :=
  [.defaultItem ⟨"d", ⟨7, 8⟩⟩, .named ⟨"b", ⟨17, 18⟩⟩ (some (.word ⟨"a", ⟨12, 13⟩⟩)) false]

theorem pairItems_wellFormed : ∀ item ∈ pairItems, item.IsWellFormed pairImport := by
  intro item hitem
  simp only [pairItems, List.mem_cons, List.not_mem_nil, or_false] at hitem
  rcases hitem with rfl | rfl
  · exact ⟨by decide, by rintro _ _ _ ⟨⟩, by rintro _ _ _ _ ⟨⟩⟩
  · refine ⟨by decide, ?_, by rintro _ _ _ _ ⟨⟩⟩
    rintro _ _ _ ⟨⟩
    decide

theorem requireText_keepsMeaning_pair :
    ReadsString (textAt pairImport ⟨26, 29⟩).toList "m" ∧
      (∀ item ∈ pairItems, item.IsWellFormed pairImport) ∧
      (pairItems.Pairwise fun a b => a.binding.text ∉ b.reads sharedOptions (temporaryName 1)) ∧
      MeansImport sharedOptions pairItems (temporaryName 1) "m"
        (((requireText pairItems (textAt pairImport ⟨26, 29⟩)).run
          ⟨pairImport, sharedOptions, none, []⟩).run Lowering.start).1 := by
  have hsource : ReadsString (textAt pairImport ⟨26, 29⟩).toList "m" := by
    have htext : textAt pairImport ⟨26, 29⟩ = quoted "m" := by decide
    rw [htext]
    exact readsString_quoted (by decide)
  have hapart : pairItems.Pairwise fun a b =>
      a.binding.text ∉ b.reads sharedOptions (temporaryName 1) := by decide
  exact ⟨hsource, pairItems_wellFormed, hapart,
    (requireText_keepsMeaning ⟨pairImport, sharedOptions, none, []⟩ .start ⟨26, 29⟩ "m" pairItems
      hsource pairItems_wellFormed hapart).1⟩

/-- An import of a name that the variable of the module has. -/
def clashingImport : List Char := "import \x7b __sfc_module1, b \x7d from \"m\"\n".toList

/-- The items of that import. -/
def clashingItems : List ImportItem :=
  [.named ⟨"__sfc_module1", ⟨9, 22⟩⟩ none false, .named ⟨"b", ⟨24, 25⟩⟩ none false]

/-- What the import is lowered to. -/
def clashingText : String :=
  "var __sfc_module1 = require(\"m\");var __sfc_module1 = __sfc_module1.__sfc_module1;"
    ++ "var b = __sfc_module1.b;"

/-- The statements that it is lowered to. -/
def clashingStatements : List ImportStatement :=
  [.assign "__sfc_module1" (.loaded "m"),
    .assign "__sfc_module1" (.property (.named "__sfc_module1") "__sfc_module1"),
    .assign "b" (.property (.named "__sfc_module1") "b")]

theorem clashingText_spelled : SpellsStatements clashingStatements clashingText := by
  have hstring : ReadsString (quoted "m").toList "m" := readsString_quoted (by decide)
  have hmodule : SpellsImport (.named "__sfc_module1") "__sfc_module1" := .named (by decide)
  have hname : IsName "__sfc_module1" := by decide
  have hb : IsName "b" := by decide
  have hspelled := SpellsStatements.assign hname (.loaded hstring)
    (.assign hname (.word hmodule hname.1) (.assign hb (.word hmodule hb.1) .nil))
  have htext : "var " ++ "__sfc_module1" ++ " = " ++ ("require(" ++ quoted "m" ++ ")") ++ ";"
      ++ ("var " ++ "__sfc_module1" ++ " = " ++ ("__sfc_module1" ++ "." ++ "__sfc_module1") ++ ";"
        ++ ("var " ++ "b" ++ " = " ++ ("__sfc_module1" ++ "." ++ "b") ++ ";" ++ ""))
      = clashingText := by decide
  rwa [htext] at hspelled

/-- **A name may be taken**: the import of a name that the variable of the module has is lowered to
statements that read the name behind it off the value of that name. -/
theorem requireText_losesModule :
    rewrite sharedOptions clashingImport
        = .ok ("\"use strict\";" ++ clashingText ++ "\n").toList ∧
      (((requireText clashingItems (textAt clashingImport ⟨33, 36⟩)).run
          ⟨clashingImport, sharedOptions, none, []⟩).run Lowering.start).1 = clashingText ∧
      SpellsStatements clashingStatements clashingText ∧
      Provides recorder sharedOptions clashingItems .loader recorderScope ∧
      ¬DoesImport recorder .helper clashingItems "__sfc_module1" .loader "m" recorderScope
        clashingStatements := by
  refine ⟨rewrite_eq_ok_iff.mpr (by decide +kernel), by decide +kernel, clashingText_spelled,
    provides_recorder _ _, fun h => ?_⟩
  obtain ⟨scope, hrun, hscope⟩ := h.binds 0
    [("__sfc_module1", .property (.module "m") "__sfc_module1"),
      ("b", .property (.module "m") "b")] 1 rfl
  have hmeant : scope "b" = some (.property (.module "m") "b") := hscope "b" (.inl (by decide))
  have hfound : (runImports? recorder clashingStatements recorderScope 0).map (fun r => r.1 "b")
      = some (some (.property (.property (.module "m") "__sfc_module1") "b")) := rfl
  rw [hrun] at hfound
  exact absurd (hmeant.symm.trans (Option.some.inj hfound)) (by decide)

end SingleFile.Script
