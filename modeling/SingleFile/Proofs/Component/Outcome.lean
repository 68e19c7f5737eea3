/-
  SingleFile.Proofs.Component.Outcome — WHAT A TRANSFORM COMES TO
  ───────────────────────────────────────────────────────────────
  A transform stops at the first of its steps that fails, and a script that
  cannot be rewritten is no such step.  What is said on the way depends on
  the blocks and the configuration only, not on whether a later step fails.
  A script in a known language whose rewrite cuts the text inside a character
  is a panic, which nothing handles: the transform fails for no cause at all.

  The causes of a failure, the text of a module and the diagnostics are each
  described by a relation that names the languages, tools and configuration
  it reads; the transform is then shown to follow them.

  Main results:
    * `templateFails_or_renders` — a template is rendered or fails.
    * `scriptPart_of_comesTo` — what becomes of a script in a known language.
    * `transform_settled` — which failure, module and diagnostics a transform
      comes to, and when it panics, for every component, configuration and
      tools.
    * `transform_escapedName` — a component without any cause to fail, whose
      transform panics.
-/
import Mathlib.Data.List.Forall2
import SingleFile.Component.Transform
import SingleFile.Proofs.Markup.Progress
import SingleFile.Proofs.Script.EditPlaces
import SingleFile.Proofs.Script.Evaluation
import SingleFile.Proofs.Text.Lines

namespace SingleFile.Component

open SingleFile.Markup SingleFile.Text SingleFile.Script

/-! ## §1. Templates -/

/-- The names of another notation for markup. -/
def renderedNotations : List String := ["pug", "jade"]

/-- The markup that the compiler gets for a template: its content, or what the renderer makes of
it. -/
inductive MarkupOf (tools : Tools Id) (path : String) (b : Block) : List Char → Prop where
  | written (hlang : b.lang? = none ∨ b.lang? = some "html") : MarkupOf tools path b b.content
  | rendered {lang : String} {render : List Char → String → Id (Except String (List Char))}
      {markup : List Char} (hlang : b.lang? = some lang) (hother : lang ∈ renderedNotations)
      (hrender : tools.renderMarkup = some render) (hok : render b.content path = .ok markup) :
      MarkupOf tools path b markup

/-- What a template is compiled to. -/
def CompilesTo (tools : Tools Id) (path : String) (b : Block) (code : RenderCode) : Prop :=
  ∃ markup, MarkupOf tools path b markup ∧ tools.compile markup path = .ok code

/-- Whether a body is a function's, in the words of a tool. -/
def NormalizesTo (tools : Tools Id) (body function : List Char) : Prop :=
  tools.normalize (functionText body) = .ok function

/-- The first step of a template that fails, and why. -/
inductive TemplateFails (tools : Tools Id) (path : String) (b : Block) : FailureCause → Prop where
  | language {lang : String} (hlang : b.lang? = some lang) (unknown : lang ≠ "html")
      (hother : lang ∉ renderedNotations) :
      TemplateFails tools path b (.unknownTemplateLanguage lang)
  | noRenderer {lang : String} (hlang : b.lang? = some lang) (hother : lang ∈ renderedNotations)
      (hrender : tools.renderMarkup = none) :
      TemplateFails tools path b (.markupRender lang "no markup renderer configured")
  | renderer {lang reason : String} {render : List Char → String → Id (Except String (List Char))}
      (hlang : b.lang? = some lang) (hother : lang ∈ renderedNotations)
      (hrender : tools.renderMarkup = some render)
      (hfails : render b.content path = .error reason) :
      TemplateFails tools path b (.markupRender lang reason)
  | compiler {markup : List Char} {reason : String} (hmarkup : MarkupOf tools path b markup)
      (hfails : tools.compile markup path = .error reason) :
      TemplateFails tools path b (.templateCompile reason)
  | render {code : RenderCode} {reason : String} (hcode : CompilesTo tools path b code)
      (hfails : tools.normalize (functionText code.render) = .error reason) :
      TemplateFails tools path b (.invalidRenderFunction reason)
  /-- The first body for a part that never changes that is no function's. -/
  | staticRender {code : RenderCode} {render body : List Char} {before after : List (List Char)}
      {reason : String} (hcode : CompilesTo tools path b code)
      (hrender : NormalizesTo tools code.render render)
      (hbodies : code.staticRenders = before ++ body :: after)
      (hbefore : ∀ body ∈ before, ∃ function, NormalizesTo tools body function)
      (hfails : tools.normalize (functionText body) = .error reason) :
      TemplateFails tools path b (.invalidRenderFunction reason)

/-- The render functions of a template, when no step fails. -/
inductive RendersTo (tools : Tools Id) (path : String) (b : Block) : RenderFunctions → Prop where
  | mk {code : RenderCode} {render : List Char} {functions : List (List Char)}
      (hcode : CompilesTo tools path b code) (hrender : NormalizesTo tools code.render render)
      (hfunctions : List.Forall₂ (NormalizesTo tools) code.staticRenders functions) :
      RendersTo tools path b ⟨render, '[' :: [','].intercalate functions ++ [']']⟩

variable {tools : Tools Id} {path : String} {b : Block}

/-- A tool that gives something is used. -/
theorem useTool_ok {α : Type} (cause : String → FailureCause) {result : Id (Except String α)}
    {a : α} (h : result = .ok a) : useTool path cause result = pure a := by
  rw [h]
  rfl

/-- A tool that fails stops the transform. -/
theorem useTool_error {α : Type} (cause : String → FailureCause) {result : Id (Except String α)}
    {reason : String} (h : result = .error reason) :
    useTool path cause result = throw ⟨path, cause reason⟩ := by
  rw [h]
  rfl

theorem ofLang?_of_mem {lang : String} (h : lang ∈ renderedNotations) :
    TemplateLanguage.ofLang? (some lang) = some .pug := by
  rcases List.mem_pair.mp h with rfl | rfl <;> rfl

theorem ofLang?_eq_none {lang : String} (h : lang ≠ "html") (hn : lang ∉ renderedNotations) :
    TemplateLanguage.ofLang? (some lang) = none := by
  unfold TemplateLanguage.ofLang?
  split
  · next heq => exact absurd heq (by simp)
  · next heq => exact absurd (Option.some.inj heq) h
  · next heq => exact absurd (Option.some.inj heq ▸ hn) (by decide)
  · next heq => exact absurd (Option.some.inj heq ▸ hn) (by decide)
  · rfl

/-- Another notation is what the renderer makes of it, if there is one. -/
theorem templateMarkup_of_mem {lang : String} (hlang : b.lang? = some lang)
    (hother : lang ∈ renderedNotations) : templateMarkup tools b path =
      match tools.renderMarkup with
      | none => throw ⟨path, .markupRender lang "no markup renderer configured"⟩
      | some render => useTool path (.markupRender lang) (render b.content path) := by
  unfold templateMarkup
  dsimp only
  rw [hlang, ofLang?_of_mem hother]
  cases tools.renderMarkup <;> rfl

theorem templateMarkup_of_markupOf {markup : List Char} (h : MarkupOf tools path b markup) :
    templateMarkup tools b path = pure markup := by
  cases h with
  | written hlang =>
    unfold templateMarkup
    rcases hlang with hlang | hlang <;> rw [hlang] <;> rfl
  | rendered hlang hother hrender hok =>
    rw [templateMarkup_of_mem hlang hother, hrender]
    exact useTool_ok _ hok

/-- The markup of a template is there, or a step up to it fails. -/
theorem markupOf_or_fails (tools : Tools Id) (path : String) (b : Block) :
    (∃ markup, MarkupOf tools path b markup) ∨ ∃ cause, TemplateFails tools path b cause := by
  cases hlang : b.lang? with
  | none => exact .inl ⟨_, .written (.inl hlang)⟩
  | some lang =>
    by_cases hhtml : lang = "html"
    · exact .inl ⟨_, .written (.inr (hhtml ▸ hlang))⟩
    · by_cases hother : lang ∈ renderedNotations
      · cases hrender : tools.renderMarkup with
        | none => exact .inr ⟨_, .noRenderer hlang hother hrender⟩
        | some render =>
          cases hresult : render b.content path with
          | ok markup => exact .inl ⟨markup, .rendered hlang hother hrender hresult⟩
          | error reason => exact .inr ⟨_, .renderer hlang hother hrender hresult⟩
      · exact .inr ⟨_, .language hlang hhtml hother⟩

/-- All of some bodies are functions', or a first one is not. -/
theorem normalizesTo_or_fails (tools : Tools Id) (bodies : List (List Char)) :
    (∃ functions, List.Forall₂ (NormalizesTo tools) bodies functions) ∨
      ∃ before body after reason, bodies = before ++ body :: after ∧
        (∀ body ∈ before, ∃ function, NormalizesTo tools body function) ∧
        tools.normalize (functionText body) = .error reason := by
  induction bodies with
  | nil => exact .inl ⟨[], .nil⟩
  | cons body bodies ih =>
    cases hresult : tools.normalize (functionText body) with
    | error reason =>
      exact .inr ⟨[], body, bodies, reason, rfl, fun _ h => absurd h List.not_mem_nil, hresult⟩
    | ok function =>
      rcases ih with ⟨functions, hfunctions⟩ | ⟨before, other, after, reason, rfl, hbefore, hfails⟩
      · exact .inl ⟨function :: functions, .cons hresult hfunctions⟩
      · exact .inr ⟨body :: before, other, after, reason, rfl,
          List.forall_mem_cons.mpr ⟨⟨function, hresult⟩, hbefore⟩, hfails⟩

/-- **A template is rendered or fails**, whatever the tools do. -/
theorem templateFails_or_renders (tools : Tools Id) (path : String) (b : Block) :
    (∃ functions, RendersTo tools path b functions) ∨
      ∃ cause, TemplateFails tools path b cause := by
  rcases markupOf_or_fails tools path b with ⟨markup, hmarkup⟩ | hfails
  · cases hcompiled : tools.compile markup path with
    | error reason => exact .inr ⟨_, .compiler hmarkup hcompiled⟩
    | ok code =>
      have hcode : CompilesTo tools path b code := ⟨markup, hmarkup, hcompiled⟩
      cases hrender : tools.normalize (functionText code.render) with
      | error reason => exact .inr ⟨_, .render hcode hrender⟩
      | ok render =>
        rcases normalizesTo_or_fails tools code.staticRenders with
          ⟨functions, hfunctions⟩ | ⟨before, body, after, reason, hbodies, hbefore, hfails⟩
        · exact .inl ⟨_, .mk hcode hrender hfunctions⟩
        · exact .inr ⟨_, .staticRender hcode hrender hbodies hbefore hfails⟩
  · exact .inr hfails

theorem compileTemplate_of_compilesTo {code : RenderCode} (h : CompilesTo tools path b code) :
    compileTemplate tools b path = pure code := by
  obtain ⟨markup, hmarkup, hcompiled⟩ := h
  rw [compileTemplate, templateMarkup_of_markupOf hmarkup, pure_bind]
  exact useTool_ok _ hcompiled

theorem renderFunction_of_normalizesTo {body function : List Char}
    (h : NormalizesTo tools body function) : renderFunction tools path body = pure function :=
  useTool_ok _ h

theorem mapM_renderFunction {bodies functions : List (List Char)}
    (h : List.Forall₂ (NormalizesTo tools) bodies functions) :
    bodies.mapM (renderFunction tools path) = pure functions := by
  induction h with
  | nil => rfl
  | cons hbody _ ih =>
    rw [List.mapM_cons, renderFunction_of_normalizesTo hbody, pure_bind, ih, pure_bind]

theorem renderPart_of_rendersTo {functions : RenderFunctions}
    (h : RendersTo tools path b functions) :
    renderPart tools path (some b) = pure (some functions) := by
  obtain ⟨hcode, hrender, hfunctions⟩ := h
  unfold renderPart
  dsimp only
  rw [compileTemplate_of_compilesTo hcode, pure_bind, renderFunction_of_normalizesTo hrender,
    pure_bind, renderFunctions, mapM_renderFunction hfunctions, pure_bind, pure_bind]

theorem mapM_renderFunction_fails {before after : List (List Char)} {body : List Char}
    {reason : String} (hbefore : ∀ body ∈ before, ∃ function, NormalizesTo tools body function)
    (hfails : tools.normalize (functionText body) = .error reason) :
    (before ++ body :: after).mapM (renderFunction tools path)
      = throw ⟨path, .invalidRenderFunction reason⟩ := by
  induction before with
  | nil =>
    rw [List.nil_append, List.mapM_cons, renderFunction, useTool_error _ hfails]
    rfl
  | cons first before ih =>
    obtain ⟨⟨function, hfirst⟩, hbefore⟩ := List.forall_mem_cons.mp hbefore
    rw [List.cons_append, List.mapM_cons, renderFunction_of_normalizesTo hfirst, pure_bind,
      ih hbefore]
    rfl

/-- What stops the markup of a template stops the template. -/
theorem renderPart_of_templateMarkup {failure : Failure}
    (h : templateMarkup tools b path = throw failure) :
    renderPart tools path (some b) = throw failure := by
  unfold renderPart
  dsimp only
  rw [compileTemplate, h]
  rfl

theorem renderPart_of_templateFails {cause : FailureCause} (h : TemplateFails tools path b cause) :
    renderPart tools path (some b) = throw ⟨path, cause⟩ := by
  cases h with
  | language hlang unknown hother =>
    refine renderPart_of_templateMarkup ?_
    unfold templateMarkup
    dsimp only
    rw [hlang, ofLang?_eq_none unknown hother]
    rfl
  | noRenderer hlang hother hrender =>
    refine renderPart_of_templateMarkup ?_
    rw [templateMarkup_of_mem hlang hother, hrender]
  | renderer hlang hother hrender hfails =>
    refine renderPart_of_templateMarkup ?_
    rw [templateMarkup_of_mem hlang hother, hrender]
    exact useTool_error _ hfails
  | compiler hmarkup hfails =>
    unfold renderPart
    dsimp only
    rw [compileTemplate, templateMarkup_of_markupOf hmarkup, pure_bind, useTool_error _ hfails]
    rfl
  | render hcode hfails =>
    unfold renderPart
    dsimp only
    rw [compileTemplate_of_compilesTo hcode, pure_bind, renderFunction, useTool_error _ hfails]
    rfl
  | staticRender hcode hrender hbodies hbefore hfails =>
    unfold renderPart
    dsimp only
    rw [compileTemplate_of_compilesTo hcode, pure_bind, renderFunction_of_normalizesTo hrender,
      pure_bind, renderFunctions, hbodies, mapM_renderFunction_fails hbefore hfails]
    rfl

/-! ## §2. Scripts -/

/-- The languages of scripts, by name. -/
def scriptNames : List (String × ScriptLanguage) :=
  [("babel", .plain), ("js", .plain), ("javascript", .plain), ("ts", .typed),
    ("typescript", .typed)]

/-- A script is in a language: it names it, or it is plain and names none. -/
inductive IsIn (b : Block) : ScriptLanguage → Prop where
  | unnamed (hlang : b.lang? = none) : IsIn b .plain
  | named {lang : String} {language : ScriptLanguage} (hlang : b.lang? = some lang)
      (known : (lang, language) ∈ scriptNames) : IsIn b language

/-- Whether a module system is known to be lowered or left alone. -/
def KnownSystem (name : String) : Prop :=
  name ∈ loweredSystems ∨ name = "preserve" ∨ ['e', 's'] <+: name.toList

/-- The warnings about the configuration that a script of a language is rewritten by. -/
inductive WarnsOf (config : Config.Source) : ScriptLanguage → List Diagnostic → Prop where
  | plain {found : Config.Found Config.Transpiler} (hfound : config.transpiler = .ok found) :
      WarnsOf config .plain []
  | brokenPlain {failure : Config.Failure} (hbroken : config.transpiler = .error failure) :
      WarnsOf config .plain [.ofConfigFailure failure]
  | absentTyped (habsent : config.typeCheck = .ok none) : WarnsOf config .typed []
  | typed {file : Files.Path} {found : Config.TypeCheck}
      (hfound : config.typeCheck = .ok (some (file, found)))
      (known : ∀ name, found.options.moduleSystem = some name → KnownSystem (lowerCase name)) :
      WarnsOf config .typed []
  | unknownSystem {file : Files.Path} {found : Config.TypeCheck} {name : String}
      (hfound : config.typeCheck = .ok (some (file, found)))
      (hname : found.options.moduleSystem = some name) (unknown : ¬KnownSystem (lowerCase name)) :
      WarnsOf config .typed [unknownModuleSystem (lowerCase name)]
  | brokenTyped {failure : Config.Failure} (hbroken : config.typeCheck = .error failure) :
      WarnsOf config .typed [.ofConfigFailure failure]

/-- What becomes of a script in a known language, and what is said about it. -/
inductive ScriptComesTo (config : Config.Source) (path : String) :
    Option Block → ScriptPart → List Diagnostic → Prop where
  | absent : ScriptComesTo config path none ⟨[], []⟩ []
  | rewritten {b : Block} {language : ScriptLanguage} {warnings : List Diagnostic}
      {code : List Char} (hlanguage : IsIn b language)
      (hwarnings : WarnsOf config language warnings)
      (ok : rewrite (language.options config).1 b.content = .ok code) :
      ScriptComesTo config path (some b) ⟨code, b.content⟩ warnings
  /-- A script that cannot be rewritten is left out, and one error says why. -/
  | failed {b : Block} {language : ScriptLanguage} {warnings : List Diagnostic}
      {error : RewriteError} (hlanguage : IsIn b language)
      (hwarnings : WarnsOf config language warnings)
      (hfails : rewrite (language.options config).1 b.content = .error (.failed error)) :
      ScriptComesTo config path (some b) ⟨[], []⟩
        (warnings ++ [transpileError path (.ofError b.content error)])

/-- Whether the rewrite of a script in a known language panics, and what has been said before. -/
inductive ScriptPanics (config : Config.Source) : Option Block → List Diagnostic → Prop where
  | mk {b : Block} {language : ScriptLanguage} {warnings : List Diagnostic}
      (hlanguage : IsIn b language) (hwarnings : WarnsOf config language warnings)
      (hpanics : rewrite (language.options config).1 b.content = .error .panicked) :
      ScriptPanics config (some b) warnings

variable {config : Config.Source} {language : ScriptLanguage}

theorem scriptLang?_eq_some {lang : String} :
    ScriptLanguage.ofLang? (some lang) = some language ↔ (lang, language) ∈ scriptNames := by
  constructor
  · intro h
    unfold ScriptLanguage.ofLang? at h
    split at h
    · next heq => exact absurd heq (by simp)
    all_goals first | exact absurd h (Option.some_ne_none _).symm | skip
    all_goals
      next heq =>
        obtain rfl := Option.some.inj heq
        obtain rfl := Option.some.inj h
        simp [scriptNames]
  · intro h
    simp only [scriptNames, List.mem_cons, Prod.mk.injEq, List.not_mem_nil, or_false] at h
    rcases h with ⟨rfl, rfl⟩ | ⟨rfl, rfl⟩ | ⟨rfl, rfl⟩ | ⟨rfl, rfl⟩ | ⟨rfl, rfl⟩ <;> rfl

theorem ofLang?_of_isIn (h : IsIn b language) : ScriptLanguage.ofLang? b.lang? = some language := by
  cases h with
  | unnamed hlang =>
    rw [hlang]
    rfl
  | named hlang known =>
    rw [hlang]
    exact scriptLang?_eq_some.mpr known

/-- A script is in a language, or it names one that there is not. -/
theorem isIn_or_unknown (b : Block) : (∃ language, IsIn b language) ∨
    ∃ lang, b.lang? = some lang ∧ ∀ language, (lang, language) ∉ scriptNames := by
  cases hlang : b.lang? with
  | none => exact .inl ⟨_, .unnamed hlang⟩
  | some lang =>
    by_cases hknown : ∃ language, (lang, language) ∈ scriptNames
    · obtain ⟨language, hknown⟩ := hknown
      exact .inl ⟨language, .named hlang hknown⟩
    · exact .inr ⟨lang, rfl, not_exists.mp hknown⟩

/-- Only an unknown module system is warned about. -/
theorem systemForm_warnings (name : String) :
    (KnownSystem (lowerCase name) → (systemForm (some name)).2 = []) ∧
      (¬KnownSystem (lowerCase name) →
        (systemForm (some name)).2 = [unknownModuleSystem (lowerCase name)]) := by
  have hes : startsWith (lowerCase name).toList ['e', 's'] = true ↔
      ['e', 's'] <+: (lowerCase name).toList := by
    rw [startsWith_iff]
    exact ⟨fun ⟨rest, h⟩ => ⟨rest, h.symm⟩, fun ⟨rest, h⟩ => ⟨rest, h.symm⟩⟩
  rw [KnownSystem, ← hes]
  unfold systemForm
  dsimp only
  split
  · next hlowered =>
    exact ⟨fun _ => rfl, fun h => absurd (.inl (List.contains_iff_mem.mp hlowered)) h⟩
  · next hlowered =>
    split
    · next hkept =>
      rw [Bool.or_eq_true, beq_iff_eq] at hkept
      exact ⟨fun _ => rfl, fun h => absurd (.inr hkept) h⟩
    · next hkept =>
      rw [Bool.or_eq_true, beq_iff_eq] at hkept
      refine ⟨fun h => ?_, fun _ => rfl⟩
      rcases h with h | h
      · exact absurd (List.contains_iff_mem.mpr h) hlowered
      · exact absurd h hkept

theorem warnings_plain (config : Config.Source) :
    (ScriptLanguage.plain.options config).2 =
      (configOr Config.Transpiler.fallback config.transpiler).2 := rfl

theorem warnings_typed (config : Config.Source) :
    (ScriptLanguage.typed.options config).2 =
      (configOr Config.CompilerOptions.unset
        (config.typeCheck.map fun found => found.map fun f => (f.1, f.2.options))).2 ++
      (systemForm (configOr Config.CompilerOptions.unset
        (config.typeCheck.map fun found =>
          found.map fun f => (f.1, f.2.options))).1.moduleSystem).2 := rfl

/-- **What is warned about** is a configuration that cannot be used and an unknown module system,
and nothing else. -/
theorem warnings_of_warnsOf {warnings : List Diagnostic} (h : WarnsOf config language warnings) :
    (language.options config).2 = warnings := by
  cases h with
  | @plain found hfound =>
    rw [warnings_plain, hfound]
    cases found <;> rfl
  | brokenPlain hbroken =>
    rw [warnings_plain, hbroken]
    rfl
  | absentTyped habsent =>
    rw [warnings_typed, habsent]
    rfl
  | @typed file found hfound known =>
    rw [warnings_typed, hfound]
    show [] ++ (systemForm found.options.moduleSystem).2 = []
    cases hname : found.options.moduleSystem with
    | none => rfl
    | some name => exact (systemForm_warnings name).1 (known name hname)
  | @unknownSystem file found name hfound hname unknown =>
    rw [warnings_typed, hfound]
    show [] ++ (systemForm found.options.moduleSystem).2 = _
    rw [hname]
    exact (systemForm_warnings name).2 unknown
  | brokenTyped hbroken =>
    rw [warnings_typed, hbroken]
    rfl

theorem exists_warnsOf (config : Config.Source) (language : ScriptLanguage) :
    ∃ warnings, WarnsOf config language warnings := by
  cases language with
  | plain =>
    cases h : config.transpiler with
    | ok found => exact ⟨_, .plain h⟩
    | error failure => exact ⟨_, .brokenPlain h⟩
  | typed =>
    match h : config.typeCheck with
    | .error failure => exact ⟨_, .brokenTyped h⟩
    | .ok none => exact ⟨_, .absentTyped h⟩
    | .ok (some (file, found)) =>
      by_cases hknown : ∀ name, found.options.moduleSystem = some name →
          KnownSystem (lowerCase name)
      · exact ⟨_, .typed h hknown⟩
      · push Not at hknown
        obtain ⟨name, hname, hunknown⟩ := hknown
        exact ⟨_, .unknownSystem h hname hunknown⟩

/-- **A script in a known language stops nothing**, whether it can be rewritten or not. -/
theorem scriptPart_of_comesTo {block : Option Block} {script : ScriptPart} {said : List Diagnostic}
    (h : ScriptComesTo config path block script said) :
    scriptPart config path block = (.ok script, said) := by
  cases h with
  | absent => rfl
  | @rewritten b language warnings code hlanguage hwarnings ok =>
    unfold scriptPart transpile
    dsimp only
    rw [ofLang?_of_isIn hlanguage]
    dsimp only
    rw [ok, warnings_of_warnsOf hwarnings]
    rfl
  | @failed b language warnings error hlanguage hwarnings hfails =>
    unfold scriptPart transpile
    dsimp only
    rw [ofLang?_of_isIn hlanguage]
    dsimp only
    rw [hfails, warnings_of_warnsOf hwarnings]
    rfl

/-- A panic of a script in a known language is passed on. -/
theorem scriptPart_of_panics {block : Option Block} {said : List Diagnostic}
    (h : ScriptPanics config block said) :
    scriptPart config path block = (.error .panicked, said) := by
  obtain ⟨hlanguage, hwarnings, hpanics⟩ := h
  unfold scriptPart transpile
  dsimp only
  rw [ofLang?_of_isIn hlanguage]
  dsimp only
  rw [hpanics, warnings_of_warnsOf hwarnings]
  rfl

/-- A script in a known language comes to something, or its rewrite panics. -/
theorem scriptComesTo_or_panics (config : Config.Source) (path : String) {block : Option Block}
    (h : ∀ b ∈ block, ∃ language, IsIn b language) :
    (∃ script said, ScriptComesTo config path block script said) ∨
      ∃ said, ScriptPanics config block said := by
  cases block with
  | none => exact .inl ⟨_, _, .absent⟩
  | some b =>
    obtain ⟨language, hlanguage⟩ := h b rfl
    obtain ⟨warnings, hwarnings⟩ := exists_warnsOf config language
    cases hresult : rewrite (language.options config).1 b.content with
    | ok code => exact .inl ⟨_, _, .rewritten hlanguage hwarnings hresult⟩
    | error halt =>
      cases halt with
      | failed error => exact .inl ⟨_, _, .failed hlanguage hwarnings hresult⟩
      | panicked => exact .inr ⟨_, .mk hlanguage hwarnings hresult⟩

/-- A script panics where its rewrite cuts the text elsewhere than between two characters. -/
theorem exists_cut_of_scriptPanics {block : Option Block} {said : List Diagnostic}
    (h : ScriptPanics config block said) :
    ∃ b ∈ block, ∃ language, IsIn b language ∧
      ∃ program, parse ⟨(language.options config).1.typed, true⟩ b.content = .ok program ∧
        ∃ a ∈ (planOf (language.options config).1 b.content program).actions,
          ¬a.IsWithin b.content := by
  obtain ⟨hlanguage, -, hpanics⟩ := h
  exact ⟨_, rfl, _, hlanguage, exists_cut_of_panicked hpanics⟩

/-! ## §3. Transforms -/

/-- The first step of a transform that fails, and why: a script in an unknown language, or else a
step of the template. -/
inductive FailsWith (tools : Tools Id) (path : String) (d : Descriptor) : FailureCause → Prop where
  | script {b : Block} {lang : String} (hscript : d.script = some b) (hlang : b.lang? = some lang)
      (unknown : ∀ language, (lang, language) ∉ scriptNames) :
      FailsWith tools path d (.unknownScriptLanguage lang)
  | template {b : Block} {cause : FailureCause}
      (hscript : ∀ s ∈ d.script, ∃ language, IsIn s language) (htemplate : d.template = some b)
      (hfails : TemplateFails tools path b cause) : FailsWith tools path d cause

/-- The render functions of a component, when its template does not fail. -/
inductive FunctionsOf (tools : Tools Id) (path : String) :
    Option Block → Option RenderFunctions → Prop where
  | absent : FunctionsOf tools path none none
  | rendered {b : Block} {functions : RenderFunctions} (h : RendersTo tools path b functions) :
      FunctionsOf tools path (some b) (some functions)

/-- The warnings about the issues of a component, each with the line that its span begins in. -/
def issueWarnings (source : List Char) (path : String) (issues : List PlacedIssue) :
    List Diagnostic :=
  issues.map fun found => ⟨.blockExtraction, found.issue.message, some path,
    some ((upTo source found.span.start).count '\n' + 1)⟩

/-- **What a transform comes to.**  It panics if the rewrite of its script does.  Otherwise it fails
with the first cause there is, and gives a module if there is none.  What is said does not depend on
the template. -/
structure Settled (tools : Tools Id) (config : Config.Source) (source : List Char) (path : String)
    (e : Extraction) (o : Outcome) : Prop where
  panicked_iff : o.result = .error .panicked ↔ ∃ said, ScriptPanics config e.descriptor.script said
  /-- A panic is a cut elsewhere than between two characters of a script in a known language. -/
  cuts : o.result = .error .panicked → ∃ b ∈ e.descriptor.script, ∃ language, IsIn b language ∧
    ∃ program, parse ⟨(language.options config).1.typed, true⟩ b.content = .ok program ∧
      ∃ a ∈ (planOf (language.options config).1 b.content program).actions,
        ¬a.IsWithin b.content
  error_iff : ∀ failure, o.result = .error (.failed failure) ↔
    (∀ said, ¬ScriptPanics config e.descriptor.script said) ∧
      failure.path = path ∧ FailsWith tools path e.descriptor failure.cause
  isOk_iff : (∃ output, o.result = .ok output) ↔
    (∀ said, ¬ScriptPanics config e.descriptor.script said) ∧
      ∀ cause, ¬FailsWith tools path e.descriptor cause
  ok_iff : ∀ output, o.result = .ok output ↔ ∃ script said functions,
    ScriptComesTo config path e.descriptor.script script said ∧
    FunctionsOf tools path e.descriptor.template functions ∧
    output = assemble path source script functions
  /-- The issues come first, then what is said about the script. -/
  said : ∀ script said, ScriptComesTo config path e.descriptor.script script said →
    o.diagnostics = issueWarnings source path e.issues ++ said
  /-- A panic leaves behind what has been said before. -/
  saidBefore : ∀ said, ScriptPanics config e.descriptor.script said →
    o.diagnostics = issueWarnings source path e.issues ++ said
  /-- Nothing is said about a script in an unknown language. -/
  unsaid : ∀ b lang, e.descriptor.script = some b → b.lang? = some lang →
    (∀ language, (lang, language) ∉ scriptNames) →
    o.diagnostics = issueWarnings source path e.issues

variable {source : List Char} {script : ScriptPart} {said : List Diagnostic} {cause : FailureCause}
  {functions : Option RenderFunctions}

theorem map_issueWarning (source : List Char) (path : String) (issues : List PlacedIssue) :
    issues.map (issueWarning source path) = issueWarnings source path issues :=
  List.map_congr_left fun found _ => by rw [issueWarning, lineNumberAt_eq]

theorem renderPart_of_functionsOf {block : Option Block}
    (h : FunctionsOf tools path block functions) :
    renderPart tools path block = pure functions := by
  cases h with
  | absent => rfl
  | rendered h => exact renderPart_of_rendersTo h

/-- A script in an unknown language stops a transform. -/
theorem transform_of_unknown {lang : String}
    (hscript : (extract .lines source).descriptor.script = some b) (hlang : b.lang? = some lang)
    (unknown : ∀ language, (lang, language) ∉ scriptNames) :
    (transform tools config source path : Outcome) =
      ⟨.error (.failed ⟨path, .unknownScriptLanguage lang⟩),
        issueWarnings source path (extract .lines source).issues⟩ := by
  have hlanguage : ScriptLanguage.ofLang? (some lang) = none :=
    Option.eq_none_iff_forall_not_mem.mpr fun language h =>
      unknown language (scriptLang?_eq_some.mp h)
  have hpart : scriptPart config path (some b) =
      (.error (.failed ⟨path, .unknownScriptLanguage lang⟩), []) := by
    unfold scriptPart
    dsimp only
    rw [hlang, hlanguage]
    rfl
  unfold transform
  dsimp only
  rw [hscript, hpart, map_issueWarning]
  dsimp only
  rw [List.append_nil]
  rfl

/-- A panic of a script is one of its transform. -/
theorem transform_of_panics
    (h : ScriptPanics config (extract .lines source).descriptor.script said) :
    (transform tools config source path : Outcome) =
      ⟨.error .panicked, issueWarnings source path (extract .lines source).issues ++ said⟩ := by
  unfold transform
  dsimp only
  rw [scriptPart_of_panics h, map_issueWarning]
  rfl

/-- A template that fails stops a transform behind its script. -/
theorem transform_of_templateFails
    (hscript : ScriptComesTo config path (extract .lines source).descriptor.script script said)
    (htemplate : (extract .lines source).descriptor.template = some b)
    (hfails : TemplateFails tools path b cause) :
    (transform tools config source path : Outcome) =
      ⟨.error (.failed ⟨path, cause⟩),
        issueWarnings source path (extract .lines source).issues ++ said⟩ := by
  unfold transform
  dsimp only
  rw [scriptPart_of_comesTo hscript, map_issueWarning, htemplate]
  dsimp only
  rw [renderPart_of_templateFails hfails]
  rfl

/-- Otherwise a transform comes to a module. -/
theorem transform_of_functionsOf
    (hscript : ScriptComesTo config path (extract .lines source).descriptor.script script said)
    (hfunctions : FunctionsOf tools path (extract .lines source).descriptor.template functions) :
    (transform tools config source path : Outcome) =
      ⟨.ok (assemble path source script functions),
        issueWarnings source path (extract .lines source).issues ++ said⟩ := by
  unfold transform
  dsimp only
  rw [scriptPart_of_comesTo hscript, map_issueWarning]
  dsimp only
  rw [renderPart_of_functionsOf hfunctions]
  rfl

/-- A script in a known language can panic only. -/
theorem not_scriptPanics_of_unknown {lang : String} (hlang : b.lang? = some lang)
    (unknown : ∀ language, (lang, language) ∉ scriptNames) (said : List Diagnostic) :
    ¬ScriptPanics config (some b) said := by
  rintro ⟨hlanguage, -, -⟩
  have hknown := ofLang?_of_isIn hlanguage
  rw [hlang, scriptLang?_eq_some] at hknown
  exact unknown _ hknown

/-- What comes to something does not panic. -/
theorem not_scriptPanics_of_comesTo {block : Option Block}
    (h : ScriptComesTo config path block script said) (before : List Diagnostic) :
    ¬ScriptPanics config block before := fun hpanics => by
  have hpart := @scriptPart_of_panics path config _ _ hpanics
  rw [scriptPart_of_comesTo h] at hpart
  exact absurd (congrArg Prod.fst hpart) (by simp)

theorem transform_of_failsWith
    (hsound : ∀ said, ¬ScriptPanics config (extract .lines source).descriptor.script said)
    (h : FailsWith tools path (extract .lines source).descriptor cause) :
    (transform tools config source path : Outcome).result = .error (.failed ⟨path, cause⟩) := by
  cases h with
  | script hscript hlang unknown => rw [transform_of_unknown hscript hlang unknown]
  | template hscript htemplate hfails =>
    rcases scriptComesTo_or_panics config path hscript with ⟨script, said, hcomes⟩ | ⟨said, hpanics⟩
    · rw [transform_of_templateFails hcomes htemplate hfails]
    · exact absurd hpanics (hsound said)

/-- A transform panics, fails, or its script and its template come to something. -/
theorem panics_or_failsWith_or_comesTo (tools : Tools Id) (config : Config.Source) (path : String)
    (d : Descriptor) :
    (∃ said, ScriptPanics config d.script said) ∨
      ((∀ said, ¬ScriptPanics config d.script said) ∧ ∃ cause, FailsWith tools path d cause) ∨
      ∃ script said functions, ScriptComesTo config path d.script script said ∧
        FunctionsOf tools path d.template functions := by
  by_cases hknown : ∀ s ∈ d.script, ∃ language, IsIn s language
  · rcases scriptComesTo_or_panics config path hknown with ⟨script, said, hcomes⟩ | hpanics
    · cases htemplate : d.template with
      | none => exact .inr (.inr ⟨script, said, none, hcomes, .absent⟩)
      | some b =>
        rcases templateFails_or_renders tools path b with ⟨functions, hrenders⟩ | ⟨cause, hfails⟩
        · exact .inr (.inr ⟨script, said, some functions, hcomes, .rendered hrenders⟩)
        · exact .inr (.inl ⟨not_scriptPanics_of_comesTo hcomes, cause,
            .template hknown htemplate hfails⟩)
    · exact .inl hpanics
  · push Not at hknown
    obtain ⟨b, hscript, hunknown⟩ := hknown
    rcases isIn_or_unknown b with ⟨language, hlanguage⟩ | ⟨lang, hlang, unknown⟩
    · exact absurd hlanguage (hunknown language)
    · refine .inr (.inl ⟨?_, _, .script hscript hlang unknown⟩)
      rw [show d.script = some b from hscript]
      exact not_scriptPanics_of_unknown hlang unknown

/-- The three ways in which a transform ends, each with its result. -/
theorem transform_ends (tools : Tools Id) (config : Config.Source) (source : List Char)
    (path : String) :
    (∃ said, ScriptPanics config (extract .lines source).descriptor.script said ∧
      (transform tools config source path : Outcome).result = .error .panicked) ∨
    (∃ cause, (∀ said, ¬ScriptPanics config (extract .lines source).descriptor.script said) ∧
      FailsWith tools path (extract .lines source).descriptor cause ∧
      (transform tools config source path : Outcome).result = .error (.failed ⟨path, cause⟩)) ∨
    ∃ script said functions,
      ScriptComesTo config path (extract .lines source).descriptor.script script said ∧
      FunctionsOf tools path (extract .lines source).descriptor.template functions ∧
      (transform tools config source path : Outcome).result
        = .ok (assemble path source script functions) := by
  rcases panics_or_failsWith_or_comesTo tools config path (extract .lines source).descriptor with
    ⟨said, hpanics⟩ | ⟨hsound, cause, hfails⟩ | ⟨script, said, functions, hcomes, hfunctions⟩
  · exact .inl ⟨said, hpanics, by rw [transform_of_panics hpanics]⟩
  · exact .inr (.inl ⟨cause, hsound, hfails, transform_of_failsWith hsound hfails⟩)
  · exact .inr (.inr ⟨script, said, functions, hcomes, hfunctions,
      by rw [transform_of_functionsOf hcomes hfunctions]⟩)

theorem transform_panicked_iff :
    (transform tools config source path : Outcome).result = .error .panicked ↔
      ∃ said, ScriptPanics config (extract .lines source).descriptor.script said := by
  constructor
  · intro h
    rcases transform_ends tools config source path with
      ⟨said, hpanics, -⟩ | ⟨cause, -, -, hresult⟩ | ⟨_, _, _, -, -, hresult⟩
    · exact ⟨said, hpanics⟩
    · exact absurd (hresult.symm.trans h) (by simp)
    · exact absurd (hresult.symm.trans h) (by simp)
  · rintro ⟨said, hpanics⟩
    rw [transform_of_panics hpanics]

theorem transform_failed_iff {failure : Failure} :
    (transform tools config source path : Outcome).result = .error (.failed failure) ↔
      (∀ said, ¬ScriptPanics config (extract .lines source).descriptor.script said) ∧
        failure.path = path ∧
        FailsWith tools path (extract .lines source).descriptor failure.cause := by
  constructor
  · intro h
    rcases transform_ends tools config source path with
      ⟨said, -, hresult⟩ | ⟨cause, hsound, hfails, hresult⟩ | ⟨_, _, _, -, -, hresult⟩
    · exact absurd (hresult.symm.trans h) (by simp)
    · obtain rfl := Halt.failed.inj (Except.error.inj (hresult.symm.trans h))
      exact ⟨hsound, rfl, hfails⟩
    · exact absurd (hresult.symm.trans h) (by simp)
  · rintro ⟨hsound, rfl, hfails⟩
    exact transform_of_failsWith hsound hfails

theorem transform_ok_iff {output : Output} :
    (transform tools config source path : Outcome).result = .ok output ↔
      ∃ script said functions,
        ScriptComesTo config path (extract .lines source).descriptor.script script said ∧
        FunctionsOf tools path (extract .lines source).descriptor.template functions ∧
        output = assemble path source script functions := by
  constructor
  · intro h
    rcases transform_ends tools config source path with
      ⟨said, -, hresult⟩ | ⟨cause, -, -, hresult⟩ |
        ⟨script, said, functions, hcomes, hfunctions, hresult⟩
    · exact absurd (hresult.symm.trans h) (by simp)
    · exact absurd (hresult.symm.trans h) (by simp)
    · exact ⟨script, said, functions, hcomes, hfunctions,
        (Except.ok.inj (hresult.symm.trans h)).symm⟩
  · rintro ⟨script, said, functions, hcomes, hfunctions, rfl⟩
    rw [transform_of_functionsOf hcomes hfunctions]

/-- A module is given where nothing panics and there is no cause to fail. -/
theorem transform_isOk_iff :
    (∃ output, (transform tools config source path : Outcome).result = .ok output) ↔
      (∀ said, ¬ScriptPanics config (extract .lines source).descriptor.script said) ∧
        ∀ cause, ¬FailsWith tools path (extract .lines source).descriptor cause := by
  constructor
  · rintro ⟨output, h⟩
    have hsound : ∀ said, ¬ScriptPanics config (extract .lines source).descriptor.script said :=
      fun said hpanics =>
        absurd ((transform_panicked_iff.mpr ⟨said, hpanics⟩).symm.trans h) (by simp)
    exact ⟨hsound, fun cause hfails =>
      absurd ((transform_of_failsWith hsound hfails).symm.trans h) (by simp)⟩
  · rintro ⟨hsound, hcauses⟩
    rcases transform_ends tools config source path with
      ⟨said, hpanics, -⟩ | ⟨cause, -, hfails, -⟩ | ⟨_, _, _, -, -, hresult⟩
    · exact absurd hpanics (hsound said)
    · exact absurd hfails (hcauses cause)
    · exact ⟨_, hresult⟩

/-- What is said is the same whether the template fails or not. -/
theorem transform_said
    (h : ScriptComesTo config path (extract .lines source).descriptor.script script said) :
    (transform tools config source path : Outcome).diagnostics
      = issueWarnings source path (extract .lines source).issues ++ said := by
  cases htemplate : (extract .lines source).descriptor.template with
  | none =>
    have hfunctions : FunctionsOf tools path _ none := htemplate ▸ FunctionsOf.absent
    rw [transform_of_functionsOf h hfunctions]
  | some b =>
    rcases templateFails_or_renders tools path b with ⟨functions, hrenders⟩ | ⟨cause, hfails⟩
    · have hfunctions : FunctionsOf tools path _ (some functions) :=
        htemplate ▸ FunctionsOf.rendered hrenders
      rw [transform_of_functionsOf h hfunctions]
    · rw [transform_of_templateFails h htemplate hfails]

/-- **Every transform is settled**: whether it panics, with which cause it fails, or which module it
gives, and what is said, for every component, configuration and tools. -/
theorem transform_settled (tools : Tools Id) (config : Config.Source) (source : List Char)
    (path : String) :
    Settled tools config source path (extract .lines source)
      (transform tools config source path) where
  panicked_iff := transform_panicked_iff
  cuts h := by
    obtain ⟨said, hpanics⟩ := transform_panicked_iff.mp h
    exact exists_cut_of_scriptPanics hpanics
  error_iff _ := transform_failed_iff
  isOk_iff := transform_isOk_iff
  ok_iff _ := transform_ok_iff
  said _ _ hcomes := transform_said hcomes
  saidBefore said hpanics := by rw [transform_of_panics hpanics]
  unsaid b lang hscript hlang unknown := by rw [transform_of_unknown hscript hlang unknown]

/-- A component whose script has a parameter with a mark behind its name, and an escape in the
name. -/
def escapedName : List Char :=
  ("<script lang=\"ts\">\nfunction f(\\u0061\u00e9\u00e9\u00e9?: string) \x7b\x7d\n"
    ++ "</script>\n").toList

/-- Tools that are good for nothing, since there is no template. -/
def noTools : Tools Id := ⟨fun _ _ => .error "no compiler", none, fun _ => .error "no check"⟩

/-- **A panic for no cause at all**: the mark is looked for as many bytes behind the start of the
name as the name has without its escape, which is inside a character. -/
theorem transform_escapedName :
    (∀ cause, ¬FailsWith noTools "B.vue" (extract .lines escapedName).descriptor cause) ∧
      (transform noTools (.fixed none none) escapedName "B.vue" : Outcome).result
        = .error .panicked := by
  have htemplate : (extract .lines escapedName).descriptor.template = none := by decide +kernel
  -- The name begins twelve bytes into the script and has seven without its escape.
  obtain ⟨b, hscript, hlang, hcontent⟩ : ∃ b,
      (extract .lines escapedName).descriptor.script = some b ∧ b.lang? = some "ts" ∧
        (parse ⟨true, true⟩ b.content).toOption.any (fun program => decide (Action.look 19 ∈
          (planOf (ScriptLanguage.typed.options (.fixed none none)).1 b.content program).actions ∧
            splitAt? b.content 19 = none)) = true := by
    have hall : ((extract .lines escapedName).descriptor.script).any (fun b => decide
        (b.lang? = some "ts" ∧ (parse ⟨true, true⟩ b.content).toOption.any
          (fun program => decide (Action.look 19 ∈ (planOf
            (ScriptLanguage.typed.options (.fixed none none)).1 b.content program).actions ∧
              splitAt? b.content 19 = none)) = true)) = true := by decide +kernel
    obtain ⟨b, hb, hp⟩ := (Option.any_eq_true ..).mp hall
    exact ⟨b, hb, of_decide_eq_true hp⟩
  have hknown : ∀ s ∈ (extract .lines escapedName).descriptor.script,
      ∃ language, IsIn s language := by
    intro s hs
    obtain rfl := Option.some.inj (hscript.symm.trans hs)
    exact ⟨.typed, .named hlang (by decide)⟩
  refine ⟨fun cause hfails => ?_, ?_⟩
  · cases hfails with
    | script hscript' hlang' unknown =>
      obtain rfl := Option.some.inj (hscript.symm.trans hscript')
      obtain rfl := Option.some.inj (hlang.symm.trans hlang')
      exact unknown .typed (by decide)
    | template _ htemplate' _ =>
      rw [htemplate] at htemplate'
      exact absurd htemplate' (by simp)
  · obtain ⟨program, hparse, hlook, hcut⟩ := exists_parse_of_any hcontent
    have hpanics : rewrite (ScriptLanguage.typed.options (.fixed none none)).1 b.content
        = .error .panicked := by
      unfold rewrite
      rw [show (ScriptLanguage.typed.options (.fixed none none)).1.typed = true from rfl, hparse]
      refine Plan.carryOut_panicked hlook ?_
      rw [Action.edits?, hcut]
      rfl
    have hscriptPanics : ScriptPanics (.fixed none none)
        (extract .lines escapedName).descriptor.script [] := by
      rw [hscript]
      exact .mk (.named hlang (by decide)) (.absentTyped rfl) hpanics
    rw [transform_of_panics hscriptPanics]

end SingleFile.Component
