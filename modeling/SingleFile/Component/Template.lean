/-
  SingleFile.Component.Template — COMPILING TEMPLATES
  ───────────────────────────────────────────────────
  Templates are compiled by tools outside of this library: a compiler of
  markup, a renderer that makes markup of another notation, and a check of
  the functions that come out.  A tool may fail and may have effects.
-/
import SingleFile.Component.Failure
import SingleFile.Markup.Block

namespace SingleFile.Component

open SingleFile.Markup

/-! ## §1. Tools -/

/-- What a template is compiled to: the bodies of its render functions. -/
structure RenderCode where
  render : List Char
  /-- The bodies of the functions for parts that never change. -/
  staticRenders : List (List Char)
deriving DecidableEq, Repr, Inhabited

/-- The tools that a transform needs; each gets the path of the component. -/
structure Tools (m : Type → Type) where
  compile : List Char → String → m (Except String RenderCode)
  /-- Makes markup of another notation, where there is a tool for that. -/
  renderMarkup : Option (List Char → String → m (Except String (List Char)))
  /-- Makes sure that a text is a function, and perhaps another one of it. -/
  normalize : List Char → m (Except String (List Char))

/-- Something that may stop a transform. -/
abbrev Step (m : Type → Type) := ExceptT Failure m

/-- Uses a tool; a failure of it stops the transform. -/
def useTool {m : Type → Type} [Monad m] {α : Type} (path : String)
    (cause : String → FailureCause) (result : m (Except String α)) : Step m α := do
  match ← result with
  | .ok a => return a
  | .error reason => throw ⟨path, cause reason⟩

/-! ## §2. Languages -/

/-- The languages a template may be written in. -/
inductive TemplateLanguage where
  | html
  | pug
deriving DecidableEq, Repr, Inhabited

/-- The language that a block declares; none if it is unknown. -/
def TemplateLanguage.ofLang? : Option String → Option TemplateLanguage
  | none => some .html
  | some "html" => some .html
  | some "pug" => some .pug
  | some "jade" => some .pug
  | some _ => none

/-! ## §3. Compiling -/

/-- The markup of a template. -/
def templateMarkup {m : Type → Type} [Monad m] (tools : Tools m) (block : Block)
    (path : String) : Step m (List Char) := do
  let lang := block.lang?
  match TemplateLanguage.ofLang? lang with
  | none => throw ⟨path, .unknownTemplateLanguage (lang.getD "")⟩
  | some .html => return block.content
  | some .pug =>
    let cause := FailureCause.markupRender (lang.getD "pug")
    match tools.renderMarkup with
    | none => throw ⟨path, cause "no markup renderer configured"⟩
    | some renderMarkup => useTool path cause (renderMarkup block.content path)

/-- Compiles a template. -/
def compileTemplate {m : Type → Type} [Monad m] (tools : Tools m) (block : Block)
    (path : String) : Step m RenderCode := do
  let markup ← templateMarkup tools block path
  useTool path .templateCompile (tools.compile markup path)

end SingleFile.Component
