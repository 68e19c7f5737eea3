/-
  SingleFile.Component.Transform — FROM COMPONENTS TO MODULES
  ───────────────────────────────────────────────────────────
  The blocks of a component are found, its script is rewritten, its template
  is compiled, and both are put into a module.  The script keeps the lines it
  has in the component, so the map of the module is a shift by its first
  lines.
-/
import SingleFile.Component.Assembly
import SingleFile.Component.ScriptLanguage
import SingleFile.Markup.Extraction

namespace SingleFile.Component

open SingleFile.Markup SingleFile.Script SingleFile.Text

/-! ## §1. Results -/

/-- A module and its map. -/
structure Output where
  code : List Char
  map : LineMap
deriving DecidableEq, Repr, Inhabited

/-- What a transform comes to: a module, a failure or a panic, and the problems on the way. -/
structure Outcome where
  result : Except (Halt Failure) Output
  diagnostics : List Diagnostic

/-! ## §2. Scripts -/

/-- The warning about an issue of a component. -/
def issueWarning (source : List Char) (path : String) (found : PlacedIssue) : Diagnostic :=
  ⟨.blockExtraction, found.issue.message, some path,
    some (lineNumberAt source found.span.start)⟩

/-- A rewritten script, and the script whose lines it has. -/
structure ScriptPart where
  code : List Char
  mapped : List Char
deriving DecidableEq, Repr, Inhabited

/-- The error that a script cannot be rewritten. -/
def transpileError (path : String) (failure : TranspileFailure) : Diagnostic :=
  ⟨.scriptTranspile, failure.message, some path, failure.line⟩

/-- Rewrites the script of a component.  If that fails, the module has no script; if it panics,
there is no module. -/
def scriptPart (config : Config.Source) (path : String) (block : Option Block) :
    Except (Halt Failure) ScriptPart × List Diagnostic :=
  match block with
  | none => (.ok ⟨[], []⟩, [])
  | some block =>
    match ScriptLanguage.ofLang? block.lang? with
    | none => (.error (.failed ⟨path, .unknownScriptLanguage (block.lang?.getD "")⟩), [])
    | some language =>
      match transpile language config block.content with
      | (.ok code, diagnostics) => (.ok ⟨code, block.content⟩, diagnostics)
      | (.error (.failed failure), diagnostics) =>
        (.ok ⟨[], []⟩, diagnostics ++ [transpileError path failure])
      | (.error .panicked, diagnostics) => (.error .panicked, diagnostics)

/-! ## §3. Modules -/

/-- The render functions of a component. -/
def renderPart {m : Type → Type} [Monad m] (tools : Tools m) (path : String)
    (block : Option Block) : Step m (Option RenderFunctions) := do
  match block with
  | none => return none
  | some block =>
    let code ← compileTemplate tools block path
    let render ← renderFunction tools path code.render
    let staticRenders ← renderFunctions tools path code.staticRenders
    return some ⟨render, staticRenders⟩

/-- The module of a component. -/
def assemble (path : String) (source : List Char) (script : ScriptPart)
    (functions : Option RenderFunctions) : Output :=
  ⟨moduleText script.code functions, moduleMap script.mapped scriptLine path source⟩

/-- Transforms a component. -/
def transform {m : Type → Type} [Monad m] (tools : Tools m) (config : Config.Source)
    (source : List Char) (path : String) : m Outcome := do
  let parts := extract .lines source
  let warnings := parts.issues.map (issueWarning source path)
  match scriptPart config path parts.descriptor.script with
  | (.error halt, diagnostics) => return ⟨.error halt, warnings ++ diagnostics⟩
  | (.ok script, diagnostics) =>
    match ← renderPart tools path parts.descriptor.template with
    | .error failure => return ⟨.error (.failed failure), warnings ++ diagnostics⟩
    | .ok functions =>
      return ⟨.ok (assemble path source script functions), warnings ++ diagnostics⟩

end SingleFile.Component
