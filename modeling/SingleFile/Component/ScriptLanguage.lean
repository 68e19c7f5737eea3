/-
  SingleFile.Component.ScriptLanguage — LANGUAGES OF SCRIPTS
  ──────────────────────────────────────────────────────────
  A script is plain or typed.  Plain ones are rewritten as the project's
  transpiler configuration says, typed ones as its type-check configuration
  says; a configuration that cannot be used counts as missing and is warned
  about.
-/
import SingleFile.Component.Diagnostic
import SingleFile.Config.Discovery
import SingleFile.Script.Rewrite
import SingleFile.Text.Case
import SingleFile.Text.LineIndex

namespace SingleFile.Component

open SingleFile.Config SingleFile.Script SingleFile.Text

/-! ## §1. Languages -/

/-- The languages a script may be written in. -/
inductive ScriptLanguage where
  | plain
  | typed
deriving DecidableEq, Repr, Inhabited

/-- The language that a block declares; none if it is unknown. -/
def ScriptLanguage.ofLang? : Option String → Option ScriptLanguage
  | none => some .plain
  | some "babel" => some .plain
  | some "js" => some .plain
  | some "javascript" => some .plain
  | some "ts" => some .typed
  | some "typescript" => some .typed
  | some _ => none

/-! ## §2. Plain scripts -/

/-- The presets that lower modules unless they are told not to. -/
def modulePresets : List String := ["env", "es2015", "es2016", "es2017", "latest"]

/-- The plugins that lower modules. -/
def modulePlugins : List String :=
  ["transform-modules-commonjs", "transform-es2015-modules-commonjs"]

/-- Whether the options of a preset tell it to leave modules alone. -/
def keepsModules (preset : Config.Entry) : Bool :=
  match preset.options?.bind fun options => options.member? "modules" with
  | some (.bool keeps) => !keeps
  | _ => false

/-- What a transpiler configuration makes of imports and exports. -/
def transpilerForm (config : Transpiler) : ModuleForm :=
  match modulePresets.findSome? config.preset? with
  | some preset => if keepsModules preset then .preserved else .commonJs
  | none =>
    if modulePlugins.any fun name => (config.plugin? name).isSome then .commonJs
    else .preserved

/-- How a transpiler configuration has scripts rewritten. -/
def transpilerOptions (config : Transpiler) : RewriteOptions :=
  let typed := (config.preset? "typescript").isSome
  { typed := typed
    form := transpilerForm config
    helpers := if (config.plugin? "transform-runtime").isSome then .shared else .inline
    interop := .helper
    elideImports := typed }

/-! ## §3. Typed scripts -/

/-- The warning about an unknown module system. -/
def unknownModuleSystem (name : String) : Diagnostic :=
  ⟨.invalidConfig, "module \"" ++ name ++ "\" is not supported, using commonjs",
    some "tsconfig.json", none⟩

/-- The module systems that are lowered. -/
def loweredSystems : List String := ["none", "commonjs", "node16", "node18", "nodenext"]

/-- What becomes of imports and exports in a module system. -/
def systemForm (moduleSystem : Option String) : ModuleForm × List Diagnostic :=
  match moduleSystem with
  | none => (.commonJs, [])
  | some name =>
    let name := lowerCase name
    if loweredSystems.contains name then (.commonJs, [])
    else if name == "preserve" || startsWith name.toList ['e', 's'] then (.preserved, [])
    else (.commonJs, [unknownModuleSystem name])

/-- How compiler options have scripts rewritten. -/
def compilerOptions (options : CompilerOptions) : RewriteOptions × List Diagnostic :=
  let (form, diagnostics) := systemForm options.moduleSystem
  ({ typed := true
     form := form
     helpers := .shared
     interop := if options.interop.getD false then .helper else .none
     elideImports := !options.verbatim.getD false }, diagnostics)

/-! ## §4. Rewriting -/

/-- A configuration or else what stands for one, with a warning about one that cannot be
used. -/
def configOr {α : Type} (fallback : α) (found : Except Config.Failure (Found α)) :
    α × List Diagnostic :=
  match found with
  | .ok (some (_, config)) => (config, [])
  | .ok none => (fallback, [])
  | .error failure => (fallback, [.ofConfigFailure failure])

/-- How scripts of a language are rewritten in a project. -/
def ScriptLanguage.options (language : ScriptLanguage) (source : Source) :
    RewriteOptions × List Diagnostic :=
  match language with
  | .plain =>
    let (config, diagnostics) := configOr Transpiler.fallback source.transpiler
    (transpilerOptions config, diagnostics)
  | .typed =>
    let (options, warnings) := configOr CompilerOptions.unset
      (source.typeCheck.map fun found => found.map fun f => (f.1, f.2.options))
    let (options, diagnostics) := compilerOptions options
    (options, warnings ++ diagnostics)

/-- A script that cannot be rewritten. -/
structure TranspileFailure where
  message : String
  /-- The line in the script, counted from 1. -/
  line : Option Nat
deriving DecidableEq, Repr, Inhabited

/-- Why a script cannot be rewritten, by line. -/
def TranspileFailure.ofError (script : List Char) : RewriteError → TranspileFailure
  | .malformed mistake => ⟨mistake.message, some (lineNumberAt script mistake.offset)⟩
  | .unsupported construct offset =>
    ⟨construct.name ++ " is not supported", some (lineNumberAt script offset)⟩

/-- Rewrites a script, with warnings about the configuration. -/
def transpile (language : ScriptLanguage) (source : Source) (script : List Char) :
    Except (Halt TranspileFailure) (List Char) × List Diagnostic :=
  let (options, diagnostics) := language.options source
  ((rewrite options script).mapError (.map (TranspileFailure.ofError script)), diagnostics)

end SingleFile.Component
