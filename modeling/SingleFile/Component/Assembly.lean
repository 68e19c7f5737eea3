/-
  SingleFile.Component.Assembly — MODULES
  ───────────────────────────────────────
  A module is the script in a function of its own, followed by lines that
  find the component's options and give them their render functions.  Every
  line but the script's is kept out of coverage.
-/
import SingleFile.Component.RenderFunction
import SingleFile.Files.Path
import SingleFile.LineMap.Basic

namespace SingleFile.Component

open SingleFile.Files

/-! ## §1. Text -/

/-- The texts of a component's render functions. -/
structure RenderFunctions where
  render : List Char
  /-- An array of functions. -/
  staticRenders : List Char
deriving DecidableEq, Repr, Inhabited

/-- A comment that keeps a line out of coverage. -/
def uncovered : String := "/* istanbul ignore next */"

/-- The line in front of the script. -/
def openingLine : String := uncovered ++ ";(function()\x7b"

/-- The line behind the script. -/
def closingLine : String := uncovered ++ "\x7d)()"

/-- The lines that find the component's options. -/
def optionLines : List String :=
  [uncovered ++ "if (module.exports.__esModule) module.exports = module.exports.default",
    uncovered ++ "var __vue__options__ = (typeof module.exports === \"function\"? "
      ++ "module.exports.options: module.exports)"]

/-- The lines that give the options their render functions. -/
def renderLines (functions : RenderFunctions) : List (List Char) :=
  [(uncovered ++ "__vue__options__.render = ").toList ++ functions.render,
    (uncovered ++ "__vue__options__.staticRenderFns = ").toList ++ functions.staticRenders]

/-- The line of a module that the script begins in, counted from 0. -/
def scriptLine : Nat := 1

/-- The text of a module. -/
def moduleText (script : List Char) (functions : Option RenderFunctions) : List Char :=
  let lines := openingLine.toList :: script :: closingLine.toList
    :: optionLines.map String.toList ++ (functions.map renderLines).getD []
  ['\n'].intercalate lines

/-! ## §2. Map -/

/-- The map of a module: each line of its script comes from the line of the component that is
as far behind the start. -/
def moduleMap (script : List Char) (start : Nat) (path : String) (source : List Char) :
    LineMap :=
  let name := ((⟨path⟩ : Path).fileName?.map String.ofList).getD path
  let draft := (LineMapDraft.empty.addSource name).setContent 0 (String.ofList source)
  -- One more line than there are line feeds; all of them have the one source.
  let lines := List.range (script.count '\n' + 1)
  (lines.foldl (fun draft line => draft.addLine (line + start) line 0) draft).build

end SingleFile.Component
