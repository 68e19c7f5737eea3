/-
  SingleFile.Component.RenderFunction — FUNCTIONS FROM THEIR BODIES
  ─────────────────────────────────────────────────────────────────
  A render function is its body with a head around it.  What comes out has
  to be one function expression, since a module is built around it.
-/
import SingleFile.Component.Template
import SingleFile.Script.Parse

namespace SingleFile.Component

open SingleFile.Script

/-! ## §1. The check -/

/-- Why a text is not a function. -/
inductive FunctionFlaw where
  | malformed (mistake : Grammar.Mistake)
  | notAFunction
  | notOneExpression
deriving DecidableEq, Repr, Inhabited

/-- What is said about a flaw. -/
def FunctionFlaw.message : FunctionFlaw → String
  | malformed mistake => mistake.message
  | notAFunction => "expected a function expression"
  | notOneExpression => "expected a single expression"

/-- Checks that the items of a script are one function expression in parentheses. -/
def checkFunctionItems : List Node → Except FunctionFlaw Unit
  | [.mk .expression _ [.mk .paren _ [.mk .functionExpr _ _]]] => .ok ()
  | [.mk .expression _ _] => .error .notAFunction
  | _ => .error .notOneExpression

/-- Checks that a text, put in parentheses, is a script of one function expression. -/
def checkFunction (text : List Char) : Except FunctionFlaw Unit :=
  match (readProgram ⟨false, false⟩ false ('(' :: text ++ [')'])).toExcept with
  | .error mistake => .error (.malformed mistake)
  | .ok program => checkFunctionItems program.items

/-- The tool that checks a function and leaves it as it is. -/
def normalizeBySyntax (text : List Char) : Except String (List Char) :=
  match checkFunction text with
  | .ok () => .ok text
  | .error flaw => .error flaw.message

/-! ## §2. Functions -/

/-- What stands in front of a body. -/
def functionHead : List Char := "function render () \x7b".toList

/-- A function with a body. -/
def functionText (body : List Char) : List Char := functionHead ++ body ++ ['\x7d']

/-- The text of the render function with a body. -/
def renderFunction {m : Type → Type} [Monad m] (tools : Tools m) (path : String)
    (body : List Char) : Step m (List Char) :=
  useTool path .invalidRenderFunction (tools.normalize (functionText body))

/-- The text of an array of functions with some bodies, in order. -/
def renderFunctions {m : Type → Type} [Monad m] (tools : Tools m) (path : String)
    (bodies : List (List Char)) : Step m (List Char) := do
  let functions ← bodies.mapM (renderFunction tools path)
  return '[' :: [','].intercalate functions ++ [']']

end SingleFile.Component
