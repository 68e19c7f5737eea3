/-
  SingleFile.Component.Failure — PROBLEMS THAT STOP A TRANSFORM
  ─────────────────────────────────────────────────────────────
  Without its template a component is of no use, so a problem with it stops
  the transform; so does a script in an unknown language.
-/

namespace SingleFile.Component

/-- Why a component cannot be transformed. -/
inductive FailureCause where
  | unknownTemplateLanguage (lang : String)
  | unknownScriptLanguage (lang : String)
  | templateCompile (reason : String)
  | markupRender (lang reason : String)
  | invalidRenderFunction (reason : String)
deriving DecidableEq, Repr, Inhabited

/-- What is said about a cause. -/
def FailureCause.message : FailureCause → String
  | unknownTemplateLanguage lang => "unknown <template lang=\"" ++ lang ++ "\">"
  | unknownScriptLanguage lang => "unsupported <script lang=\"" ++ lang ++ "\">"
  | templateCompile reason => "failed to compile template: " ++ reason
  | markupRender lang reason =>
    "failed to render <template lang=\"" ++ lang ++ "\">: " ++ reason
  | invalidRenderFunction reason => "invalid render function: " ++ reason

/-- A component that cannot be transformed. -/
structure Failure where
  /-- The path of the component. -/
  path : String
  cause : FailureCause
deriving DecidableEq, Repr, Inhabited

/-- What is said about a failure. -/
def Failure.message (failure : Failure) : String :=
  failure.path ++ ": " ++ failure.cause.message

end SingleFile.Component
