/-
  SingleFile.Script.Helper — HELPER FUNCTIONS OF LOWERED MODULES
  ──────────────────────────────────────────────────────────────
  A lowered module may need a function to read another module's default or to
  pass its exports on.  The function is declared once at the top, or written
  out wherever it is called.
-/

namespace SingleFile.Script

/-- The helper functions. -/
inductive Helper where
  /-- Gives every module a default. -/
  | interopDefault
  /-- Copies a module's exports. -/
  | exportStar
deriving DecidableEq, Repr, Inhabited

/-- How a script gets at its helpers. -/
inductive HelperMode where
  /-- Declared once and called by name. -/
  | shared
  /-- Written out at each call. -/
  | inline
deriving DecidableEq, Repr, Inhabited

namespace Helper

/-- What a helper is called. -/
def name : Helper → String
  | interopDefault => "__sfc_interopDefault"
  | exportStar => "__sfc_exportStar"

/-- The parameters of a helper. -/
def parameters : Helper → String
  | interopDefault => "(m)"
  | exportStar => "(m, e)"

/-- The body of a helper. -/
def body : Helper → String
  | interopDefault => "\x7b return m && m.__esModule ? m : \x7b default: m \x7d; \x7d"
  | exportStar =>
    "\x7b Object.keys(m).forEach(function (k) \x7b if (k !== \"default\" && "
      ++ "!Object.prototype.hasOwnProperty.call(e, k)) e[k] = m[k]; \x7d); return m; \x7d"

/-- The declaration of a helper. -/
def declaration (h : Helper) : String := "function " ++ h.name ++ h.parameters ++ " " ++ h.body

/-- A call of a helper. -/
def call (h : Helper) (mode : HelperMode) (arguments : String) : String :=
  match mode with
  | .shared => h.name ++ "(" ++ arguments ++ ")"
  | .inline => "(function " ++ h.parameters ++ " " ++ h.body ++ ")(" ++ arguments ++ ")"

end Helper

end SingleFile.Script
