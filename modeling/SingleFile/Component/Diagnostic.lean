/-
  SingleFile.Component.Diagnostic — PROBLEMS THAT STOP NOTHING
  ────────────────────────────────────────────────────────────
  A transform goes on after a diagnostic.  Each is told with the file it is
  about and, where there is one, the line.
-/
import SingleFile.Config.Failure

namespace SingleFile.Component

/-! ## §1. Codes -/

/-- What a diagnostic is about. -/
inductive DiagnosticCode where
  /-- A part of the file was passed over. -/
  | blockExtraction
  /-- A configuration file could not be used. -/
  | invalidConfig
  /-- The script could not be rewritten; the module has none. -/
  | scriptTranspile
deriving DecidableEq, Repr, Inhabited

/-- How bad a diagnostic is. -/
inductive Severity where
  | warning
  | error
deriving DecidableEq, Repr, Inhabited

/-- The text of a code. -/
def DiagnosticCode.text : DiagnosticCode → String
  | blockExtraction => "block-extraction"
  | invalidConfig => "invalid-config"
  | scriptTranspile => "script-transpile"

/-- How bad diagnostics of a code are. -/
def DiagnosticCode.severity : DiagnosticCode → Severity
  | blockExtraction => .warning
  | invalidConfig => .warning
  | scriptTranspile => .error

/-! ## §2. Diagnostics -/

/-- A problem that was found. -/
structure Diagnostic where
  code : DiagnosticCode
  message : String
  /-- The component, or the configuration file at fault. -/
  file : Option String
  /-- The line in the file, counted from 1. -/
  line : Option Nat
deriving DecidableEq, Repr, Inhabited

namespace Diagnostic

/-- How bad a diagnostic is. -/
def severity (d : Diagnostic) : Severity := d.code.severity

/-- The place a diagnostic is about, as shown in front of its message. -/
def place (d : Diagnostic) : String :=
  match d.file, d.line with
  | some file, some line => file ++ ":" ++ Nat.repr line ++ ": "
  | some file, none => file ++ ": "
  | none, _ => ""

/-- A diagnostic as it is shown. -/
def display (d : Diagnostic) : String := d.place ++ d.message ++ " [" ++ d.code.text ++ "]"

/-- The warning that a configuration file cannot be used. -/
def ofConfigFailure (failure : Config.Failure) : Diagnostic :=
  ⟨.invalidConfig, failure.message, some failure.path.text, none⟩

end Diagnostic

end SingleFile.Component
