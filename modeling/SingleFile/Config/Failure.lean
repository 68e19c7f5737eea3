/-
  SingleFile.Config.Failure — CONFIGURATION THAT CANNOT BE USED
  ─────────────────────────────────────────────────────────────
  A failure names the file at fault.  It never stops a transform: it is
  reported, and the configuration counts as missing.
-/
import SingleFile.Files.Path

namespace SingleFile.Config

open SingleFile.Files

/-- What is not supported in a configuration file. -/
inductive Restriction where
  /-- A script that exports something else than an object. -/
  | notAnObject
  /-- A script whose object holds something that would have to be evaluated. -/
  | notLiteral
  /-- A script that exports nothing. -/
  | noExport
  /-- A chain of base files that is too long. -/
  | tooManyBases
deriving DecidableEq, Repr, Inhabited

/-- What is said about a restriction. -/
def Restriction.message : Restriction → String
  | notAnObject => "only configuration files exporting an object literal are supported"
  | notLiteral => "configuration must only contain literal values"
  | noExport => "no \x60module.exports\x60 or \x60export default\x60 found"
  | tooManyBases => "too many nested \x60extends\x60"

/-- Why a configuration file cannot be used. -/
inductive FailureCause where
  | unreadable
  | malformed
  | unsupported (restriction : Restriction)
deriving DecidableEq, Repr, Inhabited

/-- A configuration file that cannot be used. -/
structure Failure where
  path : Path
  cause : FailureCause
deriving DecidableEq, Repr, Inhabited

/-- What is said about a failure in front of its details. -/
def Failure.summary (failure : Failure) : String :=
  match failure.cause with
  | .unreadable => "failed to read " ++ failure.path.text
  | .malformed => "failed to parse " ++ failure.path.text
  | .unsupported _ => failure.path.text

/-- What a failure was caused by, in words. -/
def FailureCause.detail : FailureCause → String
  | unreadable => "the file is no text"
  | malformed => "the file is no configuration"
  | unsupported restriction => restriction.message

/-- What is said about a failure. -/
def Failure.message (failure : Failure) : String :=
  failure.summary ++ ": " ++ failure.cause.detail

end SingleFile.Config
