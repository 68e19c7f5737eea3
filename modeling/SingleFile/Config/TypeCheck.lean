/-
  SingleFile.Config.TypeCheck — TYPE-CHECK CONFIGURATION
  ──────────────────────────────────────────────────────
  Only the compiler options that change what a script is rewritten to are
  read.  A file may name a base, which gives the options it leaves open.
-/
import SingleFile.Json.Decode

namespace SingleFile.Config

open SingleFile.Json

/-- The compiler options. -/
structure CompilerOptions where
  /-- The module system. -/
  moduleSystem : Option String
  /-- Whether default imports go through a helper. -/
  interop : Option Bool
  /-- Whether imports stay that are used as types only. -/
  verbatim : Option Bool
deriving DecidableEq, Repr, Inhabited

namespace CompilerOptions

/-- Options that are all left open. -/
def unset : CompilerOptions := ⟨none, none, none⟩

/-- Options with those of a base where they are left open. -/
def inherit (own base : CompilerOptions) : CompilerOptions :=
  ⟨own.moduleSystem.or base.moduleSystem, own.interop.or base.interop,
    own.verbatim.or base.verbatim⟩

/-- Reads compiler options. -/
def decoder : Decoder CompilerOptions := fun levels t => do
  match ← recordFields? ["module", "esModuleInterop", "verbatimModuleSyntax"] levels t with
  | [moduleSystem, interop, verbatim] =>
    return ⟨← moduleSystem.optional Decoder.text, ← interop.optional Decoder.bool,
      ← verbatim.optional Decoder.bool⟩
  | _ => none

end CompilerOptions

/-- A type-check configuration. -/
structure TypeCheck where
  /-- The path or package of a base. -/
  base : Option String
  options : CompilerOptions
deriving DecidableEq, Repr, Inhabited

/-- Reads a configuration. -/
def TypeCheck.decoder : Decoder TypeCheck := fun levels t => do
  match ← recordFields? ["extends", "compilerOptions"] levels t with
  | [base, options] =>
    return ⟨← base.optional Decoder.text,
      ← options.withDefault CompilerOptions.decoder CompilerOptions.unset⟩
  | _ => none

end SingleFile.Config
