/-
  SingleFile.Script.Rewrite — REWRITING A SCRIPT
  ──────────────────────────────────────────────
  A script is parsed, the actions of its module form and of its types are
  collected, and all of them are done to the text at once.  Every line of the
  result has the number it had before.
-/
import SingleFile.Script.Lowering
import SingleFile.Script.Parse

namespace SingleFile.Script

open SingleFile.Text Grammar

/-! ## §1. Failures -/

/-- Why a script cannot be rewritten. -/
inductive RewriteError where
  | malformed (mistake : Mistake)
  | unsupported (construct : Construct) (offset : Nat)
deriving DecidableEq, Repr, Inhabited

/-- How a computation ends that gives no result. -/
inductive Halt (ε : Type) where
  /-- It fails, and its caller goes on from there. -/
  | failed (error : ε)
  /-- It panics, and so does everything that called it. -/
  | panicked
deriving DecidableEq, Repr, Inhabited

/-- An end with another way to put its failure. -/
def Halt.map {ε ε' : Type} (f : ε → ε') : Halt ε → Halt ε'
  | failed error => failed (f error)
  | panicked => panicked

/-! ## §2. Plans -/

/-- What is to be done to a script. -/
structure Plan where
  actions : List Action
  /-- The statements in front of everything else. -/
  prologue : String
deriving Repr, Inhabited

/-- The lowering of a module's items, and what it asks for. -/
def lowered (options : RewriteOptions) (source : List Char) (items : List Node) : Lowering :=
  let known : Module :=
    { source := source
      options := options
      references := if options.elideImports then some (valueNamesOf items) else none
      typeNames := items.flatMap typeNames }
  (((lowerItems items).run known).run Lowering.start).2

/-- The statements in front of a lowered module. -/
def modulePrologue (options : RewriteOptions) (items : List Node) (l : Lowering) : String :=
  let form :=
    if options.form == .commonJs && items.any isModuleItem then
      "\"use strict\";" ++ (if l.hasExports then
        "Object.defineProperty(exports, \"__esModule\", \x7b value: true \x7d);" else "")
    else ""
  form ++ String.join (l.helpers.map Helper.declaration)

/-- What a program asks for. -/
def planOf (options : RewriteOptions) (source : List Char) (program : Program) : Plan :=
  if program.isModule then
    let l := lowered options source program.items
    -- The lists of actions were recorded the latest first.
    ⟨l.actions.reverse.flatten, modulePrologue options program.items l⟩
  else ⟨eraseAll source program.items, ""⟩

/-- The first refusal among some actions. -/
def firstRefusal? : List Action → Option (Construct × Nat)
  | [] => none
  | .refuse construct offset :: _ => some (construct, offset)
  | _ :: rest => firstRefusal? rest

/-- Carries out a plan, unless it refuses something.  A cut inside a character, while the actions
are collected or while the edits are done, is a panic. -/
def Plan.carryOut (plan : Plan) (source : List Char) : Except (Halt RewriteError) (List Char) :=
  match editsOf? source plan.actions, firstRefusal? plan.actions with
  | none, _ => .error .panicked
  | some _, some (construct, offset) => .error (.failed (.unsupported construct offset))
  | some edits, none =>
    let front := if plan.prologue.isEmpty then [] else [⟨0, 0, plan.prologue.toList⟩]
    match applyEdits source (edits ++ front) with
    | some text => .ok text
    | none => .error .panicked

/-- Rewrites a script. -/
def rewrite (options : RewriteOptions) (source : List Char) :
    Except (Halt RewriteError) (List Char) :=
  match parse ⟨options.typed, true⟩ source with
  | .error m => .error (.failed (.malformed m))
  | .ok program => (planOf options source program).carryOut source

end SingleFile.Script
