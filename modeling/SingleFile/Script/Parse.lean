/-
  SingleFile.Script.Parse — PARSING SCRIPTS
  ─────────────────────────────────────────
  Ties the rules of the grammar together.  Each rule gets the rules one level
  down; a level for every few characters is more than any script can use.

  A script is read as a module first; if there is any mistake in it, it is
  read again as a plain script, and only if that has a mistake too the first
  reading's mistake is reported.
-/
import SingleFile.Script.Grammar.Module

namespace SingleFile.Script

open SingleFile.Text Grammar

/-! ## §1. The rules together -/

/-- Answers a goal by its rule. -/
def Grammar.answer (b : Below) {α : Type} (goal : Goal α) : Parser α :=
  match goal with
  | .assignment => assignment b
  | .expression => expression b
  | .unary => unary b
  | .leftHand => leftHand b
  | .operators left floor => operators b left floor
  | .pattern refuseLet => anyPattern b refuseLet
  | .statement declarations => statement b declarations
  | .moduleItem => moduleItem b
  | .type => anyType b
  | .plainType => plainType b
  | .typeOperator => operatorType b

/-- The rules with a number of levels below them. -/
def Grammar.levels : Nat → Below
  | 0 => ⟨fun _ => unexpected "the script is nested too deeply"⟩
  | n + 1 => ⟨fun goal => answer (levels n) goal⟩

/-! ## §2. Whole programs -/

/-- Items up to the end of the text. -/
def Grammar.itemsUntilEnd (item : Parser Node) : Parser (List Node) := collect do
  if ← atEnd then return none else return some (← item)

/-- The items of a program; its first statement may be a directive. -/
def Grammar.programItems (item : Parser Node) : Parser (List Node) := do
  if ← atEnd then return []
  let first ← item
  let strict := isUseStrict first
  let rest ← within (fun m => { m with strict := m.strict || strict }) (itemsUntilEnd item)
  return first :: rest

/-- The characters in front of the first token: a byte order mark, and a first line that names
an interpreter. -/
def programStart (source : List Char) : Cursor :=
  let c : Cursor := ⟨0, source⟩
  match source with
  | '#' :: '!' :: _ => overLine c
  | _ => c

/-- Which language a script is written in. -/
structure Language where
  typed : Bool
  decorators : Bool
deriving DecidableEq, Repr, Inhabited

/-- What a reading of a script came to: the program unless a mistake ended it, with all other
mistakes in order. -/
structure Reading where
  program : Except Mistake Program
  mistakes : List Mistake
deriving Inhabited

/-- Reads a script as a module or as a plain script. -/
def readProgram (language : Language) (isModule : Bool) (source : List Char) : Reading :=
  let mode := Mode.ofProgram language.typed language.decorators isModule
  let blank : Token := ⟨.endOfText, ⟨0, 0⟩, true, [], []⟩
  let state : State := ⟨blank, 0, [], none, []⟩
  let b := levels (16 * source.length + 64)
  let item := b.run (if isModule then .moduleItem else .statement true)
  let all : Parser (List Node) := do
    install (readToken language.typed true (programStart source))
    programItems item
  let (result, state) := ((all.run mode).run).run state
  ⟨result.map fun items => ⟨isModule, items⟩, state.mistakes.reverse⟩

/-- A text without the byte order mark in front. -/
def withoutMark (source : List Char) : List Char :=
  match source with
  | '\uFEFF' :: rest => rest
  | _ => source

/-- The program of a reading without mistakes, or else its first mistake; one that ended the
reading counts before all others. -/
def Reading.toExcept (r : Reading) : Except Mistake Program :=
  match r.program, r.mistakes with
  | .error m, _ => .error m
  | .ok _, m :: _ => .error m
  | .ok program, [] => .ok program

/-- Parses a script. -/
def parse (language : Language) (source : List Char) : Except Mistake Program :=
  let source := withoutMark source
  match (readProgram language true source).toExcept with
  | .ok program => .ok program
  | .error m =>
    match (readProgram language false source).toExcept with
    | .ok program => .ok program
    | .error _ => .error m

end SingleFile.Script
