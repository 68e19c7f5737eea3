/-
  SingleFile.Script.Edit — EDITS THAT KEEP LINES IN PLACE
  ───────────────────────────────────────────────────────
  What is to be done to a script is recorded as a list of actions and done
  in one go.  Every action keeps the number of line feeds of the text it
  touches, so line `n` of the result is line `n` of the script.

  Main statement: blanking keeps the line feeds (`count_blankText`).
-/
import SingleFile.Text.Span

namespace SingleFile.Script

open SingleFile.Text

/-! ## §1. Actions and edits -/

/-- The constructs of typed scripts that are refused. -/
inductive Construct where
  | namespace
  | decorator
deriving DecidableEq, Repr, Inhabited

/-- What a construct is called. -/
def Construct.name : Construct → String
  | .namespace => "namespace"
  | .decorator => "decorator"

/-- Something to be done to a script. -/
inductive Action where
  /-- Inserts text without line feeds. -/
  | insert (offset : Nat) (text : String)
  /-- Replaces all characters but line ends by spaces. -/
  | blank (start stop : Nat)
  /-- Replaces a range by text with no more line feeds than it has. -/
  | replace (start stop : Nat) (text : String)
  /-- Refuses a construct that begins at an offset. -/
  | refuse (construct : Construct) (offset : Nat)
  /-- Cuts the text at an offset, to see what stands around it. -/
  | look (offset : Nat)
deriving DecidableEq, Repr, Inhabited

/-- A range of a text with what stands in its place. -/
structure Edit where
  start : Nat
  stop : Nat
  text : List Char
deriving DecidableEq, Repr, Inhabited

/-- A text with all characters but line feeds and carriage returns made spaces. -/
def blankText (cs : List Char) : List Char :=
  cs.map fun c => if c == '\n' || c == '\r' then c else ' '

/-- Blanking keeps the line feeds. -/
theorem count_blankText (cs : List Char) : (blankText cs).count '\n' = cs.count '\n' := by
  induction cs with
  | nil => rfl
  | cons c cs ih =>
    have hs : (' ' == '\n') = false := by decide
    by_cases hn : c = '\n'
    · subst hn
      simpa [blankText] using ih
    · by_cases hr : c = '\r'
      · subst hr
        simpa [blankText] using ih
      · simpa [blankText, hn, hr, hs] using ih

/-- Blanking keeps the number of characters. -/
theorem length_blankText (cs : List Char) : (blankText cs).length = cs.length := by
  simp [blankText]

/-- A text followed by the line feeds it lacks in comparison with the text it replaces. -/
def padded (replaced text : List Char) : List Char :=
  text ++ List.replicate (replaced.count '\n' - text.count '\n') '\n'

/-! ## §2. From actions to edits -/

/-- The edits an action comes to; nothing where it would cut the text inside a character or behind
its end. -/
def Action.edits? (source : List Char) : Action → Option (List Edit)
  | .insert offset text => some [⟨offset, offset, text.toList⟩]
  | .blank start stop =>
    -- Nothing stands in a range that is the wrong way round.
    if stop ≤ start then some []
    else (slice? source start stop).map fun old => [⟨start, stop, blankText old⟩]
  | .replace start stop text =>
    (slice? source start stop).map fun old => [⟨start, stop, padded old text.toList⟩]
  | .refuse _ _ => some []
  | .look offset => (splitAt? source offset).map fun _ => []

/-- The edits of some actions, in the order of the actions. -/
def editsOf? (source : List Char) : List Action → Option (List Edit)
  | [] => some []
  | a :: rest => do
    let first ← a.edits? source
    let others ← editsOf? source rest
    return first ++ others

/-! ## §3. Doing the edits -/

/-- Whether an edit comes before another one: it starts first, or it starts with it and stops
first. -/
def Edit.comesBefore (a b : Edit) : Bool :=
  a.start < b.start || (a.start == b.start && a.stop ≤ b.stop)

/-- Does sorted edits to the rest of a text that begins at an offset.  An edit that begins
before the end of an earlier one is dropped. -/
def applyFrom : Nat → List Char → List Edit → Option (List Char)
  | _, rest, [] => some rest
  | offset, rest, e :: es =>
    -- What an earlier edit has replaced is gone, and nothing in it can be edited any more.
    if e.start < offset then applyFrom offset rest es
    else do
      let (kept, rest) ← splitAt? rest (e.start - offset)
      let (_, rest) ← splitAt? rest (e.stop - e.start)
      let after ← applyFrom e.stop rest es
      return kept ++ e.text ++ after

/-- Does edits to a text; those at one place are done in the order they were recorded. -/
def applyEdits (source : List Char) (edits : List Edit) : Option (List Char) :=
  applyFrom 0 source (edits.mergeSort Edit.comesBefore)

end SingleFile.Script
