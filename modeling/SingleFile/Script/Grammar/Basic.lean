/-
  SingleFile.Script.Grammar.Basic — PARSING SCRIPTS, THE GROUNDWORK
  ─────────────────────────────────────────────────────────────────
  A parser reads the mode it runs in, changes a state that holds the current
  token, and may fail.  A failure keeps the state, so a caller can note the
  mistake and read on.

  The grammar is recursive, but no definition of it is: a rule that needs a
  deeper one asks for it by its `Goal`, and gets it from the `Below` it is
  given.  `SingleFile.Script.Parse` ties the knot.
-/
import SingleFile.Script.Syntax
import SingleFile.Script.Token

namespace SingleFile.Script.Grammar

open SingleFile.Text

/-! ## §1. Mode and state -/

/-- Which language is read, and what the surrounding constructs allow. -/
structure Mode where
  /-- Types are part of the language. -/
  typed : Bool
  /-- Decorators are part of the language. -/
  decorators : Bool
  isModule : Bool
  strict : Bool
  /-- Mistakes are passed over in silence, while a reading is only tried. -/
  silent : Bool
  /-- `in` is an operator. -/
  allowIn : Bool
  inAsync : Bool
  inGenerator : Bool
  inFunction : Bool
  /-- A function other than an arrow encloses the code, so `new.target` has a meaning. -/
  hasNewTarget : Bool
  inParameters : Bool
  inClass : Bool
  inClassField : Bool
  inStaticBlock : Bool
  inAmbient : Bool
  inNamespace : Bool
  hasSuperclass : Bool
  allowSuper : Bool
  allowBreak : Bool
  allowContinue : Bool
  topLevel : Bool
  /-- The code is a branch of a conditional. -/
  inConditional : Bool
  /-- A colon that follows belongs to a conditional. -/
  colonAwaited : Bool
  /-- A conditional type needs parentheses. -/
  plainTypes : Bool
deriving Repr, Inhabited

/-- The mode in which a program starts. -/
def Mode.ofProgram (typed decorators isModule : Bool) : Mode where
  typed := typed
  decorators := decorators
  isModule := isModule
  strict := isModule
  silent := false
  allowIn := true
  inAsync := false
  inGenerator := false
  inFunction := false
  hasNewTarget := false
  inParameters := false
  inClass := false
  inClassField := false
  inStaticBlock := false
  inAmbient := false
  inNamespace := false
  hasSuperclass := false
  allowSuper := false
  allowBreak := false
  allowContinue := false
  topLevel := true
  inConditional := false
  colonAwaited := false
  plainTypes := false

/-- A mistake in a script and the offset where it was noticed. -/
structure Mistake where
  offset : Nat
  message : String
deriving DecidableEq, Repr, Inhabited

/-- Where a parser stands. -/
structure State where
  token : Token
  /-- The end of the token before the current one. -/
  lastStop : Nat
  /-- The mistakes noticed so far, the latest first. -/
  mistakes : List Mistake
  /-- Where an arrow function may begin. -/
  arrowStart : Option Nat
  /-- The labels of the enclosing statements. -/
  labels : List String
deriving Repr, Inhabited

/-- A parser; a failure keeps the state. -/
abbrev Parser := ReaderT Mode (ExceptT Mistake (StateM State))

/-- What a deeper rule is asked for, with the type of its answer. -/
inductive Goal : Type → Type where
  | assignment : Goal Node
  | expression : Goal Node
  | unary : Goal Node
  /-- What can stand on the left of an assignment or be called. -/
  | leftHand : Goal Node
  /-- The operators of at least a strength behind a left operand. -/
  | operators (left : Node) (floor : Nat) : Goal Node
  | pattern (refuseLet : Bool) : Goal Node
  /-- A statement, or with `declarations` also a declaration. -/
  | statement (declarations : Bool) : Goal Node
  /-- An item of a module or namespace. -/
  | moduleItem : Goal Node
  | type : Goal Unit
  /-- A type that is no conditional type. -/
  | plainType : Goal Unit
  | typeOperator : Goal Unit

/-- The rules one level down. -/
structure Below where
  run : {α : Type} → Goal α → Parser α

/-! ## §2. Tokens -/

/-- The current token. -/
def token : Parser Token := return (← get).token

/-- What the current token is. -/
def lexeme : Parser Lexeme := return (← get).token.lexeme

/-- Where the current token starts. -/
def here : Parser Nat := return (← get).token.span.start

/-- Where the last token stopped. -/
def lastStop : Parser Nat := return (← get).lastStop

/-- The span from an offset to the end of the last token. -/
def spanFrom (start : Nat) : Parser Span := return ⟨start, (← get).lastStop⟩

/-- Whether a notice counts as a mistake in a mode. -/
def Mode.heeds (mode : Mode) (notice : Notice) : Bool :=
  !mode.silent && match notice.scope with
    | .everywhere => true
    | .strictCode => mode.strict
    | .modules => mode.isModule

/-- Makes a token the current one and takes note of its mistakes. -/
def install (next : Token) : Parser Unit := do
  let mode ← read
  let noted := (next.notices.filter mode.heeds).map fun n => ⟨n.offset, "malformed token"⟩
  modify fun s => { s with token := next, mistakes := noted.reverse ++ s.mistakes }

/-- Moves on to the next token. -/
def advance : Parser Unit := do
  let mode ← read
  let current ← token
  modify fun s => { s with lastStop := current.span.stop }
  install (readToken mode.typed false ⟨current.span.stop, current.rest⟩)

/-- The token behind the current one. -/
def ahead : Parser Token := do
  let current ← token
  return readToken (← read).typed false ⟨current.span.stop, current.rest⟩

/-- Whether the current token is a punctuator. -/
def atPunct (text : String) : Parser Bool := return (← lexeme).isPunct text

/-- Whether the current token is one of some punctuators. -/
def atPuncts (texts : List String) : Parser Bool :=
  return texts.any (← lexeme).isPunct

/-- Whether the current token is a word. -/
def atWord (text : String) : Parser Bool := return (← lexeme).isWord text

/-- Whether the current token is one of some words. -/
def atWords (texts : List String) : Parser Bool := return texts.any (← lexeme).isWord

/-- Whether the current token is any word. -/
def atAnyWord : Parser Bool := return (← lexeme).isAnyWord

/-- Whether the text is at its end. -/
def atEnd : Parser Bool := return (← lexeme) == .endOfText

/-- Whether a line ended before the current token. -/
def afterNewline : Parser Bool := return (← get).token.newlineBefore

/-- Whether the token behind the current one is a punctuator. -/
def aheadPunct (text : String) : Parser Bool := return (← ahead).lexeme.isPunct text

/-- Whether the token behind the current one is a word. -/
def aheadWord (text : String) : Parser Bool := return (← ahead).lexeme.isWord text

/-- Takes the current token if it is a punctuator. -/
def eatPunct (text : String) : Parser Bool := do
  if ← atPunct text then
    advance
    return true
  else return false

/-- Takes the current token if it is a word. -/
def eatWord (text : String) : Parser Bool := do
  if ← atWord text then
    advance
    return true
  else return false

/-- Takes the current token if it is a punctuator and may be taken. -/
def eatPunctIf (allowed : Bool) (text : String) : Parser Bool := do
  if allowed then eatPunct text else return false

/-- Takes the current token if it is a word and may be taken. -/
def eatWordIf (allowed : Bool) (text : String) : Parser Bool := do
  if allowed then eatWord text else return false

/-- Takes the current token if it is one of some punctuators. -/
def eatPuncts (texts : List String) : Parser Bool := do
  if ← atPuncts texts then
    advance
    return true
  else return false

/-- Takes the current token if it is one of some words. -/
def eatWords (texts : List String) : Parser Bool := do
  if ← atWords texts then
    advance
    return true
  else return false

/-! ## §3. Mistakes -/

/-- Takes note of a mistake and reads on. -/
def note (offset : Nat) (message : String) : Parser Unit := do
  if (← read).silent then return ()
  modify fun s => { s with mistakes := ⟨offset, message⟩ :: s.mistakes }

/-- Takes note of a mistake that is one in strict code only. -/
def noteStrict (offset : Nat) (message : String) : Parser Unit := do
  if (← read).strict then note offset message

/-- Takes note of a mistake that made a rule fail. -/
def noteMistake (m : Mistake) : Parser Unit := note m.offset m.message

/-- Fails at an offset. -/
def failAt {α : Type} (offset : Nat) (message : String) : Parser α :=
  throw ⟨offset, message⟩

/-- Fails at the current token. -/
def unexpected {α : Type} (message : String) : Parser α := do
  match ← lexeme with
  | .broken offset => failAt offset "malformed token"
  | _ => failAt (← here) message

/-- Takes a punctuator that has to come next. -/
def expectPunct (text : String) : Parser Unit := do
  if ← atPunct text then advance else unexpected ("expected " ++ text)

/-- Takes a word that has to come next. -/
def expectWord (text : String) : Parser Unit := do
  if ← atWord text then advance else unexpected ("expected " ++ text)

/-! ## §4. The end of a statement -/

/-- Whether a statement may end here: at a semicolon, before a closing brace, at the end of the
text or of a line. -/
def atStatementEnd : Parser Bool := do
  return (← atPunct ";") || (← atPunct "\x7d") || (← atEnd) || (← afterNewline)

/-- Ends a statement if it may end here. -/
def eatSemicolon : Parser Bool := do
  if ← eatPunct ";" then return true else atStatementEnd

/-- Ends a statement, which has to be possible. -/
def expectSemicolon : Parser Unit := do
  if ← eatSemicolon then return () else unexpected "expected ;"

/-! ## §5. Trying and repeating -/

/-- Runs a parser in another mode. -/
def within {α : Type} (change : Mode → Mode) (p : Parser α) : Parser α := withReader change p

/-- Tries a reading of typed scripts: its mistakes are passed over, and where it fails or finds
nothing the parser is back where it was. -/
def attempt {α : Type} (p : Parser (Option α)) : Parser (Option α) := do
  if (← read).typed then
    let before ← get
    -- A failure leaves the state where it happened; the one before is put back.
    let result ← try within (fun m => { m with silent := true }) p catch _ => pure none
    if result.isNone then set before
    return result
  else return none

/-- Tells what a parser finds, without moving on. -/
def peekFor (p : Parser Bool) : Parser Bool := do
  let before ← get
  let result ← try within (fun m => { m with silent := true }) p catch _ => pure false
  set before
  return result

/-- Repeats a step until it is done.  Each step but the last takes a token, so the number of
characters ahead bounds the steps. -/
def repeatStep {σ β : Type} (step : σ → Parser (σ ⊕ β)) : Nat → σ → Parser β
  | 0, _ => unexpected "too many steps"
  | bound + 1, s => do
    match ← step s with
    | .inl s => repeatStep step bound s
    | .inr b => return b

/-- Repeats a step until it is done. -/
def iterate {σ β : Type} (start : σ) (step : σ → Parser (σ ⊕ β)) : Parser β := do
  let current ← token
  repeatStep step (current.rest.length + 3) start

/-- Collects items, in order, until a step yields none. -/
def collect {α : Type} (step : Parser (Option α)) : Parser (List α) :=
  iterate ([] : List α) fun items => do
    match ← step with
    | some item => return .inl (item :: items)
    | none => return .inr items.reverse

/-! ## §6. Names -/

/-- Whether a word is reserved in a mode. -/
def Mode.reserves (mode : Mode) (word : String) : Bool :=
  if word == "let" then mode.strict
  else if word == "await" then mode.inAsync || mode.inStaticBlock || mode.isModule
  else if word == "yield" then mode.inGenerator || mode.strict
  else if reservedWords.contains word then true
  else mode.strict && strictReservedWords.contains word && word != "static"

/-- Whether the current token is a word that can be a name here. -/
def atName : Parser Bool := do
  match ← lexeme with
  | .word text _ => return !(← read).reserves text
  | _ => return false

/-- Takes any word, reserved or not. -/
def anyWord : Parser Name := do
  match ← lexeme with
  | .word text _ =>
    let span := (← token).span
    advance
    return ⟨text, span⟩
  | _ => unexpected "expected a name"

/-- Takes a word that is to be a name, with `yield` and `await` where they are allowed as
names. -/
def name (allowYield allowAwait : Bool) : Parser Name := do
  let start ← here
  let mode ← read
  match ← lexeme with
  | .word text _ =>
    if text == "enum" then
      note start "enum is reserved"
      anyWord
    else if strictReservedWords.contains text && text != "yield" then
      noteStrict start "the word is reserved in strict code"
      anyWord
    else if text == "await" then
      if mode.inAmbient then anyWord
      else if mode.inStaticBlock || mode.isModule || mode.inAsync then
        unexpected "await is reserved here"
      else if allowAwait then anyWord
      else unexpected "expected a name"
    else if text == "yield" then
      noteStrict start "the word is reserved in strict code"
      if allowYield then anyWord else unexpected "expected a name"
    else if text == "this" && mode.typed then anyWord
    else if reservedWords.contains text then unexpected "expected a name"
    else
      if text == "arguments" && mode.inClassField && !mode.inFunction then
        note start "arguments has no meaning in a class field"
      anyWord
  | _ => unexpected "expected a name"

/-- Whether strict code refuses to bind a name. -/
def isStrictOnlyName (text : String) : Bool := text == "eval" || text == "arguments"

/-- Takes a name that is being bound. -/
def bindingName (refuseLet : Bool) : Parser Name := do
  if refuseLet && (← atWord "let") then unexpected "let cannot be bound here"
  let found ← name true true
  if isStrictOnlyName found.text then
    noteStrict found.span.start "strict code cannot bind the name"
  let mode ← read
  if (mode.inAsync || mode.inStaticBlock) && found.text == "await" then
    note found.span.start "expected a name"
  if mode.inGenerator && found.text == "yield" then
    note found.span.start "expected a name"
  return found

/-- The node of a name that refers to something. -/
def identNode (n : Name) : Node := Node.leaf (.ident n.text) n.span

/-- The node of a bound name. -/
def bindingNode (n : Name) : Node := Node.leaf (.binding n.text false) n.span

end SingleFile.Script.Grammar
