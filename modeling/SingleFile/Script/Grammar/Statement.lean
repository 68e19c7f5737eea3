/-
  SingleFile.Script.Grammar.Statement — STATEMENTS
  ────────────────────────────────────────────────
  A statement begins with a word of its own, or it is an expression; an
  expression that is a single name may turn out to be a label, or the first
  word of a declaration of typed scripts.
-/
import SingleFile.Script.Grammar.Declaration

namespace SingleFile.Script.Grammar

open SingleFile.Text

/-! ## §1. Pieces -/

/-- An expression with every operator. -/
def fullExpression (b : Below) : Parser Node :=
  within (fun m => { m with allowIn := true }) (b.run .expression)

/-- An expression in the parentheses that a statement requires. -/
def headExpression (b : Below) : Parser Node := do
  expectPunct "("
  let found ← fullExpression b
  expectPunct ")"
  return found

/-- The body of a loop. -/
def loopBody (b : Below) : Parser Node :=
  within (fun m => { m with allowBreak := true, allowContinue := true })
    (b.run (.statement false))

/-! ## §2. Jumps -/

/-- A jump out of or to the start of a loop, or out of a labelled statement. -/
def jump (isBreak : Bool) : Parser Node := do
  let start ← here
  advance
  let label ← if ← eatSemicolon then pure none else do
      let found ← name true true
      expectSemicolon
      pure (some found)
  let mode ← read
  let labels := (← get).labels
  let known := match label with
    | some found => labels.contains found.text
    | none => true
  let allowed := if isBreak then mode.allowBreak else mode.allowContinue
  if !known || !allowed then note start "there is nothing to jump to"
  return Node.mk (if isBreak then .breakStmt else .continueStmt) (← spanFrom start)
    (label.map identNode).toList

/-- The end of a function. -/
def returnStatement (b : Below) : Parser Node := do
  let start ← here
  advance
  let value ← if ← atStatementEnd then pure [] else do
      let found ← fullExpression b
      pure [found]
  expectSemicolon
  if !(← read).inFunction then note start "return stands outside a function"
  return Node.mk .returnStmt (← spanFrom start) value

/-- The throwing of an error, which has to be on the same line. -/
def throwStatement (b : Below) : Parser Node := do
  let start ← here
  advance
  if ← afterNewline then unexpected "no line may end after throw"
  let value ← fullExpression b
  expectSemicolon
  return Node.mk .throwStmt (← spanFrom start) [value]

/-! ## §3. Branches -/

/-- A statement that runs under a condition. -/
def ifStatement (b : Below) : Parser Node := do
  let start ← here
  advance
  expectPunct "("
  let test ← fullExpression b
  if !(← eatPunct ")") then note (← here) "expected )"
  let first ← b.run (.statement false)
  if ← eatWord "else" then
    let second ← b.run (.statement false)
    return Node.mk .ifStmt (← spanFrom start) [test, first, second]
  else return Node.mk .ifStmt (← spanFrom start) [test, first]

/-- A case of a switch. -/
def switchCase (b : Below) (defaultSeen : Bool) : Parser (Node × Bool) := do
  let start ← here
  let isDefault ← atWord "default"
  advance
  let test ← if isDefault then do
      if defaultSeen then unexpected "there are two defaults"
      pure []
    else do
      let found ← fullExpression b
      pure [found]
  expectPunct ":"
  let items ← collect do
    if (← atEnd) || (← atPunct "\x7d") || (← atWords ["case", "default"]) then return none
    return some (← b.run (.statement true))
  return (Node.mk .switchCase (← spanFrom start) (test ++ items), isDefault)

/-- A choice among cases. -/
def switchStatement (b : Below) : Parser Node := do
  let start ← here
  advance
  let value ← headExpression b
  expectPunct "\x7b"
  let cases ← within (fun m => { m with allowBreak := true, topLevel := false }) <|
    iterate (([] : List Node), false) fun (items, defaultSeen) => do
      if ← atWords ["case", "default"] then
        let (item, isDefault) ← switchCase b defaultSeen
        return .inl (item :: items, defaultSeen || isDefault)
      else return .inr items.reverse
  expectPunct "\x7d"
  return Node.mk .switchStmt (← spanFrom start) (value :: cases)

/-- The parameter and block behind `catch`. -/
def catchClause (b : Below) : Parser Node := do
  let start ← here
  advance
  let params ← if ← eatPunct "(" then do
      let patternStart ← here
      let pattern ← b.run (.pattern false)
      let clause ← typeClause? b
      let pattern := annotated pattern clause patternStart (← lastStop)
      expectPunct ")"
      pure [pattern]
    else pure []
  let body ← block b false
  return Node.mk .catchClause (← spanFrom start) (params ++ [body])

/-- The handlers behind a block: what is caught, and what runs in any case. -/
def handlers (b : Below) : Parser (List Node) := do
  let caught ← if ← atWord "catch" then do
      let clause ← catchClause b
      pure [clause]
    else pure []
  if ← eatWord "finally" then
    let last ← block b false
    return caught ++ [last]
  else return caught

/-- A block whose errors are handled. -/
def tryStatement (b : Below) : Parser Node := do
  let start ← here
  advance
  let body ← block b false
  let offset ← here
  let rest ← handlers b
  if rest.isEmpty then note offset "expected catch or finally"
  return Node.mk .tryStmt (← spanFrom start) (body :: rest)

/-- Handlers that no block stands in front of. -/
def strayHandlers (b : Below) : Parser Node := do
  let start ← here
  note start "expected try"
  let found ← handlers b
  return Node.mk .tryStmt (← spanFrom start) found

/-! ## §4. Loops -/

/-- A loop that tests first. -/
def whileStatement (b : Below) : Parser Node := do
  let start ← here
  advance
  let test ← headExpression b
  let body ← loopBody b
  return Node.mk .whileStmt (← spanFrom start) [test, body]

/-- A loop that tests last. -/
def doStatement (b : Below) : Parser Node := do
  let start ← here
  advance
  let body ← loopBody b
  expectWord "while"
  let test ← headExpression b
  let _ ← eatSemicolon
  return Node.mk .doWhileStmt (← spanFrom start) [body, test]

/-- What the head of a loop makes of it. -/
structure LoopHead where
  kind : Kind
  parts : List Node
deriving Inhabited

/-- The head of a loop over the elements or keys of something, behind its left side. -/
def elementsHead (b : Below) (left : Node) : Parser LoopHead := do
  if ← eatWord "of" then
    let right ← within (fun m => { m with allowIn := true }) (b.run .assignment)
    return ⟨.forOfStmt, [left, right]⟩
  else
    advance
    let right ← fullExpression b
    return ⟨.forInStmt, [left, right]⟩

/-- The head of a loop behind its first semicolon. -/
def countingHead (b : Below) (first : List Node) : Parser LoopHead := do
  let test ← if ← eatPunct ";" then pure [] else do
      let found ← fullExpression b
      expectPunct ";"
      pure [found]
  let step ← if ← atPunct ")" then pure [] else do
      let found ← fullExpression b
      pure [found]
  return ⟨.forStmt, first ++ test ++ step⟩

/-- Checks the variables of a loop over elements or keys: there is one, which has no value and
no annotation. -/
def checkHeadVariables (declaration : Node) : Parser Unit := do
  let mode ← read
  match declaration.children with
  | [.mk _ _ (pattern :: rest)] => do
    if (mode.strict || (← atWord "of")) && !rest.isEmpty then
      note pattern.start "the variable of the loop has no value"
    let annotated := pattern.children.any fun c => c.kind == .typeClause
    if mode.typed && annotated then note pattern.start "the variable of the loop has no annotation"
  | _ :: others =>
    for other in others do note other.start "the loop has one variable"
  | [] => return ()

/-- The resource that a loop over elements declares. -/
def loopResource? (start : Nat) : Parser (Option Node) := attempt do
  let _ ← eatWord "await"
  expectWord "using"
  if ← atWord "of" then return none
  let found ← bindingName false
  if !(← atWord "of") then return none
  let item := Node.mk (.declarator false) found.span [bindingNode found]
  return some (Node.mk .usingDecl (← spanFrom start) [item])

/-- The head of a `for` loop, between its parentheses. -/
def loopHead (b : Below) : Parser LoopHead := do
  let start ← here
  if let some word := ← variableWord? then
    let declaration ← variableDeclaration b word true
    if ← atWords ["of", "in"] then
      checkHeadVariables declaration
      return ← elementsHead b declaration
    expectPunct ";"
    return ← countingHead b [declaration]
  if ← eatPunct ";" then return ← countingHead b []
  if let some resource := ← loopResource? start then return ← elementsHead b resource
  -- Read as an expression first; `of` or `in` behind it makes it a pattern.
  let first ← within (fun m => { m with allowIn := false }) (b.run .expression)
  if ← atWords ["of", "in"] then
    let target ← patternOf .assigning first
    let isPattern := match target.kind with
      | .arrayPattern _ => true
      | .objectPattern _ => true
      | _ => false
    if (← read).typed && (← atWord "in") && isPattern then
      note target.start "the keys of something need a plain variable"
    return ← elementsHead b target
  expectPunct ";"
  checkDefaults first
  countingHead b [first]

/-- A loop with a head. -/
def forStatement (b : Below) : Parser Node := do
  let start ← here
  advance
  let awaitStart ← here
  let waits ← eatWord "await"
  expectPunct "("
  let head ← loopHead b
  expectPunct ")"
  let body ← loopBody b
  if waits && head.kind != .forOfStmt then failAt awaitStart "only a loop over elements waits"
  return Node.mk head.kind (← spanFrom start) (head.parts ++ [body])

/-! ## §5. Other statements -/

/-- Statements with the properties of an object in scope, which strict code does not have. -/
def withStatement (b : Below) : Parser Node := do
  let start ← here
  if (← read).typed then note start "typed scripts have no with"
  noteStrict start "strict code has no with"
  advance
  let value ← headExpression b
  let body ← within (fun m => { m with inFunction := true }) (b.run (.statement false))
  return Node.mk .withStmt (← spanFrom start) [value, body]

/-- A statement behind a label and its colon. -/
def labelled (b : Below) (label : Node) (text : String) : Parser Node :=
  within (fun m => { m with allowBreak := true }) do
    let labels := (← get).labels
    if labels.contains text then note label.start "the label is taken"
    modify fun s => { s with labels := text :: s.labels }
    let body ← if ← atWord "function" then do
        let declaration ← functionDeclaration b []
        noteStrict declaration.start "strict code labels no functions"
        pure declaration
      else b.run (.statement false)
    modify fun s => { s with labels := labels }
    return Node.mk .labeled (← spanFrom label.start) [label, body]

/-- The end of a statement that is an expression. -/
def expressionEnd (b : Below) (start : Nat) (found : Node) : Parser Node := do
  if ← eatSemicolon then return Node.mk .expression (← spanFrom start) [found]
  if ← atOperator then
    note (← here) "expected ;"
    let joined ← b.run (.operators found 0)
    return Node.mk .expression (← spanFrom start) [joined]
  unexpected "expected ;"

/-- A declaration of typed scripts whose first word has been read as a name. -/
def declarationBehind? (b : Below) (start : Nat) (found : List Node) (word : String) :
    Parser (Option Node) := do
  if word == "declare" then ambientDeclaration? b start found
  else if word == "global" then
    if ← atPunct "\x7b" then
      let body ← moduleBlock b
      let label := Node.leaf (.ident word) ⟨start, start + 6⟩
      return some (Node.mk (.moduleDecl false) (← spanFrom start) [label, body])
    else return none
  else wordDeclaration? b start found word false

/-- A statement that begins with an expression. -/
def expressionStatement (b : Below) (found : List Node) : Parser Node := do
  let start ← here
  let first ← fullExpression b
  match first.ident? with
  | none => do
    checkDefaults first
    expressionEnd b start first
  -- A name alone may turn out to be a label or the first word of a declaration.
  | some text => do
    if ← eatPunct ":" then return ← labelled b first text
    if text == "interface" && (← afterNewline) then
      noteStrict start "the word is reserved in strict code"
      let _ ← eatSemicolon
      return Node.mk .expression (← spanFrom start) [first]
    if (← read).typed then
      if let some declaration := ← declarationBehind? b start found text then return declaration
    expressionEnd b start first

/-- A declaration of typed scripts whose first word is certain because a word follows it on its
line. -/
def certainDeclaration? (b : Below) (start : Nat) : Parser (Option Node) := do
  let next ← ahead
  if !(← read).typed || !next.lexeme.isAnyWord || next.newlineBefore then return none
  if ← eatWord "interface" then return some (← interfaceDeclaration b start)
  if ← eatWord "type" then return some (← typeAlias b start)
  if ← eatWord "enum" then return some (← enumDeclaration b start false)
  return none

/-- Resources that are waited for. -/
def awaitUsing? (b : Below) (start : Nat) : Parser (Option Node) := do
  if !((← atWord "await") && (← aheadWord "using")) then return none
  let before ← get
  advance
  let found ← usingDeclaration? b start
  if found.isNone then set before
  return found

/-! ## §6. Statements by their first word -/

/-- A statement that begins with a reserved word. -/
def wordStatement? (b : Below) (start : Nat) (found : List Node) (word : String)
    (declarations : Bool) : Parser (Option Node) := do
  match word with
  | "break" => return some (← jump true)
  | "continue" => return some (← jump false)
  | "debugger" =>
    advance
    expectSemicolon
    return some (Node.leaf .debugger (← spanFrom start))
  | "do" => return some (← doStatement b)
  | "for" => return some (← forStatement b)
  | "function" =>
    if !declarations then note start "no declaration can stand here"
    return some (← functionDeclaration b found)
  | "class" =>
    if !declarations then note start "no declaration can stand here"
    let classStart := (found.head?.map Node.start).getD start
    return some (← classDeclaration b classStart found false)
  | "if" => return some (← ifStatement b)
  | "return" => return some (← returnStatement b)
  | "switch" => return some (← switchStatement b)
  | "throw" => return some (← throwStatement b)
  | "catch" => return some (← strayHandlers b)
  | "finally" => return some (← strayHandlers b)
  | "try" => return some (← tryStatement b)
  | "with" => return some (← withStatement b)
  | "while" => return some (← whileStatement b)
  | "var" => return some (← variableDeclaration b .var false)
  | "const" =>
    if declarations then return some (← variableDeclaration b .const false) else return none
  | "let" =>
    if declarations && followsLet (← ahead) then return some (← variableDeclaration b .let false)
    else return none
  | "using" => if declarations then usingDeclaration? b start else return none
  | "await" => if declarations then awaitUsing? b start else return none
  | "async" =>
    let next ← ahead
    if next.lexeme.isWord "function" && !next.newlineBefore then
      return some (← functionDeclaration b found)
    else return none
  | _ => certainDeclaration? b start

/-- A statement or declaration behind its decorators. -/
def statementBehind (b : Below) (found : List Node) (declarations : Bool) : Parser Node := do
  let start ← here
  if (← read).typed && (← atWord "const") && (← aheadWord "enum") then
    advance
    advance
    return ← enumDeclaration b start true
  match ← lexeme with
  | .word word _ =>
    match ← wordStatement? b start found word declarations with
    | some statement => return statement
    | none => expressionStatement b found
  | .punct "\x7b" => block b false
  | .punct ";" => leafHere .empty
  | _ => expressionStatement b found

/-- A statement, or with `declarations` also a declaration. -/
def statement (b : Below) (declarations : Bool) : Parser Node := do
  let start ← here
  let found ← if ← atPunct "@" then decorators b true else pure []
  if ← atWord "import" then
    if (← aheadPunct "(") || (← aheadPunct ".") then
      let expression ← b.run .expression
      let _ ← eatSemicolon
      return Node.mk .expression (← spanFrom start) [expression]
    unexpected "imports belong to modules"
  if ← atWord "export" then unexpected "exports belong to modules"
  statementBehind b found declarations

end SingleFile.Script.Grammar
