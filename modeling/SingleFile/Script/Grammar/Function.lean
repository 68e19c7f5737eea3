/-
  SingleFile.Script.Grammar.Function — PARAMETERS, BODIES, FUNCTIONS
  ──────────────────────────────────────────────────────────────────
  The parts that function expressions, declarations, methods and arrow
  functions share, and the blocks of statements inside braces.
-/
import SingleFile.Script.Grammar.Pattern

namespace SingleFile.Script.Grammar

open SingleFile.Text

/-! ## §1. Blocks -/

/-- Whether a statement is the directive that makes code strict. -/
def isUseStrict : Node → Bool
  | .mk .expression _ [.mk (.string (some "use strict")) span _] => span.length == 12
  | _ => false

/-- Items up to the closing brace, which is taken; where the text ends first, that is noted. -/
def itemsUntilBrace (item : Parser Node) : Parser (List Node) :=
  iterate ([] : List Node) fun items => do
    if ← atEnd then
      note (← here) "expected \x7d"
      return .inr items.reverse
    if ← eatPunct "\x7d" then return .inr items.reverse
    return .inl ((← item) :: items)

/-- The items of a block behind its opening brace.  Only the first one can be a directive. -/
def blockItems (item : Parser Node) (directives : Bool) : Parser (List Node) := do
  if directives && !(← atEnd) && !(← atPunct "\x7d") then
    let first ← item
    let strict := isUseStrict first
    let rest ← within (fun m => { m with strict := m.strict || strict }) (itemsUntilBrace item)
    return first :: rest
  else itemsUntilBrace item

/-- A block of statements. -/
def block (b : Below) (directives : Bool) : Parser Node := do
  let start ← here
  expectPunct "\x7b"
  let items ← within (fun m => { m with topLevel := false })
    (blockItems (b.run (.statement true)) directives)
  return Node.mk .block (← spanFrom start) items

/-! ## §2. Arguments and decorators -/

/-- An expression, or one to be spread. -/
def spreadable (b : Below) : Parser Node := within (fun m => { m with allowIn := true }) do
  let start ← here
  if ← eatPunct "..." then
    let inner ← b.run .assignment
    return Node.mk .spread ⟨start, inner.stop⟩ [inner]
  else b.run .assignment

/-- The arguments of a call, parentheses included. -/
def argumentList (b : Below) : Parser (List Node) :=
  within (fun m => { m with colonAwaited := false }) do
    expectPunct "("
    let items ← iterate ([] : List Node) fun items => do
      if ← atPunct ")" then return .inr items.reverse
      let item ← spreadable b
      if ← atPunct ")" then return .inr (item :: items).reverse
      expectPunct ","
      return .inl (item :: items)
    expectPunct ")"
    return items

/-- A decorator: an expression in parentheses, or a dotted name that may be called. -/
def decorator (b : Below) : Parser Node := do
  let start ← here
  expectPunct "@"
  if ← eatPunct "(" then
    let inner ← b.run .expression
    expectPunct ")"
    return Node.mk .decorator (← spanFrom start) [inner]
  let first ← name false false
  let callee ← iterate (identNode first) fun object => do
    if ← eatPunct "." then
      let property ← if ← atPunct "#" then privateName else do
        let found ← anyWord
        pure (Node.leaf (.fieldName found.text) found.span)
      return .inl (Node.mk .member (← spanFrom first.span.start) [object, property])
    else return .inr object
  let typeArgs ← if (← read).typed && (← atOpenAngle) then some <$> typeArguments b else pure none
  if typeArgs.isNone && !(← atPunct "(") then
    return Node.mk .decorator (← spanFrom start) [callee]
  let args ← argumentList b
  let call := Node.mk .call (← spanFrom first.span.start) (callee :: args ++ typeArgs.toList)
  return Node.mk .decorator (← spanFrom start) [call]

/-- The decorators in front of a declaration or member. -/
def decorators (b : Below) (allowExport : Bool) : Parser (List Node) := do
  let mode ← read
  if !mode.decorators then return []
  let start ← here
  let found ← collect do
    if ← atPunct "@" then return some (← decorator b) else return none
  if !found.isEmpty && (← atWord "export") && !mode.inClass && !mode.inFunction then
    if !allowExport then unexpected "no export may follow the decorators"
    if !mode.typed then failAt start "the decorators stand before export"
  return found

/-! ## §3. Parameters -/

/-- Whether a pattern is the receiver that typed functions declare first. -/
def isThisParameter (p : Node) : Bool :=
  match p with
  | .mk .param _ children =>
    match children.getLast? with
    | some (.mk (.binding "this" _) _ _) => true
    | _ => false
  | _ => false

/-- Whether a parameter is a plain name. -/
def isPlainParameter (p : Node) : Bool :=
  let isPlain (children : List Node) : Bool := (children.getLast?.map fun n => match n.kind with
    | .binding .. => true
    | _ => false).getD false
  match p with
  | .mk .param _ children => isPlain children
  | .mk .paramProperty _ children => isPlain children
  | _ => false

/-- Marks a pattern as optional, if it can be. -/
def makeOptional (pattern : Node) : Option Node :=
  match pattern.kind with
  | .binding text _ => some (pattern.withKind (.binding text true))
  | .arrayPattern _ => some (pattern.withKind (.arrayPattern true))
  | .objectPattern _ => some (pattern.withKind (.objectPattern true))
  | _ => none

/-- The pattern of one parameter, with its mark, annotation and default. -/
def parameterPattern (b : Below) : Parser Node := do
  let start ← here
  let mode ← read
  let hasModifier ← parameterModifier
  let patternStart ← here
  let pattern ← patternWithDefault b
  let (pattern, optional) ← if ← eatPunctIf mode.typed "?" then
      match makeOptional pattern with
      | some pattern => pure (pattern, true)
      | none =>
        if mode.inAmbient then pure (pattern, false)
        else failAt ((← lastStop) - 1) "the pattern cannot be optional"
    else pure (pattern, false)
  let pattern ← if mode.typed then annotate b pattern patternStart else pure pattern
  let pattern ← if ← eatPunct "=" then do
      if optional then note pattern.start "an optional parameter has no default"
      let right ← within (fun m => { m with allowIn := true }) (b.run .assignment)
      if mode.inAmbient then note start "an ambient parameter has no default"
      pure (Node.mk .assignPattern (← spanFrom start) [pattern, right])
    else pure pattern
  if hasModifier then note start "only a constructor's parameter has a modifier"
  return pattern

/-- A rest parameter behind its dots. -/
def restParameter (b : Below) (start : Nat) : Parser Node := do
  let inner ← b.run (.pattern false)
  let inner ← if ← eatPunct "=" then do
      let right ← b.run .assignment
      note inner.start "a rest parameter has no default"
      pure (Node.mk .assignPattern (← spanFrom start) [inner, right])
    else pure inner
  let clause ← typeClause? b
  let span ← spanFrom start
  if ← eatPunctIf (← read).typed "?" then
    note ((← lastStop) - 1) "a rest parameter is not optional"
  return Node.mk .restPattern span (inner :: clause.toList)

/-- Parameters up to the closing parenthesis, which is not taken. -/
def parameterList (one : Nat → Parser (Node × Bool)) : Parser (List Node) :=
  iterate (([] : List Node), (none : Option Nat)) fun (items, rest) => do
    if ← atPunct ")" then return .inr items.reverse
    if let some offset := rest then note offset "a rest parameter comes last"
    let start ← here
    let (item, isRest) ← one start
    if !(← atPunct ")") then
      expectPunct ","
      if isRest && (← atPunct ")") then note (← lastStop) "no comma may follow a rest parameter"
    return .inl (item :: items, if isRest then some start else none)

/-- The parameters of a function. -/
def parameters (b : Below) : Parser (List Node) := parameterList fun start => do
  let found ← decorators b false
  let patternStart ← here
  let isRest ← eatPunct "..."
  let pattern ← if isRest then restParameter b patternStart else parameterPattern b
  return (Node.mk .param (← spanFrom start) (found ++ [pattern]), isRest)

/-- The parameters of a constructor, some of which declare a field. -/
def constructorParameters (b : Below) : Parser (List Node) := parameterList fun start => do
  let found ← decorators b false
  let patternStart ← here
  if ← eatPunct "..." then
    let pattern ← restParameter b patternStart
    return (Node.mk .param (← spanFrom start) (found ++ [pattern]), true)
  let access ← modifier? ["public", "protected", "private", "in", "out"] false
  let isOverride ← modifier? ["override"] false
  let isReadonly ← modifier? ["readonly"] false
  let pattern ← parameterPattern b
  if access.isNone && isOverride.isNone && isReadonly.isNone then
    return (Node.mk .param (← spanFrom start) (found ++ [pattern]), false)
  match pattern.kind with
  | .binding .. => return (Node.mk .paramProperty (← spanFrom start) (found ++ [pattern]), false)
  | .assignPattern => return (Node.mk .paramProperty (← spanFrom start) (found ++ [pattern]), false)
  | _ => failAt pattern.start "a field is declared by a name"

/-! ## §4. Bodies -/

/-- What a body changes about the mode. -/
def bodyMode (isAsync isGenerator isArrow : Bool) (m : Mode) : Mode :=
  { m with inAsync := isAsync, inGenerator := isGenerator, inFunction := true,
           hasNewTarget := m.hasNewTarget || !isArrow, allowBreak := false, allowContinue := false,
           inConditional := false, inStaticBlock := false, topLevel := false }

/-- Runs a parser with no labels in force. -/
def withoutLabels {α : Type} (p : Parser α) : Parser α := do
  let labels := (← get).labels
  modify fun s => { s with labels := [] }
  let result ← p
  modify fun s => { s with labels := labels }
  return result

/-- A body in braces; a list of parameters with patterns in it forbids the strict directive. -/
def bodyBlock (b : Below) (isSimple : Bool) : Parser Node := do
  let body ← block b true
  match body.children with
  | first :: _ =>
    if isUseStrict first && !isSimple then
      note first.start "the parameters do not permit the directive"
    return body
  | [] => return body

/-- The body of a function; typed scripts may leave it out. -/
def functionBody (b : Below) (isAsync isGenerator isSimple : Bool) : Parser (Option Node) := do
  let mode ← read
  if mode.inAmbient && mode.typed && (← atPunct "\x7b") then
    note (← here) "ambient code has no body"
  within (bodyMode isAsync isGenerator false) <| withoutLabels do
    -- An overload ends where its body would begin.
    if mode.typed && !(← atPunct "\x7b") then
      if ← eatSemicolon then return none
    return some (← bodyBlock b isSimple)

/-- The body of an arrow function: a block or an expression. -/
def arrowBody (b : Below) (isAsync isSimple : Bool) : Parser Node := do
  let mode ← read
  if mode.inAmbient && mode.typed && (← atPunct "\x7b") then
    note (← here) "ambient code has no body"
  within (bodyMode isAsync false true) <| withoutLabels do
    if ← atPunct "\x7b" then bodyBlock b isSimple else b.run .assignment

/-! ## §5. Functions -/

/-- What is behind the name of a function: type parameters, parameters, result and body. -/
def functionRest (b : Below) (start : Nat) (found : List Node) (isAsync isGenerator : Bool)
    (params : Parser (List Node)) : Parser Node :=
  within (fun m => { m with inAsync := isAsync, inGenerator := isGenerator }) do
    let mode ← read
    let typeParams ← if mode.typed then typeParameters? b false true else pure none
    expectPunct "("
    let params ← within (fun m => { m with inParameters := true, inFunction := false }) params
    expectPunct ")"
    let result ← if mode.typed && (← atPunct ":") then some <$> resultType b ":" else pure none
    let body ← functionBody b isAsync isGenerator (params.all isPlainParameter)
    if body.isNone then
      for param in params do
        match param with
        | .mk .param _ [.mk .assignPattern span _] =>
          note span.start "a parameter without a body has no default"
        | _ => pure ()
    return Node.mk (.function isAsync isGenerator body.isSome) (← spanFrom start)
      (params ++ found ++ body.toList ++ typeParams.toList ++ result.toList)

/-- A name that may be left out. -/
def bindingName? (required refuseLet : Bool) : Parser (Option Name) := do
  if required then return some (← bindingName refuseLet)
  else if (← atName) || ((← read).typed && (← atWord "this")) then
    return some (← bindingName refuseLet)
  else return none

/-- What the inside of a function does not inherit. -/
def functionMode (m : Mode) : Mode :=
  { m with allowSuper := false, inClassField := false, colonAwaited := false }

/-- A function from its first word on: its name, and the function itself. -/
def functionParts (b : Below) (start : Nat) (found : List Node) (isAsync isExpression : Bool)
    (nameRequired : Bool) : Parser (Option Name × Node) := do
  expectWord "function"
  let isGenerator ← eatPunct "*"
  let own (m : Mode) : Mode :=
    if isExpression then { functionMode m with inAsync := isAsync, inGenerator := isGenerator }
    else functionMode m
  let found' ← within own (bindingName? nameRequired false)
  let function ← within functionMode (functionRest b start found isAsync isGenerator (parameters b))
  return (found', function)

/-- A function expression. -/
def functionExpression (b : Below) : Parser Node := do
  let start ← here
  let isAsync ← eatWord "async"
  let (found, function) ← functionParts b start [] isAsync true false
  match function.kind with
  | .function _ _ false => unexpected "expected \x7b"
  | _ => return Node.mk .functionExpr function.span ((found.map identNode).toList ++ [function])

/-- A function declaration. -/
def functionDeclaration (b : Below) (found : List Node) : Parser Node := do
  let start ← here
  let isAsync ← eatWord "async"
  let (name, function) ← functionParts b start found isAsync false true
  return Node.mk (.functionDecl false) function.span ((name.map identNode).toList ++ [function])

end SingleFile.Script.Grammar
