/-
  SingleFile.Script.Grammar.Expression — EXPRESSIONS
  ──────────────────────────────────────────────────
  Operators are read by strength.  What stands in parentheses may turn out to
  be the parameters of an arrow function; it is read as expressions first,
  and made into patterns when the arrow is seen.
-/
import SingleFile.Script.Grammar.Literal

namespace SingleFile.Script.Grammar

open SingleFile.Text

/-! ## §1. What a token can begin -/

/-- The strengths of the binary operators, words apart. -/
def operatorStrength : String → Option Nat
  | "??" => some 1
  | "||" => some 1
  | "&&" => some 2
  | "|" => some 3
  | "^" => some 4
  | "&" => some 5
  | "==" => some 6
  | "!=" => some 6
  | "===" => some 6
  | "!==" => some 6
  | "<" => some 7
  | ">" => some 7
  | "<=" => some 7
  | ">=" => some 7
  | "<<" => some 8
  | ">>" => some 8
  | ">>>" => some 8
  | "+" => some 9
  | "-" => some 9
  | "*" => some 10
  | "/" => some 10
  | "%" => some 10
  | "**" => some 11
  | _ => none

/-- The strength of `in`, `instanceof` and the type operators. -/
def relationStrength : Nat := 7

/-- The operators that store a value. -/
def assignmentOperators : List String :=
  ["=", "+=", "-=", "*=", "/=", "%=", "<<=", ">>=", ">>>=", "|=", "^=", "&=", "**=", "&&=", "||=",
    "??="]

/-- The punctuator the current token is. -/
def punct? : Parser (Option String) := do
  match ← lexeme with
  | .punct text => return some text
  | _ => return none

/-- Whether the current token is a punctuator that joins two operands. -/
def atOperator : Parser Bool := do
  return ((← punct?).bind operatorStrength).isSome

/-- Whether the current token can begin an expression. -/
def startsExpression : Parser Bool := do
  match ← lexeme with
  | .word text _ =>
    return ["this", "super", "null", "true", "false", "function", "class", "new", "delete",
      "typeof", "void", "import"].contains text || !reservedWords.contains text
  | .number _ => return true
  | .bigint => return true
  | .string _ => return true
  | .punct text =>
    return ["\x60", "(", "[", "\x7b", "+", "-", "~", "!", "++", "--", "<", "#", "/", "/="].contains
      text
  | _ => return false

/-! ## §2. Arrow functions -/

/-- Whether a pattern is a plain name. -/
def isPlainPattern (pattern : Node) : Bool :=
  match pattern.kind with
  | .binding .. => true
  | _ => false

/-- An arrow function behind its arrow. -/
def arrowRest (b : Below) (start : Nat) (params : List Node) (isAsync : Bool)
    (typeParams result : Option Node) : Parser Node := do
  if (← read).strict then
    for param in params do
      match param.kind with
      | .binding text _ =>
        if isStrictOnlyName text then note param.start "strict code cannot bind the name"
      | _ => pure ()
  let body ← arrowBody b isAsync (params.all isPlainPattern)
  return Node.mk .arrow (← spanFrom start)
    (params ++ body :: typeParams.toList ++ result.toList)

/-- The pattern of a parameter. -/
def parameterOf (p : Node) : Node :=
  match p with
  | .mk .param _ children => children.getLast?.getD p
  | _ => p

/-- An asynchronous arrow function from its type parameters on. -/
def genericAsyncArrow? (b : Below) (start : Nat) : Parser (Option Node) := do
  if !(← atPunct "<") then return none
  let head ← attempt do
    let typeParams ← typeParameters b false false
    expectPunct "("
    let params ← parameters b
    expectPunct ")"
    let result ← if ← atPunct ":" then some <$> resultType b ":" else pure none
    expectPunct "=>"
    return some (typeParams, params.map parameterOf, result)
  match head with
  | none => return none
  | some (typeParams, params, result) =>
    within (fun m => { m with inAsync := true, inGenerator := false }) do
      return some (← arrowRest b start params true (some typeParams) result)

/-- What stands between parentheses: an expression, perhaps to be spread, or a pattern. -/
structure ParenItem where
  node : Node
  isPattern : Bool
deriving Inhabited

/-- Whether an item would be the rest of a list of parameters. -/
def ParenItem.isRest (item : ParenItem) : Bool :=
  item.node.kind == .spread || item.node.kind == .restPattern

/-- The parameter that an item between parentheses spells. -/
def ParenItem.parameter (item : ParenItem) : Parser Node := do
  if item.isPattern then return item.node
  match item.node with
  | .mk .spread span [inner] => do
    if inner.kind == .assign "=" then note span.start "a rest parameter has no default"
    let pattern ← patternOf .binding inner
    return Node.mk .restPattern span [pattern]
  | node => patternOf .binding node

/-- The parameters that the items between parentheses spell. -/
def parametersOf (items : List ParenItem) (comma : Option Nat) : Parser (List Node) := do
  for item in items.dropLast do
    if item.isRest then
      if (← read).typed then note item.node.start "a rest parameter comes last"
      else failAt item.node.start "a rest parameter comes last"
  if let some offset := comma then
    if (items.getLast?.map ParenItem.isRest).getD false then
      note offset "no comma may follow a rest parameter"
  items.mapM ParenItem.parameter

/-! ## §3. Assignments -/

/-- An assignment, if a left side is followed by an operator that stores. -/
def assignmentRest (b : Below) (start : Nat) (left : Node) : Parser Node := do
  match ← punct? with
  | none => return left
  | some op => do
    if !assignmentOperators.contains op then return left
    let mode ← read
    let target ← if op == "=" then patternOf .assigning left else do
        if !isSimpleTarget mode.strict left then
          note left.start "the expression cannot be assigned to"
        pure left
    if !canBeTarget target then failAt left.start "the expression cannot be assigned to"
    advance
    let value ← b.run .assignment
    return Node.mk (.assign op) (← spanFrom start) [target, value]

/-- The two branches of a conditional behind its question mark. -/
def branches (b : Below) (start : Nat) (test : Node) : Parser Node := do
  let first ← within (fun m => { m with inConditional := true, colonAwaited := true,
                                        allowIn := true })
    (b.run .assignment)
  expectPunct ":"
  let second ← within (fun m => { m with inConditional := true, colonAwaited := false })
    (b.run .assignment)
  return Node.mk .conditional ⟨start, second.stop⟩ [test, first, second]

/-! ## §4. Parentheses -/

/-- Operators at least as strong as any, behind their first operand; where the operand is
missing, that is noted at the operator. -/
def operation (b : Below) : Parser Node := do
  let first ← try b.run .unary catch mistake => do
    let offset ← here
    let atWordOperator := (← atWord "instanceof") || ((← read).allowIn && (← atWord "in"))
    if atWordOperator || (← atOperator) then
      note offset "expected an expression"
      pure (Node.leaf .hole ⟨offset, offset⟩)
    else throw mistake
  if first.kind == .arrow then return first
  b.run (.operators first 0)

/-- An item between parentheses in a typed script, when it begins with a name: a question mark
behind it may mark a parameter as optional. -/
def typedParenItem (b : Below) (start : Nat) : Parser Node := do
  if ← eatPunct "..." then
    let inner ← within (fun m => { m with allowIn := true }) (operation b)
    return Node.mk .spread ⟨start, inner.stop⟩ [inner]
  else
    let left ← operation b
    assignmentRest b start left

/-- Whether a typed item that begins with a name is next. -/
def atTypedItem : Parser Bool := do
  if !(← read).typed then return false
  if ← atName then return true
  if !(← atPunct "...") then return false
  match (← ahead).lexeme with
  | .word text _ => return !(← read).reserves text
  | _ => return false

/-- The pattern that an item between parentheses is, when a colon or a mark shows it to be
one. -/
def parenPattern (b : Below) (start : Nat) (item : Node) (optional : Bool) : Parser Node := do
  let (inner, isRest) := match item with
    | .mk .spread _ [inner] => (inner, true)
    | _ => (item, false)
  let pattern ← patternOf .binding inner
  let pattern := if optional then (makeOptional pattern).getD pattern else pattern
  let pattern := if isRest then Node.mk .restPattern ⟨start, pattern.stop⟩ [pattern] else pattern
  let pattern ← annotate b pattern start
  if ← eatPunct "=" then
    let value ← b.run .assignment
    return Node.mk .assignPattern (← spanFrom start) [pattern, value]
  else return pattern

/-- The item behind a question mark: an optional parameter or a conditional. -/
def afterQuestion (b : Below) (start : Nat) (item : Node) : Parser (Node × Bool) := do
  let next ← ahead
  if [",", ":", ")", "="].any next.lexeme.isPunct then
    advance
    match item with
    | .mk .spread span [_] => do
      note span.start "a rest parameter is not optional"
      failAt item.start "the pattern cannot be optional"
    | _ =>
      if item.ident?.isNone then failAt item.start "the pattern cannot be optional"
      return (item, true)
  else if item.kind == .spread then return (item, false)
  else
    advance
    return (← branches b start item, false)

/-- One item between parentheses. -/
def parenItem (b : Below) : Parser ParenItem := do
  let start ← here
  modify fun s => { s with arrowStart := some start }
  let modified ← parameterModifier
  let itemStart ← here
  let typed := (← read).typed
  let item ← if ← atTypedItem then typedParenItem b start else spreadable b
  let (item, optional) ← if typed && (← atPunct "?") then afterQuestion b start item
    else pure (item, false)
  let isPattern := optional || (typed && (← atPunct ":"))
  let item ← if isPattern then parenPattern b itemStart item optional else pure item
  if modified then note start "only a constructor's parameter has a modifier"
  return ⟨item, isPattern⟩

/-- The items between parentheses, and where a comma stands behind the last one. -/
def parenItems (b : Below) : Parser (List ParenItem × Option Nat) := do
  expectPunct "("
  let result ← iterate (([] : List ParenItem), (none : Option Nat)) fun (items, comma) => do
    if (← atPunct ")") || (← atEnd) then return .inr (items.reverse, comma)
    let start ← here
    let item ← parenItem b
    let items := item :: items
    let isName := item.node.ident?.isSome || isPlainPattern item.node
    let items ← if ← eatPunctIf isName "=>" then do
        let params ← parametersOf items.reverse none
        pure (⟨← arrowRest b start params false none none, false⟩ :: items)
      else pure items
    if ← atPunct ")" then return .inr (items.reverse, none)
    let offset ← here
    expectPunct ","
    return .inl (items, some offset)
  expectPunct ")"
  return result

/-- An arrow function's result type and arrow where a conditional may also use the colon. -/
def arrowInConditional? (b : Below) (start : Nat) (isAsync : Bool) (items : List ParenItem)
    (comma : Option Nat) (colonAwaited : Bool) : Parser (Option Node) := attempt do
  let result ← resultType b ":"
  expectPunct "=>"
  let params ← parametersOf items comma
  let arrow ← arrowRest b start params isAsync none (some result)
  if colonAwaited && !(← atPunct ":") then return none
  return some arrow

/-- The result type of an arrow function, if an arrow follows it. -/
def arrowResult? (b : Below) : Parser (Option Node) := do
  if (← read).colonAwaited || !(← atPunct ":") then return none
  attempt do
    let result ← resultType b ":"
    if ← atPunct "=>" then return some result else return none

/-- An arrow function behind its parameters. -/
def arrowBehind (b : Below) (start : Nat) (isAsync canBeArrow : Bool) (items : List ParenItem)
    (comma : Option Nat) (result : Option Node) : Parser Node := do
  if ← afterNewline then failAt start "no line may end before the arrow"
  if !canBeArrow then failAt start "no arrow function can stand here"
  expectPunct "=>"
  let params ← parametersOf items comma
  let arrow ← arrowRest b start params isAsync none result
  let hasBlock := arrow.children.any fun c => c.kind == .block
  if hasBlock && (← atOperator) then
    note (← here) "expected )"
    let joined ← b.run (.operators arrow 0)
    if !(← atStatementEnd) then note (← here) "expected ;"
    return joined
  return arrow

/-- An expression in parentheses, which spreads nothing. -/
def parenthesised (start : Nat) (items : List ParenItem) (comma : Option Nat) : Parser Node := do
  if let some offset := comma then note offset "no comma may stand here"
  for item in items do
    if item.node.kind == .spread then failAt item.node.start "nothing can be spread here"
  match items with
  | [] => failAt start "expected an expression"
  | [item] => return Node.mk .paren (← spanFrom start) [item.node]
  | first :: _ =>
    let nodes := items.map ParenItem.node
    let stop := (nodes.getLast?.map Node.stop).getD first.node.stop
    let sequence := Node.mk .sequence ⟨first.node.start, stop⟩ nodes
    return Node.mk .paren (← spanFrom start) [sequence]

/-- Parentheses: an expression in them, an arrow function, or a call of `async`. -/
def parenOrArrow (b : Below) (canBeArrow : Bool) (asyncSpan : Option Span) : Parser Node := do
  let start ← match asyncSpan with
    | some span => pure span.start
    | none => here
  let isAsync := asyncSpan.isSome
  let mode ← read
  let (items, comma) ← within (fun m => { m with colonAwaited := false }) (parenItems b)
  -- In a branch of a conditional the colon may be the conditional's own, so an arrow function is
  -- only tried.
  if mode.typed && mode.inConditional && (← atPunct ":") then
    if let some arrow := ← arrowInConditional? b start isAsync items comma mode.colonAwaited then
      return arrow
  let result ← if mode.typed then arrowResult? b else pure none
  if items.any ParenItem.isPattern || result.isSome || (← atPunct "=>") then
    return ← arrowBehind b start isAsync canBeArrow items comma result
  -- No arrow has come: what only a pattern can hold is a mistake now.
  for item in items do
    match item.node with
    | .mk .object _ properties =>
      for property in properties do
        if property.kind == .defaulted then
          note property.start "a default has no meaning outside a pattern"
    | _ => pure ()
  match asyncSpan with
  | some span =>
    let callee := Node.leaf (.ident "async") span
    return Node.mk .call (← spanFrom start) (callee :: items.map ParenItem.node)
  | none => parenthesised start items comma

/-! ## §5. Primary expressions -/

/-- What begins with the word `async`, when it is more than a name. -/
def asyncExpression? (b : Below) (start : Nat) (canBeArrow : Bool) : Parser (Option Node) := do
  let next ← ahead
  if next.lexeme.isWord "function" && !next.newlineBefore then
    return some (← functionExpression b)
  if canBeArrow && (← read).typed && next.lexeme.isPunct "<" then
    let found ← attempt do
      advance
      genericAsyncArrow? b start
    if found.isSome then return found
  if canBeArrow && next.lexeme.isPunct "(" && !next.newlineBefore then
    let span := (← token).span
    advance
    return some (← parenOrArrow b canBeArrow (some span))
  return none

/-- A name, or an arrow function with a single name as its parameter. -/
def nameOrArrow (b : Below) (start : Nat) (canBeArrow : Bool) : Parser Node := do
  let mode ← read
  let found ← name (!mode.inGenerator) (!mode.inAsync)
  if canBeArrow && found.text == "async" && !(← afterNewline) && (← atName) then
    let param ← bindingName false
    -- `async as T` is the name `async` with a type.
    if mode.typed && param.text == "as" && !(← atPunct "=>") then
      b.run .type
      return Node.mk .asType (← spanFrom start) [identNode found]
    expectPunct "=>"
    return ← arrowRest b start [bindingNode param] true none none
  let newline ← afterNewline
  if ← eatPunctIf (canBeArrow && !newline) "=>" then
    return ← arrowRest b start [bindingNode found] false none none
  return identNode found

/-- What begins with a word. -/
def wordExpression (b : Below) (start : Nat) (canBeArrow : Bool) (text : String) :
    Parser Node := do
  match text with
  | "this" => leafHere .this
  | "null" => leafHere .null
  | "true" => leafHere (.boolean true)
  | "false" => leafHere (.boolean false)
  | "function" => functionExpression b
  | "class" => classExpression b start []
  | "async" =>
    match ← asyncExpression? b start canBeArrow with
    | some found => return found
    | none => nameOrArrow b start canBeArrow
  | _ => nameOrArrow b start canBeArrow

/-- An expression that no operator or subscript belongs to. -/
def primary (b : Below) : Parser Node := do
  let start ← here
  let canBeArrow := (← get).arrowStart == some start
  match ← lexeme with
  | .word text _ => wordExpression b start canBeArrow text
  | .number value => leafHere (.number value)
  | .bigint => leafHere .bigint
  | .string value => leafHere (.string value)
  | .punct "[" => arrayLiteral b
  | .punct "\x7b" => objectLiteral b
  | .punct "(" => parenOrArrow b canBeArrow none
  | .punct "/" => regexLiteral
  | .punct "/=" => regexLiteral
  | .punct "\x60" => templateLiteral b false
  | .punct "#" => do
    advance
    let found ← anyWord
    return Node.leaf (.privateName found.text) ⟨start, found.span.stop⟩
  | .punct "@" => do
    let found ← decorators b false
    if found.isEmpty || !(← atWord "class") then unexpected "expected an expression"
    classExpression b start found
  | _ => unexpected "expected an expression"

/-! ## §6. Subscripts -/

/-- Type arguments behind an expression that is not called. -/
def instantiationArguments? (b : Below) : Parser (Option Node) := do
  if !(← read).typed || !(← atPunct "<") then return none
  attempt do
    let args ← typeArguments b
    if ← atPuncts ["<", ">", "+", "-", "(", "\x60"] then return none
    -- Where an expression follows, the brackets were comparisons.
    if (← afterNewline) || (← atOperator) || !(← startsExpression) then return some args
    return none

/-- An expression with the type arguments behind it, if there are any. -/
def instantiated (start stop : Nat) (object : Node) : Option Node → Node
  | some args => Node.mk .instantiation ⟨start, stop⟩ [object, args]
  | none => object

/-- Whether an expression is part of an optional chain. -/
def isChain : Node → Bool
  | .mk .nonNull _ (inner :: _) => isChain inner
  | .mk .optionalChain _ _ => true
  | _ => false

/-- A step of an expression, which continues the optional chain it is made on. -/
def chained (isOptional : Bool) (object step : Node) : Node :=
  if isOptional || isChain object then Node.mk .optionalChain step.span [step] else step

/-- Whether `super` and `import` may not stand alone as `object` does. -/
def checkObject (object : Node) (isComputed isOptional : Bool) : Parser Unit := do
  match object.kind with
  | .superRef =>
    if !(← read).allowSuper then
      if isComputed then failAt object.start "super has no meaning here"
      else note object.start "super has no meaning here"
    else if isOptional then failAt object.start "super has no meaning here"
  | .importRef => failAt object.start "import has no meaning here"
  | _ => return ()

/-- A step with type arguments in front, of a kind that is certain only at its end. -/
def typedStep? (b : Below) (start : Nat) (object : Node) (noCall : Bool) :
    Parser (Option (Node × Bool)) := attempt do
  if !noCall && object.ident? == some "async" && (← get).arrowStart == some object.start then
    if let some arrow := ← genericAsyncArrow? b start then return some (arrow, true)
  let args ← typeArguments b
  if !noCall && (← atPunct "(") then
    let values ← argumentList b
    let call := Node.mk .call (← spanFrom start) (object :: values ++ [args])
    return some (chained false object call, true)
  if ← atPunct "\x60" then
    return some (← taggedTemplate b start object (some args), true)
  if (← atPunct "=") || (← atWord "as") || (← atWord "satisfies") then
    return some (instantiated start (← lastStop) object (some args), false)
  return none

/-- The property behind a dot. -/
def dotProperty : Parser Node := do
  if ← atPunct "#" then privateName
  else
    let found ← anyWord
    return Node.leaf (.fieldName found.text) found.span

/-- A step that type arguments do not begin, with whether further steps may follow. -/
def plainStep (b : Below) (start : Nat) (object : Node) (noCall : Bool) :
    Parser (Node × Bool) := do
  let args ← instantiationArguments? b
  let argsStop ← lastStop
  let isOptional ← eatPunct "?."
  let args ← if isOptional && (← read).typed && (← atOpenAngle) then attempt do
      let args ← typeArguments b
      if ← atPunct "(" then return some args else return none
    else pure args
  if ← atPunct "[" then
    let bracket ← here
    advance
    let inner ← within (fun m => { m with allowIn := true }) (b.run .expression)
    expectPunct "]"
    checkObject object true isOptional
    let key := Node.mk .computedKey (← spanFrom bracket) [inner]
    let step := chained isOptional object (Node.mk .member (← spanFrom start) [object, key])
    return (instantiated start argsStop step args, true)
  if (isOptional || !noCall) && (← atPunct "(") then
    let values ← argumentList b
    let call := Node.mk .call (← spanFrom start) (object :: values ++ args.toList)
    return (chained isOptional object call, true)
  let dotted ← eatPunctIf (!isOptional) "."
  if isOptional || dotted then
    let property ← dotProperty
    checkObject object false isOptional
    let step := chained isOptional object (Node.mk .member (← spanFrom start) [object, property])
    return (instantiated start argsStop step args, true)
  match object.kind with
  | .superRef => unexpected "super has no meaning here"
  | .importRef => unexpected "import has no meaning here"
  | _ =>
    let object := instantiated start argsStop object args
    if ← atPunct "\x60" then
      return (← within (fun m => { m with colonAwaited := false })
        (taggedTemplate b start object none), true)
    return (object, false)

/-- One step: a property, a call, a tag's template or a mark of typed scripts. -/
def subscript (b : Below) (start : Nat) (object : Node) (noCall : Bool) :
    Parser (Node × Bool) := do
  if (← read).typed then
    if !(← afterNewline) && (← atPunct "!") then
      advance
      match object.kind with
      | .superRef => failAt start "super has no meaning here"
      | .importRef => failAt start "import has no meaning here"
      | _ => return (Node.mk .nonNull (← spanFrom start) [object], true)
    if ← atPunct "<" then
      if let some found := ← typedStep? b start object noCall then return found
  plainStep b start object noCall

/-- All steps behind an expression. -/
def subscripts (b : Below) (object : Node) (noCall : Bool) : Parser Node :=
  iterate object fun current => do
    match ← subscript b object.start current noCall with
    | (next, true) => return .inl next
    | (last, false) => return .inr last

/-- What follows the word `import` in an expression. -/
def importExpression (b : Below) (start : Nat) (noCall : Bool) : Parser Node := do
  expectWord "import"
  if ← eatPunct "." then
    let found ← anyWord
    if found.text == "meta" then
      if !(← read).isModule then note start "only modules have import.meta"
      return ← subscripts b (Node.leaf .metaProperty (← spanFrom start)) noCall
    if found.text != "defer" && found.text != "source" then failAt found.span.start "expected meta"
  subscripts b (Node.leaf .importRef (← spanFrom start)) noCall

/-- What follows the word `new`, when it is no target. -/
def newExpression (b : Below) (start : Nat) (callee : Node) : Parser Node := do
  let refuse : Parser Unit := failAt callee.start "an optional chain cannot be constructed"
  match callee with
  | .mk .optionalChain _ _ => refuse
  | .mk .member _ (object :: _) => if object.kind == .optionalChain then refuse
  | _ => pure ()
  let typeArgs ← if (← read).typed && (← atOpenAngle) then attempt do
      let args ← typeArguments b
      if ← atPunct "(" then return some args else return none
    else pure none
  if ← atPunct "(" then
    let values ← argumentList b
    let node := Node.mk (.new true) (← spanFrom start) (callee :: values ++ typeArgs.toList)
    subscripts b node true
  else return Node.mk (.new false) (← spanFrom start) (callee :: typeArgs.toList)

/-- What can be constructed or called, with its properties but without its calls.  A run of
`new`s is read with the innermost first. -/
def memberOrNew (b : Below) : Nat → Parser Node
  | 0 => unexpected "too many steps"
  | bound + 1 => do
    let start ← here
    if ← eatWord "new" then
      if ← eatPunct "." then
        expectWord "target"
        let span ← spanFrom start
        let mode ← read
        if !mode.hasNewTarget && !mode.inParameters && !mode.inClass then
          note start "new.target has no meaning here"
        return ← subscripts b (Node.leaf .metaProperty span) true
      let callee ← memberOrNew b bound
      if callee.kind == .arrow then return callee
      return ← newExpression b start callee
    if ← atWord "super" then
      return ← subscripts b (← leafHere .superRef) true
    if ← atWord "import" then return ← importExpression b start true
    let object ← primary b
    if object.kind == .arrow then return object
    let args ← instantiationArguments? b
    subscripts b (instantiated start (← lastStop) object args) true

/-- What can stand on the left of an assignment or be called. -/
def leftHand (b : Below) : Parser Node := do
  let start ← here
  if ← atWord "super" then return ← subscripts b (← leafHere .superRef) false
  if ← atWord "import" then return ← importExpression b start false
  let callee ← memberOrNew b ((← token).rest.length + 2)
  if callee.kind == .arrow then return callee
  let typeArgs ← if (← read).typed && (← atOpenAngle) then attempt do
      let args ← typeArguments b
      if ← atPunct "(" then return some args else return none
    else pure none
  -- Parentheses behind a `new` without arguments would have been its own.
  if callee.kind == .new false && callee.start == start then
    if typeArgs.isSome then expectPunct "("
    return callee
  if ← atPunct "(" then
    let values ← argumentList b
    let call := Node.mk .call (← spanFrom start) (callee :: values ++ typeArgs.toList)
    return ← subscripts b (chained false callee call) false
  return callee

/-! ## §7. Operators -/

/-- What waits for a value, when `await` is no name. -/
def awaitExpression (b : Below) : Parser Node := do
  let start ← here
  expectWord "await"
  let span ← spanFrom start
  let mode ← read
  if ← atPunct "*" then unexpected "expected an expression"
  if !mode.inAsync && ((← atPuncts [")", "]", ","]) || (← atStatementEnd)) then
    if mode.isModule then note start "await is reserved here"
    return Node.leaf (.ident "await") span
  if mode.inFunction && !mode.inAsync then note (← here) "the function is not asynchronous"
  if mode.inParameters && !mode.inFunction then note start "a parameter cannot wait"
  if !mode.isModule && !mode.inFunction && !mode.inAsync then
    note start "only modules wait at the top level"
  let operand ← b.run .unary
  return Node.mk .await (← spanFrom start) [operand]

/-- The operand of an operator; where it is missing, that is noted. -/
def operand (b : Below) : Parser Node := do
  let offset := (← lastStop) - 1
  try b.run .unary catch mistake => do
    noteMistake mistake
    return Node.leaf .hole ⟨offset, offset⟩

/-- An operator in front of its operand. -/
def unaryOperation (b : Below) (start : Nat) (op : String) : Parser Node := do
  advance
  let inner ← operand b
  if op == "delete" && inner.ident?.isSome then
    noteStrict inner.start "a name cannot be deleted"
  return Node.mk (.unary op) ⟨start, inner.stop⟩ [inner]

/-- A type in angle brackets in front of an expression. -/
def typeAssertion (b : Below) (start : Nat) : Parser Node := do
  openAngle
  if ← eatWord "const" then
    closeAngle
    let inner ← b.run .unary
    return Node.mk .constAssertion (← spanFrom start) [inner]
  b.run .type
  closeAngle
  let inner ← b.run .unary
  return Node.mk .typeAssertion (← spanFrom start) [inner]

/-- An operand with the operators in front of and right behind it. -/
def unary (b : Below) : Parser Node := do
  let start ← here
  if (← read).typed && (← atPunct "<") then return ← typeAssertion b start
  if ← atPuncts ["++", "--"] then
    advance
    let inner ← b.run .unary
    checkTarget inner false
    return Node.mk .update ⟨start, inner.stop⟩ [inner]
  for op in ["delete", "void", "typeof"] do
    if ← atWord op then return ← unaryOperation b start op
  for op in ["+", "-", "~", "!"] do
    if ← atPunct op then return ← unaryOperation b start op
  if ← atWord "await" then return ← awaitExpression b
  let inner ← leftHand b
  if inner.kind == .arrow || (← afterNewline) then return inner
  if ← atPuncts ["++", "--"] then
    checkTarget inner false
    advance
    return Node.mk .update (← spanFrom start) [inner]
  return inner

/-- The operator at the current token with its strength. -/
def operator? : Parser (Option (String × Nat)) := do
  match ← lexeme with
  | .punct text => return (operatorStrength text).map fun strength => (text, strength)
  | .word "in" _ => return if (← read).allowIn then some ("in", relationStrength) else none
  | .word "instanceof" _ => return some ("instanceof", relationStrength)
  | _ => return none

/-- Whether an expression is one of some operations. -/
def isOperation (ops : List String) (n : Node) : Bool :=
  match n.kind with
  | .binary op => ops.contains op
  | _ => false

/-- The operator for missing values does not mix with the logical ones. -/
def checkMixing (op : String) (left right : Node) : Parser Unit := do
  let mixed :=
    if op == "??" then isOperation ["||", "&&"] left || isOperation ["||", "&&"] right
    else if op == "||" || op == "&&" then isOperation ["??"] left
    else false
  if mixed then note left.start "the operators need parentheses"

/-- A type operator behind an expression in a typed script. -/
def typeOperation? (b : Below) (left : Node) (floor : Nat) : Parser (Option Node) := do
  if !(← read).typed || (← afterNewline) || relationStrength ≤ floor then return none
  if ← eatWord "as" then
    if ← eatWord "const" then
      return some (Node.mk .constAssertion (← spanFrom left.start) [left])
    b.run .type
    return some (Node.mk .asType (← spanFrom left.start) [left])
  if ← eatWord "satisfies" then
    b.run .type
    return some (Node.mk .satisfies (← spanFrom left.start) [left])
  return none

/-- The operators stronger than a floor behind a left operand. -/
def operators (b : Below) (left : Node) (floor : Nat) : Parser Node :=
  iterate left fun left => do
    if let some typed := ← typeOperation? b left floor then return .inl typed
    match ← operator? with
    | none => return .inr left
    | some (op, strength) => do
      if strength ≤ floor then return .inr left
      advance
      let isRight := op == "**"
      let isUnary := match left.kind with
        | .unary _ => true
        | .await => true
        | _ => false
      if isRight && isUnary then failAt left.start "the left operand needs parentheses"
      let next ← b.run .unary
      -- The power operator groups to the right, so its right side may hold another one.
      let right ← b.run (.operators next (if isRight then strength - 1 else strength))
      checkMixing op left right
      return .inl (Node.mk (.binary op) ⟨left.start, right.stop⟩ [left, right])

/-! ## §8. Whole expressions -/

/-- What a generator hands out. -/
def yieldExpression (b : Below) : Parser Node := do
  let start ← here
  expectWord "yield"
  let mode ← read
  if mode.inParameters && !mode.inFunction then failAt start "a parameter cannot yield"
  if ← afterNewline then return Node.leaf .yield (← spanFrom start)
  if (← atPunct "*") || (← startsExpression) then
    let _ ← eatPunct "*"
    let inner ← b.run .assignment
    return Node.mk .yield ⟨start, inner.stop⟩ [inner]
  return Node.leaf .yield (← spanFrom start)

/-- Whether an arrow function may begin at the current token. -/
def mayStartArrow : Parser Bool := do
  match ← lexeme with
  | .word text _ => return text == "yield" || !reservedWords.contains text
  | .punct "(" => return true
  | _ => return false

/-- An expression without commas, type parameters in front apart. -/
def plainAssignment (b : Below) : Parser Node := do
  let start ← here
  if (← read).inGenerator && (← atWord "yield") then return ← yieldExpression b
  let arrowStart := if ← mayStartArrow then some start else none
  modify fun s => { s with arrowStart := arrowStart }
  let test ← operation b
  if test.kind == .arrow then return test
  if ← eatPunct "?" then return ← branches b start test
  match test.kind with
  | .binary _ => return test
  | .unary _ => return test
  | .update => return test
  | _ => assignmentRest b start test

/-- An arrow function with type parameters. -/
def genericArrow? (b : Below) : Parser (Option Node) := do
  if !(← read).typed || !(← atPunct "<") || !(← ahead).lexeme.isAnyWord then return none
  within (fun m => { m with colonAwaited := false }) <| attempt do
    let typeParams ← typeParameters b false true
    let arrow ← plainAssignment b
    match arrow with
    | .mk .arrow span children =>
      return some (Node.mk .arrow ⟨typeParams.start, span.stop⟩ (children ++ [typeParams]))
    | _ => return none

/-- An expression without commas. -/
def assignment (b : Below) : Parser Node := do
  match ← genericArrow? b with
  | some arrow => return arrow
  | none => plainAssignment b

/-- An expression: one or more separated by commas. -/
def expression (b : Below) : Parser Node := do
  let first ← b.run .assignment
  let rest ← collect do
    if ← eatPunct "," then return some (← b.run .assignment) else return none
  match rest.getLast? with
  | none => return first
  | some last => return Node.mk .sequence ⟨first.start, last.stop⟩ (first :: rest)

end SingleFile.Script.Grammar
