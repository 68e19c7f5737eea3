/-
  SingleFile.Script.Grammar.Pattern — BINDING PATTERNS
  ────────────────────────────────────────────────────
  A pattern is read as such where a binding is certain (`pattern`), and made
  from an expression where only what follows shows that it was one
  (`patternOf`): the target of an assignment, the head of an arrow function.
-/
import SingleFile.Script.Grammar.Type

namespace SingleFile.Script.Grammar

open SingleFile.Text

/-! ## §1. Property names -/

/-- The name of a property: a word, a literal or an expression in brackets. -/
def propertyName (b : Below) : Parser Node := do
  let current ← token
  match current.lexeme with
  | .word text _ =>
    advance
    return Node.leaf (.fieldName text) current.span
  | .string value =>
    advance
    return Node.leaf (.string value) current.span
  | .number value =>
    advance
    return Node.leaf (.number value) current.span
  | .bigint =>
    advance
    return Node.leaf .bigint current.span
  | .punct "[" => do
    advance
    let inner ← here
    let first ← within (fun m => { m with allowIn := true }) (b.run .assignment)
    if (← read).typed && (← atPunct ",") then
      iterate () fun _ => do
        if ← eatPunct "," then
          let _ ← b.run .assignment
          return .inl ()
        else return .inr ()
      note inner "a computed name is one expression"
    expectPunct "]"
    return Node.mk .computedKey (← spanFrom current.span.start) [first]
  | _ => unexpected "expected a property name"

/-- A private name. -/
def privateName : Parser Node := do
  let start ← here
  expectPunct "#"
  let stop ← lastStop
  if (← here) != stop then failAt stop "a private name has no blank in it"
  let found ← anyWord
  return Node.leaf (.privateName found.text) ⟨start, found.span.stop⟩

/-! ## §2. Patterns -/

/-- A pattern with the default behind it, if there is one. -/
def patternWithDefault (b : Below) : Parser Node := do
  let start ← here
  let left ← b.run (.pattern false)
  if ← eatPunct "=" then
    let right ← within (fun m => { m with allowIn := true }) (b.run .assignment)
    if (← read).inAmbient then note start "an ambient pattern has no default"
    return Node.mk .assignPattern (← spanFrom start) [left, right]
  else return left

/-- The mark of an optional pattern, which only ambient code has. -/
def ambientOptional : Parser Bool := do
  if (← read).inAmbient then eatPunct "?" else return false

/-- An array pattern. -/
def arrayPattern (b : Below) : Parser Node := do
  let start ← here
  expectPunct "["
  let items ← iterate (([] : List Node), (none : Option Nat)) fun (items, rest) => do
    if ← atPunct "]" then return .inr items.reverse
    if ← atPunct "," then
      let span := (← token).span
      advance
      return .inl (Node.leaf .hole ⟨span.start, span.start⟩ :: items, rest)
    if let some offset := rest then note offset "a rest element comes last"
    let itemStart ← here
    let item ← if ← eatPunct "..." then do
        let inner ← b.run (.pattern false)
        pure (Node.mk .restPattern (← spanFrom itemStart) [inner])
      else patternWithDefault b
    let isRest := item.kind == .restPattern
    if !(← atPunct "]") then
      expectPunct ","
      if isRest && (← atPunct "]") then
        note (← lastStop) "no comma may follow a rest element"
    return .inl (item :: items, if isRest then some itemStart else rest)
  expectPunct "]"
  let optional ← ambientOptional
  return Node.mk (.arrayPattern optional) (← spanFrom start) items

/-- A property of an object pattern. -/
def patternProperty (b : Below) : Parser Node := do
  let start ← here
  if ← eatPunct "..." then
    let inner ← b.run (.pattern false)
    return Node.mk .restPattern (← spanFrom start) [inner]
  let key ← propertyName b
  if ← eatPunct ":" then
    let value ← patternWithDefault b
    return Node.mk .keyValuePattern ⟨key.start, value.stop⟩ [key, value]
  match key.kind with
  | .fieldName text => do
    let binding := bindingNode ⟨text, key.span⟩
    if ← eatPunct "=" then
      let value ← within (fun m => { m with allowIn := true }) (b.run .assignment)
      return Node.mk .shorthandPattern (← spanFrom start) [binding, value]
    if (← read).reserves text then note key.start "a reserved word cannot be bound"
    return Node.mk .shorthandPattern (← spanFrom start) [binding]
  | _ => unexpected "expected a name"

/-- The rest of an object pattern comes last, is a name and has no comma behind it. -/
def checkRestProperties (comma : Option Nat) : List Node → Parser Unit
  | [] => return ()
  | [last] => do
    match last with
    | .mk .restPattern span [inner] =>
      match inner.kind with
      | .binding .. =>
        if let some offset := comma then note offset "no comma may follow a rest element"
      | _ => failAt span.start "a rest property is a name"
    | _ => return ()
  | p :: rest => do
    if p.kind == .restPattern then note p.start "a rest property comes last"
    checkRestProperties comma rest

/-- An object pattern. -/
def objectPattern (b : Below) : Parser Node := do
  let start ← here
  expectPunct "\x7b"
  let (properties, comma) ← iterate (([] : List Node), (none : Option Nat)) fun (found, comma) => do
    if ← atPunct "\x7d" then return .inr (found.reverse, comma)
    let property ← patternProperty b
    if ← atPunct "\x7d" then return .inl (property :: found, none)
    let offset ← here
    expectPunct ","
    return .inl (property :: found, some offset)
  expectPunct "\x7d"
  let span ← spanFrom start
  checkRestProperties comma properties
  let optional ← ambientOptional
  return Node.mk (.objectPattern optional) span properties

/-- Any binding pattern or name. -/
def anyPattern (b : Below) (refuseLet : Bool) : Parser Node := do
  match ← lexeme with
  | .punct "[" => arrayPattern b
  | .punct "\x7b" => objectPattern b
  | .word .. => return bindingNode (← bindingName refuseLet)
  | _ => unexpected "expected a name or pattern"

/-- A pattern with a type annotation as its last child. -/
def annotated (pattern : Node) (clause : Option Node) (start stop : Nat) : Node :=
  match clause with
  | none => pattern
  | some a =>
    let span := match pattern.kind with
      | .binding .. => pattern.span
      | _ => ⟨start, stop⟩
    Node.mk pattern.kind span (pattern.children ++ [a])

/-- The type annotation of a pattern, if the language has types. -/
def annotate (b : Below) (pattern : Node) (start : Nat) : Parser Node := do
  let clause ← typeClause? b
  match pattern.kind with
  | .assignPattern => do
    if clause.isSome then note start "an annotation comes before the default"
    return pattern
  | _ => return annotated pattern clause start (← lastStop)

/-! ## §3. Patterns from expressions -/

/-- What an expression is read as a pattern for. -/
inductive PatternUse where
  | assigning
  | assigningElement
  | binding
  | bindingElement
deriving DecidableEq, Repr, Inhabited

/-- What the parts of a pattern are for. -/
def PatternUse.element : PatternUse → PatternUse
  | .assigning => .assigningElement
  | .assigningElement => .assigningElement
  | .binding => .bindingElement
  | .bindingElement => .bindingElement

/-- The expression under markers that types add. -/
def withoutTypeMarks : Node → Node
  | .mk .asType _ (inner :: _) => withoutTypeMarks inner
  | .mk .satisfies _ (inner :: _) => withoutTypeMarks inner
  | .mk .nonNull _ (inner :: _) => withoutTypeMarks inner
  | .mk .instantiation _ (inner :: _) => withoutTypeMarks inner
  | .mk .typeAssertion _ (inner :: _) => withoutTypeMarks inner
  | .mk .paren _ [inner] => withoutTypeMarks inner
  | node => node

/-- Whether an object is reached through no optional step. -/
def plainObject : Node → Bool
  | .mk .optionalChain _ _ => false
  | .mk .member _ (object :: _) => plainObject object
  | _ => true

/-- Whether a value can be stored in what an expression denotes. -/
def isSimpleTarget (strict : Bool) (expression : Node) : Bool :=
  let inner := withoutTypeMarks expression
  match inner with
  | .mk (.ident name) _ _ => !(strict && isStrictOnlyName name)
  | .mk .member _ (object :: _) => plainObject object
  | _ => false

/-- Whether an expression can stand on the left of an assignment at all. -/
def canBeTarget (expression : Node) : Bool :=
  match expression.kind with
  | .ident _ => true
  | .binding .. => true
  | .member => true
  | .paren => true
  | .optionalChain => true
  | .asType => true
  | .satisfies => true
  | .nonNull => true
  | .typeAssertion => true
  | .instantiation => true
  | .hole => true
  | .arrayPattern _ => true
  | .objectPattern _ => true
  | _ => false

/-- Whether typed scripts refuse to store into an expression. -/
def refusedTarget (denyCall : Bool) : Node → Bool
  | .mk .paren _ [inner] => refusedTarget denyCall inner
  | node =>
    match node.kind with
    | .number _ => false
    | .bigint => false
    | .string _ => false
    | .boolean _ => false
    | .null => false
    | .regex => false
    | .call => denyCall
    | .binary _ => false
    | _ => true

/-- Checks that a value can be stored in what an expression denotes. -/
def checkTarget (expression : Node) (denyCall : Bool) : Parser Unit := do
  let mode ← read
  let reservedName := match expression.kind with
    | .ident text => isStrictOnlyName text
    | _ => false
  if reservedName then noteStrict expression.start "strict code cannot assign to the name"
  else if !isSimpleTarget mode.strict expression then
    if !mode.typed || refusedTarget denyCall expression then
      note expression.start "the expression cannot be assigned to"

/-- What stands for a pattern that could not be made. -/
def noPattern (span : Span) : Node := Node.leaf .hole span

/-- Whether an expression of a kind is tried as a target inside a pattern. -/
def isTargetElement (typed : Bool) : Kind → Bool
  | .member => true
  | .call => true
  | .new _ => true
  | .paren => true
  | .number _ => true
  | .bigint => true
  | .string _ => true
  | .boolean _ => true
  | .null => true
  | .regex => true
  | .template => true
  | .functionExpr => true
  | .classExpr => true
  | .asType => true
  | .satisfies => typed
  | .nonNull => typed
  | .typeAssertion => typed
  | _ => false

mutual

/-- The pattern that an expression spells, if it spells one. -/
def patternOf (use : PatternUse) : Node → Parser Node
  | .mk kind span children => do
    let whole := Node.mk kind span children
    match kind with
    | .hole => return whole
    | .object => do
      let properties ← patternProperties use children
      return Node.mk (.objectPattern false) span properties
    | .array => do
      let items ← patternItems use children
      return Node.mk (.arrayPattern false) span items
    | .ident text => do
      if use == .assigning then
        checkTarget whole true
      else if use == .assigningElement && (← read).strict && isStrictOnlyName text then
        note span.start "the expression cannot be assigned to"
      return Node.leaf (.binding text false) span
    | .assign "=" =>
      if use == .assigning then do
        checkTarget whole true
        return whole
      else return Node.mk .assignPattern span children
    | _ =>
      match use with
      | .assigning => do
        checkTarget whole true
        return whole
      | .assigningElement => do
        let mode ← read
        let fits := isTargetElement mode.typed kind
        if fits then
          if !isSimpleTarget mode.strict whole then
            note span.start "the expression cannot be assigned to"
          return whole
        else
          note span.start "the expression is no pattern"
          return noPattern span
      | _ => do
        note span.start "the expression is no pattern"
        return noPattern span

/-- The properties of the object pattern that an object spells. -/
def patternProperties (use : PatternUse) : List Node → Parser (List Node)
  | [] => return []
  | .mk .keyValue span [key, value] :: rest => do
    let value ← patternOf use.element value
    return Node.mk .keyValuePattern span [key, value] :: (← patternProperties use rest)
  | .mk .spread span [inner] :: rest => do
    if !rest.isEmpty then note span.start "a rest property comes last"
    let inner ← patternOf use.element inner
    if inner.kind == .assignPattern then note span.start "a rest property has no default"
    return Node.mk .restPattern span [inner] :: (← patternProperties use rest)
  | .mk (.ident text) span _ :: rest => do
    let property := Node.mk .shorthandPattern span [Node.leaf (.binding text false) span]
    return property :: (← patternProperties use rest)
  | .mk .defaulted span [.mk (.ident text) nameSpan _, value] :: rest => do
    let binding := Node.leaf (.binding text false) nameSpan
    return Node.mk .shorthandPattern span [binding, value] :: (← patternProperties use rest)
  | other :: _ => failAt other.start "the property is no pattern"

/-- The elements of the array pattern that an array spells. -/
def patternItems (use : PatternUse) : List Node → Parser (List Node)
  | [] => return []
  | .mk .spread span [inner] :: rest => do
    if !rest.isEmpty then note span.start "a rest element comes last"
    if inner.kind == .assign "=" then note span.start "a rest element has no default"
    let inner ← patternOf use.element inner
    return Node.mk .restPattern span [inner] :: (← patternItems use rest)
  | item :: rest => do
    if item.kind == .hole then return item :: (← patternItems use rest)
    let item ← patternOf use.element item
    return item :: (← patternItems use rest)

end

end SingleFile.Script.Grammar
