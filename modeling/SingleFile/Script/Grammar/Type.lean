/-
  SingleFile.Script.Grammar.Type — TYPES
  ──────────────────────────────────────
  Types mean nothing at run time, so reading one yields nothing: what counts
  is where it ends.  A type annotation, a list of type parameters and a list
  of type arguments become nodes, because they are cut out of the text.
-/
import SingleFile.Script.Grammar.Basic

namespace SingleFile.Script.Grammar

open SingleFile.Text

/-! ## §1. Angle brackets -/

/-- The first character of a punctuator as a token of its own. -/
def splitFirst (t : Token) (text rest : String) : Token :=
  { t with lexeme := .punct text, span := ⟨t.span.start, t.span.start + 1⟩,
           rest := rest.toList ++ t.rest }

/-- What follows the first character of a punctuator. -/
def afterFirst (text : String) : String := String.ofList (text.toList.drop 1)

/-- Where a bracket is wanted, a longer punctuator that begins with one is cut in two. -/
def cutAngle (bracket : String) (longer : List String) : Parser Unit := do
  let current ← token
  match current.lexeme with
  | .punct text =>
    if longer.contains text then
      modify fun s => { s with token := splitFirst current bracket (afterFirst text) }
  | _ => return ()

/-- Whether the current token is or begins with an opening angle bracket. -/
def atOpenAngle : Parser Bool := atPuncts ["<", "<<"]

/-- Takes an opening angle bracket. -/
def openAngle : Parser Unit := do
  cutAngle "<" ["<<"]
  expectPunct "<"

/-- Whether the current token is or begins with a closing angle bracket. -/
def atCloseAngle : Parser Bool := atPuncts [">", ">>", ">>>", ">=", ">>=", ">>>="]

/-- Takes a closing angle bracket. -/
def closeAngle : Parser Unit := do
  cutAngle ">" [">>", ">>>", ">=", ">>=", ">>>="]
  expectPunct ">"

/-! ## §2. Lists and modifiers -/

/-- Items separated by commas up to a closing token, a comma behind the last one allowed. -/
def commaList (atClose : Parser Bool) (item : Parser Unit) : Parser Unit :=
  iterate () fun _ => do
    if ← atClose then return .inr ()
    item
    if ← eatPunct "," then return .inl ()
    if ← atClose then return .inr ()
    unexpected "expected ,"

/-- Whether the token behind a modifier can begin what it modifies. -/
def followsModifier (t : Token) : Bool :=
  match t.lexeme with
  | .word .. => true
  | .string _ => true
  | .number _ => true
  | .bigint => true
  | .punct text => ["[", "\x7b", "*", "...", "#"].contains text
  | _ => false

/-- Takes one of some modifiers of typed scripts, if it modifies what follows it. -/
def modifier? (allowed : List String) (stopAtStaticBlock : Bool) : Parser (Option String) := do
  if !(← read).typed then return none
  match ← lexeme with
  | .word text _ =>
    if !allowed.contains text then return none
    if stopAtStaticBlock && text == "static" && (← aheadPunct "\x7b") then return none
    if followsModifier (← ahead) then
      advance
      return some text
    else return none
  | _ => return none

/-- Takes an access modifier where a parameter may have one. -/
def parameterModifier : Parser Bool := do
  if !(← read).typed then return false
  if !(← atWords ["public", "protected", "private", "readonly"]) then return false
  let next ← ahead
  if next.lexeme.isAnyWord || next.lexeme.isPunct "\x7b" || next.lexeme.isPunct "[" then
    let _ ← modifier? ["public", "protected", "private", "readonly"] false
    return true
  else return false

/-! ## §3. Type parameters and arguments -/

/-- A constraint or default: a word or sign and the type behind it. -/
def typeAfter (b : Below) (present : Parser Bool) : Parser Unit := do
  if ← present then
    advance
    b.run .type

/-- One type parameter with its variance, constraint and default. -/
def typeParameter (b : Below) (permitVariance permitConst : Bool) : Parser Unit := do
  iterate () fun _ => do
    let found ← modifier?
      ["public", "private", "protected", "readonly", "abstract", "const", "override", "in", "out"]
      false
    match found with
    | none => return .inr ()
    | some "const" => do
      if !permitConst then note (← lastStop) "const is not allowed on this type parameter"
      return .inl ()
    | some word => do
      if word == "in" || word == "out" then
        if !permitVariance then note (← lastStop) "variance is not allowed on this type parameter"
      else note (← lastStop) "the modifier is not allowed on a type parameter"
      return .inl ()
  let _ ← anyWord
  typeAfter b (atWord "extends")
  typeAfter b (atPunct "=")

/-- Type parameters in angle brackets. -/
def typeParameters (b : Below) (permitVariance permitConst : Bool) : Parser Node := do
  let start ← here
  openAngle
  commaList atCloseAngle (typeParameter b permitVariance permitConst)
  closeAngle
  return Node.leaf .typeParameters (← spanFrom start)

/-- Type parameters if there are any. -/
def typeParameters? (b : Below) (permitVariance permitConst : Bool) : Parser (Option Node) := do
  if ← atPunct "<" then return some (← typeParameters b permitVariance permitConst)
  else return none

/-- Type arguments in angle brackets. -/
def typeArguments (b : Below) : Parser Node := do
  let start ← here
  openAngle
  commaList atCloseAngle (b.run .type)
  closeAngle
  return Node.leaf .typeArguments (← spanFrom start)

/-! ## §4. Annotations -/

/-- A colon and a type, the node beginning at the colon. -/
def typeClause (b : Below) : Parser Node := do
  let start ← here
  expectPunct ":"
  b.run .type
  return Node.leaf .typeClause (← spanFrom start)

/-- A type annotation if there is one. -/
def typeClause? (b : Below) : Parser (Option Node) := do
  if (← read).typed && (← atPunct ":") then return some (← typeClause b)
  else return none

/-- A type or a type predicate. -/
def typeOrPredicate (b : Below) : Parser Unit := do
  let mode ← read
  let asserts := (← atWord "asserts") && (match (← ahead).lexeme with
    | .word text _ => !mode.reserves text
    | _ => false)
  if asserts then advance
  let next ← ahead
  let tested := (← atName) && next.lexeme.isWord "is" && !next.newlineBefore
  if asserts || tested then
    let _ ← anyWord
    if tested then
      advance
      b.run .type
  else b.run .type

/-- A result type behind a colon or an arrow. -/
def resultType (b : Below) (sign : String) : Parser Node := do
  let start ← here
  expectPunct sign
  typeOrPredicate b
  return Node.leaf .typeClause (← spanFrom start)

/-! ## §5. Parameters and members of types -/

/-- A parameter of a function type. -/
def signatureParameter (b : Below) : Parser Unit := do
  if ← eatPunct "..." then
    let _ ← b.run (.pattern false)
    let _ ← typeClause? b
  else
    let _ ← parameterModifier
    let _ ← b.run (.pattern false)
    let _ ← eatPunct "?"
    let _ ← typeClause? b

/-- The parameters of a function type behind their opening parenthesis. -/
def signatureParameters (b : Below) : Parser Unit := do
  commaList (atPunct ")") (signatureParameter b)
  expectPunct ")"

/-- The end of a member of an object type. -/
def memberEnd : Parser Unit := do
  if ← eatPunct "," then return () else expectSemicolon

/-- The name of a member of an object type. -/
def memberName (b : Below) : Parser Unit := do
  if ← eatPunct "[" then
    let _ ← within (fun m => { m with allowIn := true }) (b.run .assignment)
    expectPunct "]"
  else match ← lexeme with
    | .string _ => advance
    | .number _ => advance
    | .bigint => advance
    | .punct "#" => do
      note (← here) "an object type has no private members"
      advance
      let _ ← anyWord
    | _ => do
      let _ ← anyWord

/-- Whether an index signature begins at the current bracket. -/
def atIndexSignature : Parser Bool := peekFor do
  expectPunct "["
  let _ ← anyWord
  atPuncts [":", ","]

/-- An index signature: the bound name, with its annotation. -/
def indexSignature? (b : Below) : Parser (Option Node) := do
  if !((← atPunct "[") && (← atIndexSignature)) then return none
  let start ← here
  expectPunct "["
  let found ← anyWord
  if ← atPunct "," then
    note found.span.start "an index signature has one parameter"
    advance
  else expectPunct ":"
  b.run .type
  let binding := bindingNode found
  expectPunct "]"
  let _ ← typeClause? b
  memberEnd
  return some (Node.mk .indexSignature (← spanFrom start) [binding])

/-- A call or construct signature behind its first words. -/
def callSignature (b : Below) : Parser Unit := do
  let _ ← typeParameters? b false true
  expectPunct "("
  signatureParameters b
  if ← atPunct ":" then
    let _ ← resultType b ":"
  memberEnd

/-- An accessor of an object type. -/
def accessorSignature? (b : Below) (isReadonly : Bool) : Parser (Option Unit) := attempt do
  if isReadonly then unexpected "an accessor cannot be readonly"
  let isGetter ← eatWord "get"
  if !isGetter then expectWord "set"
  memberName b
  expectPunct "("
  if isGetter then
    expectPunct ")"
    let _ ← typeClause? b
  else
    if ← atPunct ")" then unexpected "a setter needs a parameter"
    signatureParameters b
  memberEnd
  return some ()

/-- A member of an object type. -/
def typeMember (b : Below) : Parser Unit := do
  if (← atPunct "(") || (← atPunct "<") then return ← callSignature b
  let next ← ahead
  if (← atWord "new") && (next.lexeme.isPunct "(" || next.lexeme.isPunct "<") then
    advance
    return ← callSignature b
  let isReadonly := (← modifier? ["readonly"] false).isSome
  if (← indexSignature? b).isSome then return ()
  if (← accessorSignature? b isReadonly).isSome then return ()
  memberName b
  let _ ← eatPunct "?"
  if (← atPunct "(") || (← atPunct "<") then
    if isReadonly then unexpected "a method cannot be readonly"
    callSignature b
  else
    let _ ← typeClause? b
    memberEnd

/-- The members of an object type in braces. -/
def objectType (b : Below) : Parser Unit := do
  expectPunct "\x7b"
  iterate () fun _ => do
    if ← atPunct "\x7d" then return .inr ()
    typeMember b
    return .inl ()
  expectPunct "\x7d"

/-! ## §6. Kinds of types -/

/-- Whether a mapped type begins at the current brace. -/
def atMappedType : Parser Bool := peekFor do
  expectPunct "\x7b"
  if ← eatPuncts ["+", "-"] then return ← atWord "readonly"
  let _ ← eatWord "readonly"
  if !(← eatPunct "[") then return false
  if !(← atName) then return false
  advance
  atWord "in"

/-- A sign and the word or mark it adds or removes. -/
def mappedModifier (mark : Parser Bool) : Parser Unit := do
  if ← eatPuncts ["+", "-"] then
    if !(← mark) then unexpected "expected a modifier"
  else
    let _ ← mark

/-- A mapped type. -/
def mappedType (b : Below) : Parser Unit := do
  expectPunct "\x7b"
  mappedModifier (eatWord "readonly")
  expectPunct "["
  let _ ← anyWord
  expectWord "in"
  b.run .type
  if ← eatWord "as" then b.run .type
  expectPunct "]"
  mappedModifier (eatPunct "?")
  let _ ← typeClause? b
  expectSemicolon
  expectPunct "\x7d"

/-- Whether a tuple element has a name in front of it, which is then taken. -/
def tupleName : Parser Unit := do
  let _ ← attempt do
    let _ ← eatPunct "..."
    let _ ← anyWord
    let _ ← eatPunct "?"
    expectPunct ":"
    return some ()

/-- An element of a tuple; tells whether it is an optional one and whether it is a rest. -/
def tupleElement (b : Below) : Parser (Bool × Bool) := do
  tupleName
  if ← eatPunct "..." then
    b.run .type
    return (false, true)
  b.run .type
  return (← eatPunct "?", false)

/-- A tuple; behind an optional element no required one may stand. -/
def tupleType (b : Below) : Parser Unit := do
  let start ← here
  expectPunct "["
  iterate false fun optionalSeen => do
    if ← atPunct "]" then return .inr ()
    let (isOptional, isRest) ← tupleElement b
    if optionalSeen && !isOptional && !isRest then
      failAt start "a required element cannot follow an optional one"
    let seen := optionalSeen || isOptional
    if ← eatPunct "," then return .inl seen
    if ← atPunct "]" then return .inr ()
    unexpected "expected ,"
  expectPunct "]"

/-- Names separated by dots. -/
def entityName : Parser Unit := do
  let _ ← anyWord
  iterate () fun _ => do
    if ← eatPunct "." then
      let _ ← anyWord
      return .inl ()
    else return .inr ()

/-- Type arguments on the line of what they belong to. -/
def typeArgumentsHere (b : Below) : Parser Unit := do
  if !(← afterNewline) && (← atOpenAngle) then
    let _ ← typeArguments b

/-- The type of an imported module. -/
def importType (b : Below) : Parser Unit := do
  expectWord "import"
  expectPunct "("
  match ← lexeme with
  | .string _ => advance
  | _ => do
    note (← here) "expected a string"
    advance
  if ← eatPunct "," then
    if ← atPunct "\x7b" then
      let _ ← b.run .assignment
    let _ ← eatPunct ","
  expectPunct ")"
  if ← eatPunct "." then entityName
  if ← atOpenAngle then
    let _ ← typeArguments b

/-- The type of a value. -/
def typeQuery (b : Below) : Parser Unit := do
  expectWord "typeof"
  if ← atWord "import" then importType b
  else
    entityName
    typeArgumentsHere b

/-- The parts of a template literal type, from behind its opening mark. -/
def templateType (b : Below) : Parser Unit := do
  let start ← token
  iterate (⟨start.span.stop, start.rest⟩ : Cursor) fun c => do
    match readChunk (c.rest.length + 1) c true with
    | none => failAt (c.offset - 1) "unterminated template"
    | some chunk => do
      if !chunk.valid then failAt c.offset "malformed escape"
      let typed := (← read).typed
      if chunk.substitution then
        install (readToken typed false chunk.cursor)
        b.run .type
        let close ← token
        if !(← atPunct "\x7d") then unexpected "expected \x7d"
        return .inl ⟨close.span.stop, close.rest⟩
      else
        modify fun s => { s with lastStop := chunk.cursor.offset }
        install (readToken typed false chunk.cursor)
        return .inr ()

/-- The words that are types by themselves, unless a dot follows. -/
def keywordTypes : List String :=
  ["void", "null", "any", "boolean", "bigint", "never", "number", "object", "string", "symbol",
    "unknown", "undefined", "intrinsic"]

/-- A type that begins with a word. -/
def wordType (b : Below) (text : String) : Parser Unit := do
  if text == "import" then importType b
  else if text == "typeof" then typeQuery b
  else if text == "true" || text == "false" then advance
  else if text == "this" then
    advance
    if ← eatWordIf (!(← afterNewline)) "is" then b.run .type
  else if text == "asserts" && (← aheadWord "this") then
    advance
    advance
    if ← eatWord "is" then b.run .type
  else if reservedWords.contains text && !(["void", "null", "break"].contains text) then
    unexpected "expected a type"
  else if keywordTypes.contains text && !(← aheadPunct ".") then advance
  else
    entityName
    typeArgumentsHere b

/-- A type without operators around it. -/
def primaryType (b : Below) : Parser Unit := do
  match ← lexeme with
  | .word text _ => wordType b text
  | .string _ => advance
  | .number _ => advance
  | .bigint => advance
  | .punct text =>
    if text == "-" then
      advance
      match ← lexeme with
      | .number _ => advance
      | .bigint => advance
      | _ => unexpected "expected a number"
    else if text == "\x7b" then
      if ← atMappedType then mappedType b else objectType b
    else if text == "[" then tupleType b
    else if text == "(" then
      advance
      b.run .type
      expectPunct ")"
    else if text == "\x60" then templateType b
    else unexpected "expected a type"
  | _ => unexpected "expected a type"

/-- Array types and indexed types. -/
def arrayType (b : Below) : Parser Unit := do
  primaryType b
  iterate () fun _ => do
    if ← eatPunctIf (!(← afterNewline)) "[" then
      if ← eatPunct "]" then return .inl ()
      b.run .type
      expectPunct "]"
      return .inl ()
    else return .inr ()

/-- An inferred type with its constraint. -/
def inferType (b : Below) : Parser Unit := do
  expectWord "infer"
  let _ ← anyWord
  if ← atWord "extends" then
    -- A question mark behind the constraint makes it the condition of a conditional type, where one
    -- may stand; then it is given back.
    let wide := !(← read).plainTypes
    let _ ← attempt do
      advance
      within (fun m => { m with plainTypes := true }) (b.run .plainType)
      if wide && (← atPunct "?") then return none
      return some ()

/-- Types with an operator word in front. -/
def operatorType (b : Below) : Parser Unit := do
  if (← atWords ["keyof", "unique", "readonly"]) then
    advance
    b.run .typeOperator
  else if ← atWord "infer" then inferType b
  else arrayType b

/-- Types joined by an operator, which may also stand in front. -/
def joinedTypes (operator : String) (part : Parser Unit) : Parser Unit := do
  let _ ← eatPunct operator
  part
  iterate () fun _ => do
    if ← eatPunct operator then
      part
      return .inl ()
    else return .inr ()

/-- Unions of intersections. -/
def unionType (b : Below) : Parser Unit :=
  joinedTypes "|" (joinedTypes "&" (b.run .typeOperator))

/-- Over the start of a parameter. -/
def skipParameterStart (b : Below) : Parser Bool := do
  let _ ← parameterModifier
  if ← atAnyWord then
    advance
    return true
  if (← atPunct "\x7b") || (← atPunct "[") then
    let _ ← b.run (.pattern false)
    return true
  return false

/-- Whether a parenthesis begins the parameters of a function type. -/
def atFunctionType (b : Below) : Parser Bool := do
  if ← atPunct "<" then return true
  if !(← atPunct "(") then return false
  peekFor do
    expectPunct "("
    -- A parenthesis may also hold a type: only what follows the first name decides.
    if (← atPunct ")") || (← atPunct "...") then return true
    if ← skipParameterStart b then
      if ← atPuncts [":", ",", "?", "="] then return true
      if ← eatPunct ")" then return ← atPunct "=>"
    return false

/-- A function or constructor type behind its first words. -/
def functionType (b : Below) : Parser Unit := do
  let _ ← typeParameters? b false true
  expectPunct "("
  signatureParameters b
  expectPunct "=>"
  typeOrPredicate b

/-- A type that is no conditional type. -/
def plainType (b : Below) : Parser Unit := do
  if ← atFunctionType b then functionType b
  else if (← atWord "new") || ((← atWord "abstract") && (← aheadWord "new")) then
    let _ ← eatWord "abstract"
    advance
    functionType b
  else unionType b

/-- Any type. -/
def anyType (b : Below) : Parser Unit := within (fun m => { m with plainTypes := false }) do
  plainType b
  if !(← afterNewline) && (← atWord "extends") then
    advance
    within (fun m => { m with plainTypes := true }) (plainType b)
    expectPunct "?"
    b.run .type
    expectPunct ":"
    b.run .type

/-! ## §7. Heritage -/

/-- One type a class or interface inherits from: a dotted name with type arguments. -/
def heritageElement (b : Below) : Parser Node := do
  let start ← here
  entityName
  if ← atOpenAngle then
    let _ ← typeArguments b
  return Node.leaf .heritage (← spanFrom start)

/-- The types a class or interface inherits from. -/
def heritageList (b : Below) : Parser (List Node) := do
  let atClose : Parser Bool := do
    return (← atPunct "\x7b") || (← atWord "implements") || (← atWord "extends")
  iterate ([] : List Node) fun items => do
    if ← atClose then return .inr items.reverse
    let item ← heritageElement b
    if ← eatPunct "," then return .inl (item :: items)
    if ← atClose then return .inr (item :: items).reverse
    unexpected "expected ,"

end SingleFile.Script.Grammar
