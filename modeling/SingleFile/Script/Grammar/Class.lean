/-
  SingleFile.Script.Grammar.Class — CLASSES
  ─────────────────────────────────────────
  Class bodies are strict code.  A word in front of a member is a modifier
  only if something follows that it can modify; otherwise it is the member's
  own name.
-/
import SingleFile.Script.Grammar.Function

namespace SingleFile.Script.Grammar

open SingleFile.Text

/-! ## §1. What is known before the body of a member -/

/-- What has been read in front of a member's body. -/
structure MemberHead where
  start : Nat
  decorators : List Node
  hasAccess : Bool
  declared : Option Nat
  staticAt : Option Nat
  isAbstract : Bool
  isReadonly : Bool
  isOverride : Bool
  isAccessor : Bool
  isOptional : Bool
deriving Inhabited

/-- A member with nothing in front of it but decorators. -/
def MemberHead.plain (start : Nat) (decorators : List Node) : MemberHead :=
  ⟨start, decorators, false, none, none, false, false, false, false, false⟩

/-- Whether a method's parameters begin here. -/
def atMethod : Parser Bool := do
  return (← atPunct "(") || ((← read).typed && (← atPunct "<"))

/-- Whether a field ends or its value begins here; with `byLine` a line's end counts too. -/
def atField (byLine : Bool) : Parser Bool := do
  if (← read).typed && ((← atPunct "!") || (← atPunct ":")) then return true
  if (← atPunct "=") || (← atPunct "\x7d") then return true
  if byLine then atStatementEnd else atPunct ";"

/-- Whether a key is the name of the constructor. -/
def isConstructorKey (key : Node) : Bool :=
  match key.kind with
  | .fieldName "constructor" => true
  | .string (some "constructor") => true
  | _ => false

/-- Whether a key is private. -/
def isPrivateKey (key : Node) : Bool :=
  match key.kind with
  | .privateName _ => true
  | _ => false

/-- The key of a member. -/
def memberKey (b : Below) : Parser Node := do
  if ← atPunct "#" then
    let key ← privateName
    if key.kind == .privateName "constructor" then
      note key.start "a private member cannot be the constructor"
    return key
  else propertyName b

/-! ## §2. Methods -/

/-- What kind of method a member is. -/
inductive MethodSort where
  | method
  | getter
  | setter
deriving DecidableEq, Repr

/-- Notes a rest as the first parameter of a setter. -/
def noteRestOfSetter (params : List Node) : Parser Unit :=
  match params with
  | .mk .param _ parts :: _ =>
    match parts.getLast? with
    | some (.mk .restPattern span _) => note span.start "a setter takes no rest"
    | _ => return ()
  | _ => return ()

/-- The parameters of a method; accessors have a fixed number of them. -/
def methodParameters (b : Below) (key : Node) (sort : MethodSort) : Parser (List Node) := do
  let params ← parameters b
  let own := params.filter fun p => !isThisParameter p
  match sort with
  | .method => return params
  | .getter =>
    if !own.isEmpty then note key.start "a getter has no parameter"
    return params
  | .setter =>
    if own.length != 1 then note key.start "a setter has one parameter"
    noteRestOfSetter params
    return params

/-- A method behind its key. -/
def makeMethod (b : Below) (head : MemberHead) (key : Node) (isAsync isGenerator : Bool)
    (sort : MethodSort) : Parser Node := do
  let function ← within (fun m => { m with allowSuper := true, inClassField := false })
    (functionRest b head.start head.decorators isAsync isGenerator (methodParameters b key sort))
  let span ← spanFrom head.start
  let hasBody := match function.kind with
    | .function _ _ hasBody => hasBody
    | _ => false
  let isPrivate := isPrivateKey key
  if isPrivate && head.hasAccess then note head.start "a private name has no access modifier"
  if !isPrivate && head.isAbstract && hasBody then note head.start "an abstract method has no body"
  let marks : MemberMarks :=
    ⟨key.span, head.isAbstract, head.declared.isSome, head.isOptional, false, hasBody⟩
  return Node.mk (.methodMember isPrivate marks) span [key, function]

/-! ## §3. Fields -/

/-- A field behind its key. -/
def makeField (b : Below) (head : MemberHead) (key : Node) : Parser Node := do
  if isConstructorKey key then failAt key.start "a field cannot be the constructor"
  let isPrivate := isPrivateKey key
  if isPrivate && (head.declared.isSome || head.isAbstract) then
    note key.start "a private name has no such modifier"
  let definite ← if (← read).typed && !head.isOptional then eatPunct "!" else pure false
  let clause ← typeClause? b
  within (fun m => { m with allowIn := true, inClassField := true }) do
    let value ← if ← eatPunct "=" then some <$> b.run .assignment else pure none
    if !(← eatSemicolon) then note (← here) "expected ;"
    let span ← spanFrom head.start
    let children := key :: value.toList ++ clause.toList ++ head.decorators
    if head.isAccessor then return Node.mk .accessorMember span children
    if isPrivate && head.hasAccess then note head.start "a private name has no access modifier"
    if head.isAbstract && value.isSome then
      note head.start "an abstract field has no value"
    let marks : MemberMarks :=
      ⟨key.span, head.isAbstract, head.declared.isSome, head.isOptional, definite, false⟩
    return Node.mk (.fieldMember isPrivate marks) span children

/-! ## §4. Constructors -/

/-- A constructor behind its key. -/
def makeConstructor (b : Below) (head : MemberHead) (key : Node) : Parser Node := do
  let mode ← read
  if mode.typed && head.isOverride then note head.start "a constructor overrides nothing"
  if mode.typed && (← atPunct "<") then
    note (← here) "a constructor has no type parameters"
    let _ ← typeParameters b false true
  expectPunct "("
  let params ← constructorParameters b
  expectPunct ")"
  if mode.typed && (← atPunct ":") then
    let clause ← typeClause b
    note clause.start "a constructor has no result type"
  let body ← functionBody b false false (params.all isPlainParameter)
  if body.isNone then
    for param in params do
      match param with
      | .mk .paramProperty span _ =>
        note span.start "only a constructor with a body declares fields"
      | .mk .param _ [.mk .assignPattern span _] =>
        note span.start "a parameter without a body has no default"
      | _ => pure ()
  if let some offset := head.staticAt then note offset "a constructor is not static"
  if head.isAbstract then note head.start "a constructor is not abstract"
  let marks : MemberMarks :=
    ⟨key.span, head.isAbstract, head.declared.isSome, head.isOptional, false, body.isSome⟩
  return Node.mk (.constructorMember marks) (← spanFrom head.start) (key :: params ++ body.toList)

/-! ## §5. Members -/

/-- A block that runs when the class is made. -/
def staticBlock (b : Below) (start : Nat) : Parser Node := do
  let body ← within (fun m => { m with inStaticBlock := true, inClassField := true,
                                       allowBreak := false, allowContinue := false })
    (withoutLabels (block b false))
  return Node.mk .staticBlock (← spanFrom start) [body]

/-- The modifiers of typed scripts in front of a key; their order is checked. -/
def memberModifiers (head : MemberHead) : Parser MemberHead := iterate head fun head => do
  match ← modifier? ["abstract", "readonly", "override", "static"] true with
  | none => return .inr head
  | some word => do
    let offset := (← lastStop) - word.utf8ByteSize
    if word == "abstract" then
      if head.isAbstract || head.isOverride || head.isReadonly || head.staticAt.isSome then
        note offset "abstract is misplaced"
      return .inl { head with isAbstract := true }
    else if word == "override" then
      if head.isOverride || head.isReadonly || head.declared.isSome then
        note offset "override is misplaced"
      else if !(← read).hasSuperclass then note offset "the class extends nothing"
      return .inl { head with isOverride := true }
    else if word == "readonly" then
      if head.isReadonly then note offset "readonly is repeated"
      return .inl { head with isReadonly := true }
    else
      if head.isOverride then note offset "static is misplaced"
      return .inl { head with staticAt := some offset }

/-- What a word that is no modifier may be: the key of a method or field of its own name. -/
def wordMember? (b : Below) (head : MemberHead) (word : String) (start : Nat) (byLine : Bool) :
    Parser (Option Node) := do
  let key := Node.leaf (.fieldName word) ⟨start, ← lastStop⟩
  let optional : Parser MemberHead := do
    let marked ← if (← read).typed then eatPunct "?" else pure false
    return { head with isOptional := marked }
  if ← atMethod then
    let head ← optional
    return some (← makeMethod b head key false false .method)
  if (← atField byLine) || ((← read).typed && (← atPunct "?")) then
    let head ← optional
    return some (← makeField b head key)
  return none

/-- A member whose modifiers have been read, from its key on. -/
def keyedMember (b : Below) (head : MemberHead) : Parser Node := do
  let mode ← read
  if ← eatPunct "*" then
    let key ← memberKey b
    if head.isReadonly then note head.start "a method is not readonly"
    if isConstructorKey key then note head.start "a constructor is no generator"
    return ← makeMethod b head key false true .method
  let key ← if head.isAccessor && (← atMethod) then do
      let stop ← lastStop
      pure (Node.leaf (.fieldName "accessor") ⟨stop - 8, stop⟩)
    else memberKey b
  let head := { head with isOptional := mode.typed && (← atPunct "?") }
  if head.isOptional then advance
  if ← atMethod then
    if let some offset := head.declared then note offset "a method is not ambient"
    if head.isReadonly then failAt head.start "a method is not readonly"
    if isConstructorKey key then return ← makeConstructor b head key
    return ← makeMethod b head key false false .method
  let generatorBelow := (← afterNewline) && (← atPunct "*")
  if (← atField true) || generatorBelow then return ← makeField b head key
  -- Neither a method nor a field begins behind the key, so it was a modifier after all.
  match key.kind with
  | .fieldName "async" => do
    if ← afterNewline then unexpected "expected a member"
    if (← modifier? ["override"] false).isSome then note head.start "override is misplaced"
    let isGenerator ← eatPunct "*"
    let key ← memberKey b
    if isConstructorKey key then failAt key.start "a constructor is not asynchronous"
    if head.isReadonly then failAt head.start "a method is not readonly"
    let marked ← if mode.typed then eatPunct "?" else pure false
    let head := { head with isOptional := head.isOptional || marked }
    makeMethod b head key true isGenerator .method
  | .fieldName "get" => do
    let accessed ← memberKey b
    if head.isReadonly then note key.start "an accessor is not readonly"
    if isConstructorKey accessed then note key.start "a constructor is no accessor"
    makeMethod b head accessed false false .getter
  | .fieldName "set" => do
    let accessed ← memberKey b
    if head.isReadonly then note key.start "an accessor is not readonly"
    if isConstructorKey accessed then note key.start "a constructor is no accessor"
    makeMethod b head accessed false false .setter
  | _ => unexpected "expected a member"

/-- A member behind `declare`, its access modifier and `static`. -/
def modifiedMember (b : Below) (head : MemberHead) : Parser Node := do
  let mode ← read
  let before ← lastStop
  let head ← memberModifiers head
  let modified := (← lastStop) != before
  let isAccessor ← if mode.typed then eatWord "accessor" else pure false
  let head := { head with isAccessor := isAccessor }
  if head.staticAt.isSome && (← atPunct "\x7b") then
    if let some offset := head.declared then note offset "a modifier cannot stand here"
    if head.hasAccess then note head.start "a modifier cannot stand here"
    return ← staticBlock b head.start
  if (← atWord "static") && (← aheadPunct "\x7b") then
    if modified then note before "a modifier cannot stand here"
    if let some offset := head.staticAt then note offset "a modifier cannot stand here"
    advance
    return ← staticBlock b head.start
  -- A bracket may begin a computed key or an index signature.
  if mode.typed && !head.isAbstract && !head.isOverride && !head.hasAccess then
    if let some signature := ← indexSignature? b then return signature
  keyedMember b head

/-- A member of a class. -/
def classMember (b : Below) : Parser Node := do
  let start ← here
  let found ← decorators b false
  let typed := (← read).typed
  let mut head := MemberHead.plain start found
  let mut wordStart ← here
  let mut declared ← if typed then eatWord "declare" else pure false
  let access ← modifier? ["public", "protected", "private", "in", "out"] false
  head := { head with hasAccess := access.isSome }
  -- The word may stand on either side of the access modifier.
  if !declared && typed then
    wordStart ← here
    declared ← eatWord "declare"
  if declared then
    if let some member := ← wordMember? b head "declare" wordStart true then return member
    head := { head with declared := some wordStart }
  let staticStart ← here
  if ← eatWord "static" then
    if !(← atPunct "\x7b") then
      if let some member := ← wordMember? b head "static" staticStart false then return member
    head := { head with staticAt := some staticStart }
  modifiedMember b head

/-- The members of a class up to its closing brace; only one constructor has a body. -/
def classMembers (b : Below) : Parser (List Node) :=
  iterate (([] : List Node), false) fun (items, constructed) => do
    if (← atEnd) || (← atPunct "\x7d") then return .inr items.reverse
    let start ← here
    if ← eatPunct ";" then
      return .inl (Node.leaf .emptyMember (← spanFrom start) :: items, constructed)
    let item ← within (fun m => { m with allowSuper := true }) (classMember b)
    match item.kind with
    | .constructorMember marks =>
      if marks.hasBody && constructed && !(← read).inAmbient then
        note item.start "a class has one constructor"
      return .inl (item :: items, constructed || marks.hasBody)
    | _ => return .inl (item :: items, constructed)

/-! ## §6. Classes -/

/-- Whether a member is marked as abstract. -/
def isAbstractMember (member : Node) : Bool :=
  match member.kind with
  | .methodMember _ marks => marks.isAbstract
  | .fieldMember _ marks => marks.isAbstract
  | _ => false

/-- The names that types have and classes cannot. -/
def typeOnlyNames : List String :=
  ["string", "null", "number", "object", "any", "unknown", "boolean", "bigint", "symbol", "void",
    "never", "intrinsic"]

/-- A superclass and its type arguments. -/
def superclass (b : Below) : Parser (List Node) := do
  let found ← b.run .leftHand
  match found with
  | .mk .instantiation _ parts => return parts
  | _ =>
    if (← read).typed && (← atOpenAngle) then return [found, ← typeArguments b]
    else return [found]

/-- A class from its first word on: its name, and the class itself, which starts at `start`. -/
def classParts (b : Below) (start : Nat) (found : List Node) (isAbstract nameRequired : Bool) :
    Parser (Option Name × Node) :=
  within (fun m => { m with strict := true, inClass := true, colonAwaited := false }) do
    let typed := (← read).typed
    expectWord "class"
    let name ← bindingName? nameRequired true
    if let some n := name then
      if typed && typeOnlyNames.contains n.text then note n.span.start "the name is that of a type"
    let typeParams ← if typed then typeParameters? b true true else pure none
    let parent ← if ← eatWord "extends" then do
        let parts ← superclass b
        if ← eatPunctIf typed "," then
          for extra in (← heritageList b) do note extra.start "a class extends one class"
        pure parts
      else pure []
    let implemented ← if ← eatWordIf typed "implements" then heritageList b else pure []
    if typed && (← atWord "implements") then
      note (← here) "implements is repeated"
      advance
      let _ ← heritageList b
    if typed && (← atWord "extends") then
      note (← here) "extends comes first and once"
      advance
      let _ ← superclass b
    expectPunct "\x7b"
    let members ← within (fun m => { m with hasSuperclass := !parent.isEmpty }) (classMembers b)
    if ← atEnd then note (← here) "expected \x7d" else expectPunct "\x7d"
    if !isAbstract then
      for member in members do
        if isAbstractMember member then note member.start "the class is not abstract"
    return (name, Node.mk (.classBody isAbstract) (← spanFrom start)
      (found ++ typeParams.toList ++ parent ++ implemented ++ members))

/-- A class expression. -/
def classExpression (b : Below) (start : Nat) (found : List Node) : Parser Node := do
  let (name, body) ← classParts b start found false false
  return Node.mk .classExpr body.span ((name.map identNode).toList ++ [body])

/-- A class declaration. -/
def classDeclaration (b : Below) (start : Nat) (found : List Node) (isAbstract : Bool) :
    Parser Node := do
  let (name, body) ← classParts b start found isAbstract true
  return Node.mk (.classDecl false) body.span ((name.map identNode).toList ++ [body])

end SingleFile.Script.Grammar
