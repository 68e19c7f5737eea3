/-
  SingleFile.Script.Grammar.Declaration — DECLARATIONS
  ────────────────────────────────────────────────────
  Variables, and the declarations that only typed scripts have: interfaces,
  type aliases, enums and namespaces.
-/
import SingleFile.Script.Grammar.Expression

namespace SingleFile.Script.Grammar

open SingleFile.Text

/-! ## §1. Variables -/

/-- The words that declare variables. -/
inductive VariableWord where
  | var
  | let
  | const
deriving DecidableEq, Repr

/-- Whether a token behind `let` makes it a declaration. -/
def followsLet (t : Token) : Bool :=
  match t.lexeme with
  | .punct text => text == "[" || text == "\x7b"
  | .word text _ => !reservedWords.contains text
  | _ => false

/-- The word that declares variables here, if one does. -/
def variableWord? : Parser (Option VariableWord) := do
  if ← atWord "var" then return some .var
  if ← atWord "const" then return some .const
  if (← atWord "let") && followsLet (← ahead) then return some .let
  return none

/-- One variable with its annotation and initial value. -/
def declarator (b : Below) (word : VariableWord) (inHead : Bool) : Parser Node := do
  let start ← here
  let mode ← read
  let pattern ← b.run (.pattern (word != .var))
  let definite ← if mode.typed && isPlainPattern pattern then eatPunct "!" else pure false
  let clause ← typeClause? b
  let pattern := annotated pattern clause start (← lastStop)
  let hasHeadWord ← atWords ["in", "of"]
  if inHead && hasHeadWord then
    return Node.mk (.declarator definite) (← spanFrom start) [pattern]
  if ← eatPunct "=" then
    let value ← b.run .assignment
    checkDefaults value
    return Node.mk (.declarator definite) (← spanFrom start) [pattern, value]
  if !mode.inAmbient then
    if word == .const && !inHead then note start "a constant needs a value"
    else if !isPlainPattern pattern then failAt start "a pattern needs a value"
  return Node.mk (.declarator definite) (← spanFrom start) [pattern]

/-- The variables behind the declaring word. -/
def declarators (one : Parser Node) : Parser (List Node) :=
  iterate ([] : List Node) fun items => do
    if (← atPunct ";") || (← atEnd) then
      note (← lastStop) "expected a name"
      return .inr items.reverse
    let item ← one
    if ← eatPunct "," then return .inl (item :: items)
    return .inr (item :: items).reverse

/-- Over the rest of a statement that nothing can be made of. -/
def skipStatement (b : Below) : Parser Unit := do
  try
    let _ ← b.run .expression
  catch _ => pure ()
  iterate () fun _ => do
    if ← eatSemicolon then return .inr ()
    advance
    match ← lexeme with
    | .broken _ => return .inr ()
    | _ => return .inl ()

/-- A declaration of variables; with `inHead` one in the head of a loop. -/
def variableDeclaration (b : Below) (word : VariableWord) (inHead : Bool) : Parser Node := do
  let start ← here
  advance
  let allowsIn := word != .var || !inHead
  let items ← within (fun m => { m with allowIn := allowsIn })
    (declarators (declarator b word inHead))
  if !inHead then
    if !(← eatSemicolon) then
      note (← here) "expected ;"
      skipStatement b
  return Node.mk (.variables false) (← spanFrom start) items

/-- A declaration of resources behind `using`, which is the current token; nothing if it is a
name here. -/
def usingDeclaration? (b : Below) (start : Nat) : Parser (Option Node) := do
  let next ← ahead
  let mode ← read
  let isName := match next.lexeme with
    | .word text _ => !mode.reserves text
    | _ => false
  if next.newlineBefore || !isName then return none
  advance
  let items ← declarators (declarator b .var false)
  let span ← spanFrom start
  if !mode.typed then note start "using is not enabled"
  for item in items do
    match item with
    | .mk _ _ (pattern :: rest) =>
      if !isPlainPattern pattern then note start "a resource has a plain name"
      if rest.isEmpty then note start "a resource needs a value"
    | _ => pure ()
  return some (Node.mk .usingDecl span items)

/-! ## §2. Interfaces and aliases -/

/-- An interface behind its first word. -/
def interfaceDeclaration (b : Below) (start : Nat) : Parser Node := do
  let found ← anyWord
  if typeOnlyNames.contains found.text then note found.span.start "the name is that of a type"
  let _ ← typeParameters? b true false
  if ← eatWord "extends" then
    let _ ← heritageList b
  if ← atWord "extends" then
    note (← here) "extends is repeated"
    iterate () fun _ => do
      if (← atEnd) || (← atPunct "\x7b") then return .inr ()
      advance
      return .inl ()
  objectType b
  return Node.leaf (.interfaceDecl found.text) (← spanFrom start)

/-- A type alias behind its first word. -/
def typeAlias (b : Below) (start : Nat) : Parser Node := do
  let found ← anyWord
  let _ ← typeParameters? b true false
  expectPunct "="
  b.run .type
  expectSemicolon
  return Node.leaf (.typeAlias found.text) (← spanFrom start)

/-! ## §3. Enums -/

/-- The span of the text that a key in brackets spells: a string, or a template without
substitutions, which is taken without its marks. -/
def spelledKey? (key : Node) : Option Span :=
  match key with
  | .mk (.string _) span _ => some span
  | .mk .template span [] => some ⟨span.start + 1, span.stop - 1⟩
  | _ => none

/-- The key of an enum member and the node of its name. -/
def enumKey (b : Below) : Parser (EnumKey × List Node) := do
  let current ← token
  match current.lexeme with
  | .string _ =>
    advance
    return (.quoted current.span, [])
  | .number _ =>
    note current.span.start "a number names no member"
    advance
    return (.quoted current.span, [])
  | .punct "[" => do
    advance
    let key ← b.run .expression
    match spelledKey? key with
    | some span => do
      expectPunct "]"
      return (.quoted span, [])
    | none => do
      note current.span.start "a computed name names no member"
      expectPunct "]"
      return (.quoted key.span, [])
  | _ => do
    let found ← anyWord
    return (.word found.text, [identNode found])

/-- A member of an enum.  What stands where a comma has to is passed over, together with what
follows it. -/
def enumMember (b : Below) : Parser Node := do
  let start ← here
  let (key, names) ← enumKey b
  if ← eatPunct "=" then
    let value ← b.run .assignment
    return Node.mk (.enumMember key) (← spanFrom start) (names ++ [value])
  let node := Node.mk (.enumMember key) (← spanFrom start) names
  if !(← atPunct ",") && !(← atPunct "\x7d") then
    let offset ← here
    advance
    -- The token passed over counts as the comma that is missing.
    modify fun s => { s with token := { s.token with lexeme := .punct "," } }
    note offset "expected ,"
  return node

/-- An enum behind its first words. -/
def enumDeclaration (b : Below) (start : Nat) (isConst : Bool) : Parser Node := do
  let found ← anyWord
  expectPunct "\x7b"
  let members ← iterate ([] : List Node) fun items => do
    if ← atPunct "\x7d" then return .inr items.reverse
    let item ← enumMember b
    if !(← eatPunct ",") && !(← atPunct "\x7d") then note (← here) "expected ,"
    return .inl (item :: items)
  expectPunct "\x7d"
  return Node.mk (.enumDecl found.text false isConst) (← spanFrom start)
    (identNode found :: members)

/-! ## §4. Namespaces -/

/-- The body of a namespace, whose items are those of a module. -/
def moduleBlock (b : Below) : Parser Node := do
  let start ← here
  expectPunct "\x7b"
  let items ← within (fun m => { m with topLevel := true, inNamespace := true })
    (itemsUntilBrace (b.run .moduleItem))
  return Node.mk .moduleBlock (← spanFrom start) items

/-- A namespace behind its first word; a dotted name makes nested ones. -/
def namespaceDeclaration (b : Below) (start : Nat) : Parser Node := do
  let names ← iterate ([] : List Name) fun names => do
    let found ← anyWord
    if ← eatPunct "." then return .inl (found :: names) else return .inr (found :: names)
  let body ← moduleBlock b
  let stop ← lastStop
  -- The names were collected backwards, so the innermost namespace is made first.
  let nested := names.foldl (fun (body : Node) found =>
    Node.mk (.moduleDecl false) ⟨found.span.start, stop⟩ [identNode found, body]) body
  return nested.startingAt start

/-- A module that exists elsewhere: a quoted name or `global`, and perhaps a body. -/
def externalModule (b : Below) (start : Nat) : Parser Node := do
  let names ← if ← atWord "global" then
      let found ← anyWord
      pure [identNode found]
    else match ← lexeme with
      | .string _ => do
        advance
        pure []
      | _ => unexpected "expected a string"
  let body ← if ← atPunct "\x7b" then
      let body ← moduleBlock b
      pure [body]
    else
      expectSemicolon
      pure []
  return Node.mk (.moduleDecl false) (← spanFrom start) (names ++ body)

/-! ## §5. Declarations that a word begins -/

/-- A declaration that begins with a contextual word.  With `pending` the word is the current
token and certainly begins one; otherwise it has been taken. -/
def wordDeclaration? (b : Below) (start : Nat) (found : List Node) (word : String)
    (pending : Bool) : Parser (Option Node) := do
  if !(← read).typed then return none
  let take : Parser Unit := do
    if pending then advance
  let newline ← afterNewline
  match word with
  | "abstract" =>
    if pending || (!newline && (← atWord "class")) then
      take
      return some (← classDeclaration b start found true)
    return none
  | "enum" =>
    if pending || (← atName) then
      take
      return some (← enumDeclaration b start false)
    return none
  | "interface" =>
    if pending || (← atName) then
      take
      return some (← interfaceDeclaration b start)
    return none
  | "module" =>
    if newline then return none
    take
    match ← lexeme with
    | .string _ => return some (← externalModule b start)
    | _ =>
      if pending || (← atName) then return some (← namespaceDeclaration b start)
      return none
  | "namespace" =>
    if pending || (← atName) then
      take
      return some (← namespaceDeclaration b start)
    return none
  | "type" =>
    if pending || (!newline && (← atName)) then
      take
      return some (← typeAlias b start)
    return none
  | _ => return none

/-- A declaration as one of something that exists elsewhere. -/
def declaredKind : Kind → Kind
  | .variables _ => .variables true
  | .functionDecl _ => .functionDecl true
  | .classDecl _ => .classDecl true
  | .enumDecl name _ isConst => .enumDecl name true isConst
  | .moduleDecl _ => .moduleDecl true
  | kind => kind

/-- A declaration behind `declare`, which stands at `start`. -/
def ambientDeclaration? (b : Below) (start : Nat) (found : List Node) : Parser (Option Node) :=
  within (fun m => { m with inAmbient := true }) do
    let declared (n : Node) : Node := (n.withKind (declaredKind n.kind)).startingAt start
    if ← atWord "function" then return some (declared (← functionDeclaration b found))
    if ← atWord "class" then return some (declared (← classDeclaration b start found false))
    if (← atWord "const") && (← aheadWord "enum") then
      advance
      advance
      return some (declared (← enumDeclaration b start true))
    if ← atWord "const" then return some (declared (← variableDeclaration b .const false))
    if ← atWord "var" then return some (declared (← variableDeclaration b .var false))
    if ← atWord "let" then return some (declared (← variableDeclaration b .let false))
    if ← atWord "global" then return some (declared (← externalModule b start))
    match ← lexeme with
    | .word text _ => return (← wordDeclaration? b start found text true).map declared
    | _ => return none

end SingleFile.Script.Grammar
