/-
  SingleFile.Script.Grammar.Module — IMPORTS AND EXPORTS
  ──────────────────────────────────────────────────────
  The items that only modules and namespaces hold.  In typed scripts `type`
  may mark a whole statement or one name of it; as a name of its own it is
  told apart by what follows.
-/
import SingleFile.Script.Grammar.Statement

namespace SingleFile.Script.Grammar

open SingleFile.Text

/-! ## §1. Sources -/

/-- The quoted name of a module. -/
def moduleSource : Parser Span := do
  match ← lexeme with
  | .string _ => do
    let span := (← token).span
    advance
    return span
  | _ => unexpected "expected a string"

/-- What is said about the imported module, on the line of its name. -/
def importAttributes (b : Below) : Parser Unit := do
  if ← afterNewline then return ()
  if ← eatWords ["with", "assert"] then
    let _ ← objectLiteral b

/-- The word `from`, a module and the end of the statement. -/
def fromClause (b : Below) : Parser Span := do
  expectWord "from"
  let source ← moduleSource
  importAttributes b
  expectSemicolon
  return source

/-- A name in an import or export list. -/
def moduleName : Parser ModuleName := do
  match ← lexeme with
  | .string value => do
    let span := (← token).span
    advance
    return .quoted value span
  | _ => return .word (← anyWord)

/-- Items between braces. -/
def bracedList {α : Type} (item : Parser α) : Parser (List α) := do
  expectPunct "\x7b"
  let items ← iterate ([] : List α) fun items => do
    if (← atEnd) || (← atPunct "\x7d") then return .inr items.reverse
    let found ← item
    if ← atPunct "\x7d" then return .inr (found :: items).reverse
    expectPunct ","
    return .inl (found :: items)
  expectPunct "\x7d"
  return items

/-! ## §2. Imports -/

/-- What follows the word `type` in a list: another name for it, or a name that is a type. -/
inductive TypeMark where
  /-- The word was the name itself, which was given another name if one follows. -/
  | plain (renamed : Option Name)
  /-- A type, which was given another name if one follows. -/
  | marked (name : Name) (renamed : Option Name)
  /-- A type, the clause that renames it still to come. -/
  | open (name : Name)

/-- Reads on behind the word `type` in front of another word; `rename` reads a new name. -/
def typeMark (rename : Parser Name) : Parser TypeMark := do
  let found ← anyWord
  if found.text != "as" then return .open found
  if !(← atAnyWord) then return .marked found none
  let next ← rename
  if next.text != "as" then return .plain (some next)
  if ← atAnyWord then return .marked found (some (← rename))
  return .plain (some next)

/-- An item of an import list. -/
def importItem (typeOnly : Bool) : Parser ImportItem := do
  let rename : Parser Name := bindingName false
  let renamed (entity : Name) (isType : Bool) : Parser ImportItem := do
    if ← eatWord "as" then
      return .named (← rename) (some (.word entity)) isType
    else return .named entity none isType
  match ← moduleName with
  | .quoted value span =>
    if ← eatWord "as" then return .named (← rename) (some (.quoted value span)) false
    else failAt span.start "a string cannot be bound"
  | .word entity =>
    if !((← read).typed && entity.text == "type" && (← atAnyWord)) then
      return ← renamed entity false
    let refuse : Parser Unit := do
      if typeOnly then note entity.span.start "type is repeated"
    match ← typeMark rename with
    | .plain (some found) => return .named found (some (.word entity)) false
    | .plain none => return .named entity none false
    | .marked found (some other) => do
      refuse
      return .named other (some (.word found)) true
    | .marked found none => do
      refuse
      return .named found none true
    | .open found => do
      refuse
      renamed found true

/-- What stands in front of the braces of an import. -/
structure ImportHead where
  binding : Option Name
  typeOnly : Bool
  /-- Only a default binding may follow. -/
  sourceOnly : Bool
  /-- Only a default or whole binding may follow. -/
  noList : Bool
  /-- The name was a type's, given by an equals sign. -/
  isEquals : Bool

/-- Whether the word `type`, which has been taken, marks the import; a name then follows it. -/
def typeMarksName : Parser Bool := do
  if !(← atName) then return false
  if !(← atWord "from") then return true
  return (← aheadWord "from") || (← aheadPunct "=")

/-- The default binding of an import and the words in front of it. -/
def importHead : Parser ImportHead := do
  let mode ← read
  let plain (n : Option Name) (t : Bool) : ImportHead := ⟨n, t, false, false, false⟩
  if !((← atName) || (mode.typed && (← atAnyWord))) then return plain none false
  let first ← bindingName false
  let mut binding := first
  let mut typeOnly := false
  if mode.typed && first.text == "type" then
    if (← atPunct "*") || (← atPunct "\x7b") then return plain none true
    if ← typeMarksName then
      typeOnly := true
      binding ← anyWord
  if mode.typed && (← atPunct "=") then return ⟨some binding, typeOnly, false, false, true⟩
  -- These words are names themselves unless a binding follows.
  if binding.text == "source" || binding.text == "defer" then
    let isSource := binding.text == "source"
    let fromFollows ← aheadWord "from"
    if (← atWord "from") && fromFollows then
      return ⟨some (← bindingName false), typeOnly, isSource, true, false⟩
    if !(← atWord "from") && (← atName) then
      return ⟨some (← bindingName false), typeOnly, isSource, true, false⟩
    if !isSource && (← atPunct "*") then return ⟨none, typeOnly, false, true, false⟩
  return plain (some binding) typeOnly

/-- The leftmost name of the entity behind an equals sign, or an external module. -/
def importReference : Parser (Bool × Span × List Node) := do
  if (← atWord "require") && (← aheadPunct "(") then
    advance
    advance
    let span ← moduleSource
    expectPunct ")"
    return (true, span, [])
  let start ← here
  let first ← token
  let leftmost := match first.lexeme with
    | .word text _ => [identNode ⟨text, first.span⟩]
    | _ => []
  entityName
  return (false, ← spanFrom start, leftmost)

/-- A name given to an entity or module by an equals sign. -/
def importEquals (start : Nat) (found : Name) (isExport typeOnly : Bool) : Parser Node := do
  expectPunct "="
  let (isExternal, span, leftmost) ← importReference
  expectSemicolon
  return Node.mk (.importEquals found.text isExport typeOnly isExternal span) (← spanFrom start)
    leftmost

/-- An import statement. -/
def importDeclaration (b : Below) : Parser Node := do
  let start ← here
  expectWord "import"
  match ← lexeme with
  | .string _ => do
    let source ← moduleSource
    importAttributes b
    expectSemicolon
    return Node.leaf (.importDecl ⟨[], source, false⟩) (← spanFrom start)
  | _ => do
    let head ← importHead
    match head.binding, head.isEquals with
    | some found, true => importEquals start found false head.typeOnly
    | _, _ => do
      if head.binding.isSome && !(← atWord "from") then expectPunct ","
      let first := (head.binding.map ImportItem.defaultItem).toList
      let rest ← if ← eatPunctIf (!head.sourceOnly) "*" then do
          expectWord "as"
          let found ← bindingName false
          pure [ImportItem.wholeModule found]
        else if !head.noList && (← atPunct "\x7b") then bracedList (importItem head.typeOnly)
        else pure []
      let source ← fromClause b
      return Node.leaf (.importDecl ⟨first ++ rest, source, head.typeOnly⟩) (← spanFrom start)

/-! ## §3. Export lists -/

/-- An item of an export list. -/
def exportItem (typeOnly : Bool) : Parser ExportItem := do
  let start ← here
  let item (entity : ModuleName) (exported : Option ModuleName) (isType : Bool) :
      Parser ExportItem := do
    return .named (← spanFrom start) entity exported isType
  let renamed (entity : ModuleName) (isType : Bool) : Parser ExportItem := do
    let exported ← if ← eatWord "as" then some <$> moduleName else pure none
    item entity exported isType
  let found ← moduleName
  match found with
  | .quoted .. => renamed found false
  | .word entity =>
    if !((← read).typed && entity.text == "type" && (← atAnyWord)) then
      return ← renamed found false
    let refuse : Parser Unit := do
      if typeOnly then note start "type is repeated"
    match ← typeMark anyWord with
    | .plain other => item found (other.map .word) false
    | .marked name other => do
      refuse
      item (.word name) (other.map .word) true
    | .open name => do
      refuse
      renamed (.word name) true

/-- A name that is exported without a source is that of something in the module. -/
def checkLocalItem (item : ExportItem) : Parser Unit := do
  match item with
  | .named _ (.word entity) _ _ =>
    if reservedWords.contains entity.text then note entity.span.start "expected from"
  | .named _ (.quoted _ span) _ _ => note span.start "a string names nothing in the module"
  | .wholeModule span _ => note span.start "expected from"

/-- An export of everything, or of a list. -/
def exportList (b : Below) (start listStart : Nat) (typeOnly : Bool) : Parser Node := do
  if ← eatPunct "*" then
    if ← eatWord "as" then
      let exported ← moduleName
      let item := ExportItem.wholeModule (← spanFrom listStart) exported
      let source ← fromClause b
      return Node.leaf (.exportList ⟨[item], some source, typeOnly⟩) (← spanFrom start)
    let source ← fromClause b
    return Node.leaf (.exportAll source typeOnly) (← spanFrom start)
  let items ← bracedList (exportItem typeOnly)
  if ← atWord "from" then
    let source ← fromClause b
    return Node.leaf (.exportList ⟨items, some source, typeOnly⟩) (← spanFrom start)
  for item in items do checkLocalItem item
  let _ ← eatSemicolon
  return Node.leaf (.exportList ⟨items, none, typeOnly⟩) (← spanFrom start)

/-! ## §4. Exports of one thing -/

/-- A class as the default export. -/
def defaultClass (b : Below) (start classStart : Nat) (found : List Node) (isAbstract : Bool) :
    Parser Node := do
  let (name, body) ← classParts b classStart found isAbstract false
  let inner := Node.mk .classExpr body.span ((name.map identNode).toList ++ [body])
  return Node.mk .exportDefaultDecl (← spanFrom start) [inner]

/-- A function as the default export. -/
def defaultFunction (b : Below) (start : Nat) (found : List Node) : Parser Node := do
  let functionStart ← here
  let isAsync ← eatWord "async"
  let (name, function) ← functionParts b functionStart found isAsync false false
  let inner := Node.mk .functionExpr function.span ((name.map identNode).toList ++ [function])
  return Node.mk .exportDefaultDecl (← spanFrom start) [inner]

/-- What is behind `export default`. -/
def defaultExport (b : Below) (start : Nat) (found : List Node) : Parser Node := do
  let classStart ← here
  if ← atPunct "@" then
    let behind ← decorators b false
    if !found.isEmpty then failAt classStart "the decorators are on both sides of export"
    return ← defaultClass b start classStart behind false
  if (← read).typed then
    let next ← ahead
    if (← atWord "abstract") && next.lexeme.isWord "class" && !next.newlineBefore then
      advance
      return ← defaultClass b start classStart found true
    if (← atWord "abstract") && next.lexeme.isWord "interface" then
      note classStart "an interface is not abstract"
      advance
    if ← atWord "interface" then
      let interfaceStart ← here
      advance
      let inner ← interfaceDeclaration b interfaceStart
      return Node.mk .exportDefaultDecl (← spanFrom start) [inner]
  if ← atWord "class" then return ← defaultClass b start classStart found false
  let next ← ahead
  if (← atWord "async") && next.lexeme.isWord "function" && !next.newlineBefore then
    return ← defaultFunction b start found
  if ← atWord "function" then return ← defaultFunction b start found
  let value ← within (fun m => { m with allowIn := true }) (b.run .assignment)
  expectSemicolon
  return Node.mk .exportDefaultExpr (← spanFrom start) [value]

/-- The exports that only typed scripts have. -/
def typedExport? (b : Below) (start : Nat) (found : List Node) : Parser (Option Node) := do
  let wordStart ← here
  let exported (n : Node) : Parser Node := do
    return Node.mk .exportDecl (← spanFrom start) [n]
  if ← eatWord "declare" then
    if let some declaration := ← ambientDeclaration? b wordStart found then
      return some (← exported declaration)
  match ← lexeme with
  | .word text _ => do
    -- The word may also be a name that begins something else.
    let declaration ← attempt do
      let start ← here
      wordDeclaration? b start found text true
    if let some declaration := declaration then return some (← exported declaration)
  | _ => pure ()
  if ← eatWord "import" then
    let typeOnly ← eatWord "type"
    let name ← anyWord
    return some (← importEquals start name true typeOnly)
  if ← eatPunct "=" then
    let value ← b.run .expression
    expectSemicolon
    return some (Node.mk .exportAssignment (← spanFrom start) [value])
  if ← eatWord "as" then
    expectWord "namespace"
    let found ← name false false
    expectSemicolon
    return some (Node.mk .namespaceExport (← spanFrom start) [identNode found])
  return none

/-- The declaration behind `export`, if there is one. -/
def exportedDeclaration? (b : Below) (found : List Node) : Parser (Option Node) := do
  let found ← if ← atPunct "@" then do
      let offset ← here
      let behind ← decorators b false
      if !found.isEmpty then failAt offset "the decorators are on both sides of export"
      pure behind
    else pure found
  if ← atWord "class" then
    let classStart ← here
    return some (← classDeclaration b classStart found false)
  let next ← ahead
  if (← atWord "async") && next.lexeme.isWord "function" && !next.newlineBefore then
    return some (← functionDeclaration b found)
  if ← atWord "function" then return some (← functionDeclaration b found)
  if (← read).typed && (← atWord "const") && (← aheadWord "enum") then
    let enumStart ← here
    advance
    advance
    return some (← enumDeclaration b enumStart true)
  match ← variableWord? with
  | some word => return some (← variableDeclaration b word false)
  | none => return none

/-- An export statement. -/
def exportDeclaration (b : Below) (found : List Node) : Parser Node := do
  let start ← here
  expectWord "export"
  if (← read).typed then
    if let some declaration := ← typedExport? b start found then return declaration
  let listStart ← here
  let typeOnly ← if (← read).typed then eatWord "type" else pure false
  if ← eatWordIf (!typeOnly) "default" then return ← defaultExport b start found
  match ← exportedDeclaration? b found with
  | some declaration => return Node.mk .exportDecl (← spanFrom start) [declaration]
  | none => exportList b start listStart typeOnly

/-! ## §5. Items -/

/-- An item of a module or namespace. -/
def moduleItem (b : Below) : Parser Node := do
  let found ← if ← atPunct "@" then decorators b true else pure []
  let next ← ahead
  let isCall := next.lexeme.isPunct "(" || next.lexeme.isPunct "."
  if (← atWord "import") && isCall then
    let start ← here
    let expression ← b.run .expression
    let _ ← eatSemicolon
    return Node.mk .expression (← spanFrom start) [expression]
  if ← atWord "import" then return ← importDeclaration b
  if ← atWord "export" then return ← exportDeclaration b found
  statementBehind b found true

end SingleFile.Script.Grammar
