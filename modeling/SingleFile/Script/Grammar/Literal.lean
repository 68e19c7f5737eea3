/-
  SingleFile.Script.Grammar.Literal — REGULAR EXPRESSIONS, TEMPLATES, LISTS
  ─────────────────────────────────────────────────────────────────────────
  The literals whose text has a grammar of its own, and array and object
  literals.
-/
import SingleFile.Script.Grammar.Class

namespace SingleFile.Script.Grammar

open SingleFile.Text

/-! ## §1. Plain literals -/

/-- Takes the current token as a leaf of a kind. -/
def leafHere (kind : Kind) : Parser Node := do
  let span := (← token).span
  advance
  return Node.leaf kind span

/-- The flags a regular expression may have. -/
def regexFlags : List Char := ['d', 'g', 'i', 'm', 's', 'u', 'v', 'y']

/-- Whether the flags at the end of a regular expression are known and all different. -/
def areRegexFlags (flags : List Char) : Bool :=
  flags.all regexFlags.contains && flags.eraseDups.length == flags.length

/-- A regular expression whose first slash begins the current token. -/
def regexLiteral : Parser Node := do
  let current ← token
  let text := match current.lexeme with
    | .punct text => text.toList
    | _ => []
  let first : Cursor := ⟨current.span.start, text ++ current.rest⟩
  match overRegex (first.rest.length + 1) first.next false with
  | none => failAt first.offset "unterminated regular expression"
  | some close => do
    let (flags, after) := close.overWhile isIdContinue
    modify fun s => { s with lastStop := after.offset }
    install (readToken (← read).typed false after)
    if !areRegexFlags flags then note first.offset "unknown or repeated flag"
    return Node.leaf .regex ⟨first.offset, after.offset⟩

/-! ## §2. Templates -/

/-- A template, from its opening mark; only a tagged one may hold malformed escapes. -/
def templateLiteral (b : Below) (tagged : Bool) : Parser Node := do
  let opening ← token
  let start := opening.span.start
  let first : Cursor := ⟨opening.span.stop, opening.rest⟩
  iterate (first, ([] : List Node)) fun (c, parts) => do
    match readChunk (c.rest.length + 1) c true with
    | none => failAt (c.offset - 1) "unterminated template"
    | some chunk => do
      if !chunk.valid && !tagged then failAt c.offset "malformed escape"
      let typed := (← read).typed
      if chunk.substitution then
        install (readToken typed false chunk.cursor)
        let part ← within (fun m => { m with allowIn := true }) (b.run .expression)
        let close ← token
        if !(← atPunct "\x7d") then unexpected "expected \x7d"
        return .inl (⟨close.span.stop, close.rest⟩, part :: parts)
      else
        modify fun s => { s with lastStop := chunk.cursor.offset }
        install (readToken typed false chunk.cursor)
        return .inr (Node.mk .template ⟨start, chunk.cursor.offset⟩ parts.reverse)

/-- A template behind its tag and the tag's type arguments. -/
def taggedTemplate (b : Below) (start : Nat) (tag : Node) (typeArgs : Option Node) :
    Parser Node := do
  if tag.kind == .optionalChain then note start "an optional chain cannot be a tag"
  let literal ← templateLiteral b true
  return Node.mk .taggedTemplate (← spanFrom start) (tag :: typeArgs.toList ++ [literal])

/-! ## §3. Arrays -/

/-- An array literal; an element that is left out is a hole. -/
def arrayLiteral (b : Below) : Parser Node := do
  let start ← here
  expectPunct "["
  let items ← iterate ([] : List Node) fun items => do
    if ← atPunct "]" then return .inr items.reverse
    if ← atPunct "," then
      let offset ← here
      advance
      return .inl (Node.leaf .hole ⟨offset, offset⟩ :: items)
    let item ← spreadable b
    if !(← atPunct "]") then expectPunct ","
    return .inl (item :: items)
  expectPunct "]"
  return Node.mk .array (← spanFrom start) items

/-! ## §4. Objects -/

/-- What the inside of an object's method may do. -/
def methodMode (m : Mode) : Mode := { m with allowSuper := true, inClassField := false }

/-- A method of an object behind its key. -/
def objectMethod (b : Below) (start : Nat) (key : Node) (isAsync isGenerator : Bool) :
    Parser Node := do
  let function ← within methodMode
    (functionRest b start [] isAsync isGenerator (parameters b))
  return Node.mk .methodProperty (← spanFrom start) [key, function]

/-- An accessor of an object behind its key; what it takes and yields is told by `sort`. -/
def objectAccessor (b : Below) (start : Nat) (key : Node) (sort : MethodSort) : Parser Node := do
  let function ← within methodMode
    (functionRest b start [] false false (methodParameters b key sort))
  let span ← spanFrom start
  let isBody (k : Kind) : Bool := k == .block
  let isTypeClause (k : Kind) : Bool := k == .typeClause
  let body := (function.child? isBody).toList
  match sort with
  | .setter =>
    let params := function.children.filter fun c => c.kind == .param
    return Node.mk .setterProperty span (key :: params ++ body)
  | _ =>
    return Node.mk .getterProperty span (key :: (function.child? isTypeClause).toList ++ body)

/-- Whether what follows a key of an object in a typed script can follow it. -/
def followsKey (t : Token) (key : Node) : Bool :=
  match t.lexeme with
  | .punct "\x7d" => match key.kind with
    | .fieldName _ => true
    | _ => false
  | .punct text => ["(", "[", ":", ",", "?", "=", "*", "<"].contains text
  | .word .. => true
  | .string _ => true
  | .number _ => true
  | .bigint => true
  | _ => false

/-- A property that is only a name so far: its own value, a default, or a modifier of a
method. -/
def namedProperty (b : Below) (start : Nat) (key : Node) (text : String) (modified : Bool) :
    Parser Node := do
  let modifierStop ← lastStop
  if ← eatPunct "?" then note modifierStop "a property of an object is not optional"
  if (← atPuncts ["=", ",", "\x7d"]) then
    if (← read).reserves text then note key.start "a reserved word cannot stand for its value"
    let ident := Node.leaf (.ident text) key.span
    if ← eatPunct "=" then
      let value ← within (fun m => { m with allowIn := true }) (b.run .assignment)
      return Node.mk .defaulted (← spanFrom start) [ident, value]
    return ident
  if !(["get", "set", "async"].contains text) then unexpected "expected a property"
  if modified then note start "a modifier cannot stand here"
  let isGenerator ← if text == "async" then eatPunct "*" else pure false
  let inner ← propertyName b
  if text == "async" then objectMethod b start inner true isGenerator
  else objectAccessor b start inner (if text == "get" then .getter else .setter)

/-- A property of an object literal. -/
def objectProperty (b : Below) : Parser Node := do
  let start ← here
  if ← eatPunct "..." then
    let inner ← within (fun m => { m with allowIn := true }) (b.run .assignment)
    return Node.mk .spread ⟨start, inner.stop⟩ [inner]
  if ← eatPunct "*" then
    let key ← propertyName b
    return ← objectMethod b start key false true
  let modified ← parameterModifier
  let key ← propertyName b
  if (← read).typed && !followsKey (← token) key then
    let offset ← here
    note offset "expected ,"
    return Node.mk .keyValue key.span [key, Node.leaf .hole ⟨offset, offset⟩]
  if ← eatPunct ":" then
    let value ← within (fun m => { m with allowIn := true }) (b.run .assignment)
    return Node.mk .keyValue ⟨key.start, value.stop⟩ [key, value]
  if ← atMethod then return ← objectMethod b start key false false
  match key.kind with
  | .fieldName text => namedProperty b start key text modified
  | _ => unexpected "expected a name"

/-- An object literal. -/
def objectLiteral (b : Below) : Parser Node := do
  let start ← here
  expectPunct "\x7b"
  let items ← iterate ([] : List Node) fun items => do
    if ← atPunct "\x7d" then return .inr items.reverse
    let item ← objectProperty b
    if !(← atPunct "\x7d") then expectPunct ","
    return .inl (item :: items)
  expectPunct "\x7d"
  return Node.mk .object (← spanFrom start) items

/-! ## §5. Defaults outside patterns -/

mutual

/-- Where an expression holds a property with a default although it is no pattern.  Functions
have been looked into already. -/
def strayDefaults : Node → List Nat
  | .mk kind span children =>
    match kind with
    | .function .. => []
    | .arrow => []
    | .defaulted => span.start :: strayDefaultsIn children
    | _ => strayDefaultsIn children

/-- Where one of some expressions holds a property with a default. -/
def strayDefaultsIn : List Node → List Nat
  | [] => []
  | n :: rest => strayDefaults n ++ strayDefaultsIn rest

end

/-- Takes note of the properties with a default in an expression that is no pattern. -/
def checkDefaults (expression : Node) : Parser Unit := do
  for offset in strayDefaults expression do
    note offset "a default has no meaning outside a pattern"

end SingleFile.Script.Grammar
