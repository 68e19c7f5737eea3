/-
  SingleFile.Script.Erasure — TAKING TYPES OUT OF A SCRIPT
  ────────────────────────────────────────────────────────
  Types are blanked where they stand.  The few typed forms that mean
  something at run time, enums and parameters that declare fields, are
  replaced by what they mean; namespaces and decorators are refused.

  A walk over the tree yields the actions to be done, in the order in which
  the tree is visited.  Where an action depends on what stands around a place
  of the text, the look at that place is an action too.
-/
import SingleFile.Script.Enum
import SingleFile.Script.Keyword

namespace SingleFile.Script

open SingleFile.Text

/-! ## §1. Declarations without a meaning at run time -/

/-- Whether a function node has a body. -/
def hasBody (n : Node) : Bool :=
  match n.kind with
  | .function _ _ has => has
  | _ => false

mutual

/-- Whether a declaration means nothing at run time. -/
def isTypeOnly : Node → Bool
  | .mk kind _ children =>
    match kind with
    | .interfaceDecl _ => true
    | .typeAlias _ => true
    | .variables isDeclared => isDeclared
    -- Without a body a function only says how another one may be called.
    | .functionDecl isDeclared => isDeclared || !(children.any hasBody)
    | .classDecl isDeclared => isDeclared
    | .enumDecl _ isDeclared _ => isDeclared
    | .moduleDecl isDeclared => isDeclared || !bodyHasValues children
    | _ => false

/-- Whether the body among the parts of a namespace holds anything but types. -/
def bodyHasValues : List Node → Bool
  | [] => false
  | n :: rest =>
    match n.kind with
    | .moduleBlock => blockHasValues n
    | .moduleDecl _ => nestedHasValues n
    | _ => bodyHasValues rest

/-- Whether the body of a namespace inside a namespace holds anything but types. -/
def nestedHasValues : Node → Bool
  | .mk _ _ children => bodyHasValues children

/-- Whether a block holds anything but types. -/
def blockHasValues : Node → Bool
  | .mk _ _ children => itemsHaveValues children

/-- Whether one of the items of a namespace is anything but a type. -/
def itemsHaveValues : List Node → Bool
  | [] => false
  | item :: rest =>
    (match item.kind with
      | .empty => false
      | .exportDecl => exportHasValue item
      | _ => !isTypeOnly item) || itemsHaveValues rest

/-- Whether an exported declaration is anything but a type. -/
def exportHasValue : Node → Bool
  | .mk _ _ children => declarationsHaveValues children

/-- Whether one of some declarations is anything but a type. -/
def declarationsHaveValues : List Node → Bool
  | [] => false
  | d :: rest => !isTypeOnly d || declarationsHaveValues rest

end

/-! ## §2. Places that are found in the text -/

/-- Blanks a span. -/
def blankSpan (span : Span) : Action := .blank span.start span.stop

/-- Blanks a mark that stands behind an offset, blanks between them allowed. -/
def blankMark (source : List Char) (offset : Nat) (mark : String) : List Action :=
  let offset := skipBlanks source offset
  .look offset :: if standsAt source offset mark then [.blank offset (offset + 1)] else []

/-- Looks at the text between two offsets. -/
def lookBetween (floor key : Nat) : List Action := [.look (min floor key), .look key]

/-- Blanks the typed modifiers between two offsets. -/
def blankModifiers (source : List Char) (floor key : Nat) : List Action :=
  lookBetween floor key ++ ((modifiersBetween source floor key).filter Modifier.isTyped).map
    fun m => .blank m.start m.stop

/-- Blanks a whole member with its modifiers. -/
def blankMember (source : List Char) (floor key : Nat) (member : Span) : List Action :=
  -- The modifiers come the last one first, so the one at the end of the list begins the member.
  let start := match (modifiersBetween source floor key).getLast? with
    | some m => min m.start member.start
    | none => member.start
  lookBetween floor key ++ [.blank start member.stop]

/-- The word in front of a declaration that the tree leaves out. -/
def leadingWord? : Kind → Option String
  | .variables true => some "declare"
  | .functionDecl true => some "declare"
  | .classDecl true => some "declare"
  | .enumDecl _ true _ => some "declare"
  | .enumDecl _ false true => some "const"
  | .moduleDecl true => some "declare"
  | _ => none

/-- Where a declaration begins, with the word that the tree leaves out. -/
def declarationStart (source : List Char) (n : Node) : Nat :=
  match leadingWord? n.kind with
  | some word => extendedStart source n.start word
  | none => n.start

/-- Looks for the word in front of a declaration, if there is one to be found. -/
def lookInFront (n : Node) : List Action :=
  (leadingWord? n.kind).toList.map fun _ => .look n.start

/-- Blanks a declaration. -/
def blankDeclaration (source : List Char) (n : Node) : List Action :=
  lookInFront n ++ [.blank (declarationStart source n) n.stop]

/-- Replaces an enum by what it means. -/
def replaceEnum (source : List Char) (n : Node) : List Action :=
  match n.kind with
  | .enumDecl name _ isConst =>
    let start := if isConst then extendedStart source n.start "const" else n.start
    [.replace start n.stop (enumText name (n.children.filterMap (enumMember source)))]
  | _ => []

/-- Blanks the word `abstract` in front of or at the start of a class. -/
def blankAbstract (source : List Char) (start : Nat) : List Action :=
  let found := if standsAt source start "abstract" then some start
    else keywordBefore? source start "abstract"
  .look start :: match found with
    | some offset => [.blank offset (offset + 8)]
    | none => []

/-- Blanks the types that a class promises to fit, and the word in front of them. -/
def blankHeritage (source : List Char) (heritage : List Node) : List Action :=
  match heritage.head?, heritage.getLast? with
  | some first, some last =>
    [.look first.start,
      .blank ((keywordBefore? source first.start "implements").getD first.start) last.stop]
  | _, _ => []

/-- Blanks the first parameter of a function when it only declares the receiver. -/
def blankReceiver (children : List Node) : List Action :=
  match children.filter fun c => c.kind == .param with
  | first :: rest =>
    match first with
    | .mk .param span parts =>
      match parts.getLast? with
      | some (.mk (.binding "this" _) _ _) =>
        -- The comma goes too: the blank ends where the next parameter begins.
        [.blank span.start ((rest.head?.map Node.start).getD span.stop)]
      | _ => []
    | _ => []
  | [] => []

/-! ## §3. Constructors -/

/-- The name that a parameter which declares a field binds. -/
def fieldName? (parts : List Node) : Option String :=
  match parts.getLast? with
  | some (.mk (.binding name _) _ _) => some name
  | some (.mk .assignPattern _ (.mk (.binding name _) _ _ :: _)) => some name
  | _ => none

/-- The statements that give the declared fields their values. -/
def fieldAssignments : List Node → String
  | [] => ""
  | .mk .paramProperty _ parts :: rest =>
    let text := match fieldName? parts with
      | some name => "this." ++ name ++ " = " ++ name ++ ";"
      | none => ""
    text ++ fieldAssignments rest
  | _ :: rest => fieldAssignments rest

/-- Whether a statement calls the superclass's constructor. -/
def isSuperCall : Node → Bool
  | .mk .expression _ [.mk .call _ (callee :: _)] => callee.kind == .superRef
  | _ => false

/-- Inserts the assignments of the declared fields behind the call of the superclass's
constructor, or else at the start of the body. -/
def insertAssignments (source : List Char) (text : String) (body : Node) : List Action :=
  if text.isEmpty then []
  else match body.children.find? isSuperCall with
    | some call =>
      -- There is nothing to assign to before the superclass's constructor has returned.
      let separator := if endsWithSemicolon source call.stop then "" else ";"
      [.look call.stop, .insert call.stop (separator ++ text)]
    | none => [.insert (body.start + 1) text]

/-! ## §4. The walk -/

/-- What a kind of node asks for before its children are visited. -/
def ownActions (source : List Char) (kind : Kind) (span : Span) (children : List Node) :
    List Action :=
  match kind with
  | .function .. => blankReceiver children
  | .binding name true => blankMark source (span.start + name.utf8ByteSize) "?"
  | .declarator true =>
    match children with
    | .mk (.binding name _) nameSpan _ :: _ =>
      blankMark source (nameSpan.start + name.utf8ByteSize) "!"
    | _ => []
  | _ => []

/-- Blanks what stands behind an expression up to the end of a span. -/
def blankBehind (children : List Node) (span : Span) : List Action :=
  match children with
  | inner :: _ => [.blank inner.stop span.stop]
  | [] => []

/-- Blanks what stands in front of an expression from the start of a span on. -/
def blankInFront (children : List Node) (span : Span) : List Action :=
  match children with
  | inner :: _ => [.blank span.start inner.start]
  | [] => []

/-- The marks of a member behind its key, to be blanked. -/
def blankMemberMarks (source : List Char) (marks : MemberMarks) : List Action :=
  (if marks.isOptional then blankMark source marks.key.stop "?" else [])
    ++ (if marks.isDefinite then blankMark source marks.key.stop "!" else [])

/-- What a class asks for before its parts are visited: its marks are blanked. -/
def classActions (source : List Char) (isAbstract : Bool) (span : Span) (children : List Node) :
    List Action :=
  (if isAbstract then blankAbstract source span.start else [])
    ++ blankHeritage source (children.filter fun c => c.kind == .heritage)

/-- What a constructor asks for after its parts are visited: its fields get their values. -/
def constructorActions (source : List Char) (children : List Node) : List Action :=
  (children.filter fun c => c.kind == .block).flatMap
    (insertAssignments source (fieldAssignments children))

mutual

/-- The actions that take the types out of a tree. -/
def erase (source : List Char) : Node → List Action
  | .mk kind span children =>
    let whole := Node.mk kind span children
    if isTypeOnly whole then blankDeclaration source whole
    else match kind with
    | .enumDecl .. => lookInFront whole ++ replaceEnum source whole
    | .moduleDecl _ => [.refuse .namespace span.start]
    | .decorator => [.refuse .decorator span.start]
    | .typeClause => [blankSpan span]
    | .typeParameters => [blankSpan span]
    | .typeArguments => [blankSpan span]
    -- Of these the expression stays, which may hold types of its own.
    | .asType => eraseAll source children ++ blankBehind children span
    | .satisfies => eraseAll source children ++ blankBehind children span
    | .constAssertion => eraseAll source children ++ blankBehind children span
    | .nonNull => eraseAll source children ++ blankBehind children span
    | .typeAssertion => blankInFront children span ++ eraseAll source children
    | .classBody isAbstract =>
      classActions source isAbstract span children ++ eraseParts source span.start children
    | _ => ownActions source kind span children ++ eraseAll source children

/-- The actions that take the types out of some trees. -/
def eraseAll (source : List Char) : List Node → List Action
  | [] => []
  | n :: rest => erase source n ++ eraseAll source rest

/-- The actions for what is below a node. -/
def eraseBelow (source : List Char) : Node → List Action
  | .mk _ _ children => eraseAll source children

/-- The actions for what is in front of the members of a class, and for the members.  A member
stands behind `floor`. -/
def eraseParts (source : List Char) (floor : Nat) : List Node → List Action
  | [] => []
  | n :: rest =>
    match n.kind with
    -- These have been blanked together, with the word in front of them.
    | .heritage => eraseParts source floor rest
    | .constructorMember marks =>
      (if marks.hasBody then
          blankModifiers source floor marks.key.start ++ eraseConstructor source marks n
        else blankMember source floor marks.key.start n.span)
        ++ eraseParts source n.stop rest
    | .methodMember _ marks =>
      -- A method without a body is a type as a whole.
      (if marks.isAbstract || !marks.hasBody then blankMember source floor marks.key.start n.span
        else blankModifiers source floor marks.key.start ++ blankMemberMarks source marks
          ++ eraseBelow source n)
        ++ eraseParts source n.stop rest
    | .fieldMember isPrivate marks =>
      (if !isPrivate && (marks.isDeclared || marks.isAbstract) then
          blankMember source floor marks.key.start n.span
        else blankModifiers source floor marks.key.start ++ blankMemberMarks source marks
          ++ eraseBelow source n)
        ++ eraseParts source n.stop rest
    | .indexSignature =>
      blankMember source floor n.start n.span ++ eraseParts source n.stop rest
    | .accessorMember => eraseBelow source n ++ eraseParts source n.stop rest
    | .staticBlock => eraseBelow source n ++ eraseParts source n.stop rest
    | .emptyMember => eraseParts source n.stop rest
    | _ => erase source n ++ eraseParts source floor rest

/-- The actions for a constructor with a body, its modifiers apart. -/
def eraseConstructor (source : List Char) (marks : MemberMarks) : Node → List Action
  | .mk _ _ children =>
    eraseParameters source marks.key.stop children ++ constructorActions source children

/-- The actions for the parameters and the body of a constructor.  A parameter stands behind
`floor`. -/
def eraseParameters (source : List Char) (floor : Nat) : List Node → List Action
  | [] => []
  | n :: rest =>
    match n.kind with
    | .param => eraseBelow source n ++ eraseParameters source n.stop rest
    | .paramProperty =>
      -- The modifiers are what declares the field; the parameter stays.
      let pattern := (n.children.getLast?.map Node.start).getD n.start
      blankModifiers source floor pattern ++ eraseBelow source n
        ++ eraseParameters source n.stop rest
    | .block => eraseBelow source n ++ eraseParameters source floor rest
    | _ => eraseParameters source floor rest

end

end SingleFile.Script
