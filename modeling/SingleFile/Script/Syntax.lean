/-
  SingleFile.Script.Syntax — SYNTAX TREES OF SCRIPTS
  ──────────────────────────────────────────────────
  A syntax tree is a tree of nodes; a node has a kind, the span of text it
  was read from and the nodes below it.  The data of a construct that is not
  itself syntax (operators, names, flags) is part of its kind, so a pass over
  a tree looks at the kinds it cares about and walks through all others.

  The children of a node stand in the order in which a pass visits them.
-/
import SingleFile.Number.Binary64
import SingleFile.Text.Span

namespace SingleFile.Script

open SingleFile.Text SingleFile.Number

/-! ## §1. Names in import and export lists -/

/-- A name with the place where it stands. -/
structure Name where
  text : String
  span : Span
deriving DecidableEq, Repr, Inhabited

/-- A name of an import or export, which may be written as a string; a string has no value when it
holds an unpaired surrogate. -/
inductive ModuleName where
  | word (name : Name)
  | quoted (value : Option String) (span : Span)
deriving DecidableEq, Repr, Inhabited

/-- Where a module name stands. -/
def ModuleName.span : ModuleName → Span
  | .word name => name.span
  | .quoted _ span => span

/-- Whether a module name is a given text, however it is written. -/
def ModuleName.is (name : ModuleName) (text : String) : Bool :=
  match name with
  | .word n => n.text == text
  | .quoted value _ => value == some text

/-- One binding of an import statement. -/
inductive ImportItem where
  | defaultItem (binding : Name)
  | wholeModule (binding : Name)
  | named (binding : Name) (imported : Option ModuleName) (typeOnly : Bool)
deriving DecidableEq, Repr, Inhabited

/-- The local name an import item binds. -/
def ImportItem.binding : ImportItem → Name
  | .defaultItem binding => binding
  | .wholeModule binding => binding
  | .named binding _ _ => binding

/-- An import statement; `source` is where the module's name stands, quotes included. -/
structure Import where
  items : List ImportItem
  source : Span
  typeOnly : Bool
deriving DecidableEq, Repr, Inhabited

/-- One entry of an export list. -/
inductive ExportItem where
  | named (span : Span) (entity : ModuleName) (exported : Option ModuleName) (typeOnly : Bool)
  | wholeModule (span : Span) (exported : ModuleName)
deriving DecidableEq, Repr, Inhabited

/-- An export list, local or from another module. -/
structure ExportList where
  items : List ExportItem
  source : Option Span
  typeOnly : Bool
deriving DecidableEq, Repr, Inhabited

/-! ## §2. Kinds of nodes -/

/-- What a class member is marked as. -/
structure MemberMarks where
  /-- Where the member's key stands. -/
  key : Span
  isAbstract : Bool
  isDeclared : Bool
  isOptional : Bool
  isDefinite : Bool
  hasBody : Bool
deriving DecidableEq, Repr, Inhabited

/-- The key of an enum member. -/
inductive EnumKey where
  | word (name : String)
  | quoted (span : Span)
deriving DecidableEq, Repr, Inhabited

/-- The kinds of nodes, with their data.  The comment of a kind lists its children. -/
inductive Kind where
  -- Names and literals, without children.
  | ident (name : String)
  /-- A property name, which refers to nothing. -/
  | fieldName (name : String)
  | privateName (name : String)
  | number (value : Binary64)
  | bigint
  | string (value : Option String)
  | boolean (value : Bool)
  | null
  | regex
  | this
  | superRef
  | importRef
  | metaProperty
  | hole
  /-- The substitutions. -/
  | template
  -- Expressions.
  /-- The tag, its type arguments if any, the template. -/
  | taggedTemplate
  | array
  | object
  /-- A key and a value. -/
  | keyValue
  /-- The expression in brackets. -/
  | computedKey
  /-- A name and the default it would have in a pattern. -/
  | defaulted
  /-- A key and a function. -/
  | methodProperty
  /-- A key, the type annotation if any, and the body. -/
  | getterProperty
  /-- A key, the parameters and the body. -/
  | setterProperty
  | spread
  /-- The name if any, and the function. -/
  | functionExpr
  /-- The parameters, decorators, the body, type parameters and the return type. -/
  | function (isAsync isGenerator hasBody : Bool)
  /-- The parameters, the body, type parameters and the return type. -/
  | arrow
  /-- The name if any, and the class. -/
  | classExpr
  /-- Decorators, type parameters, the superclass and its type arguments, the heritage, the
  members. -/
  | classBody (isAbstract : Bool)
  | unary (op : String)
  | update
  | binary (op : String)
  /-- The target and the value. -/
  | assign (op : String)
  | conditional
  /-- The callee, the arguments and the type arguments if any. -/
  | call
  /-- The class, the arguments and the type arguments if any. -/
  | new (hasArguments : Bool)
  /-- The object and the property: a field name, a private name or a computed key. -/
  | member
  | optionalChain
  | sequence
  | paren
  | await
  | yield
  -- Expressions with types.
  /-- The expression; the type is no node. -/
  | asType
  | satisfies
  | constAssertion
  | nonNull
  | typeAssertion
  /-- The expression and the type arguments. -/
  | instantiation
  -- Parts that are types only.
  | typeClause
  | typeParameters
  | typeArguments
  | heritage
  -- Patterns.
  /-- The type annotation if any. -/
  | binding (name : String) (isOptional : Bool)
  | arrayPattern (isOptional : Bool)
  | objectPattern (isOptional : Bool)
  | keyValuePattern
  /-- The binding and the default if any. -/
  | shorthandPattern
  | restPattern
  /-- The pattern and the default. -/
  | assignPattern
  /-- Decorators and the pattern. -/
  | param
  /-- Decorators and the pattern. -/
  | paramProperty
  -- Class members.
  /-- The key, the parameters and the body. -/
  | constructorMember (marks : MemberMarks)
  /-- The key and the function. -/
  | methodMember (isPrivate : Bool) (marks : MemberMarks)
  /-- The key, the value, the type annotation and decorators. -/
  | fieldMember (isPrivate : Bool) (marks : MemberMarks)
  | accessorMember
  | indexSignature
  | staticBlock
  | emptyMember
  | decorator
  -- Statements.
  | expression
  | block
  | empty
  | debugger
  | withStmt
  | returnStmt
  | labeled
  | breakStmt
  | continueStmt
  | ifStmt
  | switchStmt
  | switchCase
  | throwStmt
  | tryStmt
  | catchClause
  | whileStmt
  | doWhileStmt
  | forStmt
  | forInStmt
  | forOfStmt
  -- Declarations.
  /-- The declarators. -/
  | variables (isDeclared : Bool)
  | usingDecl
  /-- The pattern and the initial value if any. -/
  | declarator (isDefinite : Bool)
  /-- The name and the function. -/
  | functionDecl (isDeclared : Bool)
  /-- The name and the class. -/
  | classDecl (isDeclared : Bool)
  | interfaceDecl (name : String)
  | typeAlias (name : String)
  /-- The name and the members. -/
  | enumDecl (name : String) (isDeclared isConst : Bool)
  /-- The name unless it is a string, and the value if any. -/
  | enumMember (key : EnumKey)
  /-- The name unless it is a string, and the body if any: a block or a nested namespace. -/
  | moduleDecl (isDeclared : Bool)
  | moduleBlock
  -- Module items.
  | importDecl (decl : Import)
  /-- The declaration. -/
  | exportDecl
  /-- A function, class or interface. -/
  | exportDefaultDecl
  | exportDefaultExpr
  | exportList (decl : ExportList)
  | exportAll (source : Span) (typeOnly : Bool)
  /-- An entity name or an external module, whose text is at `value`. -/
  | importEquals (name : String) (isExport typeOnly isExternal : Bool) (value : Span)
  | exportAssignment
  /-- The name. -/
  | namespaceExport
deriving DecidableEq, Repr, Inhabited

/-! ## §3. Trees -/

/-- A node of a syntax tree. -/
inductive Node where
  | mk (kind : Kind) (span : Span) (children : List Node)
deriving Repr, Inhabited

namespace Node

def kind : Node → Kind
  | mk kind _ _ => kind

def span : Node → Span
  | mk _ span _ => span

def children : Node → List Node
  | mk _ _ children => children

/-- Where a node starts. -/
def start (n : Node) : Nat := n.span.start

/-- Where a node stops. -/
def stop (n : Node) : Nat := n.span.stop

/-- A node without children. -/
def leaf (kind : Kind) (span : Span) : Node := mk kind span []

/-- The same node with another kind. -/
def withKind (n : Node) (kind : Kind) : Node := mk kind n.span n.children

/-- The same node over another span. -/
def withSpan (n : Node) (span : Span) : Node := mk n.kind span n.children

/-- The same node starting elsewhere. -/
def startingAt (n : Node) (start : Nat) : Node := n.withSpan ⟨start, n.stop⟩

/-- The first child of a kind that satisfies a test. -/
def child? (n : Node) (test : Kind → Bool) : Option Node := n.children.find? fun c => test c.kind

/-- The expression inside any number of parentheses. -/
def unwrapped : Node → Node
  | mk .paren _ [inner] => unwrapped inner
  | node => node

/-- Whether a node is a name. -/
def ident? (n : Node) : Option String :=
  match n.kind with
  | .ident name => some name
  | _ => none

end Node

/-- A program: the items of a module or the statements of a script. -/
structure Program where
  isModule : Bool
  items : List Node
deriving Repr, Inhabited

end SingleFile.Script
