/-
  SingleFile.Script.Reference — NAMES USED AS VALUES
  ──────────────────────────────────────────────────
  An import of a typed script may serve types only.  It is kept when its name
  is mentioned as a value somewhere in the module; shadowing is ignored.
-/
import SingleFile.Script.Syntax

namespace SingleFile.Script

/-! ## §1. Names of nodes -/

/-- The name that a module name spells as a word. -/
def ModuleName.word? : ModuleName → Option String
  | .word name => some name.text
  | .quoted _ _ => none

/-- The names that an entry of an export list mentions. -/
def ExportItem.words : ExportItem → List String
  | .named _ entity exported _ => entity.word?.toList ++ (exported.bind ModuleName.word?).toList
  | .wholeModule _ exported => exported.word?.toList

/-- The names that a node of a kind mentions itself. -/
def ownNames : Kind → List String
  | .ident name => [name]
  | .binding name _ => [name]
  | .exportList list => list.items.flatMap ExportItem.words
  | _ => []

mutual

/-- The names a tree mentions as values.  Types have no names in the tree. -/
def valueNames : Node → List String
  | .mk kind _ children => ownNames kind ++ valueNamesOf children

/-- The names some trees mention as values. -/
def valueNamesOf : List Node → List String
  | [] => []
  | n :: rest => valueNames n ++ valueNamesOf rest

end

/-! ## §2. Names that are types only -/

/-- The names that an import marks as types. -/
def Import.typeNames (decl : Import) : List String :=
  decl.items.filterMap fun item =>
    match item with
    | .named binding _ typeOnly => if decl.typeOnly || typeOnly then some binding.text else none
    | .defaultItem binding => if decl.typeOnly then some binding.text else none
    | .wholeModule _ => none

/-- The names that an item of a module declares as types only. -/
def typeNames (item : Node) : List String :=
  let declared (kind : Kind) : List String := match kind with
    | .interfaceDecl name => [name]
    | .typeAlias name => [name]
    | _ => []
  match item.kind with
  | .importDecl decl => decl.typeNames
  | .exportDecl => item.children.flatMap fun d => declared d.kind
  | kind => declared kind

end SingleFile.Script
