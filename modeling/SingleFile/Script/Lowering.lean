/-
  SingleFile.Script.Lowering — IMPORTS AND EXPORTS AS PLAIN SCRIPT
  ────────────────────────────────────────────────────────────────
  The items of a module are rewritten one by one.  An import becomes
  variables with parts of the required module as their values, an export an
  assignment to `exports`.  Names exported by a list are assigned behind the
  last item, when every one of them has its value.

  Where the module's own syntax is to be preserved, only what is a type is
  taken out of it.
-/
import SingleFile.Script.Erasure
import SingleFile.Script.Helper
import SingleFile.Script.Reference

namespace SingleFile.Script

open SingleFile.Text

/-! ## §1. Options -/

/-- What becomes of imports and exports. -/
inductive ModuleForm where
  | commonJs
  /-- They stay. -/
  | preserved
deriving DecidableEq, Repr, Inhabited

/-- How a default import reads a module. -/
inductive Interop where
  /-- Through a helper: a module that is no lowered one is its own default. -/
  | helper
  /-- By its property. -/
  | none
deriving DecidableEq, Repr, Inhabited

/-- How a script is rewritten. -/
structure RewriteOptions where
  typed : Bool
  form : ModuleForm
  helpers : HelperMode
  interop : Interop
  /-- Imports that are never used as values are dropped. -/
  elideImports : Bool
deriving DecidableEq, Repr, Inhabited

/-! ## §2. The state of a lowering -/

/-- What has been decided about a module so far. -/
structure Lowering where
  /-- The actions, the latest list first. -/
  actions : List (List Action)
  /-- The shared helpers in use, in the order of their first use. -/
  helpers : List Helper
  /-- The assignments to come behind the last item. -/
  deferred : String
  temporaries : Nat
  hasExports : Bool
deriving Repr, Inhabited

/-- Nothing decided yet. -/
def Lowering.start : Lowering := ⟨[], [], "", 0, false⟩

/-- What is known about a module as a whole. -/
structure Module where
  source : List Char
  options : RewriteOptions
  /-- The names used as values, when unused imports are dropped. -/
  references : Option (List String)
  /-- The names that are types only. -/
  typeNames : List String

/-- A step of a lowering. -/
abbrev Lower := ReaderT Module (StateM Lowering)

namespace Lower

/-- Records actions. -/
def record (actions : List Action) : Lower Unit :=
  modify fun s => { s with actions := actions :: s.actions }

/-- Looks at the text around an offset. -/
def look (offset : Nat) : Lower Unit := record [.look offset]

/-- Records the actions that take the types out of a tree. -/
def eraseTypes (n : Node) : Lower Unit := do record (erase (← read).source n)

/-- The text at a span. -/
def text (span : Span) : Lower String := return textAt (← read).source span

/-- Whether imports and exports are lowered. -/
def isCommonJs : Lower Bool := return (← read).options.form == .commonJs

/-- Takes note that the module exports something. -/
def markExports : Lower Unit := modify fun s => { s with hasExports := true }

/-- A name that has not been given to a variable yet. -/
def temporary : Lower String := do
  modify fun s => { s with temporaries := s.temporaries + 1 }
  return "__sfc_module" ++ Nat.repr (← get).temporaries

/-- A call of a helper. -/
def callHelper (h : Helper) (arguments : String) : Lower String := do
  let mode := (← read).options.helpers
  if mode == .shared then
    modify fun s => if s.helpers.contains h then s else { s with helpers := s.helpers ++ [h] }
  return h.call mode arguments

/-- The default of a module. -/
def defaultOf (module : String) : Lower String := do
  match (← read).options.interop with
  | .helper => return (← callHelper .interopDefault module) ++ ".default"
  | .none => return module ++ ".default"

/-- A property of an object. -/
def property (object : String) : ModuleName → Lower String
  | .word name => return object ++ "." ++ name.text
  | .quoted _ span => return object ++ "[" ++ (← text span) ++ "]"

end Lower

open Lower

/-! ## §3. Imports -/

/-- An assignment to a new variable. -/
def varText (name value : String) : String := "var " ++ name ++ " = " ++ value ++ ";"

/-- An assignment to an export. -/
def exportOf (name value : String) : String := "exports." ++ name ++ " = " ++ value ++ ";"

/-- Whether an imported name is kept. -/
def keepsImport (references : Option (List String)) (item : ImportItem) : Bool :=
  let isType := match item with
    | .named _ _ typeOnly => typeOnly
    | _ => false
  !isType && (references.map fun names => names.contains item.binding.text).getD true

/-- What an imported name stands for in a module. -/
def importValue (module : String) : ImportItem → Lower String
  | .defaultItem _ => defaultOf module
  | .wholeModule _ => return module
  | .named binding imported _ =>
    match imported with
    | some name => if name.is "default" then defaultOf module else property module name
    | none => property module (.word binding)

/-- Whether an import of a single name needs no variable for the module. -/
def isShort : ImportItem → Bool
  | .named _ (some name) _ => !name.is "default"
  | _ => true

/-- The statements that an import of some names from a source becomes. -/
def requireText (items : List ImportItem) (source : String) : Lower String := do
  let required := "require(" ++ source ++ ")"
  let bind (module : String) (item : ImportItem) : Lower String := do
    return varText item.binding.text (← importValue module item)
  let throughVariable : Lower String := do
    let module ← temporary
    let bindings ← items.mapM (bind module)
    return varText module required ++ String.join bindings
  -- A single name is read off the call itself; more of them share a variable for the module.
  match items with
  | [] => return required ++ ";"
  | [item] => if isShort item then bind required item else throughVariable
  | _ => throughVariable

/-- An import statement for some names. -/
def importText (items : List ImportItem) (source : String) : Lower String := do
  let mut clauses : List String := []
  let mut named : List String := []
  for item in items do
    match item with
    | .defaultItem binding => clauses := clauses ++ [binding.text]
    | .wholeModule binding => clauses := clauses ++ ["* as " ++ binding.text]
    | .named binding imported _ =>
      match imported with
      | some name => named := named ++ [(← text name.span) ++ " as " ++ binding.text]
      | none => named := named ++ [binding.text]
  -- The names in braces are one clause, which comes last.
  if !named.isEmpty then
    clauses := clauses ++ ["\x7b " ++ ", ".intercalate named ++ " \x7d"]
  return "import " ++ ", ".intercalate clauses ++ " from " ++ source ++ ";"

/-- An import. -/
def lowerImport (n : Node) (decl : Import) : Lower Unit := do
  let kept := decl.items.filter (keepsImport (← read).references)
  -- An import without any names is there for its effects and stays.
  if decl.typeOnly || (!decl.items.isEmpty && kept.isEmpty) then
    return ← record [blankSpan n.span]
  let source ← text decl.source
  if ← isCommonJs then
    record [.replace n.start n.stop (← requireText kept source)]
  -- What keeps all its names is left as it is written.
  else if kept.length != decl.items.length then
    record [.replace n.start n.stop (← importText kept source)]

/-- A name given to an entity or module. -/
def lowerImportEquals (n : Node) (name : String) (isExport typeOnly isExternal : Bool)
    (value : Span) : Lower Unit := do
  let unused := !isExport && !((← read).references.map (·.contains name)).getD true
  if typeOnly || unused then return ← record [blankSpan n.span]
  let entity ← text value
  let binding := varText name (if isExternal then "require(" ++ entity ++ ")" else entity)
  if !isExport then return ← record [.replace n.start n.stop binding]
  if ← isCommonJs then
    markExports
    record [.replace n.start n.stop (binding ++ exportOf name name)]
  else record [.replace n.start n.stop ("export " ++ binding)]

/-! ## §4. Exported declarations -/

mutual

/-- The names a pattern binds. -/
def boundNames : Node → List String
  | .mk kind _ children =>
    match kind with
    | .binding name _ => [name]
    | .arrayPattern _ => boundNamesOf children
    | .objectPattern _ => boundNamesOf children
    | .keyValuePattern => lastBoundNames children
    | .shorthandPattern => firstBoundNames children
    | .restPattern => firstBoundNames children
    | .assignPattern => firstBoundNames children
    | .declarator _ => firstBoundNames children
    | _ => []

/-- The names some patterns bind. -/
def boundNamesOf : List Node → List String
  | [] => []
  | n :: rest => boundNames n ++ boundNamesOf rest

/-- The names the first of some nodes binds. -/
def firstBoundNames : List Node → List String
  | [] => []
  | n :: _ => boundNames n

/-- The names the last of some nodes binds. -/
def lastBoundNames : List Node → List String
  | [] => []
  | [n] => boundNames n
  | _ :: rest => lastBoundNames rest

end

/-- The name of a function or class, which is its first part if it has one. -/
def declaredName? (n : Node) : Option String := n.children.head?.bind Node.ident?

/-- The names that a declaration exports behind itself; a function's name has been exported in
front of it. -/
def exportedNames (n : Node) : List String :=
  match n.kind with
  | .classDecl _ => (declaredName? n).toList
  | .variables _ => n.children.flatMap boundNames
  | .enumDecl name _ _ => [name]
  | _ => []

/-- Whether a declaration is a function. -/
def isFunctionDecl (n : Node) : Bool :=
  match n.kind with
  | .functionDecl _ => true
  | _ => false

/-- Whether a declaration is an enum. -/
def isEnumDecl (n : Node) : Bool :=
  match n.kind with
  | .enumDecl .. => true
  | _ => false

/-- The actions that make an exported declaration a plain one with assignments around it. -/
def exportActions (source : List Char) (n declaration : Node) : List Action :=
  let behind := behindKeyword source n.start "export"
  let names := exportedNames declaration
  let terminated := isEnumDecl declaration || endsWithSemicolon source n.stop
  let assignments := String.join (names.map fun name => exportOf name name)
  -- A function has its value before the module runs, so it is exported in front of itself.
  let front := if isFunctionDecl declaration then
      String.join ((declaredName? declaration).toList.map fun name => exportOf name name)
    else ""
  -- An enum ends with a semicolon of its own, so none is looked for behind it.
  let looks := if names.isEmpty || isEnumDecl declaration then [] else [.look n.stop]
  looks ++ .replace n.start behind front :: if names.isEmpty then []
    else [.insert n.stop ((if terminated then "" else ";") ++ assignments)]

/-- An exported declaration. -/
def lowerExport (n declaration : Node) : Lower Unit := do
  if isTypeOnly declaration then return ← record [blankSpan n.span]
  -- The word `export` is looked for even if it stays.
  look n.start
  if ← isCommonJs then
    markExports
    record (exportActions (← read).source n declaration)
  eraseTypes declaration

/-- The default export of a function or class. -/
def lowerDefault (n declaration : Node) : Lower Unit := do
  let isInterface := match declaration.kind with
    | .interfaceDecl _ => true
    | _ => false
  let isOverload := declaration.kind == .functionExpr && !(declaration.children.any hasBody)
  if isInterface || isOverload then return ← record [blankSpan n.span]
  if ← isCommonJs then
    markExports
    let source := (← read).source
    let second := behindKeyword source n.start "export"
    let behind := behindKeyword source second "default"
    look n.start
    look second
    -- A named function is exported in front of itself, a named class behind itself; what has no
    -- name becomes a value.
    match declaredName? declaration, declaration.kind with
    | some name, .functionExpr =>
      record [.replace n.start behind (exportOf "default" name)]
    | some name, _ =>
      record [.replace n.start behind "", .insert n.stop (";" ++ exportOf "default" name)]
    | none, _ =>
      record [.replace n.start behind "exports.default = ", .insert n.stop ";"]
  eraseTypes declaration

/-- The default export of an expression. -/
def lowerDefaultExpression (n value : Node) : Lower Unit := do
  if ← isCommonJs then
    markExports
    record [.replace n.start value.start "exports.default = "]
  eraseTypes value

/-! ## §5. Export lists -/

/-- Whether an entry of an export list is kept: no type is, and no name that is a type only. -/
def keepsExport (typeNames : List String) (isLocal : Bool) : ExportItem → Bool
  | .named _ entity _ typeOnly =>
    let isTypeName := (entity.word?.map typeNames.contains).getD false
    !typeOnly && !(isLocal && isTypeName)
  | .wholeModule _ _ => true

/-- The assignment that an entry of a list of the module's own names becomes. -/
def localExport : ExportItem → Lower String
  | .named _ entity exported _ => do
    let target ← property "exports" (exported.getD entity)
    return target ++ " = " ++ (← text entity.span) ++ ";"
  | .wholeModule _ _ => return ""

/-- The assignment that an entry of a list of another module's names becomes. -/
def foreignExport (module : String) : ExportItem → Lower String
  | .named _ entity exported _ => do
    let value ← if entity.is "default" then defaultOf module else property module entity
    return (← property "exports" (exported.getD entity)) ++ " = " ++ value ++ ";"
  | .wholeModule _ exported => return (← property "exports" exported) ++ " = " ++ module ++ ";"

/-- Where an entry of an export list stands. -/
def ExportItem.span : ExportItem → Span
  | .named span _ _ _ => span
  | .wholeModule span _ => span

/-- An export statement with some entries of a list. -/
def exportText (items : List ExportItem) (source : Option Span) : Lower String := do
  let names ← items.mapM fun item => text item.span
  let list := "export \x7b " ++ ", ".intercalate names ++ " \x7d"
  match source with
  | some span => return list ++ " from " ++ (← text span) ++ ";"
  | none => return list ++ ";"

/-- An export list. -/
def lowerExportList (n : Node) (list : ExportList) : Lower Unit := do
  let kept := list.items.filter (keepsExport (← read).typeNames list.source.isNone)
  if list.typeOnly || (!list.items.isEmpty && kept.isEmpty) then
    return ← record [blankSpan n.span]
  if !(← isCommonJs) then
    if kept.length != list.items.length then
      record [.replace n.start n.stop (← exportText kept list.source)]
    return ()
  markExports
  match list.source with
  | none => do
    -- The names get their values while the module runs, so their assignments wait for its end.
    let assignments ← kept.mapM localExport
    modify fun s => { s with deferred := s.deferred ++ String.join assignments }
    record [.replace n.start n.stop ""]
  | some span => do
    let module ← temporary
    let required := varText module ("require(" ++ (← text span) ++ ")")
    let assignments ← kept.mapM (foreignExport module)
    record [.replace n.start n.stop (required ++ String.join assignments)]

/-- An export of everything another module exports. -/
def lowerExportAll (n : Node) (source : Span) (typeOnly : Bool) : Lower Unit := do
  if typeOnly then return ← record [blankSpan n.span]
  if ← isCommonJs then
    markExports
    let call ← callHelper .exportStar ("require(" ++ (← text source) ++ "), exports")
    record [.replace n.start n.stop (call ++ ";")]

/-! ## §6. Items -/

/-- An item of a module. -/
def lowerItem (n : Node) : Lower Unit := do
  match n.kind, n.children with
  | .importDecl decl, _ => lowerImport n decl
  | .importEquals name isExport typeOnly isExternal value, _ =>
    lowerImportEquals n name isExport typeOnly isExternal value
  | .exportDecl, [declaration] => lowerExport n declaration
  | .exportDefaultDecl, [declaration] => lowerDefault n declaration
  | .exportDefaultExpr, [value] => lowerDefaultExpression n value
  | .exportList list, _ => lowerExportList n list
  | .exportAll source typeOnly, _ => lowerExportAll n source typeOnly
  | .exportAssignment, [value] => do
    record [.replace n.start value.start "module.exports = "]
    eraseTypes value
  | .namespaceExport, _ => record [blankSpan n.span]
  | _, _ => eraseTypes n

/-- Whether an item is one that only modules have. -/
def isModuleItem (n : Node) : Bool :=
  match n.kind with
  | .importDecl _ => true
  | .importEquals .. => true
  | .exportDecl => true
  | .exportDefaultDecl => true
  | .exportDefaultExpr => true
  | .exportList _ => true
  | .exportAll .. => true
  | .exportAssignment => true
  | .namespaceExport => true
  | _ => false

/-- The items of a module, and the assignments behind the last one. -/
def lowerItems (items : List Node) : Lower Unit := do
  for item in items do lowerItem item
  let deferred := (← get).deferred
  if !deferred.isEmpty then
    match items.getLast? with
    | some last => record [.insert last.stop (";" ++ deferred)]
    | none => pure ()

end SingleFile.Script
