/-
  SingleFile.Proofs.Script.ImportMeaning — WHAT AN IMPORT MEANS
  ─────────────────────────────────────────────────────────────
  An import loads a module, once, and binds each of its local names to a part
  of it: the module itself, one of its properties, or its default.  The
  default of a module is its property of that name; where imports go through
  a helper, a module that is not marked as a lowered one is its own default.

  What an import is lowered to is a list of statements, which call a function
  to load the module and assign to variables.

  Main definitions:
    * `Runtime.imported?`, `Runtime.importAll?` — what an import means.
    * `ImportStatement.run?`, `SpellsStatements` — what a statement does, and
      its text.
-/
import SingleFile.Proofs.Script.Literals
import SingleFile.Script.Lowering

namespace SingleFile.Script

open SingleFile.Text

/-! ## §1. Modules and their parts -/

/-- What a script can do with values.  Only a call can change the world around it. -/
structure Runtime (Value World : Type) where
  /-- The value of a string. -/
  string : String → Value
  /-- A property of a value; none if reading it fails. -/
  get : Value → String → Option Value
  /-- Whether a value counts as true. -/
  isTruthy : Value → Bool
  /-- What a call of a function with a value gives; none if it fails. -/
  call : Value → Value → World → Option (Value × World)
  /-- A new object with a value as its default. -/
  boxed : Value → Value
  get_boxed : ∀ v, get (boxed v) "default" = some v

variable {Value World : Type}

namespace Runtime

variable (r : Runtime Value World)

/-- Whether a module is marked as a lowered one. -/
def isMarked? (m : Value) : Option Bool :=
  if r.isTruthy m then (r.get m "__esModule").map r.isTruthy else some false

/-- **The default of a module.** -/
def default? (interop : Interop) (m : Value) : Option Value :=
  match interop with
  | .none => r.get m "default"
  | .helper => (r.isMarked? m).bind fun marked => if marked then r.get m "default" else some m

end Runtime

/-- The name that an item in braces imports; none if it is no text. -/
def importedName? (binding : Name) : Option ModuleName → Option String
  | none => some binding.text
  | some (.word name) => some name.text
  | some (.quoted value _) => value

namespace Runtime

variable (r : Runtime Value World)

/-- **The part of a module that an item imports.** -/
def imported? (interop : Interop) (m : Value) : ImportItem → Option Value
  | .defaultItem _ => r.default? interop m
  | .wholeModule _ => some m
  | .named binding imported _ => (importedName? binding imported).bind fun name =>
    if name = "default" then r.default? interop m else r.get m name

/-- The local names of some items, each with the part of a module that it stands for. -/
def bindings? (interop : Interop) (m : Value) (items : List ImportItem) :
    Option (List (String × Value)) :=
  items.mapM fun item => (r.imported? interop m item).map fun v => (item.binding.text, v)

/-- **What an import means**: the module is loaded by one call, and the local names of the items
stand for parts of it. -/
def importAll? (interop : Interop) (loader : Value) (specifier : String)
    (items : List ImportItem) (w : World) : Option (List (String × Value) × World) :=
  (r.call loader (r.string specifier) w).bind fun (m, w) =>
    (r.bindings? interop m items).map fun bindings => (bindings, w)

end Runtime

/-! ## §2. Statements -/

/-- The values of variables. -/
abbrev Scope (Value : Type) := String → Option Value

/-- A scope with another value for a variable. -/
def Scope.bind (scope : Scope Value) (name : String) (v : Value) : Scope Value := fun n =>
  if n = name then some v else scope n

/-- A scope with other values for some variables, the last one of a name counts. -/
def Scope.bindAll (scope : Scope Value) (bindings : List (String × Value)) : Scope Value :=
  bindings.foldl (fun scope b => scope.bind b.1 b.2) scope

/-- The variable of the function that loads modules. -/
def loaderName : String := "require"

/-- The variable of the function that gives every module a default. -/
def interopName : String := "__sfc_interopDefault"

/-- The expressions that imports are lowered to. -/
inductive ImportExpression where
  | named (name : String)
  | loaded (specifier : String)
  | property (object : ImportExpression) (key : String)
  /-- A call of the function that gives a module a default, by its name. -/
  | shared (argument : ImportExpression)
  /-- A call of the same function, which is written out. -/
  | written (argument : ImportExpression)

/-- What the function gives that gives every module a default. -/
def Runtime.interop? (r : Runtime Value World) (m : Value) : Option Value :=
  (r.isMarked? m).map fun marked => if marked then m else r.boxed m

/-- Whether a function is the one that gives every module a default. -/
def IsInterop (r : Runtime Value World) (f : Value) : Prop :=
  ∀ m w, r.call f m w = (r.interop? m).map (·, w)

/-- What an expression comes to, and the world behind it. -/
def ImportExpression.run? (r : Runtime Value World) (scope : Scope Value) :
    ImportExpression → World → Option (Value × World)
  | named name, w => (scope name).map (·, w)
  | loaded specifier, w =>
    (scope loaderName).bind fun loader => r.call loader (r.string specifier) w
  | property object key, w =>
    (object.run? r scope w).bind fun (v, w) => (r.get v key).map (·, w)
  | shared argument, w =>
    (scope interopName).bind fun f =>
      (argument.run? r scope w).bind fun (v, w) => r.call f v w
  | written argument, w =>
    (argument.run? r scope w).bind fun (v, w) => (r.interop? v).map (·, w)

/-- The statements that imports are lowered to. -/
inductive ImportStatement where
  /-- An assignment to a new variable. -/
  | assign (name : String) (value : ImportExpression)
  /-- An expression for its effects. -/
  | effect (value : ImportExpression)

/-- The scope and the world behind a statement. -/
def ImportStatement.run? (r : Runtime Value World) (scope : Scope Value) (w : World) :
    ImportStatement → Option (Scope Value × World)
  | assign name value => (value.run? r scope w).map fun (v, w) => (scope.bind name v, w)
  | effect value => (value.run? r scope w).map fun (_, w) => (scope, w)

/-- The scope and the world behind some statements. -/
def runImports? (r : Runtime Value World) :
    List ImportStatement → Scope Value → World → Option (Scope Value × World)
  | [], scope, w => some (scope, w)
  | statement :: rest, scope, w =>
    (statement.run? r scope w).bind fun (scope, w) => runImports? r rest scope w

/-! ## §3. Their texts -/

/-- Whether a text is a word. -/
def IsWord (text : String) : Prop :=
  ∃ c rest, text.toList = c :: rest ∧ isIdStart c = true ∧ ∀ d ∈ rest, isIdContinue d = true

instance (text : String) : Decidable (IsWord text) :=
  match h : text.toList with
  | [] => isFalse fun ⟨_, _, htext, _⟩ => List.cons_ne_nil _ _ (htext.symm.trans h)
  | c :: rest =>
    decidable_of_iff (isIdStart c = true ∧ rest.all isIdContinue = true)
      ⟨fun ⟨hc, hrest⟩ => ⟨c, rest, h, hc, List.all_eq_true.mp hrest⟩,
        fun ⟨_, _, htext, hc, hrest⟩ => by
          obtain ⟨rfl, rfl⟩ := List.cons.inj (htext.symm.trans h)
          exact ⟨hc, List.all_eq_true.mpr hrest⟩⟩

/-- Whether a text can name a variable. -/
def IsName (text : String) : Prop := IsWord text ∧ text ∉ reservedWords

instance (text : String) : Decidable (IsName text) := inferInstanceAs (Decidable (_ ∧ _))

/-- **Whether a text spells an expression.** -/
inductive SpellsImport : ImportExpression → String → Prop where
  | named {name : String} (h : IsName name) : SpellsImport (.named name) name
  | loaded {specifier text : String} (h : ReadsString text.toList specifier) :
    SpellsImport (.loaded specifier) ("require(" ++ text ++ ")")
  | word {object : ImportExpression} {o key : String} (hobject : SpellsImport object o)
    (hkey : IsWord key) : SpellsImport (.property object key) (o ++ "." ++ key)
  | quoted {object : ImportExpression} {o key text : String} (hobject : SpellsImport object o)
    (hkey : ReadsString text.toList key) :
    SpellsImport (.property object key) (o ++ "[" ++ text ++ "]")
  | shared {argument : ImportExpression} {a : String} (h : SpellsImport argument a) :
    SpellsImport (.shared argument) ("__sfc_interopDefault(" ++ a ++ ")")
  | written {argument : ImportExpression} {a : String} (h : SpellsImport argument a) :
    SpellsImport (.written argument)
      ("(function (m) \x7b return m && m.__esModule ? m : \x7b default: m \x7d; \x7d)(" ++ a ++ ")")

/-- **Whether a text spells some statements.** -/
inductive SpellsStatements : List ImportStatement → String → Prop where
  | nil : SpellsStatements [] ""
  | assign {name v text : String} {value : ImportExpression} {rest : List ImportStatement}
    (hname : IsName name) (hvalue : SpellsImport value v) (hrest : SpellsStatements rest text) :
    SpellsStatements (.assign name value :: rest) ("var " ++ name ++ " = " ++ v ++ ";" ++ text)
  | effect {v text : String} {value : ImportExpression} {rest : List ImportStatement}
    (hvalue : SpellsImport value v) (hrest : SpellsStatements rest text) :
    SpellsStatements (.effect value :: rest) (v ++ ";" ++ text)

/-! ## §4. Imports and statements -/

/-- Whether an item imports the default of a module. -/
def ImportItem.isDefault : ImportItem → Bool
  | .defaultItem _ => true
  | .wholeModule _ => false
  | .named binding imported _ => importedName? binding imported == some "default"

/-- Whether an item calls the function that gives every module a default by its name. -/
def ImportItem.CallsShared (options : RewriteOptions) (item : ImportItem) : Prop :=
  options.interop = .helper ∧ options.helpers = .shared ∧ item.isDefault = true

instance (options : RewriteOptions) (item : ImportItem) : Decidable (item.CallsShared options) :=
  inferInstanceAs (Decidable (_ ∧ _ ∧ _))

/-- Whether the functions that some items need are in a scope. -/
structure Provides (r : Runtime Value World) (options : RewriteOptions) (items : List ImportItem)
    (loader : Value) (scope : Scope Value) : Prop where
  loads : scope loaderName = some loader
  helps : ∀ item ∈ items, item.CallsShared options →
    ∃ f, scope interopName = some f ∧ IsInterop r f

/-- **Whether statements do what an import means**: they fail where it has no meaning, and
otherwise behind them the local names stand for what they mean, no other variable but that of the
module has changed, and the world is the one behind the call that loads the module. -/
structure DoesImport (r : Runtime Value World) (interop : Interop) (items : List ImportItem)
    (module : String) (loader : Value) (specifier : String) (scope : Scope Value)
    (statements : List ImportStatement) : Prop where
  fails : ∀ w, r.importAll? interop loader specifier items w = none →
    runImports? r statements scope w = none
  binds : ∀ w bindings w', r.importAll? interop loader specifier items w = some (bindings, w') →
    ∃ scope', runImports? r statements scope w = some (scope', w') ∧
      ∀ name, name ≠ module ∨ name ∈ items.map (·.binding.text) →
        scope' name = scope.bindAll bindings name

/-- Whether an item is one of an import in a script: its local name can name a variable, and a name
in quotes is that of a string. -/
structure ImportItem.IsWellFormed (source : List Char) (item : ImportItem) : Prop where
  binding : IsName item.binding.text
  word : ∀ b name t, item = .named b (some (.word name)) t → IsWord name.text
  quoted : ∀ b value span t, item = .named b (some (.quoted value span)) t →
    ∃ name, value = some name ∧ ReadsString (textAt source span).toList name

/-- The variables that are read for the value of an item, where the module is in a variable. -/
def ImportItem.reads (options : RewriteOptions) (module : String) (item : ImportItem) :
    List String :=
  module :: if item.CallsShared options then [interopName] else []

/-- **Whether a text does what an import means**, wherever the functions are that its items need. -/
def MeansImport (options : RewriteOptions) (items : List ImportItem) (module specifier : String)
    (text : String) : Prop :=
  ∃ statements, SpellsStatements statements text ∧
    ∀ (Value World : Type) (r : Runtime Value World) (loader : Value) (scope : Scope Value),
      Provides r options items loader scope →
        DoesImport r options.interop items module loader specifier scope statements

/-! ## §5. Values that say where they come from -/

/-- Where a value comes from. -/
inductive Origin where
  | text (text : String)
  | loader
  | helper
  | module (specifier : String)
  | property (object : Origin) (key : String)
  | boxed (value : Origin)
deriving DecidableEq, Repr

/-- Whether a value counts as true: all do but the marks of modules. -/
def Origin.isTruthy : Origin → Bool
  | .property _ "__esModule" => false
  | _ => true

/-- A property of a value. -/
def Origin.get (object : Origin) (key : String) : Origin :=
  match object, key with
  | .boxed value, "default" => value
  | object, key => .property object key

/-- Modules that are not marked, in a world that counts how often one was loaded. -/
def recorder : Runtime Origin Nat where
  string := .text
  get object key := some (object.get key)
  isTruthy := Origin.isTruthy
  call f value w :=
    match f, value with
    | .loader, .text specifier => some (.module specifier, w + 1)
    | .helper, value => some (.boxed value, w)
    | _, _ => none
  boxed := .boxed
  get_boxed _ := rfl

theorem isInterop_recorder : IsInterop recorder .helper := by
  have hunmarked (m : Origin) : recorder.isMarked? m = some false := by
    rw [Runtime.isMarked?]
    split
    · cases m <;> rfl
    · rfl
  intro m w
  rw [Runtime.interop?, hunmarked]
  rfl

/-- A scope in which there are both functions. -/
def recorderScope : Scope Origin := fun name =>
  if name = loaderName then some .loader else if name = interopName then some .helper else none

theorem provides_recorder (options : RewriteOptions) (items : List ImportItem) :
    Provides recorder options items .loader recorderScope where
  loads := rfl
  helps _ _ _ := ⟨.helper, rfl, isInterop_recorder⟩

end SingleFile.Script
