/-
  SingleFile.Proofs.Script.EnumMeaning — WHAT AN ENUM MEANS
  ─────────────────────────────────────────────────────────
  An enum gives each of its members a value: the one that its initializer
  has, where the bare names of earlier members stand for their values, or
  one more than the member in front of it has, and zero for the first.  The
  object that an enum denotes holds the value of each member under its name,
  and under each number the name of the last member with that number.

  What an enum is lowered to fills an object, statement by statement.  Its
  initializers are copied, so a name or a type in them would not mean what it
  meant in the enum.

  Main definitions:
    * `Evaluates`, `enumObject` — what an enum means.
    * `Expression.run?`, `Spells` — what a statement does, and its text.
-/
import SingleFile.Proofs.Script.Literals

namespace SingleFile.Script

open SingleFile.Text SingleFile.Number Binary64

/-! ## §1. Values and objects -/

/-- What a member of an enum or of its object can be. -/
inductive Primitive where
  | number (x : Binary64)
  | string (text : String)
deriving DecidableEq, Repr

/-- What operators make of values, and the names of the properties that numbers stand for. -/
structure Operators where
  unary : String → Primitive → Option Primitive
  binary : String → Primitive → Primitive → Option Primitive
  key : Binary64 → String
  minus : ∀ x, unary "-" (.number x) = some (.number x.negate)
  plus : ∀ x y, binary "+" (.number x) (.number y) = some (.number (x.add y))
  key_ne : ∀ x, key x ≠ "__proto__"

/-- The name of the property that a value stands for. -/
def Operators.keyOf (ops : Operators) : Primitive → String
  | .number x => ops.key x
  | .string text => text

/-- The properties of an object. -/
abbrev Object := String → Option Primitive

/-- An object with a value under a name; its prototype is never a number or a string. -/
def Object.put (o : Object) (key : String) (value : Primitive) : Object := fun name =>
  if name = key ∧ key ≠ "__proto__" then some value else o name

/-! ## §2. Initializers -/

/-- Whether a node is an expression with a type. -/
def Kind.isTyped : Kind → Bool
  | .asType => true
  | .satisfies => true
  | .constAssertion => true
  | .nonNull => true
  | .typeAssertion => true
  | _ => false

/-- The value of an expression, given those of names; only in a typed script is there a meaning to
an expression with a type. -/
def Node.value? (ops : Operators) (typed : Bool) (scope : String → Option Primitive) :
    Node → Option Primitive
  | .mk (.number x) _ _ => some (.number x)
  | .mk (.string text) _ _ => text.map .string
  | .mk (.ident name) _ _ => scope name
  | .mk .paren _ [inner] => inner.value? ops typed scope
  | .mk (.unary op) _ [inner] => (inner.value? ops typed scope).bind (ops.unary op)
  | .mk (.binary op) _ [left, right] =>
    (left.value? ops typed scope).bind fun a =>
      (right.value? ops typed scope).bind fun b => ops.binary op a b
  | .mk kind _ [inner] => if typed && kind.isTyped then inner.value? ops typed scope else none
  | _ => none

/-- What an expression means without names and types it means with them. -/
theorem Node.value?_mono {ops : Operators} {value : Primitive} (typed : Bool)
    (scope : String → Option Primitive) (n : Node)
    (h : n.value? ops false (fun _ => none) = some value) :
    n.value? ops typed scope = some value := by
  fun_induction Node.value? ops false (fun _ => none) n generalizing value with
  | case1 => exact h
  | case2 => exact h
  | case3 => cases h
  | case4 _ inner ih =>
    rw [Node.value?]
    exact ih h
  | case5 op _ inner ih =>
    obtain ⟨a, ha, hop⟩ := Option.bind_eq_some_iff.mp h
    rw [Node.value?, ih ha]
    exact hop
  | case6 op _ left right ihl ihr =>
    obtain ⟨a, ha, h⟩ := Option.bind_eq_some_iff.mp h
    obtain ⟨b, hb, hop⟩ := Option.bind_eq_some_iff.mp h
    rw [Node.value?, ihl ha, Option.bind_some, ihr hb]
    exact hop
  | case7 => simp_all
  | case8 => cases h
  | case9 => cases h

/-- A number that an expression spells is its value. -/
theorem Node.value?_of_literalNumber? {ops : Operators} {typed : Bool}
    {scope : String → Option Primitive} {n : Node} {x : Binary64} (h : literalNumber? n = some x) :
    n.value? ops typed scope = some (.number x) := by
  fun_induction literalNumber? n generalizing x with
  | case1 value =>
    obtain rfl := Option.some.inj h
    rw [Node.value?]
  | case2 _ inner ih =>
    obtain ⟨y, hy, rfl⟩ := Option.map_eq_some_iff.mp h
    rw [Node.value?, ih hy, Option.bind_some, ops.minus]
  | case3 _ inner ih => rw [Node.value?, ih h]
  | case4 => cases h

/-! ## §3. Members -/

/-- Whether a node is a member with a name and an initializer, if it has one. -/
inductive IsMember (source : List Char) : Node → String → Option Node → Prop where
  | word {name : String} (span : Span) (id : Node) (hname : IsOneLine name) :
    IsMember source (.mk (.enumMember (.word name)) span [id]) name none
  | wordValue {name : String} (span : Span) (id init : Node) (hname : IsOneLine name) :
    IsMember source (.mk (.enumMember (.word name)) span [id, init]) name (some init)
  | quoted {key : Span} {name : String} (span : Span)
    (hkey : ReadsString (textAt source key).toList name) :
    IsMember source (.mk (.enumMember (.quoted key)) span []) name none
  | quotedValue {key : Span} {name : String} (span : Span) (init : Node)
    (hkey : ReadsString (textAt source key).toList name) :
    IsMember source (.mk (.enumMember (.quoted key)) span [init]) name (some init)

/-- Members with their values, in order. -/
abbrev Members := List (String × Primitive)

/-- The value of a member behind some others: what its initializer means, where their names stand
for their values, or one more than the last one, and zero for the first. -/
def memberValue? (ops : Operators) (before : Members) : Option Node → Option Primitive
  | some init => init.value? ops true fun name => before.lookup name
  | none =>
    match before.getLast? with
    | none => some (.number (.ofNat 0))
    | some (_, .number x) => some (.number (x.add (.ofNat 1)))
    | some (_, .string _) => none

/-- Whether some nodes are members that, behind some members, make up others with their values. -/
inductive Evaluates (ops : Operators) (source : List Char) : Members → List Node → Members → Prop
  where
  | done (members : Members) : Evaluates ops source members [] members
  | next {before after : Members} {node : Node} {rest : List Node} {name : String}
    {init : Option Node} {value : Primitive} (hmember : IsMember source node name init)
    (hvalue : memberValue? ops before init = some value)
    (hrest : Evaluates ops source (before ++ [(name, value)]) rest after) :
    Evaluates ops source before (node :: rest) after

/-- Whether a member has a number that stands for a property. -/
def hasKey (ops : Operators) (key : String) (member : String × Primitive) : Bool :=
  match member.2 with
  | .number x => ops.key x == key
  | .string _ => false

/-- **The object that an enum denotes**: every member under its name, and under every number the
name of the last member that has it. -/
def enumObject (ops : Operators) (members : Members) : Object := fun key =>
  match members.lookup key with
  | some value => some value
  | none => (members.reverse.find? (hasKey ops key)).map fun member => .string member.1

/-- Whether the names of members are those of an enum: all different, none the name of a property
that a number stands for, and none the prototype's. -/
structure WellNamed (ops : Operators) (members : Members) : Prop where
  distinct : (members.map Prod.fst).Nodup
  apart : ∀ member ∈ members, ∀ other ∈ members, hasKey ops other.1 member = false
  ordinary : ∀ member ∈ members, member.1 ≠ "__proto__"

/-! ## §4. Statements -/

/-- The expressions that an enum is lowered to; the object they fill has a name. -/
inductive Expression where
  | number (x : Binary64)
  | negative (x : Binary64)
  | string (text : String)
  /-- An expression of the enum, as it stands there. -/
  | copied (node : Node)
  /-- A property of the object. -/
  | get (key : Expression)
  | plus (left right : Expression)
  /-- An assignment to a property of the object. -/
  | set (key value : Expression)

/-- What an expression comes to, and the object behind it.  No names but that of the object stand
for anything. -/
def Expression.run? (ops : Operators) : Expression → Object → Option (Primitive × Object)
  | number x, o => some (.number x, o)
  | negative x, o => (ops.unary "-" (.number x)).map (·, o)
  | string text, o => some (.string text, o)
  | copied node, o => (node.value? ops false fun _ => none).map (·, o)
  | get key, o => (key.run? ops o).bind fun (k, o) => (o (ops.keyOf k)).map (·, o)
  | plus left right, o =>
    (left.run? ops o).bind fun (a, o) =>
      (right.run? ops o).bind fun (b, o) => (ops.binary "+" a b).map (·, o)
  | set key value, o =>
    (key.run? ops o).bind fun (k, o) =>
      (value.run? ops o).map fun (v, o) => (v, o.put (ops.keyOf k) v)

/-- The object behind some statements. -/
def runAll? (ops : Operators) : List Expression → Object → Option Object
  | [], o => some o
  | e :: rest, o => (e.run? ops o).bind fun (_, o) => runAll? ops rest o

/-- Whether a node is the initializer of one of some members. -/
def IsInitializer (source : List Char) (nodes : List Node) (init : Node) : Prop :=
  ∃ node ∈ nodes, ∃ member, IsMember source node member (some init)

/-- Whether a text spells an expression, given the object's name and the members of the enum. -/
inductive Spells (source : List Char) (name : String) (nodes : List Node) :
    Expression → String → Prop where
  | number {x : Binary64} {text : String} (h : ReadsNumber text.toList x) :
    Spells source name nodes (.number x) text
  | negative {x : Binary64} {text : String} (h : ReadsNumber text.toList x) :
    Spells source name nodes (.negative x) ("-" ++ text)
  | string {value text : String} (h : ReadsString text.toList value) :
    Spells source name nodes (.string value) text
  | copied {init : Node} (h : IsInitializer source nodes init) :
    Spells source name nodes (.copied init) (textAt source init.span)
  | get {key : Expression} {k : String} (hkey : Spells source name nodes key k) :
    Spells source name nodes (.get key) (name ++ "[" ++ k ++ "]")
  | plus {left right : Expression} {l r : String} (hleft : Spells source name nodes left l)
    (hright : Spells source name nodes right r) :
    Spells source name nodes (.plus left right) (l ++ " + " ++ r)
  | set {key value : Expression} {k v : String} (hkey : Spells source name nodes key k)
    (hvalue : Spells source name nodes value v) :
    Spells source name nodes (.set key value) (name ++ "[" ++ k ++ "] = " ++ v)

/-- Whether a text spells some statements. -/
inductive SpellsAll (source : List Char) (name : String) (nodes : List Node) :
    List Expression → String → Prop where
  | nil : SpellsAll source name nodes [] ""
  | cons {e : Expression} {rest : List Expression} {text more : String}
    (hfirst : Spells source name nodes e text) (hrest : SpellsAll source name nodes rest more) :
    SpellsAll source name nodes (e :: rest) (text ++ "; " ++ more)

/-- Whether a text declares a variable and fills it, if it has no object yet a new one, by some
statements. -/
def SpellsFilling (source : List Char) (name : String) (nodes : List Node)
    (statements : List Expression) (text : String) : Prop :=
  ∃ body, SpellsAll source name nodes statements body ∧
    text = "var " ++ name ++ "; (function (" ++ name ++ ") \x7b " ++ body ++ "\x7d)(" ++ name
      ++ " || (" ++ name ++ " = \x7b\x7d));"

/-! ## §5. Arithmetic -/

/-- Signs, sums and products of numbers. -/
def arithmetic : Operators where
  unary op a :=
    match op, a with
    | "-", .number x => some (.number x.negate)
    | "+", .number x => some (.number x)
    | _, _ => none
  binary op a b :=
    match op, a, b with
    | "+", .number x, .number y => some (.number (x.add y))
    | "-", .number x, .number y => some (.number (x.add y.negate))
    | "*", .number x, .number y => some (.number (x.mul y))
    | _, _, _ => none
  key := numberText
  minus _ := rfl
  plus _ _ := rfl
  key_ne x h := underscore_not_mem_numberText x (by rw [h]; decide)

end SingleFile.Script
