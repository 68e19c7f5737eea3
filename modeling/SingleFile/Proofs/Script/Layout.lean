/-
  SingleFile.Proofs.Script.Layout — TREES THAT FIT THEIR TEXT
  ───────────────────────────────────────────────────────────
  A tree says where its nodes stand, but not where the words and marks stand
  that belong to no node.  `Node.InPlace` says of a node how both lie in the
  text: its parts stand inside of it and apart from each other, and the words
  and marks stand where the grammar has them, between the parts.

  Contents:
    * `Node.startsAt`, `Node.endsAt` — how far a node reaches.
    * `Node.InPlace` — the layout of a node; decidable.
    * `Program.IsLaidOut` — the layout of a program.
-/
import SingleFile.Proofs.Script.Walk
import SingleFile.Script.Lowering

namespace SingleFile.Script

open SingleFile.Text

/-! ## §1. How far a node reaches -/

/-- The offset behind a mark that stands behind an offset, blanks between them allowed; the same
offset if the mark is not there. -/
def behindMark (source : List Char) (offset : Nat) (mark : String) : Nat :=
  if standsAt source (skipBlanks source offset) mark then skipBlanks source offset + 1 else offset

/-- Whether nothing is ever done to the text of a node: a bare name stays as it is, and a decorator
is refused. -/
def Node.isSilent : Node → Bool
  | .mk (.ident _) _ [] => true
  | .mk .decorator _ _ => true
  | _ => false

/-- Where the reach of a node starts.  The span of a function holds its name or key as well, which
is no part of it. -/
def Node.startsAt (n : Node) : Nat :=
  match n.kind with
  | .function .. =>
    (n.children.filter fun c => !c.isSilent).foldr (fun c least => min c.start least) n.stop
  | _ => n.start

/-- Where the reach of a node stops.  The span of a binding holds its name alone, and the mark and
the type stand behind it. -/
def Node.endsAt (source : List Char) (n : Node) : Nat :=
  match n.kind with
  | .binding name isOptional =>
    let mark := if isOptional then behindMark source (n.start + name.utf8ByteSize) "?" else n.stop
    n.children.foldr (fun c most => max c.stop most) (max n.stop mark)
  | _ => n.stop

/-- Whether two nodes stand apart, unless nothing is ever done to one of them. -/
def Node.StandsApart (source : List Char) (a b : Node) : Prop :=
  a.isSilent = true ∨ b.isSilent = true ∨ a.endsAt source ≤ b.startsAt ∨
    b.endsAt source ≤ a.startsAt

/-! ## §2. Words and marks -/

/-- The word that a node begins with, if the tree says that it has one. -/
def Node.word? (n : Node) : Option String :=
  match n.kind with
  | .variables true => some "declare"
  | .functionDecl true => some "declare"
  | .classDecl true => some "declare"
  | .enumDecl _ true _ => some "declare"
  | .enumDecl _ false true => some "const"
  | .moduleDecl true => some "declare"
  | .classBody true => some "abstract"
  | _ => none

/-- Whether parts behind an offset stand behind a mark there, too. -/
def MarkInPlace (source : List Char) (offset : Nat) (mark : String) (stop : Nat)
    (parts : List Node) : Prop :=
  behindMark source offset mark ≤ stop ∧
    ∀ c ∈ parts, c.isSilent = true ∨ c.endsAt source ≤ offset ∨
      behindMark source offset mark ≤ c.startsAt

/-- Whether the key of a member stands in the member, and its marks and parts behind the key's
start. -/
def MemberInPlace (source : List Char) (marks : MemberMarks) (n : Node) : Prop :=
  n.start ≤ marks.key.start ∧ marks.key.start ≤ marks.key.stop ∧ marks.key.stop ≤ n.stop ∧
    (∀ c ∈ n.children, c.isSilent = true ∨ marks.key.start ≤ c.startsAt) ∧
    (marks.isOptional = true → MarkInPlace source marks.key.stop "?" n.stop n.children) ∧
    (marks.isDefinite = true → MarkInPlace source marks.key.stop "!" n.stop n.children)

/-- Whether the parameters of a constructor stand behind its key, one behind another, and the body
behind them; the statements of a body stand behind its brace. -/
def ConstructorInPlace (source : List Char) (marks : MemberMarks) (n : Node) : Prop :=
  (∀ c ∈ n.children.filter isConstructorPart, marks.key.stop ≤ c.start) ∧
    (n.children.filter isConstructorPart).Pairwise
      (fun a b => a.kind ≠ .block ∧ a.endsAt source ≤ b.start) ∧
    ∀ body ∈ n.children, body.kind = .block → body.start < body.stop ∧
      ∀ c ∈ body.children, c.isSilent = true ∨ body.start < c.start

/-- Whether a node is a member of a class. -/
def isMember (n : Node) : Bool :=
  match n.kind with
  | .constructorMember _ => true
  | .methodMember .. => true
  | .fieldMember .. => true
  | .indexSignature => true
  | .accessorMember => true
  | .staticBlock => true
  | .emptyMember => true
  | _ => false

/-- Whether a node is one of the types that a class promises to fit. -/
def isHeritage (n : Node) : Bool := n.kind == .heritage

/-- Whether the types that a class promises to fit stand behind the word for it, which stands behind
all other parts in front of the members. -/
def HeritageInPlace (source : List Char) (start brace : Nat) (heading heritage : List Node) :
    Prop :=
  match heritage.head?, heritage.getLast? with
  | some first, some last =>
    ∃ word < first.start, standsAt source word "implements" = true ∧ word + 10 ≤ first.start ∧
      start ≤ word ∧ first.start ≤ last.stop ∧ last.stop ≤ brace ∧
      ∀ c ∈ heading, c.isSilent = true ∨ c.endsAt source ≤ word
  | _, _ => True

/-- Whether the members of a class stand behind its brace, one behind another, and everything else
in front of it. -/
def ClassInPlace (source : List Char) (isAbstract : Bool) (n : Node) : Prop :=
  let start := if isAbstract then n.start + 8 else n.start
  let members := n.children.filter isMember
  let heading := n.children.filter fun c => !isMember c && !isHeritage c
  start ≤ n.stop ∧ (∀ c ∈ heading, c.isSilent = true ∨ start ≤ c.startsAt) ∧
    members.Pairwise (fun a b => a.stop ≤ b.start) ∧
    ∃ brace < n.stop, standsAt source brace "\x7b" = true ∧ start ≤ brace ∧
      (∀ c ∈ heading, c.isSilent = true ∨ c.endsAt source ≤ brace) ∧
      (∀ m ∈ members, brace < m.start) ∧
      HeritageInPlace source start brace heading (n.children.filter isHeritage)

/-- Whether the parameters of a function stand one behind another, and everything else in front of
all of them or behind all of them. -/
def ParametersInPlace (source : List Char) (n : Node) : Prop :=
  let parameters := n.children.filter fun c => c.kind == .param
  parameters.Pairwise (fun a b => a.stop ≤ b.start) ∧
    ∀ c ∈ n.children, c.kind = .param ∨ c.isSilent = true ∨
      (∀ p ∈ parameters, c.endsAt source ≤ p.start) ∨ ∀ p ∈ parameters, p.stop ≤ c.startsAt

/-- Whether the type of a binding stands behind its name and its mark. -/
def BindingInPlace (source : List Char) (name : String) (isOptional : Bool) (n : Node) : Prop :=
  ∀ c ∈ n.children, c.kind = .typeClause ∧ n.start + name.utf8ByteSize ≤ c.start ∧
    (isOptional = true → behindMark source (n.start + name.utf8ByteSize) "?" ≤ c.start)

/-- Whether everything behind the name of a variable stands behind its mark. -/
def DeclaratorInPlace (source : List Char) (n : Node) : Prop :=
  match n.children with
  | .mk (.binding name _) span types :: rest =>
    let offset := span.start + name.utf8ByteSize
    behindMark source offset "!" ≤ n.stop ∧ n.start ≤ span.start ∧
      (∀ c ∈ types, behindMark source offset "!" ≤ c.start) ∧
      ∀ c ∈ rest, c.isSilent = true ∨ behindMark source offset "!" ≤ c.startsAt
  | _ => True

/-- Whether an expression stands at the start of a node, and all else that is below the node inside
of it. -/
def InnerFirst (source : List Char) (n : Node) : Prop :=
  match n.children with
  | inner :: _ => n.start ≤ inner.stop ∧ inner.stop ≤ n.stop ∧
    ∀ c ∈ n.children, c.isSilent = true ∨ c.endsAt source ≤ inner.stop
  | [] => True

/-- Whether an expression stands at the end of a node, and all else that is below the node inside of
it. -/
def InnerLast (n : Node) : Prop :=
  match n.children with
  | inner :: _ => n.start ≤ inner.start ∧ inner.start ≤ n.stop ∧
    ∀ c ∈ n.children, c.isSilent = true ∨ inner.start ≤ c.startsAt
  | [] => True

/-- Whether only bare names and decorators stand in front of a parameter's pattern, which begins in
the parameter. -/
def PatternLast (n : Node) : Prop :=
  (∀ c ∈ n.children.dropLast, c.isSilent = true) ∧
    ∀ c ∈ n.children.getLast?, n.start ≤ c.start ∧ c.start ≤ n.stop

/-- Whether what is exported stands behind the words in front of it. -/
def ExportInPlace (n : Node) (behind : Nat) : Prop :=
  ∀ c ∈ n.children, behind ≤ c.start ∧ c.start ≤ n.stop

/-- **Whether the words and marks of a node stand in place.** -/
def Node.WordsInPlace (source : List Char) (n : Node) : Prop :=
  match n.kind with
  | .binding name isOptional => BindingInPlace source name isOptional n
  | .declarator true => DeclaratorInPlace source n
  | .function .. => ParametersInPlace source n
  | .param => PatternLast n
  | .paramProperty => PatternLast n
  | .asType => InnerFirst source n
  | .satisfies => InnerFirst source n
  | .constAssertion => InnerFirst source n
  | .nonNull => InnerFirst source n
  | .typeAssertion => InnerLast n
  | .classBody isAbstract => ClassInPlace source isAbstract n
  | .constructorMember marks => MemberInPlace source marks n ∧ ConstructorInPlace source marks n
  | .methodMember _ marks => MemberInPlace source marks n
  | .fieldMember _ marks => MemberInPlace source marks n
  | .exportDecl => ExportInPlace n (behindKeyword source n.start "export")
  | .exportDefaultDecl =>
    ExportInPlace n (behindKeyword source (behindKeyword source n.start "export") "default")
  | .exportDefaultExpr => ExportInPlace n n.start
  | .exportAssignment => ExportInPlace n n.start
  | _ => True

/-! ## §3. Layout -/

/-- **Whether a node lies in the text as its grammar has it**: it stands the right way round, its
parts stand inside of it and apart from each other, and its words and marks stand in place. -/
structure Node.InPlace (source : List Char) (n : Node) : Prop where
  ordered : n.start ≤ n.stop
  inside : ∀ c ∈ n.children, c.isSilent = true ∨
    (n.start ≤ c.start ∧ c.endsAt source ≤ n.endsAt source)
  apart : n.children.Pairwise (Node.StandsApart source)
  begins : ∀ word ∈ n.word?, standsAt source n.start word = true
  words : n.WordsInPlace source

section

variable (source : List Char)

instance (a b : Node) : Decidable (a.StandsApart source b) := instDecidableOr

instance (offset : Nat) (mark : String) (stop : Nat) (parts : List Node) :
    Decidable (MarkInPlace source offset mark stop parts) := instDecidableAnd

instance (marks : MemberMarks) (n : Node) : Decidable (MemberInPlace source marks n) :=
  instDecidableAnd

instance (marks : MemberMarks) (n : Node) : Decidable (ConstructorInPlace source marks n) :=
  instDecidableAnd

instance (start brace : Nat) (heading heritage : List Node) :
    Decidable (HeritageInPlace source start brace heading heritage) := by
  unfold HeritageInPlace
  split <;> infer_instance

instance (isAbstract : Bool) (n : Node) : Decidable (ClassInPlace source isAbstract n) := by
  unfold ClassInPlace
  infer_instance

instance (n : Node) : Decidable (ParametersInPlace source n) := instDecidableAnd

instance (name : String) (isOptional : Bool) (n : Node) :
    Decidable (BindingInPlace source name isOptional n) := List.decidableBAll _ _

instance (n : Node) : Decidable (DeclaratorInPlace source n) := by
  unfold DeclaratorInPlace
  split <;> infer_instance

instance (n : Node) : Decidable (InnerFirst source n) := by
  unfold InnerFirst
  split <;> infer_instance

instance (n : Node) : Decidable (InnerLast n) := by
  unfold InnerLast
  split <;> infer_instance

instance (n : Node) : Decidable (PatternLast n) := instDecidableAnd

instance (n : Node) (behind : Nat) : Decidable (ExportInPlace n behind) := List.decidableBAll _ _

instance (n : Node) : Decidable (n.WordsInPlace source) := by
  unfold Node.WordsInPlace
  split <;> infer_instance

instance (n : Node) : Decidable (n.InPlace source) :=
  decidable_of_iff (n.start ≤ n.stop ∧
      (∀ c ∈ n.children, c.isSilent = true ∨
        (n.start ≤ c.start ∧ c.endsAt source ≤ n.endsAt source)) ∧
      n.children.Pairwise (Node.StandsApart source) ∧
      (∀ word ∈ n.word?, standsAt source n.start word = true) ∧ n.WordsInPlace source)
    ⟨fun ⟨ordered, inside, apart, begins, words⟩ => ⟨ordered, inside, apart, begins, words⟩,
      fun h => ⟨h.ordered, h.inside, h.apart, h.begins, h.words⟩⟩

end

mutual

/-- Whether a tree lies in the text as its grammar has it.  Of a declaration that means nothing at
run time nothing is left, wherever its parts are. -/
def isLaidOut (source : List Char) : Node → Bool
  | .mk kind span children =>
    decide ((Node.mk kind span children).InPlace source) &&
      (isTypeOnly (.mk kind span children) || areLaidOut source children)

/-- Whether some trees lie in the text as their grammar has them. -/
def areLaidOut (source : List Char) : List Node → Bool
  | [] => true
  | n :: rest => isLaidOut source n && areLaidOut source rest

end

section

variable {source : List Char} {n : Node} {nodes : List Node}

theorem areLaidOut_iff :
    areLaidOut source nodes = true ↔ ∀ n ∈ nodes, isLaidOut source n = true := by
  induction nodes with
  | nil => exact iff_of_true rfl fun _ h => absurd h List.not_mem_nil
  | cons n rest ih => rw [areLaidOut, Bool.and_eq_true, ih, List.forall_mem_cons]

theorem isLaidOut_iff : isLaidOut source n = true ↔
    n.InPlace source ∧ (isTypeOnly n = true ∨ ∀ c ∈ n.children, isLaidOut source c = true) := by
  obtain ⟨kind, span, children⟩ := n
  rw [isLaidOut, Bool.and_eq_true, decide_eq_true_eq, Bool.or_eq_true, areLaidOut_iff]
  rfl

end

/-- Whether a node reaches no farther than its span, and is more than a bare name. -/
def Node.isWhole (n : Node) : Bool :=
  match n.kind with
  | .ident _ => false
  | .decorator => false
  | .function .. => false
  | .binding .. => false
  | _ => true

/-- **Whether the spans of a program are nested and ordered as in its text.** -/
structure Program.IsLaidOut (source : List Char) (program : Program) : Prop where
  trees : areLaidOut source program.items = true
  apart : program.items.Pairwise (Node.StandsApart source)
  whole : ∀ n ∈ program.items, n.isWhole = true

instance (source : List Char) (program : Program) : Decidable (program.IsLaidOut source) :=
  decidable_of_iff (areLaidOut source program.items = true ∧
      program.items.Pairwise (Node.StandsApart source) ∧ ∀ n ∈ program.items, n.isWhole = true)
    ⟨fun ⟨trees, apart, whole⟩ => ⟨trees, apart, whole⟩, fun h => ⟨h.trees, h.apart, h.whole⟩⟩

end SingleFile.Script
