/-
  SingleFile.Proofs.Script.Walk — WHERE AN ERASURE GOES
  ─────────────────────────────────────────────────────
  A walk over a tree goes from a node to some of the nodes below it, and asks
  for something at each node that it comes to.  Most nodes are left for their
  children; of a class the members are looked at from the class itself, since
  a member's modifiers are found behind the member in front of it.

  Main results:
    * `Node.requests`, `Node.entered` — what is asked for at a node, and where
      the walk goes from there.
    * `mem_erase` — the actions for a tree are those two things.  The step.
    * `mem_eraseAll_iff` — what is asked for in some trees is asked for at a
      node that the walk comes to.  The run.
-/
import SingleFile.Script.Erasure

namespace SingleFile.Script

open SingleFile.Text

/-! ## §1. Trees below a tree -/

mutual

/-- A tree and all trees below it. -/
def subtrees : Node → List Node
  | .mk kind span children => .mk kind span children :: subtreesOf children

/-- Some trees and all trees below them. -/
def subtreesOf : List Node → List Node
  | [] => []
  | n :: rest => subtrees n ++ subtreesOf rest

end

theorem mem_subtrees {n m : Node} : m ∈ subtrees n ↔ m = n ∨ m ∈ subtreesOf n.children := by
  obtain ⟨kind, span, children⟩ := n
  exact List.mem_cons

theorem mem_subtreesOf {nodes : List Node} {m : Node} :
    m ∈ subtreesOf nodes ↔ ∃ n ∈ nodes, m ∈ subtrees n := by
  induction nodes with
  | nil => simp [subtreesOf]
  | cons n rest ih => simp [subtreesOf, ih]

theorem mem_subtreesOf_of_mem {n : Node} {nodes : List Node} (h : n ∈ nodes) :
    n ∈ subtreesOf nodes :=
  mem_subtreesOf.mpr ⟨n, h, mem_subtrees.mpr (Or.inl rfl)⟩

mutual

/-- What is below a tree below a tree is below it. -/
theorem subtreesOf_children_of_mem_subtrees {n : Node} :
    ∀ m : Node, n ∈ subtrees m → subtreesOf n.children ⊆ subtrees m
  | .mk kind span children, h => by
    rw [subtrees] at h ⊢
    rcases List.mem_cons.mp h with rfl | h
    · exact List.subset_cons_self ..
    · exact fun x hx => List.mem_cons_of_mem _
        (subtreesOf_children_of_mem_subtreesOf children h hx)

theorem subtreesOf_children_of_mem_subtreesOf {n : Node} :
    ∀ nodes : List Node, n ∈ subtreesOf nodes → subtreesOf n.children ⊆ subtreesOf nodes
  | [], h => absurd h (by simp [subtreesOf])
  | m :: rest, h => by
    rw [subtreesOf] at h ⊢
    rcases List.mem_append.mp h with h | h
    · exact fun x hx => List.mem_append_left _ (subtreesOf_children_of_mem_subtrees m h hx)
    · exact fun x hx => List.mem_append_right _ (subtreesOf_children_of_mem_subtreesOf rest h hx)

end

/-- What is below trees that are below some trees is below those. -/
theorem subtreesOf_subset {nodes more : List Node} (h : nodes ⊆ subtreesOf more) :
    subtreesOf nodes ⊆ subtreesOf more := by
  intro m hm
  obtain ⟨n, hn, hm⟩ := mem_subtreesOf.mp hm
  rcases mem_subtrees.mp hm with rfl | hm
  · exact h hn
  · exact subtreesOf_children_of_mem_subtreesOf more (h hn) hm

theorem subtreesOf_mono {nodes more : List Node} (h : nodes ⊆ more) :
    subtreesOf nodes ⊆ subtreesOf more :=
  subtreesOf_subset fun _ hn => mem_subtreesOf_of_mem (h hn)

theorem subtreesOf_singleton_subset {nodes : List Node} {n : Node} (h : n ∈ subtreesOf nodes) :
    subtreesOf [n] ⊆ subtreesOf nodes :=
  subtreesOf_subset (List.cons_subset.mpr ⟨h, List.nil_subset _⟩)

theorem subtreesOf_children_subset (n : Node) : subtreesOf n.children ⊆ subtreesOf [n] :=
  subtreesOf_children_of_mem_subtreesOf [n] (mem_subtreesOf_of_mem (List.mem_singleton_self n))

/-! ## §2. What is asked for at a node -/

/-- Whether a node is a declaration, which may mean nothing at run time. -/
def Kind.isDeclaration : Kind → Bool
  | .interfaceDecl _ => true
  | .typeAlias _ => true
  | .variables _ => true
  | .functionDecl _ => true
  | .classDecl _ => true
  | .enumDecl .. => true
  | .moduleDecl _ => true
  | _ => false

/-- Only declarations are erased as a whole. -/
theorem isTypeOnly_eq_false {n : Node} (h : n.kind.isDeclaration = false) :
    isTypeOnly n = false := by
  obtain ⟨kind, span, children⟩ := n
  unfold isTypeOnly
  cases kind <;> first | rfl | exact Bool.noConfusion h

/-- Whether a part of a constructor is a parameter or the body, and not the name. -/
def isConstructorPart (n : Node) : Bool :=
  match n.kind with
  | .param => true
  | .paramProperty => true
  | .block => true
  | _ => false

/-- What the parameters of a constructor ask for: the modifiers of a field that is declared go.  A
parameter stands behind `floor`. -/
def parameterRequests (source : List Char) (floor : Nat) : List Node → List Action
  | [] => []
  | n :: rest =>
    match n.kind with
    | .param => parameterRequests source n.stop rest
    | .paramProperty =>
      let pattern := (n.children.getLast?.map Node.start).getD n.start
      blankModifiers source floor pattern ++ parameterRequests source n.stop rest
    | _ => parameterRequests source floor rest

/-- What a part of a class asks for that stands behind `floor`: a member that is a type goes as a
whole, and of others the modifiers and marks. -/
def partRequests (source : List Char) (floor : Nat) (n : Node) : List Action :=
  match n.kind with
  | .constructorMember marks =>
    if marks.hasBody then
      blankModifiers source floor marks.key.start
        ++ (parameterRequests source marks.key.stop n.children
          ++ constructorActions source n.children)
    else blankMember source floor marks.key.start n.span
  | .methodMember _ marks =>
    if marks.isAbstract || !marks.hasBody then blankMember source floor marks.key.start n.span
    else blankModifiers source floor marks.key.start ++ blankMemberMarks source marks
  | .fieldMember isPrivate marks =>
    if !isPrivate && (marks.isDeclared || marks.isAbstract) then
      blankMember source floor marks.key.start n.span
    else blankModifiers source floor marks.key.start ++ blankMemberMarks source marks
  | .indexSignature => blankMember source floor n.start n.span
  | _ => []

/-- Where the part of a class stands behind that follows another part. -/
def floorBehind (floor : Nat) (n : Node) : Nat :=
  match n.kind with
  | .constructorMember _ => n.stop
  | .methodMember .. => n.stop
  | .fieldMember .. => n.stop
  | .indexSignature => n.stop
  | .accessorMember => n.stop
  | .staticBlock => n.stop
  | .emptyMember => n.stop
  | _ => floor

/-- The parts of a class, each with what it stands behind. -/
def partsBehind (floor : Nat) : List Node → List (Nat × Node)
  | [] => []
  | n :: rest => (floor, n) :: partsBehind (floorBehind floor n) rest

/-- **What is asked for at a node itself.** -/
def Node.requests (source : List Char) (n : Node) : List Action :=
  if isTypeOnly n then blankDeclaration source n
  else match n.kind with
  | .enumDecl .. => lookInFront n ++ replaceEnum source n
  | .moduleDecl _ => [.refuse .namespace n.start]
  | .decorator => [.refuse .decorator n.start]
  | .typeClause => [blankSpan n.span]
  | .typeParameters => [blankSpan n.span]
  | .typeArguments => [blankSpan n.span]
  | .asType => blankBehind n.children n.span
  | .satisfies => blankBehind n.children n.span
  | .constAssertion => blankBehind n.children n.span
  | .nonNull => blankBehind n.children n.span
  | .typeAssertion => blankInFront n.children n.span
  | .classBody isAbstract =>
    classActions source isAbstract n.span n.children
      ++ (partsBehind n.start n.children).flatMap fun part => partRequests source part.1 part.2
  | kind => ownActions source kind n.span n.children

/-! ## §3. Where a walk goes -/

/-- The nodes that a walk comes to in a part of a class; it does not go into members that are
types. -/
def partEntered (n : Node) : List Node :=
  match n.kind with
  | .heritage => []
  | .constructorMember marks =>
    if marks.hasBody then (n.children.filter isConstructorPart).flatMap Node.children else []
  | .methodMember _ marks => if marks.isAbstract || !marks.hasBody then [] else n.children
  | .fieldMember isPrivate marks =>
    if !isPrivate && (marks.isDeclared || marks.isAbstract) then [] else n.children
  | .indexSignature => []
  | .accessorMember => n.children
  | .staticBlock => n.children
  | .emptyMember => []
  | _ => [n]

/-- **The nodes that a walk goes on to from a node.** -/
def Node.entered (n : Node) : List Node :=
  if isTypeOnly n then []
  else match n.kind with
  | .enumDecl .. => []
  | .moduleDecl _ => []
  | .decorator => []
  | .typeClause => []
  | .typeParameters => []
  | .typeArguments => []
  | .classBody _ => n.children.flatMap partEntered
  | _ => n.children

/-- What a walk over some nodes comes to. -/
inductive Walked : List Node → Node → Prop where
  | here {nodes : List Node} {n : Node} (hn : n ∈ nodes) : Walked nodes n
  | inside {nodes : List Node} {n m : Node} (hn : n ∈ nodes) (h : Walked n.entered m) :
    Walked nodes m

/-! ## §4. The actions of a walk -/

variable {source : List Char} {nodes : List Node} {a : Action}

theorem mem_eraseAll : a ∈ eraseAll source nodes ↔ ∃ n ∈ nodes, a ∈ erase source n := by
  induction nodes with
  | nil => simp [eraseAll]
  | cons n rest ih => simp [eraseAll, ih]

theorem eraseBelow_eq (n : Node) : eraseBelow source n = eraseAll source n.children := by
  cases n
  rfl

theorem eraseAll_append (nodes more : List Node) :
    eraseAll source (nodes ++ more) = eraseAll source nodes ++ eraseAll source more := by
  induction nodes with
  | nil => rfl
  | cons n rest ih => rw [List.cons_append, eraseAll, eraseAll, ih, List.append_assoc]

/-- The actions for the parameters and the body of a constructor: those of the modifiers, and of
what is below them. -/
theorem mem_eraseParameters {floor : Nat} :
    a ∈ eraseParameters source floor nodes ↔ a ∈ parameterRequests source floor nodes ∨
      a ∈ eraseAll source ((nodes.filter isConstructorPart).flatMap Node.children) := by
  induction nodes generalizing floor with
  | nil => simp [eraseParameters, parameterRequests, eraseAll]
  | cons n rest ih =>
    rw [eraseParameters, parameterRequests, List.filter_cons, isConstructorPart]
    cases n.kind with
    | param =>
      dsimp only
      rw [if_pos rfl, List.flatMap_cons, eraseAll_append, List.mem_append, List.mem_append, ih,
        eraseBelow_eq]
      exact or_left_comm
    | paramProperty =>
      dsimp only
      rw [if_pos rfl, List.flatMap_cons, eraseAll_append, List.mem_append, List.mem_append,
        List.mem_append, List.mem_append, ih, eraseBelow_eq]
      exact or_or_or_comm ..
    | block =>
      dsimp only
      rw [if_pos rfl, List.flatMap_cons, eraseAll_append, List.mem_append, List.mem_append, ih,
        eraseBelow_eq]
      exact or_left_comm
    -- What is left is the name, which asks for nothing.
    | _ => exact ih

/-- What a walk does for one part of a class. -/
def partActions (source : List Char) (floor : Nat) (n : Node) : List Action :=
  match n.kind with
  | .heritage => []
  | .constructorMember marks =>
    if marks.hasBody then
      blankModifiers source floor marks.key.start ++ eraseConstructor source marks n
    else blankMember source floor marks.key.start n.span
  | .methodMember _ marks =>
    if marks.isAbstract || !marks.hasBody then blankMember source floor marks.key.start n.span
    else blankModifiers source floor marks.key.start ++ blankMemberMarks source marks
      ++ eraseBelow source n
  | .fieldMember isPrivate marks =>
    if !isPrivate && (marks.isDeclared || marks.isAbstract) then
      blankMember source floor marks.key.start n.span
    else blankModifiers source floor marks.key.start ++ blankMemberMarks source marks
      ++ eraseBelow source n
  | .indexSignature => blankMember source floor n.start n.span
  | .accessorMember => eraseBelow source n
  | .staticBlock => eraseBelow source n
  | .emptyMember => []
  | _ => erase source n

/-- The parts of a class are walked one after another. -/
theorem eraseParts_cons (source : List Char) (floor : Nat) (n : Node) (rest : List Node) :
    eraseParts source floor (n :: rest)
      = partActions source floor n ++ eraseParts source (floorBehind floor n) rest := by
  rw [eraseParts, partActions, floorBehind]
  cases n.kind <;> rfl

theorem mem_eraseConstructor {marks : MemberMarks} {n : Node} :
    a ∈ eraseConstructor source marks n ↔
      a ∈ parameterRequests source marks.key.stop n.children
          ++ constructorActions source n.children ∨
        a ∈ eraseAll source ((n.children.filter isConstructorPart).flatMap Node.children) := by
  obtain ⟨kind, span, children⟩ := n
  rw [eraseConstructor, List.mem_append, List.mem_append, mem_eraseParameters]
  exact or_right_comm

/-- The actions for one part of a class: those asked for from the class, and those of the nodes
that the walk comes to in it. -/
theorem mem_partActions {floor : Nat} {n : Node} :
    a ∈ partActions source floor n ↔
      a ∈ partRequests source floor n ∨ a ∈ eraseAll source (partEntered n) := by
  unfold partActions partRequests partEntered
  rw [eraseBelow_eq]
  cases n.kind with
  | constructorMember marks =>
    dsimp only
    split
    · rw [List.mem_append, List.mem_append, mem_eraseConstructor, or_assoc]
    · exact (or_iff_left List.not_mem_nil).symm
  | methodMember isPrivate marks =>
    dsimp only
    split
    · exact (or_iff_left List.not_mem_nil).symm
    · exact List.mem_append
  | fieldMember isPrivate marks =>
    dsimp only
    split
    · exact (or_iff_left List.not_mem_nil).symm
    · exact List.mem_append
  | _ => simp [eraseAll]

theorem mem_eraseParts {floor : Nat} :
    a ∈ eraseParts source floor nodes ↔
      a ∈ (partsBehind floor nodes).flatMap (fun part => partRequests source part.1 part.2) ∨
        a ∈ eraseAll source (nodes.flatMap partEntered) := by
  induction nodes generalizing floor with
  | nil => simp [eraseParts, partsBehind, eraseAll]
  | cons n rest ih =>
    rw [eraseParts_cons, partsBehind, List.flatMap_cons, List.flatMap_cons, eraseAll_append,
      List.mem_append, List.mem_append, List.mem_append, ih, mem_partActions]
    exact or_or_or_comm ..

/-- **The actions for a tree**: what is asked for at its root, and the actions for the nodes that
the walk goes on to.  The step. -/
theorem mem_erase {n : Node} :
    a ∈ erase source n ↔ a ∈ n.requests source ∨ ∃ m ∈ n.entered, a ∈ erase source m := by
  rw [← mem_eraseAll]
  obtain ⟨kind, span, children⟩ := n
  unfold erase Node.requests Node.entered
  dsimp only [Node.kind, Node.children, Node.span, Node.start]
  by_cases htype : isTypeOnly (.mk kind span children) = true
  · rw [if_pos htype, if_pos htype, if_pos htype]
    exact (or_iff_left List.not_mem_nil).symm
  · rw [if_neg htype, if_neg htype, if_neg htype]
    cases kind with
    | classBody isAbstract =>
      dsimp only
      rw [List.mem_append, List.mem_append, mem_eraseParts, or_assoc]
    | asType => exact List.mem_append.trans or_comm
    | satisfies => exact List.mem_append.trans or_comm
    | constAssertion => exact List.mem_append.trans or_comm
    | nonNull => exact List.mem_append.trans or_comm
    | _ => first | exact List.mem_append | exact (or_iff_left List.not_mem_nil).symm

mutual

theorem sizeOf_le_of_mem_subtrees {m : Node} : ∀ n : Node, m ∈ subtrees n → sizeOf m ≤ sizeOf n
  | .mk kind span children, h => by
    rcases mem_subtrees.mp h with rfl | h
    · exact Nat.le_refl _
    · have hlt := sizeOf_lt_of_mem_subtreesOf children h
      rw [Node.mk.sizeOf_spec]
      omega

theorem sizeOf_lt_of_mem_subtreesOf {m : Node} :
    ∀ nodes : List Node, m ∈ subtreesOf nodes → sizeOf m < sizeOf nodes
  | [], h => absurd h List.not_mem_nil
  | n :: rest, h => by
    rw [subtreesOf] at h
    rw [List.cons.sizeOf_spec]
    rcases List.mem_append.mp h with h | h
    · have hle := sizeOf_le_of_mem_subtrees n h
      omega
    · have hlt := sizeOf_lt_of_mem_subtreesOf rest h
      omega

end

/-- What a walk comes to in a part of a class is in it. -/
theorem partEntered_subset (n : Node) : partEntered n ⊆ subtrees n := by
  have hnone : [] ⊆ subtrees n := List.nil_subset _
  have hchildren : n.children ⊆ subtrees n := fun m hm =>
    mem_subtrees.mpr (Or.inr (mem_subtreesOf_of_mem hm))
  unfold partEntered
  split
  · exact hnone
  · split
    · intro m hm
      obtain ⟨p, hp, hm⟩ := List.mem_flatMap.mp hm
      have hp := mem_subtreesOf_of_mem (List.mem_filter.mp hp).1
      have hbelow := subtreesOf_children_of_mem_subtreesOf n.children hp
      exact mem_subtrees.mpr (Or.inr (hbelow (mem_subtreesOf_of_mem hm)))
    · exact hnone
  · split
    · exact hnone
    · exact hchildren
  · split
    · exact hnone
    · exact hchildren
  · exact hnone
  · exact hchildren
  · exact hchildren
  · exact hnone
  · exact List.cons_subset.mpr ⟨mem_subtrees.mpr (Or.inl rfl), hnone⟩

/-- What a walk goes on to is below the node that it comes from. -/
theorem entered_subset (n : Node) : n.entered ⊆ subtreesOf n.children := by
  have hnone : [] ⊆ subtreesOf n.children := List.nil_subset _
  unfold Node.entered
  split
  · exact hnone
  · split
    · exact hnone
    · exact hnone
    · exact hnone
    · exact hnone
    · exact hnone
    · exact hnone
    · intro m hm
      obtain ⟨p, hp, hm⟩ := List.mem_flatMap.mp hm
      exact mem_subtreesOf.mpr ⟨p, hp, partEntered_subset p hm⟩
    · exact fun m hm => mem_subtreesOf_of_mem hm

/-- What is below a node is smaller. -/
theorem sizeOf_lt_of_mem_below {n m : Node} (h : m ∈ subtreesOf n.children) :
    sizeOf m < sizeOf n := by
  have hlt := sizeOf_lt_of_mem_subtreesOf n.children h
  obtain ⟨kind, span, children⟩ := n
  rw [Node.mk.sizeOf_spec]
  exact Nat.lt_of_lt_of_le hlt (Nat.le_add_left ..)

/-- The nodes that a walk goes on to are smaller. -/
theorem sizeOf_lt_of_mem_entered {n m : Node} (h : m ∈ n.entered) : sizeOf m < sizeOf n :=
  sizeOf_lt_of_mem_below (entered_subset n h)

theorem Walked.mono {more : List Node} {m : Node} (h : Walked nodes m) (hsub : nodes ⊆ more) :
    Walked more m := by
  cases h with
  | here hn => exact .here (hsub hn)
  | inside hn h => exact .inside (hsub hn) h

/-- A walk stays below the trees that it begins with. -/
theorem Walked.mem_subtreesOf {m : Node} (h : Walked nodes m) : m ∈ subtreesOf nodes := by
  induction h with
  | here hn => exact mem_subtreesOf_of_mem hn
  | @inside nodes n m hn _ ih =>
    have hbelow := subtreesOf_children_of_mem_subtreesOf nodes (mem_subtreesOf_of_mem hn)
    exact hbelow (subtreesOf_subset (entered_subset n) ih)

/-- What is asked for in a tree is asked for at a node that the walk comes to. -/
theorem exists_walked_of_mem_erase (n : Node) (h : a ∈ erase source n) :
    ∃ m, Walked [n] m ∧ a ∈ m.requests source := by
  rcases mem_erase.mp h with h | ⟨m, hm, h⟩
  · exact ⟨n, .here (List.mem_singleton_self n), h⟩
  · have hsmaller := sizeOf_lt_of_mem_entered hm
    obtain ⟨k, hwalked, hk⟩ := exists_walked_of_mem_erase m h
    have hbelow : Walked n.entered k := hwalked.mono (List.cons_subset.mpr ⟨hm, List.nil_subset _⟩)
    exact ⟨k, .inside (List.mem_singleton_self n) hbelow, hk⟩
termination_by sizeOf n

/-- **The actions for some trees** are what is asked for at the nodes that the walk comes to.  The
run. -/
theorem mem_eraseAll_iff :
    a ∈ eraseAll source nodes ↔ ∃ m, Walked nodes m ∧ a ∈ m.requests source := by
  constructor
  · intro h
    obtain ⟨n, hn, h⟩ := mem_eraseAll.mp h
    obtain ⟨m, hwalked, hm⟩ := exists_walked_of_mem_erase n h
    exact ⟨m, hwalked.mono (List.cons_subset.mpr ⟨hn, List.nil_subset _⟩), hm⟩
  · rintro ⟨m, hwalked, hm⟩
    induction hwalked with
    | here hn => exact mem_eraseAll.mpr ⟨_, hn, mem_erase.mpr (Or.inl hm)⟩
    | @inside nodes n m hn _ ih =>
      obtain ⟨k, hk, h⟩ := mem_eraseAll.mp (ih hm)
      exact mem_eraseAll.mpr ⟨n, hn, mem_erase.mpr (Or.inr ⟨k, hk, h⟩)⟩

end SingleFile.Script
