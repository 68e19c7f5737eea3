/-
  SingleFile.Proofs.Script.ValueUse — WHERE A NAME IS A VALUE
  ───────────────────────────────────────────────────────────
  A name is used as a value where an expression, a pattern or a list of the
  module's own exports mentions it.  What is erased has no values in it, and
  neither have labels, the names of enum members and those of other modules'
  lists.  The names that are counted as values are more: those that only
  such places mention are among them.

  Main results:
    * `UsedAsValue`, `MentionedElsewhere` — the two kinds of places.
    * `mem_valueNamesOf_iff_mentioned` — a name is counted where it stands in
      one of them.
    * `usesValueFrom_iff` — being used as a value is decided by a walk.
-/
import SingleFile.Proofs.Script.ErasureRefusals

namespace SingleFile.Script

/-! ## §1. Places of names -/

/-- The names that a node itself uses as values. -/
def usedNames (n : Node) : List String :=
  match n.kind with
  | .ident name => [name]
  | .binding name _ => [name]
  | _ => listedNames n

/-- Whether nothing that stands in a node is a value: the node is erased, or names types or a
global. -/
def Node.hasNoValue (n : Node) : Bool :=
  n.isErased || n.kind.isType || n.kind.isErasedMember ||
    match n.kind with
    | .importEquals _ _ typeOnly _ _ => typeOnly
    | .namespaceExport => true
    | _ => false

/-- How many parts of a node, its first ones, are no values and hold none: all of them, or a name
that is not a variable's. -/
def Node.idleCount (n : Node) : Nat :=
  if n.hasNoValue then n.children.length
  else match n.kind with
    -- A member is a property of its enum, and a label is no variable.
    | .enumMember (.word _) => 1
    | .labeled => 1
    | .breakStmt => 1
    | .continueStmt => 1
    | _ => 0

/-- The parts of a node that are no values and hold none. -/
def Node.idleParts (n : Node) : List Node := n.children.take n.idleCount

/-- The parts of a node that are or hold values. -/
def Node.valueParts (n : Node) : List Node := n.children.drop n.idleCount

/-- Whether a name is used as a value.  What it stands for there is not asked: a variable of its own
that a function has counts as well. -/
inductive UsedAsValue (name : String) : List Node → Prop where
  | here {nodes : List Node} {n : Node} (hn : n ∈ nodes) (hname : name ∈ usedNames n) :
    UsedAsValue name nodes
  | inside {nodes : List Node} {n : Node} (hn : n ∈ nodes) (h : UsedAsValue name n.valueParts) :
    UsedAsValue name nodes

/-- Whether a name is mentioned where it is not used as a value: in a list that exports types or
another module's names, or in something that holds no values. -/
inductive MentionedElsewhere (name : String) : List Node → Prop where
  | here {nodes : List Node} {n : Node} (hn : n ∈ nodes) (hname : name ∈ ownNames n.kind)
    (hother : name ∉ usedNames n) : MentionedElsewhere name nodes
  | idle {nodes : List Node} {n m : Node} (hn : n ∈ nodes) (hm : m ∈ subtreesOf n.idleParts)
    (hname : name ∈ ownNames m.kind) : MentionedElsewhere name nodes
  | inside {nodes : List Node} {n : Node} (hn : n ∈ nodes)
    (h : MentionedElsewhere name n.valueParts) : MentionedElsewhere name nodes

section

variable {name : String} {n : Node} {nodes more : List Node}

theorem UsedAsValue.mono (hsub : nodes ⊆ more) (h : UsedAsValue name nodes) :
    UsedAsValue name more := by
  cases h with
  | here hn hname => exact .here (hsub hn) hname
  | inside hn h => exact .inside (hsub hn) h

theorem MentionedElsewhere.mono (hsub : nodes ⊆ more) (h : MentionedElsewhere name nodes) :
    MentionedElsewhere name more := by
  cases h with
  | here hn hname hother => exact .here (hsub hn) hname hother
  | idle hn hm hname => exact .idle (hsub hn) hm hname
  | inside hn h => exact .inside (hsub hn) h

/-- What a node uses is among the names that it mentions. -/
theorem usedNames_subset (n : Node) : usedNames n ⊆ ownNames n.kind := by
  intro name hname
  unfold usedNames at hname
  split at hname
  · next hkind => rwa [hkind]
  · next hkind => rwa [hkind]
  · unfold listedNames at hname
    split at hname
    · next entries hkind =>
      rw [hkind]
      obtain ⟨entry, hentry, hown⟩ := List.mem_filterMap.mp hname
      refine List.mem_flatMap.mpr ⟨entry, List.mem_of_mem_filter hentry, ?_⟩
      cases entry with
      | named span entity exported typeOnly =>
        exact List.mem_append_left _ (Option.mem_toList.mpr hown)
      | wholeModule span exported => exact absurd hown (by simp [ExportItem.ownName?])
    · exact absurd hname List.not_mem_nil

theorem idleParts_append_valueParts (n : Node) : n.idleParts ++ n.valueParts = n.children :=
  List.take_append_drop ..

/-! ## §2. Names that are counted -/

theorem mem_valueNamesOf : name ∈ valueNamesOf nodes ↔ ∃ n ∈ nodes, name ∈ valueNames n := by
  induction nodes with
  | nil => simp [valueNamesOf]
  | cons n rest ih => simp [valueNamesOf, ih]

theorem mem_valueNames : name ∈ valueNames n ↔ name ∈ ownNames n.kind ∨
    name ∈ valueNamesOf n.children := by
  cases n with
  | mk kind span children => rw [valueNames, List.mem_append]; rfl

mutual

theorem exists_subtree_of_mem_valueNames {name : String} :
    ∀ n : Node, name ∈ valueNames n → ∃ m ∈ subtrees n, name ∈ ownNames m.kind
  | .mk kind span children, h => by
    rw [subtrees]
    rcases mem_valueNames.mp h with h | h
    · exact ⟨_, List.mem_cons_self .., h⟩
    · obtain ⟨m, hm, hname⟩ := exists_subtree_of_mem_valueNamesOf children h
      exact ⟨m, List.mem_cons_of_mem _ hm, hname⟩

theorem exists_subtree_of_mem_valueNamesOf {name : String} :
    ∀ nodes : List Node, name ∈ valueNamesOf nodes →
      ∃ m ∈ subtreesOf nodes, name ∈ ownNames m.kind
  | [], h => absurd h List.not_mem_nil
  | n :: rest, h => by
    rw [valueNamesOf] at h
    rw [subtreesOf]
    rcases List.mem_append.mp h with h | h
    · obtain ⟨m, hm, hname⟩ := exists_subtree_of_mem_valueNames n h
      exact ⟨m, List.mem_append_left _ hm, hname⟩
    · obtain ⟨m, hm, hname⟩ := exists_subtree_of_mem_valueNamesOf rest h
      exact ⟨m, List.mem_append_right _ hm, hname⟩

end

mutual

theorem mem_valueNames_of_subtree {name : String} {m : Node} (hname : name ∈ ownNames m.kind) :
    ∀ n : Node, m ∈ subtrees n → name ∈ valueNames n
  | .mk kind span children, h => by
    rw [subtrees] at h
    refine mem_valueNames.mpr ?_
    rcases List.mem_cons.mp h with rfl | h
    · exact Or.inl hname
    · exact Or.inr (mem_valueNamesOf_of_subtree hname children h)

theorem mem_valueNamesOf_of_subtree {name : String} {m : Node} (hname : name ∈ ownNames m.kind) :
    ∀ nodes : List Node, m ∈ subtreesOf nodes → name ∈ valueNamesOf nodes
  | [], h => absurd h List.not_mem_nil
  | n :: rest, h => by
    rw [subtreesOf] at h
    rw [valueNamesOf]
    rcases List.mem_append.mp h with h | h
    · exact List.mem_append_left _ (mem_valueNames_of_subtree hname n h)
    · exact List.mem_append_right _ (mem_valueNamesOf_of_subtree hname rest h)

end

/-- A name that a part of a node mentions is one that the node mentions. -/
theorem mem_valueNamesOf_of_parts {parts : List Node} (hn : n ∈ nodes) (hparts : parts ⊆ n.children)
    (h : name ∈ valueNamesOf parts) : name ∈ valueNamesOf nodes := by
  obtain ⟨m, hm, hname⟩ := mem_valueNamesOf.mp h
  exact mem_valueNamesOf.mpr
    ⟨n, hn, mem_valueNames.mpr (Or.inr (mem_valueNamesOf.mpr ⟨m, hparts hm, hname⟩))⟩

theorem idleParts_subset (n : Node) : n.idleParts ⊆ n.children := List.take_subset ..

theorem valueParts_subset (n : Node) : n.valueParts ⊆ n.children := List.drop_subset ..

theorem UsedAsValue.mem_valueNamesOf (h : UsedAsValue name nodes) : name ∈ valueNamesOf nodes := by
  induction h with
  | here hn hname =>
    exact Script.mem_valueNamesOf.mpr
      ⟨_, hn, mem_valueNames.mpr (Or.inl (usedNames_subset _ hname))⟩
  | inside hn _ ih => exact mem_valueNamesOf_of_parts hn (valueParts_subset _) ih

theorem MentionedElsewhere.mem_valueNamesOf (h : MentionedElsewhere name nodes) :
    name ∈ valueNamesOf nodes := by
  induction h with
  | here hn hname => exact Script.mem_valueNamesOf.mpr ⟨_, hn, mem_valueNames.mpr (Or.inl hname)⟩
  | idle hn hm hname =>
    exact mem_valueNamesOf_of_parts hn (idleParts_subset _) (mem_valueNamesOf_of_subtree hname _ hm)
  | inside hn _ ih => exact mem_valueNamesOf_of_parts hn (valueParts_subset _) ih

mutual

/-- The name of a tree stands in a place of one of both kinds. -/
theorem mentioned_of_mem_valueNames {name : String} :
    ∀ n : Node, name ∈ valueNames n → UsedAsValue name [n] ∨ MentionedElsewhere name [n]
  | .mk kind span children, h => by
    have hself : Node.mk kind span children ∈ [Node.mk kind span children] :=
      List.mem_singleton_self _
    rcases mem_valueNames.mp h with hown | hbelow
    · by_cases hused : name ∈ usedNames (.mk kind span children)
      · exact Or.inl (.here hself hused)
      · exact Or.inr (.here hself hown hused)
    · obtain ⟨m, hm, hname, hmentioned⟩ := exists_mentioned_of_mem_valueNamesOf children hbelow
      have hparts : m ∈ (Node.mk kind span children).children := hm
      -- In an idle part nothing is a value; what the others mention is decided below the node.
      rw [← idleParts_append_valueParts] at hparts
      rcases List.mem_append.mp hparts with hidle | hvalue
      · obtain ⟨k, hk, hname⟩ := exists_subtree_of_mem_valueNamesOf (Node.idleParts _)
          (mem_valueNamesOf.mpr ⟨m, hidle, hname⟩)
        exact Or.inr (.idle hself hk hname)
      · have hsub := List.cons_subset.mpr ⟨hvalue, List.nil_subset _⟩
        exact hmentioned.imp (fun h => .inside hself (h.mono hsub))
          fun h => .inside hself (h.mono hsub)

theorem exists_mentioned_of_mem_valueNamesOf {name : String} :
    ∀ nodes : List Node, name ∈ valueNamesOf nodes → ∃ n ∈ nodes, name ∈ valueNames n ∧
      (UsedAsValue name [n] ∨ MentionedElsewhere name [n])
  | [], h => absurd h List.not_mem_nil
  | n :: rest, h => by
    rw [valueNamesOf] at h
    rcases List.mem_append.mp h with h | h
    · exact ⟨n, List.mem_cons_self .., h, mentioned_of_mem_valueNames n h⟩
    · obtain ⟨m, hm, hmentioned⟩ := exists_mentioned_of_mem_valueNamesOf rest h
      exact ⟨m, List.mem_cons_of_mem _ hm, hmentioned⟩

end

/-- **A name is counted where it is used as a value, and where it is mentioned elsewhere.** -/
theorem mem_valueNamesOf_iff_mentioned :
    name ∈ valueNamesOf nodes ↔ UsedAsValue name nodes ∨ MentionedElsewhere name nodes := by
  constructor
  · intro h
    obtain ⟨n, hn, -, hmentioned⟩ := exists_mentioned_of_mem_valueNamesOf nodes h
    have hsub := List.cons_subset.mpr ⟨hn, List.nil_subset _⟩
    exact hmentioned.imp (.mono hsub) (.mono hsub)
  · rintro (h | h)
    · exact h.mem_valueNamesOf
    · exact h.mem_valueNamesOf

end

/-! ## §3. Deciding -/

mutual

/-- Whether a tree uses a name as a value. -/
def usesValue (name : String) : Node → Bool
  | .mk kind span children =>
    let n := Node.mk kind span children
    (usedNames n).contains name || usesValueFrom name n.idleCount children

/-- Whether one of some trees behind the first ones uses a name as a value. -/
def usesValueFrom (name : String) : Nat → List Node → Bool
  | _, [] => false
  | 0, n :: rest => usesValue name n || usesValueFrom name 0 rest
  | count + 1, _ :: rest => usesValueFrom name count rest

end

theorem usedAsValue_nil {name : String} : ¬UsedAsValue name [] := by
  rintro (⟨hn, -⟩ | ⟨hn, -⟩)
  · exact List.not_mem_nil hn
  · exact List.not_mem_nil hn

theorem usedAsValue_cons {name : String} {n : Node} {rest : List Node} :
    UsedAsValue name (n :: rest) ↔ (name ∈ usedNames n ∨ UsedAsValue name n.valueParts) ∨
      UsedAsValue name rest := by
  constructor
  · rintro (⟨hn, hname⟩ | ⟨hn, h⟩)
    · rcases List.mem_cons.mp hn with rfl | hn
      · exact Or.inl (Or.inl hname)
      · exact Or.inr (.here hn hname)
    · rcases List.mem_cons.mp hn with rfl | hn
      · exact Or.inl (Or.inr h)
      · exact Or.inr (.inside hn h)
  · rintro ((hname | h) | h)
    · exact .here (List.mem_cons_self ..) hname
    · exact .inside (List.mem_cons_self ..) h
    · exact h.mono (List.subset_cons_self ..)

mutual

theorem usesValue_iff {name : String} : ∀ n : Node,
    usesValue name n = true ↔ name ∈ usedNames n ∨ UsedAsValue name n.valueParts
  | .mk kind span children => by
    -- The walk passes over as many parts as the node has idle ones.
    rw [usesValue, Bool.or_eq_true, List.contains_iff_mem, usesValueFrom_iff]
    rfl

theorem usesValueFrom_iff {name : String} : ∀ (count : Nat) (nodes : List Node),
    usesValueFrom name count nodes = true ↔ UsedAsValue name (nodes.drop count)
  | count, [] => by
    rw [usesValueFrom, List.drop_nil]
    exact iff_of_false Bool.false_ne_true usedAsValue_nil
  | 0, n :: rest => by
    rw [usesValueFrom, Bool.or_eq_true, usesValue_iff, usesValueFrom_iff, List.drop_zero,
      List.drop_zero, usedAsValue_cons]
  | count + 1, n :: rest => by
    rw [usesValueFrom, usesValueFrom_iff, List.drop_succ_cons]

end

instance (name : String) (nodes : List Node) : Decidable (UsedAsValue name nodes) :=
  decidable_of_iff (usesValueFrom name 0 nodes = true) (usesValueFrom_iff 0 nodes)

end SingleFile.Script
