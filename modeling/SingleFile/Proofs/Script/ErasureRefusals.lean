/-
  SingleFile.Proofs.Script.ErasureRefusals — WHAT A WALK REFUSES
  ──────────────────────────────────────────────────────────────
  Decorators and namespaces with values are refused where a walk comes to
  them.  A walk passes over declarations that are erased as a whole, where
  nothing has to be refused; but it passes over erased members of classes and
  over enums in the same way, and those may hold something.

  Main results:
    * `Holds` — what some nodes hold outside of erased declarations.
    * `Reached` — what a walk comes to; the two agree where nothing is hidden
      (`Holds.exists_reached`).
    * `Reached.walked` — a walk comes to what is reached.
    * `refuse_mem_eraseAll` — what is unsupported is refused there, and nothing
      else.
-/
import SingleFile.Proofs.Script.ErasureFrame
import SingleFile.Proofs.Script.ExportNames

namespace SingleFile.Script

open SingleFile.Text Grammar

/-! ## §1. What a program holds -/

/-- Whether a declaration is erased as a whole: it is ambient, a type or an overload. -/
def Node.isErased (n : Node) : Bool :=
  isTypeOnly n ||
    match n.kind, n.children with
    | .exportDefaultDecl, [d] => isDefaultType d
    | _, _ => false

/-- The parts of a node that may hold something; some nodes only hold names. -/
def Node.parts (n : Node) : List Node :=
  match n.kind with
  | .constructorMember _ => n.children.filter isConstructorPart
  | .emptyMember => []
  | .importDecl _ => []
  | .importEquals .. => []
  | .exportList _ => []
  | .exportAll .. => []
  | .namespaceExport => []
  | _ => n.children

/-- What some nodes hold outside of declarations that are erased. -/
inductive Holds : List Node → Node → Prop where
  | here {nodes : List Node} {n : Node} (hn : n ∈ nodes) : Holds nodes n
  | inside {nodes : List Node} {n m : Node} (hn : n ∈ nodes) (hstays : n.isErased = false)
    (h : Holds n.parts m) : Holds nodes m

/-- Whether a member of a class is erased as a whole. -/
def Kind.isErasedMember : Kind → Bool
  | .constructorMember marks => !marks.hasBody
  | .methodMember _ marks => marks.isAbstract || !marks.hasBody
  | .fieldMember isPrivate marks => !isPrivate && (marks.isDeclared || marks.isAbstract)
  | .indexSignature => true
  | _ => false

/-- Whether a part of something is a type, or names types. -/
def Kind.isType : Kind → Bool
  | .typeClause => true
  | .typeParameters => true
  | .typeArguments => true
  | .heritage => true
  | _ => false

/-- Whether a walk passes over what is in a node: a type, an erased member of a class, an enum, or
a construct that is refused itself. -/
def Kind.isPassedOver (kind : Kind) : Bool :=
  kind.isType || kind.isErasedMember ||
    match kind with
    | .enumDecl .. => true
    | .moduleDecl _ => true
    | .decorator => true
    | _ => false

/-- Whether nothing unsupported is hidden in a place that a walk passes over. -/
def HidesNothing (nodes : List Node) : Prop :=
  ∀ n, Holds nodes n → n.kind.isPassedOver = true → n.construct? = none →
    ∀ m, Holds n.parts m → m.construct? = none

/-- What a walk comes to. -/
inductive Reached : List Node → Node → Prop where
  | here {nodes : List Node} {n : Node} (hn : n ∈ nodes) : Reached nodes n
  | inside {nodes : List Node} {n m : Node} (hn : n ∈ nodes) (hstays : n.isErased = false)
    (hwalked : n.kind.isPassedOver = false) (h : Reached n.parts m) : Reached nodes m

/-- Where nothing is hidden, a walk comes to something unsupported if there is something. -/
theorem Holds.exists_reached {nodes : List Node} {n : Node} (h : Holds nodes n)
    (hclear : HidesNothing nodes) (hn : n.construct? ≠ none) :
    ∃ m, Reached nodes m ∧ m.construct? ≠ none := by
  induction h with
  | here hmem => exact ⟨_, .here hmem, hn⟩
  | @inside nodes outer n hmem hstays h ih =>
    by_cases houter : outer.construct? = none
    · cases hpassed : outer.kind.isPassedOver with
      | true => exact absurd (hclear outer (.here hmem) hpassed houter n h) hn
      | false =>
        have hbelow : HidesNothing outer.parts := fun m hm => hclear m (.inside hmem hstays hm)
        obtain ⟨m, hreached, hm⟩ := ih hbelow hn
        exact ⟨m, .inside hmem hstays hpassed hreached, hm⟩
    · exact ⟨outer, .here hmem, houter⟩

/-! ## §2. The walk -/

variable {source : List Char} {n : Node} {nodes : List Node} {a : Action}

/-- A part of a constructor is walked into as a whole. -/
theorem entered_of_isConstructorPart (h : isConstructorPart n = true) :
    n.entered = n.children ∧ n.construct? = none := by
  obtain ⟨kind, span, children⟩ := n
  unfold isConstructorPart at h
  unfold Node.entered Node.construct?
  split at h
  · next hkind =>
    obtain rfl : kind = .param := hkind
    exact ⟨rfl, rfl⟩
  · next hkind =>
    obtain rfl : kind = .paramProperty := hkind
    exact ⟨rfl, rfl⟩
  · next hkind =>
    obtain rfl : kind = .block := hkind
    exact ⟨rfl, rfl⟩
  · exact absurd h Bool.false_ne_true

theorem parts_subset (n : Node) : n.parts ⊆ n.children := by
  unfold Node.parts
  split
  · exact List.filter_subset_self _
  all_goals first | exact List.nil_subset _ | exact List.Subset.refl _

theorem partEntered_of_construct (h : n.construct? ≠ none) : partEntered n = [n] := by
  unfold Node.construct? at h
  unfold partEntered
  split at h
  · next hkind => rw [hkind]
  · next hkind => rw [hkind]
  · exact absurd rfl h

/-- What is walked to in what a node holds is walked to from the node. -/
theorem walked_entered {m : Node} (hstays : n.isErased = false)
    (hwalked : n.kind.isPassedOver = false) (hall : Walked n.parts m)
    (hparts : Walked (n.parts.flatMap partEntered) m) : Walked n.entered m := by
  have hvalue : isTypeOnly n = false := (Bool.or_eq_false_iff.mp hstays).1
  have hbelow : Walked n.children m := hall.mono (parts_subset n)
  unfold Node.entered
  rw [hvalue, if_neg Bool.false_ne_true]
  split
  · next hkind => rw [hkind] at hwalked; exact Bool.noConfusion hwalked
  · next hkind => rw [hkind] at hwalked; exact Bool.noConfusion hwalked
  · next hkind => rw [hkind] at hwalked; exact Bool.noConfusion hwalked
  · next hkind => rw [hkind] at hwalked; exact Bool.noConfusion hwalked
  · next hkind => rw [hkind] at hwalked; exact Bool.noConfusion hwalked
  · next hkind => rw [hkind] at hwalked; exact Bool.noConfusion hwalked
  · next hkind =>
    rw [Node.parts, hkind] at hparts
    exact hparts
  · exact hbelow

/-- What is walked to in what a part of a class holds is walked to from the class. -/
theorem walked_partEntered {m : Node} (hwalked : n.kind.isPassedOver = false)
    (hm : m.construct? ≠ none) (hall : Walked n.parts m) (hentered : Walked n.entered m) :
    Walked (partEntered n) m := by
  have hbelow : Walked n.children m := hall.mono (parts_subset n)
  unfold partEntered
  split
  · next hkind => rw [hkind] at hwalked; exact Bool.noConfusion hwalked
  · next marks hkind =>
    have hbody : marks.hasBody = true := by
      simpa [hkind, Kind.isPassedOver, Kind.isType, Kind.isErasedMember] using hwalked
    rw [if_pos hbody]
    -- A constructor is walked from its parameters and its body on, not from itself.
    rw [Node.parts, hkind] at hall
    cases hall with
    | here hmem =>
      have hpart := (List.mem_filter.mp hmem).2
      exact absurd (entered_of_isConstructorPart hpart).2 hm
    | inside hp h =>
      rw [(entered_of_isConstructorPart (List.mem_filter.mp hp).2).1] at h
      exact h.mono fun k hk => List.mem_flatMap.mpr ⟨_, hp, hk⟩
  · next isPrivate marks hkind =>
    have hstays : (marks.isAbstract || !marks.hasBody) = false := by
      simpa [hkind, Kind.isPassedOver, Kind.isType, Kind.isErasedMember] using hwalked
    rw [hstays]
    exact hbelow
  · next isPrivate marks hkind =>
    have hstays : (!isPrivate && (marks.isDeclared || marks.isAbstract)) = false := by
      simpa [hkind, Kind.isPassedOver, Kind.isType, Kind.isErasedMember] using hwalked
    rw [hstays]
    exact hbelow
  · next hkind => rw [hkind] at hwalked; exact Bool.noConfusion hwalked
  · exact hbelow
  · exact hbelow
  · next hkind =>
    rw [Node.parts, hkind] at hall
    exact hall
  · exact .inside (List.mem_singleton_self n) hentered

/-- **A walk comes to what is reached**, among the parts of a class and elsewhere. -/
theorem Reached.walked {m : Node} (h : Reached nodes m) (hm : m.construct? ≠ none) :
    Walked nodes m ∧ Walked (nodes.flatMap partEntered) m := by
  induction h with
  | @here nodes m hmem =>
    have hpart : m ∈ partEntered m := by
      rw [partEntered_of_construct hm]
      exact List.mem_singleton_self m
    exact ⟨.here hmem, .here (List.mem_flatMap.mpr ⟨m, hmem, hpart⟩)⟩
  | @inside nodes n m hmem hstays hwalked _ ih =>
    obtain ⟨hall, hparts⟩ := ih hm
    have hentered := walked_entered hstays hwalked hall hparts
    refine ⟨.inside hmem hentered, ?_⟩
    exact (walked_partEntered hwalked hm hall hentered).mono fun k hk =>
      List.mem_flatMap.mpr ⟨n, hmem, hk⟩

/-! ## §3. What a walk refuses -/

/-- Whether some actions refuse nothing. -/
def RefuseNothing (actions : List Action) : Prop :=
  ∀ construct offset, .refuse construct offset ∉ actions

theorem replaceEnum_refusesNothing : RefuseNothing (replaceEnum source n) := by
  unfold replaceEnum
  split
  · exact fun _ _ h => by simp at h
  · exact fun _ _ h => absurd h List.not_mem_nil

theorem constructorActions_refuseNothing {children : List Node} :
    RefuseNothing (constructorActions source children) := by
  intro construct offset h
  obtain ⟨body, -, h⟩ := List.mem_flatMap.mp h
  obtain ⟨offset, heq⟩ | ⟨offset, separator, -, heq⟩ := mem_insertAssignments h
  · exact absurd heq (by simp)
  · exact absurd heq (by simp)

/-- What is unsupported is refused where it stands, and nothing else. -/
theorem refuse_mem_requests {construct : Construct} {offset : Nat} :
    .refuse construct offset ∈ n.requests source ↔
      n.construct? = some construct ∧ n.start = offset := by
  constructor
  · intro h
    cases Requested.of_mem h with
    | refuse hconstruct => exact ⟨hconstruct, rfl⟩
    | assign _ _ _ ha => exact absurd ha (constructorActions_refuseNothing construct offset)
    | enum _ ha => exact absurd ha (replaceEnum_refusesNothing construct offset)
  · rintro ⟨h, rfl⟩
    unfold Node.construct? at h
    unfold Node.requests
    split at h
    · next hkind =>
      obtain rfl := Option.some.inj h
      obtain ⟨kind, span, children⟩ := n
      obtain rfl : kind = .decorator := hkind
      exact List.mem_singleton_self _
    · next hkind =>
      split at h
      · exact absurd h (by simp)
      · next hvalue =>
        obtain rfl := Option.some.inj h
        rw [if_neg hvalue, hkind]
        exact List.mem_singleton_self _
    · exact absurd h (by simp)

/-- **A walk refuses what is unsupported where it comes to it**, and nothing else. -/
theorem refuse_mem_eraseAll {construct : Construct} {offset : Nat} :
    .refuse construct offset ∈ eraseAll source nodes ↔
      ∃ m, Walked nodes m ∧ m.construct? = some construct ∧ m.start = offset := by
  rw [mem_eraseAll_iff]
  exact exists_congr fun m => and_congr_right fun _ => refuse_mem_requests

/-- Whether what some actions refuse is below some trees. -/
def RefuseBelow (nodes : List Node) (actions : List Action) : Prop :=
  ∀ construct offset, .refuse construct offset ∈ actions →
    ∃ m ∈ subtreesOf nodes, m.construct? = some construct ∧ m.start = offset

/-- **A walk refuses only what is unsupported**, where it stands. -/
theorem eraseAll_refuseBelow (source : List Char) (nodes : List Node) :
    RefuseBelow nodes (eraseAll source nodes) := by
  intro construct offset h
  obtain ⟨m, hwalked, hm⟩ := refuse_mem_eraseAll.mp h
  exact ⟨m, hwalked.mem_subtreesOf, hm⟩

/-! ## §4. Searching -/

theorem Holds.mem_subtreesOf (h : Holds nodes n) : n ∈ subtreesOf nodes := by
  induction h with
  | here hn => exact mem_subtreesOf_of_mem hn
  | @inside nodes outer n hn _ _ ih =>
    have hbelow := subtreesOf_children_of_mem_subtreesOf nodes (mem_subtreesOf_of_mem hn)
    exact hbelow (subtreesOf_mono (parts_subset outer) ih)

/-- What some nodes hold, found by going into them up to a depth. -/
def holdsWithin (test : Node → Bool) : Nat → List Node → Bool
  | 0, _ => false
  | depth + 1, nodes =>
    nodes.any fun n => test n || (!n.isErased && holdsWithin test depth n.parts)

theorem exists_holds_of_holdsWithin {test : Node → Bool} {depth : Nat} {nodes : List Node}
    (h : holdsWithin test depth nodes = true) : ∃ n, Holds nodes n ∧ test n = true := by
  induction depth generalizing nodes with
  | zero => exact absurd h Bool.false_ne_true
  | succ depth ih =>
    obtain ⟨n, hn, h⟩ := List.any_eq_true.mp h
    rcases Bool.or_eq_true_iff.mp h with h | h
    · exact ⟨n, .here hn, h⟩
    · obtain ⟨hstays, h⟩ := Bool.and_eq_true_iff.mp h
      obtain ⟨m, hm, htest⟩ := ih h
      exact ⟨m, .inside hn (by simpa using hstays) hm, htest⟩

theorem hidesNothing_of_subtrees (h : ∀ n ∈ subtreesOf nodes, n.kind.isPassedOver = true →
    n.construct? = none → ∀ m ∈ subtreesOf n.parts, m.construct? = none) : HidesNothing nodes :=
  fun n hn hpassed hplain m hm => h n hn.mem_subtreesOf hpassed hplain m hm.mem_subtreesOf

end SingleFile.Script
