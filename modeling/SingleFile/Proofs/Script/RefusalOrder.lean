/-
  SingleFile.Proofs.Script.RefusalOrder — WHAT IS REFUSED FIRST
  ─────────────────────────────────────────────────────────────
  A failure names the first construct that is refused.  Which one that is
  follows from the tree alone: the text decides what is blanked on the way,
  but not where a walk goes, nor in which order.

  Main results:
    * `refusalsOf_erase` — a tree is refused what its root is, and then what
      the nodes are that the walk goes on to.  The step.
    * `refusalsOf_eraseAll_congr` — in any two texts a walk refuses the same
      constructs in the same order.  The run.
-/
import SingleFile.Proofs.Script.ErasureRefusals

namespace SingleFile.Script

open SingleFile.Text

/-! ## §1. Refusals in order -/

/-- What some actions refuse, in order. -/
def refusalsOf (actions : List Action) : List (Construct × Nat) :=
  actions.filterMap fun a =>
    match a with
    | .refuse construct offset => some (construct, offset)
    | _ => none

section

variable {actions others : List Action} {construct : Construct} {offset : Nat}

theorem refusalsOf_append (actions others : List Action) :
    refusalsOf (actions ++ others) = refusalsOf actions ++ refusalsOf others :=
  List.filterMap_append ..

theorem mem_refusalsOf : (construct, offset) ∈ refusalsOf actions ↔
    .refuse construct offset ∈ actions := by
  rw [refusalsOf, List.mem_filterMap]
  constructor
  · rintro ⟨a, ha, heq⟩
    cases a with
    | refuse c o =>
      obtain ⟨rfl, rfl⟩ := Prod.mk.inj (Option.some.inj heq)
      exact ha
    | _ => exact absurd heq (by simp)
  · exact fun h => ⟨_, h, rfl⟩

theorem RefuseNothing.refusalsOf (h : RefuseNothing actions) : refusalsOf actions = [] := by
  rw [List.eq_nil_iff_forall_not_mem]
  rintro ⟨construct, offset⟩ hmem
  exact h construct offset (mem_refusalsOf.mp hmem)

theorem Quiet.refusalsOf (h : Quiet actions) : refusalsOf actions = [] := by
  refine RefuseNothing.refusalsOf fun construct offset hmem => ?_
  cases h _ hmem

/-- What is refused first is the first of all refusals. -/
theorem firstRefusal?_eq (actions : List Action) :
    firstRefusal? actions = (refusalsOf actions).head? := by
  induction actions with
  | nil => rfl
  | cons a rest ih =>
    cases a with
    | refuse construct offset => rfl
    | _ => exact ih

end

/-! ## §2. The order of a walk -/

variable {source other : List Char} {nodes : List Node}

theorem refusalsOf_eraseParameters (floor : Nat) :
    refusalsOf (eraseParameters source floor nodes)
      = refusalsOf (eraseAll source ((nodes.filter isConstructorPart).flatMap Node.children)) := by
  induction nodes generalizing floor with
  | nil => rfl
  | cons n rest ih =>
    rw [eraseParameters, List.filter_cons, isConstructorPart]
    cases n.kind with
    | param =>
      dsimp only
      rw [if_pos rfl, List.flatMap_cons, eraseAll_append, refusalsOf_append, refusalsOf_append, ih,
        eraseBelow_eq]
    | paramProperty =>
      dsimp only
      rw [if_pos rfl, List.flatMap_cons, eraseAll_append, refusalsOf_append, refusalsOf_append,
        refusalsOf_append, ih, eraseBelow_eq, Quiet.blankModifiers.refusalsOf, List.nil_append]
    | block =>
      dsimp only
      rw [if_pos rfl, List.flatMap_cons, eraseAll_append, refusalsOf_append, refusalsOf_append, ih,
        eraseBelow_eq]
    | _ => exact ih floor

theorem refusalsOf_eraseConstructor {marks : MemberMarks} {n : Node} :
    refusalsOf (eraseConstructor source marks n)
      = refusalsOf (eraseAll source ((n.children.filter isConstructorPart).flatMap
        Node.children)) := by
  obtain ⟨kind, span, children⟩ := n
  rw [eraseConstructor, refusalsOf_append, refusalsOf_eraseParameters,
    constructorActions_refuseNothing.refusalsOf, List.append_nil]
  rfl

/-- A part of a class is refused what the nodes are that the walk comes to in it. -/
theorem refusalsOf_partActions (floor : Nat) (n : Node) :
    refusalsOf (partActions source floor n) = refusalsOf (eraseAll source (partEntered n)) := by
  have hmarks (marks : MemberMarks) : refusalsOf (blankModifiers source floor marks.key.start
      ++ blankMemberMarks source marks) = [] :=
    (Quiet.blankModifiers.append .blankMemberMarks).refusalsOf
  unfold partActions partEntered
  rw [eraseBelow_eq]
  cases n.kind with
  | constructorMember marks =>
    dsimp only
    split
    · rw [refusalsOf_append, Quiet.blankModifiers.refusalsOf, List.nil_append,
        refusalsOf_eraseConstructor]
    · exact Quiet.blankMember.refusalsOf
  | methodMember isPrivate marks =>
    dsimp only
    split
    · exact Quiet.blankMember.refusalsOf
    · rw [refusalsOf_append, hmarks, List.nil_append]
  | fieldMember isPrivate marks =>
    dsimp only
    split
    · exact Quiet.blankMember.refusalsOf
    · rw [refusalsOf_append, hmarks, List.nil_append]
  | indexSignature => exact Quiet.blankMember.refusalsOf
  | _ => simp [eraseAll]

theorem refusalsOf_eraseParts (floor : Nat) :
    refusalsOf (eraseParts source floor nodes)
      = refusalsOf (eraseAll source (nodes.flatMap partEntered)) := by
  induction nodes generalizing floor with
  | nil => rfl
  | cons n rest ih =>
    rw [eraseParts_cons, List.flatMap_cons, eraseAll_append, refusalsOf_append, refusalsOf_append,
      ih, refusalsOf_partActions]

/-- **What a tree is refused**: what its root is, and then what the nodes are that the walk goes on
to.  The step. -/
theorem refusalsOf_erase (n : Node) :
    refusalsOf (erase source n)
      = (n.construct?.map fun construct => (construct, n.start)).toList
        ++ refusalsOf (eraseAll source n.entered) := by
  obtain ⟨kind, span, children⟩ := n
  unfold erase Node.construct? Node.entered
  dsimp only [Node.kind, Node.children, Node.span, Node.start]
  have hown : refusalsOf (ownActions source kind span children) = [] :=
    Quiet.ownActions.refusalsOf
  have hbehind : refusalsOf (blankBehind children span) = [] := Quiet.blankBehind.refusalsOf
  cases htype : isTypeOnly (.mk kind span children) with
  | true =>
    rw [if_pos rfl, if_pos rfl, Quiet.blankDeclaration.refusalsOf]
    cases kind with
    | decorator => exact absurd htype (by simp [isTypeOnly])
    | _ => rfl
  | false =>
    rw [if_neg Bool.false_ne_true, if_neg Bool.false_ne_true]
    cases kind with
    | enumDecl name isDeclared isConst =>
      rw [refusalsOf_append, Quiet.lookInFront.refusalsOf, replaceEnum_refusesNothing.refusalsOf]
      rfl
    | moduleDecl isDeclared => rfl
    | decorator => rfl
    | asType => rw [refusalsOf_append, hbehind, List.append_nil]; rfl
    | satisfies => rw [refusalsOf_append, hbehind, List.append_nil]; rfl
    | constAssertion => rw [refusalsOf_append, hbehind, List.append_nil]; rfl
    | nonNull => rw [refusalsOf_append, hbehind, List.append_nil]; rfl
    | typeAssertion => rw [refusalsOf_append, Quiet.blankInFront.refusalsOf]; rfl
    | classBody isAbstract =>
      rw [refusalsOf_append, Quiet.classActions.refusalsOf, refusalsOf_eraseParts]
      rfl
    | _ => first | rfl | (rw [refusalsOf_append, hown]; rfl)

theorem refusalsOf_eraseAll_of_forall
    (h : ∀ n ∈ nodes, refusalsOf (erase source n) = refusalsOf (erase other n)) :
    refusalsOf (eraseAll source nodes) = refusalsOf (eraseAll other nodes) := by
  induction nodes with
  | nil => rfl
  | cons n rest ih =>
    obtain ⟨hn, hrest⟩ := List.forall_mem_cons.mp h
    rw [eraseAll, eraseAll, refusalsOf_append, refusalsOf_append, hn, ih hrest]

theorem refusalsOf_erase_congr (source other : List Char) (n : Node) :
    refusalsOf (erase source n) = refusalsOf (erase other n) := by
  rw [refusalsOf_erase, refusalsOf_erase]
  congr 1
  refine refusalsOf_eraseAll_of_forall fun m hm => ?_
  have hsmaller := sizeOf_lt_of_mem_entered hm
  exact refusalsOf_erase_congr source other m
termination_by sizeOf n

/-- **In any two texts a walk refuses the same**, in the same order.  The run. -/
theorem refusalsOf_eraseAll_congr (source other : List Char) (nodes : List Node) :
    refusalsOf (eraseAll source nodes) = refusalsOf (eraseAll other nodes) :=
  refusalsOf_eraseAll_of_forall fun n _ => refusalsOf_erase_congr source other n

end SingleFile.Script
