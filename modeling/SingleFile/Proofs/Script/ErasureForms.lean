/-
  SingleFile.Proofs.Script.ErasureForms — WHAT AN ERASURE ASKS FOR
  ────────────────────────────────────────────────────────────────
  Taking types out of a tree looks at the text, blanks it and refuses
  constructs.  It writes only in two places: behind the call of a
  superclass's constructor, where fields declared by parameters get their
  values, and in place of an enum.

  Main results:
    * `Requested` — the five forms of what is asked for at a node.
    * `Requested.of_mem` — everything that is asked for has one of them.
    * `eraseAll_erases` — the same for the actions of a whole erasure.
-/
import SingleFile.Proofs.Script.Walk

namespace SingleFile.Script

open SingleFile.Text

/-! ## §1. Actions that write nothing -/

/-- An action that blanks, or only looks at the text. -/
inductive Action.IsQuiet : Action → Prop where
  | blank (start stop : Nat) : IsQuiet (.blank start stop)
  | look (offset : Nat) : IsQuiet (.look offset)

/-- Whether some actions only blank, and look at the text. -/
def Quiet (actions : List Action) : Prop := ∀ a ∈ actions, a.IsQuiet

namespace Quiet

variable {source : List Char} {actions others : List Action}

theorem nil : Quiet [] := fun _ ha => absurd ha List.not_mem_nil

theorem cons {a : Action} (h : a.IsQuiet) (h' : Quiet others) : Quiet (a :: others) :=
  List.forall_mem_cons.mpr ⟨h, h'⟩

theorem blank {start stop : Nat} : Quiet [.blank start stop] := cons (.blank ..) nil

theorem append (h : Quiet actions) (h' : Quiet others) : Quiet (actions ++ others) :=
  fun a ha => (List.mem_append.mp ha).elim (h a) (h' a)

theorem blankMark {offset : Nat} {mark : String} :
    Quiet (Script.blankMark source offset mark) := by
  unfold Script.blankMark
  refine cons (.look _) ?_
  split
  · exact blank
  · exact nil

theorem lookBetween {floor key : Nat} : Quiet (Script.lookBetween floor key) :=
  cons (.look _) (cons (.look _) nil)

theorem blankModifiers {floor key : Nat} :
    Quiet (Script.blankModifiers source floor key) := by
  refine append lookBetween fun a ha => ?_
  obtain ⟨m, -, rfl⟩ := List.mem_map.mp ha
  exact .blank m.start m.stop

theorem blankMember {floor key : Nat} {member : Span} :
    Quiet (Script.blankMember source floor key member) :=
  append lookBetween blank

theorem lookInFront {n : Node} : Quiet (Script.lookInFront n) := by
  intro a ha
  obtain ⟨word, -, rfl⟩ := List.mem_map.mp ha
  exact .look n.start

theorem blankDeclaration {n : Node} : Quiet (Script.blankDeclaration source n) :=
  append lookInFront blank

theorem blankMemberMarks {marks : MemberMarks} :
    Quiet (Script.blankMemberMarks source marks) := by
  unfold Script.blankMemberMarks
  refine append ?_ ?_
  · split
    · exact blankMark
    · exact nil
  · split
    · exact blankMark
    · exact nil

theorem classActions {isAbstract : Bool} {span : Span} {children : List Node} :
    Quiet (Script.classActions source isAbstract span children) := by
  unfold Script.classActions
  refine append ?_ ?_
  · split
    · unfold blankAbstract
      refine cons (.look _) ?_
      split
      · exact blank
      · exact nil
    · exact nil
  · unfold blankHeritage
    split
    · exact cons (.look _) blank
    · exact nil

theorem ownActions {kind : Kind} {span : Span} {children : List Node} :
    Quiet (Script.ownActions source kind span children) := by
  unfold Script.ownActions
  split
  · unfold blankReceiver
    split
    · split
      · split
        · exact blank
        · exact nil
      · exact nil
    · exact nil
  · exact blankMark
  · split
    · exact blankMark
    · exact nil
  · exact nil

theorem blankBehind {children : List Node} {span : Span} :
    Quiet (Script.blankBehind children span) := by
  unfold Script.blankBehind
  split
  · exact blank
  · exact nil

theorem blankInFront {children : List Node} {span : Span} :
    Quiet (Script.blankInFront children span) := by
  unfold Script.blankInFront
  split
  · exact blank
  · exact nil

theorem parameterRequests {floor : Nat} {nodes : List Node} :
    Quiet (Script.parameterRequests source floor nodes) := by
  induction nodes generalizing floor with
  | nil => exact nil
  | cons n rest ih =>
    unfold Script.parameterRequests
    split
    · exact ih
    · exact blankModifiers.append ih
    · exact ih

end Quiet

/-! ## §2. What is asked for at a node -/

/-- Declared fields get their values by one insertion, behind the call of a superclass's constructor
if the body has one; whether a semicolon is missing there, the text tells. -/
theorem mem_insertAssignments {source : List Char} {text : String} {body : Node} {a : Action}
    (h : a ∈ insertAssignments source text body) :
    (∃ offset, a = .look offset) ∨
      ∃ offset separator, (separator = "" ∨ separator = ";") ∧
        a = .insert offset (separator ++ text) := by
  unfold insertAssignments at h
  split at h
  · exact absurd h List.not_mem_nil
  · split at h
    · rcases List.mem_cons.mp h with rfl | h
      · exact .inl ⟨_, rfl⟩
      · refine .inr ⟨_, _, ?_, List.mem_singleton.mp h⟩
        split
        · exact .inl rfl
        · exact .inr rfl
    · refine .inr ⟨body.start + 1, "", .inl rfl, ?_⟩
      rw [String.empty_append]
      exact List.mem_singleton.mp h

/-- The construct that a node is, if there is no rewriting it: a decorator, or a namespace that has
values. -/
def Node.construct? (n : Node) : Option Construct :=
  match n.kind with
  | .decorator => some .decorator
  | .moduleDecl _ => if isTypeOnly n then none else some .namespace
  | _ => none

/-- **What is asked for at a node**: text is looked at and blanked, and a construct that there is no
rewriting is refused; the fields that a constructor declares get their values, and an enum is
replaced. -/
inductive Requested (source : List Char) (n : Node) : Action → Prop where
  | blank (start stop : Nat) : Requested source n (.blank start stop)
  | look (offset : Nat) : Requested source n (.look offset)
  | refuse {construct : Construct} (h : n.construct? = some construct) :
    Requested source n (.refuse construct n.start)
  | assign {member : Node} {marks : MemberMarks} {a : Action} (hvalue : isTypeOnly n = false)
    (hmember : member ∈ n.children) (hkind : member.kind = .constructorMember marks)
    (ha : a ∈ constructorActions source member.children) : Requested source n a
  | enum {a : Action} (hvalue : isTypeOnly n = false) (ha : a ∈ replaceEnum source n) :
    Requested source n a

variable {source : List Char} {n : Node} {nodes : List Node} {a : Action}

theorem Quiet.requested {actions : List Action} (h : Quiet actions) (ha : a ∈ actions) :
    Requested source n a := by
  cases h a ha with
  | blank start stop => exact .blank start stop
  | look offset => exact .look offset

theorem mem_of_mem_partsBehind {part : Nat × Node} {floor : Nat}
    (h : part ∈ partsBehind floor nodes) : part.2 ∈ nodes := by
  induction nodes generalizing floor with
  | nil => exact absurd h List.not_mem_nil
  | cons n rest ih =>
    rcases List.mem_cons.mp h with rfl | h
    · exact List.mem_cons_self ..
    · exact List.mem_cons_of_mem _ (ih h)

/-- A part of a class asks for looks and blanks, and a constructor besides for the values of its
fields. -/
theorem requested_of_mem_partRequests {member : Node} {floor : Nat}
    (hvalue : isTypeOnly n = false) (hmember : member ∈ n.children)
    (ha : a ∈ partRequests source floor member) : Requested source n a := by
  have hkey (marks : MemberMarks) : Quiet
      (blankModifiers source floor marks.key.start ++ blankMemberMarks source marks) :=
    Quiet.blankModifiers.append .blankMemberMarks
  unfold partRequests at ha
  split at ha
  · next hkind =>
    split at ha
    · rcases List.mem_append.mp ha with ha | ha
      · exact Quiet.blankModifiers.requested ha
      · rcases List.mem_append.mp ha with ha | ha
        · exact Quiet.parameterRequests.requested ha
        · exact .assign hvalue hmember hkind ha
    · exact Quiet.blankMember.requested ha
  · split at ha
    · exact Quiet.blankMember.requested ha
    · exact (hkey _).requested ha
  · split at ha
    · exact Quiet.blankMember.requested ha
    · exact (hkey _).requested ha
  · exact Quiet.blankMember.requested ha
  · exact absurd ha List.not_mem_nil

/-- **Everything that is asked for at a node has one of the forms.** -/
theorem Requested.of_mem (ha : a ∈ n.requests source) : Requested source n a := by
  unfold Node.requests at ha
  split at ha
  · exact Quiet.blankDeclaration.requested ha
  · next hvalue =>
    have hvalue : isTypeOnly n = false := by simpa using hvalue
    -- One case for each kind the walk knows; the last one stands for all others.
    split at ha
    · rcases List.mem_append.mp ha with ha | ha
      · exact Quiet.lookInFront.requested ha
      · exact .enum hvalue ha
    · next hkind =>
      obtain rfl := List.mem_singleton.mp ha
      refine .refuse ?_
      rw [Node.construct?, hkind]
      exact if_neg (Bool.eq_false_iff.mp hvalue)
    · next hkind =>
      obtain rfl := List.mem_singleton.mp ha
      refine .refuse ?_
      rw [Node.construct?, hkind]
    · exact Quiet.blank.requested ha
    · exact Quiet.blank.requested ha
    · exact Quiet.blank.requested ha
    · exact Quiet.blankBehind.requested ha
    · exact Quiet.blankBehind.requested ha
    · exact Quiet.blankBehind.requested ha
    · exact Quiet.blankBehind.requested ha
    · exact Quiet.blankInFront.requested ha
    · rcases List.mem_append.mp ha with ha | ha
      · exact Quiet.classActions.requested ha
      · obtain ⟨part, hpart, ha⟩ := List.mem_flatMap.mp ha
        exact requested_of_mem_partRequests hvalue (mem_of_mem_partsBehind hpart) ha
    · exact Quiet.ownActions.requested ha

/-! ## §3. Forms of actions -/

/-- **What an erasure asks for**: it looks, blanks and refuses; it gives declared fields their
values and replaces enums. -/
inductive Erases (source : List Char) (nodes : List Node) : Action → Prop where
  | blank (start stop : Nat) : Erases source nodes (.blank start stop)
  | look (offset : Nat) : Erases source nodes (.look offset)
  | refuse (construct : Construct) (offset : Nat) : Erases source nodes (.refuse construct offset)
  | assign {n : Node} {a : Action} (hn : n ∈ subtreesOf nodes)
    (ha : a ∈ constructorActions source n.children) : Erases source nodes a
  | enum {n : Node} {a : Action} (hn : n ∈ subtreesOf nodes) (ha : a ∈ replaceEnum source n) :
    Erases source nodes a

/-- **Every action of an erasure has one of the forms.** -/
theorem eraseAll_erases (h : a ∈ eraseAll source nodes) : Erases source nodes a := by
  obtain ⟨m, hwalked, ha⟩ := mem_eraseAll_iff.mp h
  have hm := hwalked.mem_subtreesOf
  cases Requested.of_mem ha with
  | blank start stop => exact .blank start stop
  | look offset => exact .look offset
  | refuse hconstruct => exact .refuse _ _
  | assign _ hmember _ ha =>
    have hbelow := subtreesOf_children_of_mem_subtreesOf nodes hm
    exact .assign (hbelow (mem_subtreesOf_of_mem hmember)) ha
  | enum _ ha => exact .enum hm ha

end SingleFile.Script
