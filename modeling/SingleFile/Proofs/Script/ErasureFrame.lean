/-
  SingleFile.Proofs.Script.ErasureFrame — WHAT AN ERASURE LEAVES ALONE
  ────────────────────────────────────────────────────────────────────
  Where a module's syntax is preserved and nothing in it means anything at run
  time only because of its types, a rewrite blanks: every character outside
  the types stands where it stood.  Statements that import or export names are
  the only ones that may be written anew.

  Blanking leaves the line ends of a type, and a line end may mean something
  to the tokens around it.

  Main results:
    * `rewrite_preserved_done` — what a rewrite leaves alone, piece by piece.
    * `eraseAll_writesNothing` — a tree that asks for nothing to be written is
      blanked only.
    * `rewrite_arrowResult` — a result type of two lines that takes the arrow
      away from its parameters.
-/
import SingleFile.Proofs.Script.Evaluation
import SingleFile.Proofs.Script.ModuleForms

namespace SingleFile.Script

open SingleFile.Text Grammar

/-! ## §1. Trees that ask for nothing to be written -/

/-- Whether a kind of node asks for something to be written, besides lists of names. -/
def Kind.writes : Kind → Bool
  | .enumDecl .. => true
  | .paramProperty => true
  | .importEquals .. => true
  | .exportAssignment => true
  | _ => false

mutual

/-- Whether a tree asks for nothing to be written.  Of a declaration that means nothing at run time
nothing is left, whatever is in it. -/
def writesNothing : Node → Bool
  | .mk kind span children =>
    isTypeOnly (.mk kind span children) || (!kind.writes && writeNothing children)

/-- Whether no tree among some trees asks for something to be written. -/
def writeNothing : List Node → Bool
  | [] => true
  | n :: rest => writesNothing n && writeNothing rest

end

theorem writeNothing_iff {nodes : List Node} :
    writeNothing nodes = true ↔ ∀ n ∈ nodes, writesNothing n = true := by
  induction nodes with
  | nil => exact iff_of_true rfl fun n hn => absurd hn List.not_mem_nil
  | cons n rest ih => rw [writeNothing, Bool.and_eq_true, ih, List.forall_mem_cons]

/-- What is no type and asks for nothing is of no kind that does, and what is below it asks for
nothing either. -/
theorem writesNothing_below {n : Node} (h : writesNothing n = true)
    (hvalue : isTypeOnly n = false) :
    n.kind.writes = false ∧ writeNothing n.children = true := by
  obtain ⟨kind, span, children⟩ := n
  rw [writesNothing, hvalue, Bool.false_or, Bool.and_eq_true, Bool.not_eq_true'] at h
  exact h

/-- A part of a class that asks for nothing is walked to what asks for nothing. -/
theorem writeNothing_partEntered {n : Node} (h : writesNothing n = true) :
    writeNothing (partEntered n) = true := by
  have hbelow (hkind : n.kind.isDeclaration = false) : writeNothing n.children = true :=
    (writesNothing_below h (isTypeOnly_eq_false hkind)).2
  unfold partEntered
  split
  · rfl
  · next hkind =>
    split
    · rw [writeNothing_iff]
      intro m hm
      obtain ⟨p, hp, hm⟩ := List.mem_flatMap.mp hm
      obtain ⟨hmem, hpart⟩ := List.mem_filter.mp hp
      have hp := writeNothing_iff.mp (hbelow (by rw [hkind]; rfl)) p hmem
      have hvalue : isTypeOnly p = false := isTypeOnly_eq_false (by
        unfold isConstructorPart at hpart
        split at hpart
        · next hkind => rw [hkind]; rfl
        · next hkind => rw [hkind]; rfl
        · next hkind => rw [hkind]; rfl
        · exact absurd hpart Bool.false_ne_true)
      exact writeNothing_iff.mp (writesNothing_below hp hvalue).2 m hm
    · rfl
  · next hkind =>
    split
    · rfl
    · exact hbelow (by rw [hkind]; rfl)
  · next hkind =>
    split
    · rfl
    · exact hbelow (by rw [hkind]; rfl)
  · rfl
  · next hkind => exact hbelow (by rw [hkind]; rfl)
  · next hkind => exact hbelow (by rw [hkind]; rfl)
  · rfl
  · rw [writeNothing, writeNothing, h]
    rfl

/-- From a node that asks for nothing a walk goes on to such nodes. -/
theorem writeNothing_entered {n : Node} (h : writesNothing n = true) :
    writeNothing n.entered = true := by
  unfold Node.entered
  split
  · rfl
  · next hvalue =>
    have hbelow := (writesNothing_below h (Bool.eq_false_iff.mpr hvalue)).2
    split
    · rfl
    · rfl
    · rfl
    · rfl
    · rfl
    · rfl
    · rw [writeNothing_iff]
      intro m hm
      obtain ⟨p, hp, hm⟩ := List.mem_flatMap.mp hm
      exact writeNothing_iff.mp (writeNothing_partEntered (writeNothing_iff.mp hbelow p hp)) m hm
    · exact hbelow

/-- **A walk over trees that ask for nothing stays among such trees.** -/
theorem Walked.writesNothing {nodes : List Node} {n : Node} (h : Walked nodes n)
    (hnodes : writeNothing nodes = true) : writesNothing n = true := by
  induction h with
  | here hn => exact writeNothing_iff.mp hnodes _ hn
  | inside hn _ ih => exact ih (writeNothing_entered (writeNothing_iff.mp hnodes _ hn))

/-- Without parameters that declare fields there are no assignments. -/
theorem fieldAssignments_eq_empty {nodes : List Node}
    (h : ∀ n ∈ nodes, n.kind ≠ .paramProperty) : fieldAssignments nodes = "" := by
  induction nodes with
  | nil => rfl
  | cons n rest ih =>
    have hrest := ih fun m hm => h m (List.mem_cons_of_mem _ hm)
    have hn := h n (List.mem_cons_self ..)
    unfold fieldAssignments
    split
    · rfl
    · next heq =>
      obtain ⟨rfl, rfl⟩ := List.cons.inj heq
      exact absurd rfl hn
    · next heq =>
      obtain ⟨rfl, rfl⟩ := List.cons.inj heq
      exact hrest

/-! ## §2. Actions that write nothing -/

/-- Whether an action writes nothing: it blanks, refuses or looks. -/
def Action.WritesNothing : Action → Prop
  | .blank _ _ => True
  | .refuse _ _ => True
  | .look _ => True
  | _ => False

/-- A node that asks for nothing to be written asks for looks and blanks, or refuses. -/
theorem Requested.writesNothing {source : List Char} {n : Node} {a : Action}
    (h : Requested source n a) (hn : writesNothing n = true) : a.WritesNothing := by
  cases h with
  | blank start stop => trivial
  | look offset => trivial
  | refuse hconstruct => trivial
  | @assign member _ _ hvalue hmember hkind ha =>
    -- A constructor without declaring parameters assigns nothing.
    have hmembers := (writesNothing_below hn hvalue).2
    have hbelow := (writesNothing_below (writeNothing_iff.mp hmembers member hmember)
      (isTypeOnly_eq_false (by rw [hkind]; rfl))).2
    have hparameters : ∀ p ∈ member.children, p.kind ≠ .paramProperty := by
      intro p hp hproperty
      have hwrites := (writesNothing_below (writeNothing_iff.mp hbelow p hp)
        (isTypeOnly_eq_false (by rw [hproperty]; rfl))).1
      rw [hproperty] at hwrites
      exact Bool.noConfusion hwrites
    obtain ⟨body, -, ha⟩ := List.mem_flatMap.mp ha
    rw [fieldAssignments_eq_empty hparameters, insertAssignments] at ha
    exact absurd ha List.not_mem_nil
  | enum hvalue ha =>
    have hwrites := (writesNothing_below hn hvalue).1
    unfold replaceEnum at ha
    split at ha
    · next hkind =>
      rw [hkind] at hwrites
      exact Bool.noConfusion hwrites
    · exact absurd ha List.not_mem_nil

/-- **An erasure that is asked for no text blanks.** -/
theorem eraseAll_writesNothing {source : List Char} {nodes : List Node} {a : Action}
    (hnodes : writeNothing nodes = true) (ha : a ∈ eraseAll source nodes) : a.WritesNothing := by
  obtain ⟨n, hwalked, ha⟩ := mem_eraseAll_iff.mp ha
  exact (Requested.of_mem ha).writesNothing (hwalked.writesNothing hnodes)

/-- The edits of an action that writes nothing blank. -/
theorem Action.WritesNothing.blanks {source : List Char} {a : Action} {edits : List Edit}
    (h : a.WritesNothing) (hedits : a.edits? source = some edits) :
    ∀ e ∈ edits, e.text = blankText (e.removed source) := by
  intro e he
  cases a with
  | insert offset text => exact h.elim
  | replace start stop text => exact h.elim
  | refuse construct offset =>
    obtain rfl := Option.some.inj hedits
    simp at he
  | look offset =>
    obtain rfl := Action.eq_nil_of_look hedits
    simp at he
  | blank start stop =>
    rw [Action.edits?] at hedits
    split at hedits
    · obtain rfl := Option.some.inj hedits
      simp at he
    · obtain ⟨old, hold, rfl⟩ := Option.map_eq_some_iff.mp hedits
      obtain rfl := List.mem_singleton.mp he
      rw [Edit.removed_of_slice? hold]

/-! ## §3. Modules whose syntax is preserved -/

variable {options : RewriteOptions} {source out : List Char} {program : Program}

/-- What is done to a module whose syntax is preserved: text is blanked, and lists of names are
written anew. -/
theorem Lowers.writesNothing_or_lists {items : List Node} {a : Action}
    (h : Lowers options source items a) (hform : options.form = .preserved)
    (hitems : writeNothing items = true) :
    a.WritesNothing ∨
      ∃ n ∈ items, n.kind.isListing = true ∧ ∃ text, a = .replace n.start n.stop text := by
  have hnever : options.form ≠ .commonJs := by
    rw [hform]
    decide
  -- The other forms of actions are for exports that are lowered.
  cases h with
  | erases ha => exact Or.inl (eraseAll_writesNothing hitems ha)
  | looks offset => exact Or.inl trivial
  | drops hn hitem => exact Or.inl trivial
  | replaces hn hkind htext => exact Or.inr ⟨_, hn, hkind, _, rfl⟩
  | reexports hn hlist hsource hform => exact absurd hform hnever
  | @opens n _ _ hn hfront hform htext =>
    have hkind := hform.resolve_left hnever
    have hwrites := (writesNothing_below (writeNothing_iff.mp hitems _ hn)
      (isTypeOnly_eq_false (by rw [hkind]; rfl))).1
    rw [hkind] at hwrites
    exact Bool.noConfusion hwrites
  | closes hn hform htext => exact absurd hform hnever
  | defers hlast hform => exact absurd hform hnever

/-- Nothing is put in front of a module whose syntax is preserved. -/
theorem front_of_preserved (hform : options.form = .preserved) :
    (planOf options source program).front = [] := by
  have hprologue : (planOf options source program).prologue = "" := by
    unfold planOf
    split
    · have hnever : options.form ≠ .commonJs := by
        rw [hform]
        decide
      have hhelpers := (lowered_lowers options source program.items).2.resolve_left hnever
      simp [modulePrologue, hform, hhelpers]
    · rfl
  simp [Plan.front, hprologue]

/-- **What a rewrite leaves alone.**  Where a module's syntax is preserved and nothing asks for
text to be written, all that is done is to blank, and to write lists of names anew. -/
theorem rewrite_preserved_done (hparse : parse ⟨options.typed, true⟩ source = .ok program)
    (hform : options.form = .preserved) (hitems : writeNothing program.items = true)
    (h : rewrite options source = .ok out) :
    ∃ edits, Done source edits source out ∧ ∀ e ∈ edits,
      e.text = blankText (e.removed source) ∨
        ∃ n ∈ program.items, n.kind.isListing = true ∧ e.start = n.start ∧ e.stop = n.stop := by
  refine ⟨_, Plan.carryOut_done (carryOut_of_rewrite hparse h), fun e he => ?_⟩
  rcases Plan.mem_edits (mem_of_mem_carriedOut he) with ⟨a, ha, own, hown, he⟩ | he
  · rcases (planOf_lowers ha).writesNothing_or_lists hform hitems with
      hblank | ⟨n, hn, hkind, text, rfl⟩
    · exact Or.inl (hblank.blanks hown e he)
    · obtain ⟨old, -, rfl⟩ := Option.map_eq_some_iff.mp hown
      obtain rfl := List.mem_singleton.mp he
      exact Or.inr ⟨n, hn, hkind, rfl, rfl⟩
  · rw [front_of_preserved hform] at he
    exact absurd he (List.not_mem_nil)

/-- An arrow function whose result type goes on in the next line. -/
def arrowResult : List Char := "let f = (x): \x7b\n a: string \x7d => x\n".toList

/-- **A blanked type may change how the rest is read**: the line end in the result type takes the
arrow away from its parameters. -/
theorem rewrite_arrowResult :
    (parse ⟨true, true⟩ arrowResult).toOption.isSome = true ∧
      ∃ out, rewrite ⟨true, .preserved, .shared, .helper, false⟩ arrowResult = .ok out ∧
        (parse ⟨false, true⟩ out).toOption.isNone = true :=
  ⟨by decide +kernel, exists_rewrite_of_any (by decide +kernel)⟩

end SingleFile.Script
