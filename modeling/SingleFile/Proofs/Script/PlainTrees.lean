/-
  SingleFile.Proofs.Script.PlainTrees — TREES WITHOUT TYPES
  ─────────────────────────────────────────────────────────
  A walk takes nothing out of the tree of a plain script but what it takes for
  typed modifiers.  Those are not in the tree: they are looked for in the text
  in front of the key of a member, going backwards from word to word.  For
  that the text is cut behind the member before and in front of the key.

  Main results:
    * `slice?_of_mem_modifiersBetween` — a modifier is a word of the text.
    * `ArePlain` — trees that have only what plain scripts have.
    * `mem_requests_of_plain` — what a plain node asks for.  The step.
-/
import Mathlib.Data.List.Perm.Basic
import SingleFile.Proofs.Script.EditPlaces
import SingleFile.Proofs.Script.ErasureFrame
import SingleFile.Proofs.Script.ExportNames

namespace SingleFile.Script

open SingleFile.Text Grammar

/-! ## §1. Modifiers in a text -/

theorem byteLength_reverse (cs : List Char) : byteLength cs.reverse = byteLength cs := by
  induction cs with
  | nil => rfl
  | cons c cs ih =>
    rw [List.reverse_cons, byteLength_append, ih, byteLength_cons, byteLength_cons, byteLength_nil]
    omega

/-- Going backwards through a text, a modifier is found where it stands, and a typed one is
spelled there. -/
theorem spelled_of_mem_modifiersBackwards {floor bound : Nat} {text : List Char} {m : Modifier}
    (h : m ∈ modifiersBackwards floor bound text) :
    ∃ before word behind, text.reverse = before ++ word ++ behind ∧
      m.start = floor + byteLength before ∧ m.stop = m.start + byteLength word ∧
      (m.isTyped = true → String.ofList word ∈ typedModifiers) := by
  induction bound generalizing text with
  | zero => exact absurd h List.not_mem_nil
  | succ bound ih =>
    -- What is passed over stands behind all that is found later.
    have hstep {passed rest : List Char} (htext : text = passed ++ rest)
        (h : m ∈ modifiersBackwards floor bound rest) : ∃ before word behind,
          text.reverse = before ++ word ++ behind ∧ m.start = floor + byteLength before ∧
          m.stop = m.start + byteLength word ∧
          (m.isTyped = true → String.ofList word ∈ typedModifiers) := by
      obtain ⟨before, word, behind, hrest, hplace⟩ := ih h
      refine ⟨before, word, behind ++ passed.reverse, ?_, hplace⟩
      rw [htext, List.reverse_append, hrest]
      simp only [List.append_assoc]
    -- The text begins with white space, a word that may be empty, and what stands in front of it.
    obtain ⟨passed, word, before, htext, hword, hbefore⟩ : ∃ passed word before,
        text = passed ++ (word ++ before) ∧
          (text.dropWhile isWhiteSpace).takeWhile isWordChar = word ∧
          (text.dropWhile isWhiteSpace).drop word.length = before := by
      refine ⟨text.takeWhile isWhiteSpace, _, _, ?_, rfl, rfl⟩
      have hwhole := List.takeWhile_append_dropWhile (p := isWordChar)
        (l := text.dropWhile isWhiteSpace)
      conv => lhs; rw [← List.takeWhile_append_dropWhile (p := isWhiteSpace) (l := text)]
      congr 1
      conv => rhs; rhs; rhs; rw [← hwhole]
      rw [List.drop_left, hwhole]
    rw [modifiersBackwards] at h
    dsimp only at h
    rw [hword, hbefore] at h
    split at h
    · -- The star of a generator is passed over as well.
      exact @hstep (passed ++ ['*']) _ (by rw [htext]; simp) h
    · exact absurd h List.not_mem_nil
    · next c cs =>
      split at h
      · rcases List.mem_cons.mp h with rfl | h
        · refine ⟨before.reverse, (c :: cs).reverse, passed.reverse, ?_, ?_, ?_, ?_⟩
          · rw [htext, List.reverse_append, List.reverse_append]
          · rw [byteLength_reverse]
          · rw [byteLength_reverse]
          · exact List.contains_iff_mem.mp
        · exact hstep (by rw [htext, List.append_assoc]) h
      · exact absurd h List.not_mem_nil

/-- **A modifier is a word of the text**: the slice at its place, which is one of the typed
modifiers if it counts as one. -/
theorem slice?_of_mem_modifiersBetween {source : List Char} {floor key : Nat} {m : Modifier}
    (h : m ∈ modifiersBetween source floor key) :
    ∃ word : List Char, slice? source m.start m.stop = some word ∧
      (m.isTyped = true → String.ofList word ∈ typedModifiers) := by
  rw [modifiersBetween] at h
  obtain ⟨before, word, behind, htext, hstart, hstop, htyped⟩ :=
    spelled_of_mem_modifiersBackwards h
  rw [List.reverse_reverse] at htext
  refine ⟨word, ?_, htyped⟩
  cases hslice : slice? source (min floor key) key with
  | none =>
    -- Nothing is found where the two offsets do not fit the text.
    rw [hslice] at h
    exact absurd h (by simp [modifiersBackwards])
  | some middle =>
    rw [hslice, Option.getD_some] at htext
    obtain ⟨a, b, hsource, ha, -⟩ := slice?_eq_some hslice
    have hwhole : source = (a ++ before) ++ word ++ (behind ++ b) := by
      rw [hsource, htext]
      simp only [List.append_assoc]
    have hplace : byteLength (a ++ before) = m.start := by
      rw [byteLength_append, ha, hstart]
    rw [hwhole, hstop, ← hplace]
    exact slice?_append ..

/-- Blanking a typed modifier changes it. -/
theorem blankText_typedModifier {word : List Char} (h : String.ofList word ∈ typedModifiers) :
    blankText word ≠ word := by
  have hall : ∀ spelled ∈ typedModifiers, blankText spelled.toList ≠ spelled.toList := by decide
  have hword := hall _ h
  rwa [String.toList_ofList] at hword

/-! ## §2. Plain trees -/

/-- Whether a member of a class has none of the marks that only typed scripts have. -/
def MemberMarks.isPlain (marks : MemberMarks) : Bool :=
  !marks.isAbstract && !marks.isDeclared && !marks.isOptional && !marks.isDefinite

/-- Whether a kind of node is one of plain scripts; decorators are left out. -/
def Kind.isPlain : Kind → Bool
  | .function _ _ hasBody => hasBody
  | .classBody isAbstract => !isAbstract
  | .asType => false
  | .satisfies => false
  | .constAssertion => false
  | .nonNull => false
  | .typeAssertion => false
  | .instantiation => false
  | .typeClause => false
  | .typeParameters => false
  | .typeArguments => false
  | .heritage => false
  -- The name is a keyword elsewhere: such a parameter only declares the receiver.
  | .binding name isOptional => name != "this" && !isOptional
  | .arrayPattern isOptional => !isOptional
  | .objectPattern isOptional => !isOptional
  | .paramProperty => false
  | .constructorMember marks => marks.isPlain && marks.hasBody
  | .methodMember _ marks => marks.isPlain && marks.hasBody
  | .fieldMember _ marks => marks.isPlain
  | .indexSignature => false
  | .decorator => false
  | .variables isDeclared => !isDeclared
  | .declarator isDefinite => !isDefinite
  | .functionDecl isDeclared => !isDeclared
  | .classDecl isDeclared => !isDeclared
  | .interfaceDecl _ => false
  | .typeAlias _ => false
  | .enumDecl .. => false
  | .enumMember _ => false
  | .moduleDecl _ => false
  | .moduleBlock => false
  | .importDecl decl => !decl.typeOnly && decl.items.all fun item => !decl.isMarked item
  | .exportList list => !list.typeOnly && list.items.all fun entry => !entry.isMarked
  | .exportAll _ typeOnly => !typeOnly
  | .importEquals .. => false
  | .exportAssignment => false
  | .namespaceExport => false
  | _ => true

/-- Whether a node is one of plain scripts, where functions have bodies. -/
def Node.isPlain (n : Node) : Bool :=
  n.kind.isPlain &&
    match n.kind with
    | .functionDecl _ => n.children.any hasBody
    | .functionExpr => n.children.any hasBody
    | _ => true

/-- Whether some trees are those of a plain script. -/
def ArePlain (nodes : List Node) : Prop := ∀ n ∈ subtreesOf nodes, n.isPlain = true

instance (nodes : List Node) : Decidable (ArePlain nodes) :=
  inferInstanceAs (Decidable (∀ n ∈ subtreesOf nodes, n.isPlain = true))

theorem ArePlain.mono {nodes more : List Node} (h : ArePlain more)
    (hsub : subtreesOf nodes ⊆ subtreesOf more) : ArePlain nodes :=
  fun n hn => h n (hsub hn)

section

variable {source : List Char} {n : Node} {nodes : List Node}

theorem ArePlain.kind (h : ArePlain nodes) (hn : n ∈ subtreesOf nodes) : n.kind.isPlain = true :=
  (Bool.and_eq_true_iff.mp (h n hn)).1

/-- Nothing in a plain script is erased as a whole. -/
theorem isTypeOnly_of_isPlain (h : n.isPlain = true) : isTypeOnly n = false := by
  obtain ⟨kind, span, children⟩ := n
  obtain ⟨hkind, hbody⟩ := Bool.and_eq_true_iff.mp h
  unfold isTypeOnly
  split
  · exact Bool.noConfusion hkind
  · exact Bool.noConfusion hkind
  · next isDeclared =>
    have hdeclared : (!isDeclared) = true := hkind
    rwa [Bool.not_eq_true'] at hdeclared
  · next isDeclared =>
    have hdeclared : (!isDeclared) = true := hkind
    have hbody : children.any hasBody = true := hbody
    rw [Bool.not_eq_true'] at hdeclared
    rw [hdeclared, hbody]
    rfl
  · next isDeclared =>
    have hdeclared : (!isDeclared) = true := hkind
    rwa [Bool.not_eq_true'] at hdeclared
  · exact Bool.noConfusion hkind
  · exact Bool.noConfusion hkind
  · rfl

/-! ## §3. What plain nodes ask for -/

/-- Where the key of a member of a class begins that may have modifiers. -/
def Node.key? (n : Node) : Option Nat :=
  match n.kind with
  | .constructorMember marks => some marks.key.start
  | .methodMember _ marks => some marks.key.start
  | .fieldMember _ marks => some marks.key.start
  | _ => none

/-- The words behind an offset that are taken for typed modifiers of a member of a class. -/
def takenWords (source : List Char) (floor : Nat) (member : Node) : List Modifier :=
  match member.key? with
  | some key => (modifiersBetween source floor key).filter Modifier.isTyped
  | none => []

/-- The words that are taken for typed modifiers in a class. -/
def Node.takenWords (source : List Char) (n : Node) : List Modifier :=
  match n.kind with
  | .classBody _ =>
    (partsBehind n.start n.children).flatMap fun part => Script.takenWords source part.1 part.2
  | _ => []

/-- A modifier is blanked. -/
def Modifier.blanked (m : Modifier) : Action := .blank m.start m.stop

/-- The places between which modifiers of a member are looked for that stands behind an offset. -/
def lookedPlaces (floor : Nat) (member : Node) : List Nat :=
  match member.key? with
  | some key => [min floor key, key]
  | none => []

/-- The places between which modifiers are looked for in a class. -/
def Node.lookedPlaces (n : Node) : List Nat :=
  match n.kind with
  | .classBody _ =>
    (partsBehind n.start n.children).flatMap fun part => Script.lookedPlaces part.1 part.2
  | _ => []

theorem parameterRequests_of_plain (h : ∀ p ∈ nodes, p.kind ≠ .paramProperty) (floor : Nat) :
    parameterRequests source floor nodes = [] := by
  induction nodes generalizing floor with
  | nil => rfl
  | cons p rest ih =>
    have hrest := ih fun q hq => h q (List.mem_cons_of_mem _ hq)
    unfold parameterRequests
    split
    · exact hrest _
    · next hkind => exact absurd hkind (h p (List.mem_cons_self ..))
    · exact hrest _

theorem blankMemberMarks_of_plain {marks : MemberMarks} (h : marks.isPlain = true) :
    blankMemberMarks source marks = [] := by
  simp only [MemberMarks.isPlain, Bool.and_eq_true, Bool.not_eq_true'] at h
  rw [blankMemberMarks, h.1.2, h.2]
  rfl

/-- A member of a plain class asks for the words in front of its key. -/
theorem partRequests_of_plain (h : ArePlain [n]) (floor : Nat) :
    partRequests source floor n = (lookedPlaces floor n).map .look
      ++ (takenWords source floor n).map Modifier.blanked := by
  have hkind := h.kind (mem_subtreesOf_of_mem (List.mem_singleton_self n))
  unfold partRequests lookedPlaces takenWords Node.key?
  cases hn : n.kind with
  | constructorMember marks =>
    rw [hn] at hkind
    obtain ⟨-, hbody⟩ := Bool.and_eq_true_iff.mp hkind
    have hparameters : ∀ p ∈ n.children, p.kind ≠ .paramProperty := by
      intro p hp hproperty
      have hplain := h.kind (subtreesOf_children_subset n (mem_subtreesOf_of_mem hp))
      rw [hproperty] at hplain
      exact Bool.noConfusion hplain
    have hassign : constructorActions source n.children = [] := by
      refine List.flatMap_eq_nil_iff.mpr fun body _ => ?_
      rw [fieldAssignments_eq_empty hparameters]
      rfl
    dsimp only
    rw [if_pos hbody, parameterRequests_of_plain hparameters, hassign, List.append_nil,
      List.append_nil]
    rfl
  | methodMember isPrivate marks =>
    rw [hn] at hkind
    obtain ⟨hmarks, hbody⟩ := Bool.and_eq_true_iff.mp hkind
    have habstract : marks.isAbstract = false := by
      simp only [MemberMarks.isPlain, Bool.and_eq_true, Bool.not_eq_true'] at hmarks
      exact hmarks.1.1.1
    dsimp only
    rw [habstract, hbody, blankMemberMarks_of_plain hmarks]
    exact List.append_nil _
  | fieldMember isPrivate marks =>
    rw [hn] at hkind
    have hmarks : marks.isPlain = true := hkind
    have hstays := hmarks
    simp only [MemberMarks.isPlain, Bool.and_eq_true, Bool.not_eq_true'] at hstays
    dsimp only
    rw [hstays.1.1.1, hstays.1.1.2, blankMemberMarks_of_plain hmarks, Bool.or_self, Bool.and_false]
    exact List.append_nil _
  | indexSignature =>
    rw [hn] at hkind
    exact Bool.noConfusion hkind
  | _ => rfl

/-- What is below the children of a node is below it. -/
theorem ArePlain.child (h : ArePlain [n]) {m : Node} (hm : m ∈ n.children) : ArePlain [m] :=
  h.mono (subtreesOf_subset (List.cons_subset.mpr
    ⟨subtreesOf_children_subset n (mem_subtreesOf_of_mem hm), List.nil_subset _⟩))

/-- No parameter of a plain function only declares the receiver. -/
theorem blankReceiver_of_plain (h : ArePlain [n]) : blankReceiver n.children = [] := by
  unfold blankReceiver
  split
  · next first rest hfilter =>
    have hfirst : first ∈ n.children :=
      (List.mem_filter.mp (hfilter ▸ List.mem_cons_self .. :
        first ∈ n.children.filter fun c => c.kind == .param)).1
    split
    · next span parts =>
      split
      · next hlast =>
        have hbelow := (h.child hfirst).child (List.mem_of_getLast? hlast)
        exact absurd (hbelow.kind (mem_subtreesOf_of_mem (List.mem_singleton_self _))) (by simp
          [Node.kind, Kind.isPlain])
      · rfl
    · rfl
  · rfl

theorem ownActions_of_plain (h : ArePlain [n]) :
    ownActions source n.kind n.span n.children = [] := by
  have hkind := h.kind (mem_subtreesOf_of_mem (List.mem_singleton_self n))
  unfold ownActions
  split
  · exact blankReceiver_of_plain h
  · next heq =>
    rw [heq] at hkind
    simp [Kind.isPlain] at hkind
  · next heq =>
    rw [heq] at hkind
    exact Bool.noConfusion hkind
  · rfl

/-- A plain class asks for nothing but the words in front of the keys of its members. -/
theorem classActions_of_plain (h : ArePlain [n]) {span : Span} :
    classActions source false span n.children = [] := by
  have hnone : (n.children.filter fun c => c.kind == .heritage) = [] := by
    refine List.filter_eq_nil_iff.mpr fun c hc hheritage => ?_
    have hplain := (h.child hc).kind (mem_subtreesOf_of_mem (List.mem_singleton_self c))
    rw [beq_iff_eq.mp hheritage] at hplain
    exact Bool.noConfusion hplain
  rw [classActions, hnone]
  rfl

/-- **A plain node asks for the words that are taken for modifiers in it**, which are looked for.
The step. -/
theorem mem_requests_of_plain (h : ArePlain [n]) {a : Action} : a ∈ n.requests source ↔
    (∃ offset ∈ n.lookedPlaces, a = .look offset) ∨
      ∃ m ∈ n.takenWords source, a = m.blanked := by
  have hself := mem_subtreesOf_of_mem (List.mem_singleton_self n)
  have hvalue := isTypeOnly_of_isPlain (h n hself)
  have hkind := h.kind hself
  have hown := @ownActions_of_plain source n h
  unfold Node.requests Node.takenWords Node.lookedPlaces
  rw [hvalue, if_neg Bool.false_ne_true]
  cases hn : n.kind with
  | classBody isAbstract =>
    rw [hn] at hkind
    have hconcrete : isAbstract = false := by simpa [Kind.isPlain] using hkind
    have hparts : (partsBehind n.start n.children).flatMap
        (fun part => partRequests source part.1 part.2) =
        (partsBehind n.start n.children).flatMap fun part => (lookedPlaces part.1 part.2).map .look
          ++ (takenWords source part.1 part.2).map Modifier.blanked :=
      List.flatMap_congr fun part hpart =>
        partRequests_of_plain (h.child (mem_of_mem_partsBehind hpart)) part.1
    have hapart := (List.flatMap_append_perm (partsBehind n.start n.children)
      (fun part => (lookedPlaces part.1 part.2).map Action.look)
      fun part => (takenWords source part.1 part.2).map Modifier.blanked).mem_iff (a := a)
    dsimp only
    rw [hconcrete, classActions_of_plain h, List.nil_append, hparts, ← hapart, List.mem_append,
      ← List.map_flatMap, ← List.map_flatMap, List.mem_map, List.mem_map]
    exact or_congr (exists_congr fun _ => and_congr_right fun _ => eq_comm)
      (exists_congr fun _ => and_congr_right fun _ => eq_comm)
  | _ => first
    | (rw [hn] at hkind; exact Bool.noConfusion hkind)
    | (rw [hn] at hown; dsimp only; rw [hown]; simp)

end

end SingleFile.Script
