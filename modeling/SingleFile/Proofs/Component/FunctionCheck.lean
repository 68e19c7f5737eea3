/-
  SingleFile.Proofs.Component.FunctionCheck — CHECKED FUNCTIONS
  ─────────────────────────────────────────────────────────────
  A text is checked by reading it in parentheses: it has to be a script of
  one function.  A list of bodies becomes an array of the functions with
  them, each as it stands, or the first one that is none stops the transform.

  What is checked is not the text on its own.  A text can close the
  parenthesis in front of it and end in a comment, which then holds the one
  that is put behind it.

  Main results:
    * `normalizeBySyntax_eq_ok_iff` — which texts are accepted.
    * `renderFunctions_checked` — what a list of bodies becomes.
    * `normalizeBySyntax_accepts` — both, for all texts, bodies and tools.
    * `normalizeBySyntax_hiddenEnd` — a text that is no expression at all.
-/
import SingleFile.Proofs.Component.Outcome

namespace SingleFile.Component

open SingleFile.Text SingleFile.Script Grammar

/-! ## §1. What is accepted -/

/-- Whether items are one expression, which is a function in parentheses. -/
inductive IsOneFunction : List Node → Prop where
  | mk (whole inner span : Span) (parts : List Node) :
    IsOneFunction [.mk .expression whole [.mk .paren inner [.mk .functionExpr span parts]]]

theorem checkFunctionItems_eq_ok_iff {items : List Node} :
    checkFunctionItems items = .ok () ↔ IsOneFunction items := by
  constructor
  · intro h
    unfold checkFunctionItems at h
    split at h
    · exact .mk ..
    · cases h
    · cases h
  · rintro ⟨⟩
    rfl

/-- Whether a text is one function when it is read in parentheses. -/
def IsFunctionInside (text : List Char) : Prop :=
  ∃ program, (readProgram ⟨false, false⟩ false ('(' :: text ++ [')'])).toExcept = .ok program ∧
    IsOneFunction program.items

theorem checkFunction_eq_ok_iff {text : List Char} :
    checkFunction text = .ok () ↔ IsFunctionInside text := by
  unfold checkFunction IsFunctionInside
  cases (readProgram ⟨false, false⟩ false ('(' :: text ++ [')'])).toExcept with
  | error mistake => simp
  | ok program => simpa using checkFunctionItems_eq_ok_iff

/-- **Which texts are accepted**: those that are one function when they are read in parentheses. -/
theorem normalizeBySyntax_eq_ok_iff {text out : List Char} :
    normalizeBySyntax text = .ok out ↔ out = text ∧ IsFunctionInside text := by
  unfold normalizeBySyntax
  rw [← checkFunction_eq_ok_iff]
  cases checkFunction text with
  | error flaw => simp
  | ok => simp [eq_comm]

/-! ## §2. Arrays of functions -/

/-- Some tools, of which functions are checked by their syntax. -/
def checkedBySyntax (tools : Tools Id) : Tools Id :=
  { tools with normalize := fun text => normalizeBySyntax text }

/-- The text of an array of the functions with some bodies. -/
def arrayText (bodies : List (List Char)) : List Char :=
  '[' :: [','].intercalate (bodies.map functionText) ++ [']']

/-- What is wrong with a text that is not accepted. -/
def flaw? (text : List Char) : Option FunctionFlaw :=
  match checkFunction text with
  | .ok () => none
  | .error flaw => some flaw

/-- What is wrong with the first of some bodies that is no function's. -/
def firstFlaw? (bodies : List (List Char)) : Option FunctionFlaw :=
  bodies.findSome? fun body => flaw? (functionText body)

variable {tools : Tools Id} {path : String} {text body : List Char} {bodies : List (List Char)}
  {flaw : FunctionFlaw}

theorem flaw?_eq_none_iff : flaw? text = none ↔ IsFunctionInside text := by
  rw [← checkFunction_eq_ok_iff]
  unfold flaw?
  cases checkFunction text with
  | ok => simp
  | error flaw => simp

/-- There is no flaw exactly if all bodies are functions'. -/
theorem firstFlaw?_eq_none_iff :
    firstFlaw? bodies = none ↔ ∀ body ∈ bodies, IsFunctionInside (functionText body) := by
  rw [firstFlaw?, List.findSome?_eq_none_iff]
  simp only [flaw?_eq_none_iff]

theorem normalize_checkedBySyntax (text : List Char) :
    (checkedBySyntax tools).normalize text = normalizeBySyntax text := by
  simp only [checkedBySyntax]

theorem normalizeBySyntax_of_flaw (h : flaw? text = some flaw) :
    normalizeBySyntax text = .error flaw.message := by
  unfold flaw? at h
  unfold normalizeBySyntax
  cases hcheck : checkFunction text with
  | ok =>
    rw [hcheck] at h
    contradiction
  | error other =>
    rw [hcheck] at h
    obtain rfl := Option.some.inj h
    rfl

/-- What becomes of a body. -/
theorem renderFunction_checked :
    renderFunction (checkedBySyntax tools) path body =
      match flaw? (functionText body) with
      | none => pure (functionText body)
      | some flaw => throw ⟨path, .invalidRenderFunction flaw.message⟩ := by
  cases hflaw : flaw? (functionText body) with
  | none =>
    exact useTool_ok _ ((normalize_checkedBySyntax _).trans
      (normalizeBySyntax_eq_ok_iff.mpr ⟨rfl, flaw?_eq_none_iff.mp hflaw⟩))
  | some flaw =>
    exact useTool_error _ ((normalize_checkedBySyntax _).trans (normalizeBySyntax_of_flaw hflaw))

/-- The functions with some bodies, as they stand, up to the first flaw. -/
theorem mapM_renderFunction_checked :
    bodies.mapM (renderFunction (checkedBySyntax tools) path) =
      match firstFlaw? bodies with
      | none => pure (bodies.map functionText)
      | some flaw => throw ⟨path, .invalidRenderFunction flaw.message⟩ := by
  induction bodies with
  | nil => rfl
  | cons body bodies ih =>
    rw [List.mapM_cons, renderFunction_checked, firstFlaw?, List.findSome?_cons]
    cases flaw? (functionText body) with
    | some flaw => rfl
    | none =>
      dsimp only
      rw [pure_bind, ih, firstFlaw?]
      cases bodies.findSome? fun body => flaw? (functionText body) with
      | none => exact pure_bind ..
      | some flaw => rfl

/-- **What a list of bodies becomes**: an array of the functions with them, in order and each as it
stands; a flaw stops the transform. -/
theorem renderFunctions_checked :
    renderFunctions (checkedBySyntax tools) path bodies =
      match firstFlaw? bodies with
      | none => pure (arrayText bodies)
      | some flaw => throw ⟨path, .invalidRenderFunction flaw.message⟩ := by
  rw [renderFunctions, mapM_renderFunction_checked]
  cases firstFlaw? bodies with
  | none => exact pure_bind ..
  | some flaw => rfl

/-- **What the check of functions comes to.**  A text is accepted, and left as it is, exactly if it
is one function when it is read in parentheses.  A list of bodies becomes the array of the functions
with them, which it does exactly if all of these are accepted; otherwise the flaw of the first one
that is not stops the transform. -/
theorem normalizeBySyntax_accepts (tools : Tools Id) (path : String) (text : List Char)
    (bodies : List (List Char)) :
    (∀ out, normalizeBySyntax text = .ok out ↔ out = text ∧ IsFunctionInside text) ∧
    (firstFlaw? bodies = none ↔ ∀ body ∈ bodies, IsFunctionInside (functionText body)) ∧
    renderFunctions (checkedBySyntax tools) path bodies =
      match firstFlaw? bodies with
      | none => pure (arrayText bodies)
      | some flaw => throw ⟨path, .invalidRenderFunction flaw.message⟩ :=
  ⟨fun _ => normalizeBySyntax_eq_ok_iff, firstFlaw?_eq_none_iff, renderFunctions_checked⟩

/-! ## §3. A hidden end -/

/-- Reads a text as one expression of a plain script, to its end. -/
def readExpression (source : List Char) : Reading :=
  let blank : Token := ⟨.endOfText, ⟨0, 0⟩, true, [], []⟩
  let state : State := ⟨blank, 0, [], none, []⟩
  let b := levels (16 * source.length + 64)
  let whole : Parser Node := do
    install (readToken false true ⟨0, source⟩)
    let found ← b.run .expression
    if ← atEnd then return found else unexpected "expected the end"
  let (result, state) := ((whole.run (Mode.ofProgram false false false)).run).run state
  ⟨result.map fun found => ⟨false, [found]⟩, state.mistakes.reverse⟩

/-- What kind of an expression a text is on its own; none if it is none. -/
def expressionKind? (text : List Char) : Option Kind :=
  match (readExpression text).toExcept with
  | .ok ⟨_, [found]⟩ => some found.kind
  | _ => none

/-- A text that closes the parenthesis in front of it and ends in a comment. -/
def hiddenEnd : List Char := "function a()\x7b\x7d) //".toList

/-- A function with a comment behind it. -/
def commentedFunction : List Char := "function a()\x7b\x7d // c".toList

/-- A body that closes its function and the parenthesis in front of it. -/
def closingBody : List Char := "\x7d) //".toList

/-- Tools that compile nothing and check functions by their syntax. -/
def checkingTools : Tools Id :=
  ⟨fun _ _ => .error "no compiler", none, fun text => normalizeBySyntax text⟩

/-- **An end is hidden**: a text that is no expression is accepted, so an array of one accepted
function is no expression; and a function with a comment behind it is not accepted. -/
theorem normalizeBySyntax_hiddenEnd :
    (normalizeBySyntax hiddenEnd = .ok hiddenEnd ∧ expressionKind? hiddenEnd = none) ∧
      (renderFunctions checkingTools "A.vue" [closingBody]
          = pure ('[' :: functionText closingBody ++ [']']) ∧
        expressionKind? ('[' :: functionText closingBody ++ [']']) = none) ∧
      ((∀ out, normalizeBySyntax commentedFunction ≠ .ok out) ∧
        expressionKind? commentedFunction = some .functionExpr) := by
  have hhidden : checkFunction hiddenEnd = .ok () := by decide +kernel
  have hclosing : checkFunction (functionText closingBody) = .ok () := by decide +kernel
  have hcommented : checkFunction commentedFunction ≠ .ok () := by decide +kernel
  have hchecked : checkedBySyntax checkingTools = checkingTools := by
    simp only [checkedBySyntax, checkingTools]
  refine ⟨⟨normalizeBySyntax_eq_ok_iff.mpr ⟨rfl, checkFunction_eq_ok_iff.mp hhidden⟩,
    by decide +kernel⟩, ⟨?_, by decide +kernel⟩, fun out h => hcommented ?_, by decide +kernel⟩
  · have hnone : firstFlaw? [closingBody] = none :=
      firstFlaw?_eq_none_iff.mpr
        (List.forall_mem_singleton.mpr (checkFunction_eq_ok_iff.mp hclosing))
    rw [← hchecked, renderFunctions_checked, hnone]
    rfl
  · exact checkFunction_eq_ok_iff.mpr (normalizeBySyntax_eq_ok_iff.mp h).2

end SingleFile.Component
