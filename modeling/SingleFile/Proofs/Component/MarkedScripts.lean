/-
  SingleFile.Proofs.Component.MarkedScripts — SCRIPTS BEHIND A MARK
  ─────────────────────────────────────────────────────────────────
  A byte order mark in front of a script is no part of what is read, but it is
  part of what is edited and counted.  So a marked script is refused exactly
  where the script is and for the same reason; but lines are looked up, and
  the text is cut and edited, three bytes too early.

  Main results:
    * `rewrite_endsAlike` — a marked script fails as the script does, if no
      cut falls inside a character.
    * `rewrite_marked` — what a mark does: to the line of a failure, to the
      cuts, to what is blanked, and to a plain script.
    * `rewrite_markedAnnotation` — a declaration that is broken, and members
      that are left alone without the mark and panic behind it.
-/
import SingleFile.Component.ScriptLanguage
import SingleFile.Proofs.Component.Outcome
import SingleFile.Proofs.Script.BlankedText
import SingleFile.Proofs.Script.PlainScripts

namespace SingleFile.Text

/-! ## §1. Lines -/

theorem upTo_isPrefix (text : List Char) {first last : Nat} (h : first ≤ last) :
    upTo text first <+: upTo text last := by
  induction text generalizing first last with
  | nil => exact List.prefix_refl _
  | cons c text ih =>
    rw [upTo, upTo]
    by_cases hfirst : first = 0
    · rw [if_pos hfirst]
      exact List.nil_prefix
    · rw [if_neg hfirst, if_neg (by omega)]
      exact List.cons_prefix_cons.mpr ⟨rfl, ih (by omega)⟩

/-- The characters of a text that begin between two offsets. -/
def beginningBetween (text : List Char) (first last : Nat) : List Char :=
  (upTo text last).drop (upTo text first).length

/-- Two offsets are on one line exactly if no line ends between them. -/
theorem lineNumberAt_eq_iff (text : List Char) {first last : Nat} (h : first ≤ last) :
    lineNumberAt text first = lineNumberAt text last ↔
      '\n' ∉ beginningBetween text first last := by
  obtain ⟨between, hbetween⟩ := upTo_isPrefix text h
  rw [beginningBetween, lineNumberAt_eq, lineNumberAt_eq, ← hbetween, List.drop_left,
    List.count_append, ← List.count_eq_zero]
  omega

end SingleFile.Text

namespace SingleFile.Script

open SingleFile.Text Grammar

/-! ## §2. Marked texts -/

/-- A text with a byte order mark in front. -/
def marked (source : List Char) : List Char := '\uFEFF' :: source

/-- The number of bytes of the mark. -/
def markLength : Nat := 3

/-- **A marked script is read as the script without the mark.** -/
theorem parse_marked {source : List Char} (h : source.head? ≠ some '\uFEFF')
    (language : Language) : parse language (marked source) = parse language source := by
  have hsame : withoutMark source = source := by
    unfold withoutMark
    split
    · exact absurd rfl h
    · rfl
  rw [parse, parse, hsame]
  rfl

/-- In a marked text a line is looked up three bytes too early. -/
theorem lineNumberAt_marked (source : List Char) (offset : Nat) :
    lineNumberAt (marked source) offset = lineNumberAt source (offset - markLength) := by
  rw [lineNumberAt_eq, lineNumberAt_eq, marked, upTo]
  by_cases hzero : offset = 0
  · rw [if_pos hzero, hzero]
    cases source <;> rfl
  · rw [if_neg hzero, List.count_cons_of_ne (by decide)]
    rfl

end SingleFile.Script

namespace SingleFile.Component

open SingleFile.Text SingleFile.Script SingleFile.Script.Grammar

variable {options : RewriteOptions} {source : List Char} {program : Program}

/-! ## §3. Failures -/

/-- How the rewrites of a script without and with a mark end, if neither of them panics: both give a
text, or both fail for the same reason and at the same offset. -/
inductive EndsAlike :
    Except (Halt RewriteError) (List Char) → Except (Halt RewriteError) (List Char) → Prop where
  | done (out out' : List Char) : EndsAlike (.ok out) (.ok out')
  | failed (e : RewriteError) : EndsAlike (.error (.failed e)) (.error (.failed e))
  | panickedWithout (result : Except (Halt RewriteError) (List Char)) :
      EndsAlike (.error .panicked) result
  | panickedWith (result : Except (Halt RewriteError) (List Char)) :
      EndsAlike result (.error .panicked)

/-- Two plans with the same first refusal end alike. -/
theorem carryOut_endsAlike {plan plan' : Plan} {text text' : List Char}
    (h : firstRefusal? plan'.actions = firstRefusal? plan.actions) :
    EndsAlike (plan.carryOut text) (plan'.carryOut text') := by
  unfold Plan.carryOut
  rw [h]
  cases editsOf? text plan.actions with
  | none => exact .panickedWithout _
  | some edits =>
    cases editsOf? text' plan'.actions with
    | none => exact .panickedWith _
    | some edits' =>
      cases firstRefusal? plan.actions with
      | some refusal => exact .failed (.unsupported refusal.1 refusal.2)
      | none =>
        dsimp only
        split
        · split
          · exact .done _ _
          · exact .panickedWith _
        · exact .panickedWithout _

/-- In a marked script the same constructs are refused, and in the same order. -/
theorem firstRefusal?_marked (options : RewriteOptions) (source : List Char) (program : Program) :
    firstRefusal? (planOf options (marked source) program).actions
      = firstRefusal? (planOf options source program).actions := by
  have hsame := planOf_refuseSame options (marked source) program
  have hsame' := planOf_refuseSame options source program
  have hcongr := refusalsOf_eraseAll_congr (marked source) source program.walkedTrees
  rw [firstRefusal?_eq, firstRefusal?_eq]
  exact congrArg List.head? (hsame.trans (hcongr.trans hsame'.symm))

/-- A marked script is rewritten by the plan of the script's program. -/
theorem rewrite_marked_eq (hs : source.head? ≠ some '\uFEFF')
    (hparse : parse ⟨options.typed, true⟩ source = .ok program) :
    rewrite options (marked source)
      = (planOf options (marked source) program).carryOut (marked source) := by
  rw [rewrite, parse_marked hs, hparse]

/-- **A marked script ends as the script does**, if neither of them panics. -/
theorem rewrite_endsAlike (hs : source.head? ≠ some '\uFEFF') :
    EndsAlike (rewrite options source) (rewrite options (marked source)) := by
  cases hparse : parse ⟨options.typed, true⟩ source with
  | error mistake =>
    rw [rewrite, rewrite, parse_marked hs, hparse]
    exact .failed (.malformed mistake)
  | ok program =>
    rw [rewrite_marked_eq hs hparse, rewrite, hparse]
    exact carryOut_endsAlike (firstRefusal?_marked options source program)

/-- A rewrite fails with a mistake exactly if the script is not read for it. -/
theorem rewrite_malformed_iff {mistake : Mistake} :
    rewrite options source = .error (.failed (.malformed mistake)) ↔
      parse ⟨options.typed, true⟩ source = .error mistake := by
  unfold rewrite
  cases parse ⟨options.typed, true⟩ source with
  | error other => simp
  | ok program =>
    refine ⟨fun h => ?_, fun h => absurd h (by simp)⟩
    -- A plan fails with what it refuses only.
    dsimp only [Plan.carryOut] at h
    split at h
    · exact absurd h (by simp)
    · exact absurd h (by simp)
    · split at h <;> exact absurd h (by simp)

/-- A script that cannot be read cannot be read behind a mark either, and for the same reason. -/
theorem rewrite_marked_malformed_iff (hs : source.head? ≠ some '\uFEFF') {mistake : Mistake} :
    rewrite options (marked source) = .error (.failed (.malformed mistake)) ↔
      rewrite options source = .error (.failed (.malformed mistake)) := by
  rw [rewrite_malformed_iff, rewrite_malformed_iff, parse_marked hs]

/-- Where a rewrite failed. -/
def failureOffset : RewriteError → Nat
  | .malformed mistake => mistake.offset
  | .unsupported _ offset => offset

/-- A failure is reported with and without the mark alike exactly if no line ends in the last three
bytes in front of it. -/
theorem ofError_marked_iff (source : List Char) (e : RewriteError) :
    TranspileFailure.ofError (marked source) e = TranspileFailure.ofError source e ↔
      '\n' ∉ beginningBetween source (failureOffset e - markLength) (failureOffset e) := by
  cases e with
  | malformed mistake =>
    simp [TranspileFailure.ofError, failureOffset, lineNumberAt_marked,
      lineNumberAt_eq_iff source (Nat.sub_le mistake.offset markLength)]
  | unsupported construct offset =>
    simp [TranspileFailure.ofError, failureOffset, lineNumberAt_marked,
      lineNumberAt_eq_iff source (Nat.sub_le offset markLength)]

/-! ## §4. Rewrites -/

/-- Whether an offset is one between two characters of a marked text. -/
def IsBehindMark (source : List Char) (offset : Nat) : Prop :=
  offset = 0 ∨ ∃ place, offset = place + markLength ∧ (splitAt? source place).isSome = true

theorem splitAt?_marked_isSome_iff (source : List Char) (offset : Nat) :
    (splitAt? (marked source) offset).isSome = true ↔ IsBehindMark source offset := by
  rcases offset with _ | offset
  · exact ⟨fun _ => .inl rfl, fun _ => rfl⟩
  · have hmark : ('\uFEFF' : Char).utf8Size = markLength := rfl
    rw [marked, splitAt?, hmark]
    by_cases hlong : markLength ≤ offset + 1
    · rw [if_pos hlong, Option.isSome_map]
      constructor
      · exact fun h => .inr ⟨offset + 1 - markLength, by omega, h⟩
      · rintro (h | ⟨place, hplace, h⟩)
        · omega
        · rwa [hplace, Nat.add_sub_cancel]
    -- An offset inside the mark is between no two characters.
    · rw [if_neg hlong]
      refine ⟨fun h => absurd h Bool.false_ne_true, ?_⟩
      rintro (h | ⟨place, hplace, -⟩) <;> omega

/-- **What a mark in front of a script does** to its rewrite. -/
structure MarkShifts (options : RewriteOptions) (source : List Char) : Prop where
  /-- A script that cannot be read cannot be read with the mark, and for the same reason. -/
  malformed : ∀ mistake,
    rewrite options (marked source) = .error (.failed (.malformed mistake)) ↔
      rewrite options source = .error (.failed (.malformed mistake))
  /-- What is rewritten without the mark is rewritten with it, and what is not fails for the same
  reason, unless one of the two panics. -/
  ends : EndsAlike (rewrite options source) (rewrite options (marked source))
  /-- A failure is reported on another line if a line ends in the last three bytes in front of
  it. -/
  line : ∀ e, TranspileFailure.ofError (marked source) e = TranspileFailure.ofError source e ↔
    '\n' ∉ beginningBetween source (failureOffset e - markLength) (failureOffset e)
  /-- A panic comes from a cut that is not between two characters of the marked text. -/
  cut : rewrite options (marked source) = .error .panicked →
    ∃ program, parse ⟨options.typed, true⟩ source = .ok program ∧
      ∃ a ∈ (planOf options (marked source) program).actions, ¬a.IsWithin (marked source)
  /-- Where a program asks for blanks, the marked script panics exactly if there is such a cut.  The
  mark stays in front of what the script becomes exactly if it is not blanked itself, and each
  character that can be seen is blanked with the mark exactly if it is without it. -/
  blanked : ∀ program, parse ⟨options.typed, true⟩ source = .ok program →
    options.form = .preserved → writeNothing program.items = true →
    (∀ n ∈ program.items, n.isThinned options program.items = false) →
    (rewrite options (marked source) = .error .panicked ↔
      ∃ a ∈ (planOf options (marked source) program).actions, ¬a.IsWithin (marked source)) ∧
    ∀ out out', rewrite options source = .ok out → rewrite options (marked source) = .ok out' →
      List.Forall₂ Blanks (marked source) out' ∧
      (out' = marked out ↔
        ¬IsEditedPlace options (marked source) program 0 ∧
        ∀ before c after, source = before ++ c :: after → IsVisible c →
          (IsEditedPlace options (marked source) program (byteLength before + markLength) ↔
            IsEditedPlace options source program (byteLength before)))
  /-- A plain script that stays as it is panics behind the mark exactly if one of the places that
  are looked at for words is not between two characters; else only words are blanked, and none
  exactly if no word of the marked text is taken for a modifier. -/
  plain : ∀ program, parse ⟨options.typed, true⟩ source = .ok program →
    ArePlain program.items → program.IsKept options →
    ((∀ offset, program.LooksAt offset → IsBehindMark source offset) →
      ∃ out, rewrite options (marked source) = .ok out ∧ List.Forall₂ Blanks (marked source) out ∧
        (out = marked source ↔
          ∀ n, Walked program.walkedTrees n → n.takenWords (marked source) = [])) ∧
    ((∃ offset, program.LooksAt offset ∧ ¬IsBehindMark source offset) →
      rewrite options (marked source) = .error .panicked)

/-- Blanks behind a mark come to those without it exactly if the mark stays and the same characters
are blanked. -/
theorem blankedFrom_marked_eq_iff {edits edits' : List Edit} :
    blankedFrom edits' 0 (marked source) = marked (blankedFrom edits 0 source) ↔
      ¬IsEdited edits' 0 ∧ ∀ before c after, source = before ++ c :: after → IsVisible c →
        (IsEdited edits' (byteLength before + markLength) ↔
          IsEdited edits (byteLength before)) := by
  have hsplit : blankedFrom edits' 0 (marked source)
      = (if IsEdited edits' 0 then [' '] else ['\uFEFF']) ++ blankedFrom edits' markLength source :=
    rfl
  have hrest := @blankedFrom_eq_iff edits' edits markLength 0 source
  simp only [Nat.zero_add, Nat.add_comm markLength] at hrest
  rw [hsplit, ← hrest, marked]
  by_cases hedited : IsEdited edits' 0
  · rw [if_pos hedited]
    exact ⟨fun h => absurd (List.cons.inj h).1 (by decide), fun h => absurd hedited h.1⟩
  · rw [if_neg hedited]
    exact ⟨fun h => ⟨hedited, (List.cons.inj h).2⟩, fun h => congrArg _ h.2⟩

/-- **A mark shifts what is done to a script**, whatever the script and the options. -/
theorem rewrite_marked (hs : source.head? ≠ some '\uFEFF') : MarkShifts options source where
  malformed _ := rewrite_marked_malformed_iff hs
  ends := rewrite_endsAlike hs
  line := ofError_marked_iff source
  cut h := by
    obtain ⟨program, hparse, hcut⟩ := exists_cut_of_panicked h
    exact ⟨program, (parse_marked hs _).symm.trans hparse, hcut⟩
  blanked program hparse hform hitems hwhole := by
    have hmarked := (parse_marked hs ⟨options.typed, true⟩).trans hparse
    refine ⟨rewrite_panicked_iff hmarked hform hitems hwhole, fun out out' hout hout' => ?_⟩
    refine ⟨rewrite_keepsColumns hmarked hform hitems hwhole hout', ?_⟩
    rw [rewrite_eq_blanked hmarked hform hitems hwhole hout',
      rewrite_eq_blanked hparse hform hitems hwhole hout]
    exact blankedFrom_marked_eq_iff
  plain program hparse hplain hkept := by
    rw [rewrite_marked_eq hs hparse]
    constructor
    · intro hlooks
      exact carryOut_of_plain hplain hkept fun offset hoffset =>
        (splitAt?_marked_isSome_iff source offset).mpr (hlooks offset hoffset)
    · rintro ⟨offset, hoffset, hinside⟩
      exact carryOut_of_not_looksFit hplain hkept fun hlooks =>
        hinside ((splitAt?_marked_isSome_iff source offset).mp (hlooks offset hoffset))

/-- A class whose members have no modifiers. -/
def smallClass : List Char := "class A \x7b\n  b() \x7b\x7d\n\x7d\n".toList

theorem rewrite_marked_smallClass :
    smallClass.head? ≠ some '\uFEFF' ∧
      rewrite leftAlone (marked smallClass) = .ok (marked smallClass) := by
  have hs : smallClass.head? ≠ some '\uFEFF' := by decide
  obtain ⟨program, hparse, hplain, hnone⟩ := exists_parse_of_any
    (p := fun program => ArePlain program.items ∧ ∀ n ∈ subtreesOf program.items,
      n.takenWords (marked smallClass) = [] ∧ ∀ offset ∈ n.exportPlaces ++ n.lookedPlaces,
        (splitAt? (marked smallClass) offset).isSome = true)
    (show (parse ⟨false, true⟩ smallClass).toOption.any _ = true by decide +kernel)
  have hkept : program.IsKept leftAlone := isKept_of_preserved hplain rfl rfl
  obtain ⟨out, hout, -, huntouched⟩ :=
    ((@rewrite_marked leftAlone _ hs).plain program hparse hplain hkept).1 fun offset hoffset => by
      obtain ⟨n, hn, hmem⟩ := hoffset.of_subtrees
      exact (splitAt?_marked_isSome_iff _ _).mp ((hnone n hn).2 offset hmem)
  have hsame : out = marked smallClass := huntouched.mpr fun n hwalked =>
    (hnone n (walkedTrees_subset program hwalked.mem_subtreesOf)).1
  exact ⟨hs, by rw [hout, hsame]⟩

/-- The mistake that a script is not read for. -/
def mistake? (language : Language) (source : List Char) : Option Mistake :=
  match parse language source with
  | .ok _ => none
  | .error mistake => some mistake

/-- A mistake with a property, found by reading the script. -/
theorem exists_mistake_of_any {language : Language} {p : Mistake → Prop} [DecidablePred p]
    (h : (mistake? language source).any (fun mistake => decide (p mistake)) = true) :
    ∃ mistake, parse language source = .error mistake ∧ p mistake := by
  unfold mistake? at h
  cases hparse : parse language source with
  | ok program =>
    rw [hparse] at h
    exact absurd h Bool.false_ne_true
  | error mistake =>
    rw [hparse] at h
    exact ⟨mistake, rfl, of_decide_eq_true h⟩

/-- A declaration with a type. -/
def annotation : List Char := "let x: number = 1\n".toList

/-- A declaration whose name is not all ASCII. -/
def accentedName : List Char := "let éab: T = 1\n".toList

/-- A class with a comment that is not all ASCII in front of a member. -/
def accentedComment : List Char := "class A \x7b /*é*/b()\x7b\x7d \x7d\n".toList

/-- A script with a mistake at the start of a line. -/
def brokenLine : List Char := "\n= 1\n".toList

/-- A rewrite panics whose plan cuts the text inside a character. -/
theorem rewrite_panicked_of_any
    (h : (parse ⟨options.typed, true⟩ source).toOption.any
      (fun program => decide (editsOf? source (planOf options source program).actions = none))
        = true) :
    rewrite options source = .error .panicked := by
  obtain ⟨program, hparse, hcut⟩ := exists_parse_of_any h
  rw [rewrite, hparse]
  dsimp only
  rw [Plan.carryOut, hcut]

/-- **A mark shifts what is blanked**: a type stays, and a part of the declaration goes; or a cut
falls inside a character, also where nothing is to be done without the mark.  A mistake is reported
on the line in front of its own. -/
theorem rewrite_markedAnnotation :
    (rewrite typedInPlace annotation = .ok "let x         = 1\n".toList ∧
      rewrite typedInPlace (marked annotation) = .ok (marked "le        ber = 1\n".toList)) ∧
    ((∃ out, rewrite typedInPlace accentedName = .ok out) ∧
      rewrite typedInPlace (marked accentedName) = .error .panicked) ∧
    (rewrite leftAlone accentedComment = .ok accentedComment ∧
      rewrite leftAlone (marked accentedComment) = .error .panicked) ∧
    ∃ mistake, parse ⟨true, true⟩ brokenLine = .error mistake ∧
      lineNumberAt brokenLine mistake.offset = 2 ∧
      lineNumberAt (marked brokenLine) mistake.offset = 1 := by
  refine ⟨⟨rewrite_eq_ok_iff.mpr (by decide +kernel), rewrite_eq_ok_iff.mpr (by decide +kernel)⟩,
    ⟨?_, rewrite_panicked_of_any (by decide +kernel)⟩,
    ⟨rewrite_eq_ok_iff.mpr (by decide +kernel), rewrite_panicked_of_any (by decide +kernel)⟩, ?_⟩
  · obtain ⟨out, hout, -⟩ := exists_rewrite_of_any (p := fun _ => True)
      (show (outcome? typedInPlace accentedName).any _ = true by decide +kernel)
    exact ⟨out, hout⟩
  · exact exists_mistake_of_any (by decide +kernel)

end SingleFile.Component
