/-
  SingleFile.Proofs.Component.Alignment — MODULES LINE BY LINE
  ────────────────────────────────────────────────────────────
  A module holds its script behind one line of its own.  A script that is
  rewritten line by line has its lines where the map of the module says, and
  the line it says is the line of the component.

  Main results:
    * `mappings_moduleMap` — what a module's map holds.
    * `lines_moduleText` — the lines of a module.
    * `transform_aligned` — whatever a transform comes to, its code, its map and
      the component agree line by line.
-/
import Mathlib
import SingleFile.Component.Transform
import SingleFile.Proofs.Component.Placement
import SingleFile.Proofs.Script.Evaluation

namespace SingleFile.Component

open SingleFile.Markup SingleFile.Text SingleFile.Script

/-! ## §1. Maps -/

/-- The mappings of a module's map: each line of the script stands one line on. -/
def shiftedLines (n : Nat) : List LineMapping := (List.range n).map fun i => ⟨i + 1, i, 0⟩

theorem added_foldl_addLine (lines : List Nat) (start : Nat) (draft : LineMapDraft) :
    (lines.foldl (fun draft line => draft.addLine (line + start) line 0) draft).added
      = draft.added ++ lines.map fun line => ⟨line + start, line, 0⟩ := by
  induction lines generalizing draft with
  | nil => exact (List.append_nil _).symm
  | cons line lines ih =>
    rw [List.foldl_cons, ih, List.map_cons]
    exact List.append_assoc ..

/-- **What a module's map holds**: one mapping for each line of the script. -/
theorem mappings_moduleMap (script : List Char) (path : String) (source : List Char) :
    (moduleMap script scriptLine path source).mappings
      = shiftedLines (lines script).length := by
  have hsorted : (shiftedLines (script.count '\n' + 1)).Pairwise
      fun a b => LineMapDraft.comesBefore a b = true := by
    refine List.pairwise_map.mpr (List.pairwise_lt_range.imp fun {a b} hab => ?_)
    rw [LineMapDraft.comesBefore, decide_eq_true_eq]
    exact Nat.succ_le_succ (Nat.le_of_lt hab)
  rw [length_lines]
  unfold moduleMap LineMapDraft.build
  dsimp only
  rw [added_foldl_addLine]
  exact List.mergeSort_of_pairwise hsorted

theorem mem_shiftedLines {n : Nat} {m : LineMapping} :
    m ∈ shiftedLines n ↔ m.original < n ∧ m.generated = m.original + 1 ∧ m.source = 0 := by
  obtain ⟨generated, original, source⟩ := m
  simp only [shiftedLines, List.mem_map, List.mem_range, LineMapping.mk.injEq]
  constructor
  · rintro ⟨i, hi, rfl, rfl, rfl⟩
    exact ⟨hi, rfl, rfl⟩
  · rintro ⟨hi, rfl, rfl⟩
    exact ⟨original, hi, rfl, rfl, rfl⟩

theorem eq_of_mem_shiftedLines {n i : Nat} {m : LineMapping} (h : m ∈ shiftedLines n)
    (hi : m.original = i) : m = ⟨i + 1, i, 0⟩ := by
  obtain ⟨-, hgenerated, hsource⟩ := mem_shiftedLines.mp h
  obtain ⟨generated, original, source⟩ := m
  obtain rfl : original = i := hi
  exact congrArg₂ (LineMapping.mk · original ·) hgenerated hsource

/-- What is looked for among mappings is found if only one of them passes for it. -/
theorem find?_eq_some_of_unique {maps : List LineMapping} {test : LineMapping → Bool}
    {m : LineMapping} (hm : m ∈ maps) (htest : test m = true)
    (hunique : ∀ m' ∈ maps, test m' = true → m' = m) : maps.find? test = some m := by
  cases hfind : maps.find? test with
  | none => exact absurd htest (List.find?_eq_none.mp hfind m hm)
  | some m' =>
    rw [hunique m' (List.mem_of_find?_eq_some hfind) (List.find?_some hfind)]

/-- **The original line of a generated line** is the one in front of it, for the lines of the
script and no others. -/
theorem originalLine?_eq_some {map : LineMap} {n : Nat} (h : map.mappings = shiftedLines n)
    {generated original : Nat} :
    map.originalLine? generated = some original ↔ original < n ∧ generated = original + 1 := by
  rw [LineMap.originalLine?, h]
  constructor
  · intro hfind
    obtain ⟨m, hm, rfl⟩ := Option.map_eq_some_iff.mp hfind
    obtain ⟨hlt, hgenerated, -⟩ := mem_shiftedLines.mp (List.mem_of_find?_eq_some hm)
    have htest := List.find?_some hm
    rw [beq_iff_eq] at htest
    exact ⟨hlt, htest.symm.trans hgenerated⟩
  · rintro ⟨hlt, rfl⟩
    refine Option.map_eq_some_iff.mpr ⟨⟨original + 1, original, 0⟩, ?_, rfl⟩
    refine find?_eq_some_of_unique (mem_shiftedLines.mpr ⟨hlt, rfl, rfl⟩) (beq_self_eq_true _) ?_
    intro m hm htest
    rw [beq_iff_eq, (mem_shiftedLines.mp hm).2.1] at htest
    exact eq_of_mem_shiftedLines hm (Nat.succ.inj htest)

/-- **The generated line of an original line** is the one behind it, for the lines of the script
and no others. -/
theorem generatedLine?_eq_some {map : LineMap} {n : Nat} (h : map.mappings = shiftedLines n)
    {source original generated : Nat} :
    map.generatedLine? source original = some generated ↔
      source = 0 ∧ original < n ∧ generated = original + 1 := by
  rw [LineMap.generatedLine?, h]
  constructor
  · intro hfind
    obtain ⟨m, hm, rfl⟩ := Option.map_eq_some_iff.mp hfind
    obtain ⟨hlt, hgenerated, hsource⟩ := mem_shiftedLines.mp (List.mem_of_find?_eq_some hm)
    have htest := List.find?_some hm
    rw [Bool.and_eq_true, beq_iff_eq, beq_iff_eq] at htest
    obtain ⟨rfl, rfl⟩ := htest
    exact ⟨hsource, hlt, hgenerated⟩
  · rintro ⟨rfl, hlt, rfl⟩
    refine Option.map_eq_some_iff.mpr ⟨⟨original + 1, original, 0⟩, ?_, rfl⟩
    refine find?_eq_some_of_unique (mem_shiftedLines.mpr ⟨hlt, rfl, rfl⟩) (by simp) ?_
    intro m hm htest
    rw [Bool.and_eq_true, beq_iff_eq, beq_iff_eq] at htest
    exact eq_of_mem_shiftedLines hm htest.2

/-! ## §2. Code -/

/-- **The lines of a module**: the opening line, those of the script, the closing line, and those
that follow it. -/
theorem lines_moduleText (script : List Char) (functions : Option RenderFunctions) :
    ∃ behind, lines (moduleText script functions) =
      openingLine.toList :: (lines script ++ closingLine.toList :: behind) := by
  have hopening : '\n' ∉ openingLine.toList := by decide
  have hclosing : '\n' ∉ closingLine.toList := by decide
  obtain ⟨behind, htext⟩ : ∃ behind, moduleText script functions =
      openingLine.toList ++ '\n' :: (script ++ '\n' :: (closingLine.toList ++ '\n' :: behind)) := by
    refine ⟨['\n'].intercalate
      (optionLines.map String.toList ++ (functions.map renderLines).getD []), ?_⟩
    rfl
  refine ⟨lines behind, ?_⟩
  rw [htext, lines_append_feed, lines_append_feed, lines_append_feed, lines_of_not_mem hopening,
    lines_of_not_mem hclosing]
  rfl

/-! ## §3. Alignment -/

/-- The code that a script becomes, and the script that its lines are counted by. -/
inductive ScriptTexts (config : Config.Source) :
    Option Block → (code script : List Char) → Prop where
  /-- Without a script there is neither. -/
  | absent : ScriptTexts config none [] []
  | rewritten {block : Block} {language : ScriptLanguage} {code : List Char}
      (known : ScriptLanguage.ofLang? block.lang? = some language)
      (ok : (transpile language config block.content).1 = .ok code) :
      ScriptTexts config (some block) code block.content
  /-- A script that cannot be rewritten is left out. -/
  | failed {block : Block} {language : ScriptLanguage} {failure : TranspileFailure}
      (known : ScriptLanguage.ofLang? block.lang? = some language)
      (error : (transpile language config block.content).1 = .error (.failed failure)) :
      ScriptTexts config (some block) [] []

/-- A module whose lines are where its map says. -/
structure Aligned (code script : List Char) (output : Output) : Prop where
  /-- Each line of the script is mapped, one line on. -/
  mappings : output.map.mappings = shiftedLines (lines script).length
  /-- There it stands in the module. -/
  scriptLines : ∀ i < (lines script).length, ∃ line, (lines code)[i]? = some line ∧
    (lines output.code)[i + 1]? = some line
  closing : (lines output.code)[(lines script).length + 1]? = some closingLine.toList
  original : ∀ generated original, output.map.originalLine? generated = some original ↔
    original < (lines script).length ∧ generated = original + 1
  generated : ∀ source original generated,
    output.map.generatedLine? source original = some generated ↔
      source = 0 ∧ original < (lines script).length ∧ generated = original + 1

/-- **A module is aligned** whose script kept its number of lines. -/
theorem assemble_aligned (path : String) (source : List Char) (script : ScriptPart)
    (functions : Option RenderFunctions)
    (h : script.code.count '\n' = script.mapped.count '\n') :
    Aligned script.code script.mapped (assemble path source script functions) := by
  have hmappings : (assemble path source script functions).map.mappings
      = shiftedLines (lines script.mapped).length := mappings_moduleMap script.mapped path source
  obtain ⟨behind, hlines⟩ := lines_moduleText script.code functions
  have hlength : (lines script.mapped).length = (lines script.code).length := by
    rw [length_lines, length_lines, h]
  refine ⟨hmappings, fun i hi => ?_, ?_, fun _ _ => originalLine?_eq_some hmappings,
    fun _ _ _ => generatedLine?_eq_some hmappings⟩
  · rw [hlength] at hi
    refine ⟨(lines script.code)[i], List.getElem?_eq_getElem hi, ?_⟩
    show (lines (moduleText script.code functions))[i + 1]? = _
    rw [hlines, List.getElem?_cons_succ, List.getElem?_append_left hi, List.getElem?_eq_getElem hi]
  · show (lines (moduleText script.code functions))[_ + 1]? = _
    rw [hlines, hlength, List.getElem?_cons_succ, List.getElem?_append_right (Nat.le_refl _),
      Nat.sub_self]
    rfl

/-! ## §4. Transforms -/

/-- The script of a component becomes what its texts say. -/
theorem scriptTexts_of_scriptPart {config : Config.Source} {path : String}
    {block : Option Block} {script : ScriptPart} {diagnostics : List Diagnostic}
    (h : scriptPart config path block = (.ok script, diagnostics)) :
    ScriptTexts config block script.code script.mapped := by
  unfold scriptPart at h
  split at h
  · obtain rfl := Except.ok.inj (Prod.mk.inj h).1
    exact .absent
  · split at h
    · exact absurd (Prod.mk.inj h).1 (by simp)
    · next language hknown =>
      split at h
      · next code found htranspile =>
        obtain rfl := Except.ok.inj (Prod.mk.inj h).1
        exact .rewritten hknown (by rw [htranspile])
      · next failure found htranspile =>
        obtain rfl := Except.ok.inj (Prod.mk.inj h).1
        exact .failed hknown (by rw [htranspile])
      · exact absurd (Prod.mk.inj h).1 (by simp)

/-- **Whatever a transform comes to, its code, its map and the component agree line by line**, with
any tools and in any configuration: unless the script has changed its number of lines. -/
theorem transform_aligned {m : Type → Type} [Monad m] [LawfulMonad m] (tools : Tools m)
    (config : Config.Source) (source : List Char) (path : String)
    (hsize : byteLength source < 2 ^ 32) :
    SatisfiesM (fun outcome => ∀ output, outcome.result = .ok output →
        ∃ code script,
          ScriptTexts config (extract .lines source).descriptor.script code script ∧
          (code.count '\n' = script.count '\n' → Aligned code script output) ∧
          ∀ block, (extract .lines source).descriptor.script = some block →
            ∃ before content after, StandsBetween source before content after block)
      (transform tools config source path) := by
  have hplaced : ∀ block, (extract .lines source).descriptor.script = some block →
      ∃ before content after, StandsBetween source before content after block :=
    fun block hblock => script_isPlaced hsize hblock
  unfold transform
  dsimp only
  split
  · refine SatisfiesM.pure fun output houtput => ?_
    exact absurd houtput (by simp)
  · next script diagnostics hscript =>
    refine SatisfiesM.bind SatisfiesM.trivial fun rendered _ => ?_
    cases rendered with
    | error failure =>
      refine SatisfiesM.pure fun output houtput => ?_
      exact absurd houtput (by simp)
    | ok functions =>
      refine SatisfiesM.pure fun output houtput => ?_
      obtain rfl := Except.ok.inj houtput
      exact ⟨script.code, script.mapped, scriptTexts_of_scriptPart hscript,
        assemble_aligned path source script functions, hplaced⟩

/-- A script that can be rewritten is the script of its module. -/
theorem scriptPart_ok {config : Config.Source} {block : Block} {language : ScriptLanguage}
    {code : List Char} {diagnostics : List Diagnostic} (path : String)
    (known : ScriptLanguage.ofLang? block.lang? = some language)
    (ok : transpile language config block.content = (.ok code, diagnostics)) :
    scriptPart config path (some block) = (.ok ⟨code, block.content⟩, diagnostics) := by
  unfold scriptPart
  dsimp only
  rw [known]
  dsimp only
  rw [ok]

/-- A component whose script begins on its second line. -/
def paddedComponent : List Char := "\n<script>\nexport default {}\n</script>\n".toList

/-- Its script, behind a line of padding. -/
def paddedScript : Block :=
  ⟨"script", ⟨1, 37⟩, ⟨9, 28⟩, "//\n\nexport default {}\n".toList, []⟩

/-- Tools that compile nothing and check functions by their syntax. -/
def plainTools : Tools Id :=
  ⟨fun _ _ => .error "no compiler", none, fun text => normalizeBySyntax text⟩

theorem transform_aligned_padded :
    byteLength paddedComponent < 2 ^ 32 ∧
      ∃ output code,
        (transform plainTools (.fixed none none) paddedComponent "B.vue" : Outcome).result
          = .ok output ∧
        Aligned code paddedScript.content output ∧
        ∃ before content after,
          StandsBetween paddedComponent before content after paddedScript := by
  have hsize : byteLength paddedComponent < 2 ^ 32 := by decide
  have hscript : (extract .lines paddedComponent).descriptor.script = some paddedScript := by
    decide +kernel
  have htemplate : (extract .lines paddedComponent).descriptor.template = none := by
    decide +kernel
  obtain ⟨code, hcode, hcount⟩ : ∃ out,
      rewrite (transpilerOptions .fallback) paddedScript.content = .ok out ∧
        out.count '\n' = paddedScript.content.count '\n' :=
    exists_rewrite_of_any (by decide +kernel)
  have htranspile : transpile .plain (.fixed none none) paddedScript.content = (.ok code, []) := by
    show (Except.mapError _ (rewrite (transpilerOptions .fallback) _), _) = _
    rw [hcode]
    rfl
  have hknown : ScriptLanguage.ofLang? paddedScript.lang? = some .plain := by decide
  have hpart := scriptPart_ok "B.vue" hknown htranspile
  refine ⟨hsize, assemble "B.vue" paddedComponent ⟨code, paddedScript.content⟩ none, code, ?_⟩
  have haligned := SatisfiesM_Id_eq.mp
    (transform_aligned plainTools (.fixed none none) paddedComponent "B.vue" hsize)
  have hresult : (transform plainTools (.fixed none none) paddedComponent "B.vue" : Outcome).result
      = .ok (assemble "B.vue" paddedComponent ⟨code, paddedScript.content⟩ none) := by
    unfold transform
    dsimp only
    rw [hscript, hpart, htemplate]
    rfl
  obtain ⟨code', script', htexts, hlines, hplaced⟩ := haligned _ hresult
  rw [hscript] at htexts
  cases htexts with
  | rewritten known ok =>
    obtain rfl := Option.some.inj (hknown.symm.trans known)
    rw [htranspile] at ok
    obtain rfl := Except.ok.inj ok
    exact ⟨hresult, hlines hcount, hplaced paddedScript hscript⟩
  | failed known error =>
    obtain rfl := Option.some.inj (hknown.symm.trans known)
    rw [htranspile] at error
    exact absurd error (by simp)

end SingleFile.Component
