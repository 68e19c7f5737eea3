/-
  SingleFile.Proofs.Command.Distinctness — COMPONENTS THAT SHARE A MODULE
  ───────────────────────────────────────────────────────────────────────
  A module is called like its component, but for the extension, and so two
  components of one directory whose names differ in nothing else have one
  module between them; so have components of the same name that stand
  outside of the project.  Among the components of a run there are no other
  ones, and a module is never called like a map.  What is on disk behind a
  run is thus the module of each component that shares it with no later one.

  Main results:
    * `sameSteps_modulePath_iff` — which components share their module.
    * `isNamed_of_mem_collectInputs` — what is collected has a name.
    * `collectInputs_modules` — what a run leaves of its components' modules.
-/
import SingleFile.Command.Inputs
import SingleFile.Proofs.Command.Emission

namespace SingleFile.Command

open SingleFile.Component SingleFile.Files Path

/-! ## §1. Renamed steps -/

/-- Steps with the last one, if it is a name, as the name of a module. -/
def renamed (steps : List (List Char)) : List (List Char) :=
  match steps.getLast?.filter isName with
  | some name => steps.dropLast ++ [nameWith moduleExtension name]
  | none => steps

theorem steps_withModuleExtension (p : Path) :
    (p.withExtension moduleExtension).steps = renamed p.steps := by
  rw [renamed, ← fileName?_eq]
  cases hname : p.fileName? with
  | none => simp only [withExtension, hname]
  | some name => exact (steps_withExtension hname slash_not_mem_moduleExtension).1

theorem renamed_concat {name : List Char} (h : isName name = true) (front : List (List Char)) :
    renamed (front ++ [name]) = front ++ [nameWith moduleExtension name] := by
  rw [renamed, List.getLast?_concat, Option.filter_some_pos h, List.dropLast_concat]

theorem length_renamed (steps : List (List Char)) : (renamed steps).length = steps.length := by
  unfold renamed
  split
  · next name hname =>
    have hne : steps ≠ [] := by
      rintro rfl
      exact absurd hname (by simp)
    have hlength := List.length_pos_of_ne_nil hne
    simp
    omega
  · rfl

/-- The directory that steps lead to, and their last name without its extension. -/
def directoryAndStem (steps : List (List Char)) : List (List Char) × Option (List Char) :=
  (steps.dropLast, steps.getLast?.map fun name => (splitExtension name).1)

/-- Whether the last one of some steps is a name, if there are any. -/
def EndInName (steps : List (List Char)) : Prop := ∀ name ∈ steps.getLast?, isName name = true

/-- **Steps become the same** if they have the same directory and their names the same stem. -/
theorem renamed_append_eq_iff {front a b : List (List Char)} (ha : EndInName a)
    (hb : EndInName b) :
    renamed (front ++ a) = renamed (front ++ b) ↔ directoryAndStem a = directoryAndStem b := by
  rcases List.eq_nil_or_concat a with rfl | ⟨a, name, rfl⟩ <;>
    rcases List.eq_nil_or_concat b with rfl | ⟨b, name', rfl⟩
  · exact ⟨fun _ => rfl, fun _ => rfl⟩
  -- A rename keeps the number of steps, so no steps and some never become the same.
  · refine ⟨fun h => ?_, fun h => absurd h (by simp [directoryAndStem])⟩
    have hlength := congrArg List.length h
    simp [length_renamed] at hlength
  · refine ⟨fun h => ?_, fun h => absurd h (by simp [directoryAndStem])⟩
    have hlength := congrArg List.length h
    simp [length_renamed] at hlength
  · have hname : isName name = true := ha name (by simp)
    have hname' : isName name' = true := hb name' (by simp)
    simp only [List.concat_eq_append, ← List.append_assoc, renamed_concat hname,
      renamed_concat hname']
    simp [directoryAndStem, nameWith]

/-! ## §2. Components that share a module -/

/-- Whether two paths lead through the same steps. -/
def SameSteps (p q : Path) : Prop := p.isAbsolute = q.isAbsolute ∧ p.steps = q.steps

/-- The place of a component with a name ends in that name, or is the project's directory. -/
theorem endInName_placeInProject {project component : Path} (h : component.fileName?.isSome) :
    EndInName (placeInProject project component).steps := by
  rw [placeInProject]
  cases hrest : component.relativeTo? project with
  | none =>
    rw [Option.getD_none, (steps_componentName component).1]
    rintro _ ⟨⟩
    exact (componentName_spec component).2.2
  | some rest =>
    obtain ⟨name, hname⟩ := Option.isSome_iff_exists.mp h
    obtain ⟨hsteps, hisName⟩ := steps_of_fileName? hname
    intro last hlast
    -- With a step behind the project the last step is the component's own.
    have hne : rest.steps ≠ [] := by
      intro hnil
      rw [Option.getD_some, hnil] at hlast
      cases hlast
    have hsame : component.steps.getLast? = some last := by
      rw [(relativeTo?_steps hrest).1, List.getLast?_append_of_ne_nil _ hne]
      exact hlast
    rw [hsteps, List.getLast?_concat] at hsame
    exact Option.some.inj hsame ▸ hisName

/-- The place of a component starts at the root only for a project without any directory. -/
theorem isAbsolute_placeInProject (project component : Path) :
    (placeInProject project component).isAbsolute
      = (component.isAbsolute && !(project.isAbsolute || !project.components.isEmpty)) := by
  rw [placeInProject]
  cases hrest : component.relativeTo? project with
  | none =>
    rw [Option.getD_none, (steps_componentName component).2]
    unfold relativeTo? at hrest
    split at hrest
    · next hproject => rw [hproject]; simp
    · exact absurd hrest (by simp)
  | some rest =>
    rw [Option.getD_some]
    obtain ⟨-, ⟨hcomponent, hrelative⟩ | ⟨hproject, -, hsame⟩⟩ := relativeTo?_steps hrest
    · rw [hrelative, hcomponent]
      cases project.isAbsolute <;> rfl
    · rw [hsame, hproject, Bool.false_or, Bool.not_not]
      cases hcomponents : project.components with
      | nil => simp
      | cons c cs =>
        unfold relativeTo? at hrest
        rw [hproject, hcomponents] at hrest
        cases habsolute : component.isAbsolute with
        | true => simp [habsolute] at hrest
        | false => rfl

/-- The steps in front of those of a place behind a directory. -/
def stepsInFront (out place : Path) : List (List Char) :=
  if place.isAbsolute then [] else out.steps

theorem steps_modulePath (out project component : Path) :
    (modulePath out project component).steps
      = renamed (stepsInFront out (placeInProject project component)
          ++ (placeInProject project component).steps) := by
  rw [modulePath_eq, steps_withModuleExtension, stepsInFront]
  refine congrArg renamed ?_
  cases habsolute : (placeInProject project component).isAbsolute with
  | true => rw [join, if_pos habsolute]; rfl
  | false => exact (steps_join habsolute).1

theorem isAbsolute_modulePath (out project component : Path) :
    (modulePath out project component).isAbsolute
      = ((placeInProject project component).isAbsolute || out.isAbsolute) := by
  rw [modulePath_eq, isAbsolute_withExtension _ slash_not_mem_moduleExtension]
  cases habsolute : (placeInProject project component).isAbsolute with
  | true => rw [join, if_pos habsolute, habsolute]; rfl
  | false => exact (steps_join habsolute).2

/-- **Which components share their module**: those whose places in the project have one directory
and names of one stem. -/
theorem sameSteps_modulePath_iff {out project p q : Path} (hp : p.fileName?.isSome)
    (hq : q.fileName?.isSome) (habsolute : p.isAbsolute = q.isAbsolute) :
    SameSteps (modulePath out project p) (modulePath out project q) ↔
      directoryAndStem (placeInProject project p).steps
        = directoryAndStem (placeInProject project q).steps := by
  have hsame : (placeInProject project p).isAbsolute = (placeInProject project q).isAbsolute := by
    rw [isAbsolute_placeInProject, isAbsolute_placeInProject, habsolute]
  have hfront : stepsInFront out (placeInProject project p)
      = stepsInFront out (placeInProject project q) := by rw [stepsInFront, stepsInFront, hsame]
  rw [SameSteps, isAbsolute_modulePath, isAbsolute_modulePath, hsame, steps_modulePath,
    steps_modulePath, hfront, renamed_append_eq_iff (endInName_placeInProject hp)
    (endInName_placeInProject hq)]
  exact and_iff_right rfl

/-! ## §3. What is collected -/

/-- Whether a path starts at the root and has a name. -/
structure IsNamed (p : Path) : Prop where
  isAbsolute : p.isAbsolute = true
  name : p.fileName?.isSome

theorem isAbsolute_join {p : Path} (h : p.isAbsolute = true) (q : Path) :
    (p.join q).isAbsolute = true := by
  cases hq : q.isAbsolute with
  | true => rw [join, if_pos hq, hq]
  | false => rw [(steps_join hq).2, h]

theorem mem_byName {α : Type} {named : List (String × α)} {n : String × α} :
    n ∈ byName named ↔ n ∈ named := List.mem_mergeSort

mutual

/-- The files of an entry at the end of a path from the root have paths from the root. -/
theorem isAbsolute_of_mem_filesOf {p : Path} (hp : p.isAbsolute = true) (e : Files.Entry) :
    ∀ q ∈ filesOf p e, q.isAbsolute = true := by
  intro q hq
  cases e with
  | file _ _ =>
    obtain rfl := List.mem_singleton.mp hq
    exact hp
  | directory entries =>
    obtain ⟨named, hnamed, hq⟩ := List.mem_flatMap.mp hq
    exact isAbsolute_of_mem_filesByName hp entries named (mem_byName.mp hnamed) q hq

theorem isAbsolute_of_mem_filesByName {p : Path} (hp : p.isAbsolute = true)
    (entries : List (String × Files.Entry)) :
    ∀ named ∈ filesByName p entries, ∀ q ∈ named.2, q.isAbsolute = true := by
  intro named hnamed
  cases entries with
  | nil => cases hnamed
  | cons e rest =>
    obtain ⟨name, entry⟩ := e
    rw [filesByName] at hnamed
    split at hnamed
    · exact isAbsolute_of_mem_filesByName hp rest named hnamed
    · rcases List.mem_cons.mp hnamed with rfl | hnamed
      · exact isAbsolute_of_mem_filesOf (isAbsolute_join hp _) entry
      · exact isAbsolute_of_mem_filesByName hp rest named hnamed

end

/-- The files that an input stands for start at the root and have names. -/
theorem isNamed_of_mem_filesOfInput {root : Files.Entry} {choice : Choice} {input : Path}
    {files : List Path} (h : filesOfInput root choice input = .ok files) :
    ∀ p ∈ files, IsNamed p := by
  unfold filesOfInput at h
  split at h
  · next hat =>
    cases h
    intro p hp
    obtain rfl := List.mem_singleton.mp hp
    have hends := Entry.endsInName_of_at? hat
    exact ⟨hends.isAbsolute, hends.isSome_fileName?⟩
  · next entry _ hat =>
    cases h
    intro p hp
    obtain ⟨hp, htakes⟩ := List.mem_filter.mp hp
    have habsolute : input.isAbsolute = true := by
      cases hsegments : Entry.segmentsOf? input with
      | none => simp [Entry.at?, Entry.place?, hsegments] at hat
      | some segments => exact (Entry.segmentsOf?_steps hsegments).2
    refine ⟨isAbsolute_of_mem_filesOf habsolute entry p hp, ?_⟩
    unfold Choice.takes Choice.hasExtension extension? at htakes
    cases hname : p.fileName? with
    | none => simp [hname] at htakes
    | some name => rfl
  · cases h

theorem mem_of_mem_keepFirst {kept rest : List Path} {p : Path}
    (h : p ∈ rest.foldl (fun kept p => if kept.any p.sameAs then kept else p :: kept) kept) :
    p ∈ kept ∨ p ∈ rest := by
  induction rest generalizing kept with
  | nil => exact .inl h
  | cons q rest ih =>
    rcases ih h with hkept | hrest
    · dsimp only at hkept
      split at hkept
      · exact .inl hkept
      · rcases List.mem_cons.mp hkept with rfl | hkept
        · exact .inr (List.mem_cons_self ..)
        · exact .inl hkept
    · exact .inr (List.mem_cons_of_mem q hrest)

theorem mem_of_mem_withoutRepeats {paths : List Path} {p : Path} (h : p ∈ withoutRepeats paths) :
    p ∈ paths :=
  (mem_of_mem_keepFirst (List.mem_reverse.mp h)).resolve_left List.not_mem_nil

theorem exists_of_mem_mapM {ε α β : Type} {f : α → Except ε β} {as : List α} {bs : List β}
    (h : as.mapM f = .ok bs) : ∀ b ∈ bs, ∃ a ∈ as, f a = .ok b := by
  induction as generalizing bs with
  | nil =>
    cases h
    simp
  | cons a as ih =>
    rw [List.mapM_cons] at h
    cases hb : f a with
    | error _ => simp [hb, bind, Except.bind] at h
    | ok b =>
      cases hbs : as.mapM f with
      | error _ => simp [hb, hbs, bind, Except.bind] at h
      | ok rest =>
        simp only [hb, hbs, bind, Except.bind, pure, Except.pure, Except.ok.injEq] at h
        subst h
        intro c hc
        rcases List.mem_cons.mp hc with rfl | hc
        · exact ⟨a, List.mem_cons_self .., hb⟩
        · obtain ⟨a', ha', hfa'⟩ := ih hbs c hc
          exact ⟨a', List.mem_cons_of_mem a ha', hfa'⟩

/-- **What is collected starts at the root and has a name.** -/
theorem isNamed_of_mem_collectInputs {root : Files.Entry} {choice : Choice} {inputs : List String}
    {files : List Path} (h : collectInputs root choice inputs = .ok files) :
    ∀ p ∈ files, IsNamed p := by
  intro p hp
  unfold collectInputs at h
  dsimp only at h
  generalize (if inputs.isEmpty then [choice.directory] else _) = paths at h
  cases hfiles : paths.mapM (filesOfInput root choice) with
  | error problem => rw [hfiles] at h; cases h
  | ok found =>
    rw [hfiles] at h
    cases h
    obtain ⟨named, hnamed, hp⟩ := List.mem_flatten.mp (mem_of_mem_withoutRepeats hp)
    obtain ⟨input, -, hinput⟩ := exists_of_mem_mapM hfiles named hnamed
    exact isNamed_of_mem_filesOfInput hinput p hp

/-! ## §4. What a run leaves -/

/-- No module is called like a map. -/
theorem steps_modulePath_ne_mapPath (out project component p : Path) :
    (modulePath out project component).steps ≠ (mapPath p).steps := by
  obtain ⟨front, last, hsplit⟩ := (List.eq_nil_or_concat (splitSlashes p.text.toList)).resolve_left
    (splitSlashes_ne_nil _)
  rw [List.concat_eq_append] at hsplit
  rw [steps_mapPath hsplit]
  intro heq
  have hlast : (modulePath out project component).steps.getLast? = some (last ++ mapEnding) := by
    rw [heq, List.getLast?_concat]
  have hname : (modulePath out project component).fileName? = some (last ++ mapEnding) := by
    rw [fileName?_eq, hlast, Option.filter_some_pos (mapName_spec last).2]
  rw [modulePath_eq] at hname hlast
  cases hjoined : (out.join (placeInProject project component)).fileName? with
  | none =>
    simp only [withExtension, hjoined] at hname
    cases hname
  | some name =>
    rw [(steps_withExtension hjoined slash_not_mem_moduleExtension).1, List.getLast?_concat]
      at hlast
    have hends := congrArg List.getLast? (Option.some.inj hlast)
    simp [nameWith, moduleExtension, mapEnding] at hends

/-- **What a run leaves of its components' modules.**  Two collected components share a module
exactly if their places in the project have one directory and names of one stem, and no module is
called like a map.  When everything was written, the module of a component is there with its map
if no later component has its module in that place. -/
theorem collectInputs_modules {root : Files.Entry} {choice : Choice} {inputs : List String}
    {files : List Path} (h : collectInputs root choice inputs = .ok files) (out : Path) :
    (∀ p ∈ files, ∀ q ∈ files,
      SameSteps (modulePath out choice.directory p) (modulePath out choice.directory q) ↔
        directoryAndStem (placeInProject choice.directory p).steps
          = directoryAndStem (placeInProject choice.directory q).steps) ∧
    (∀ p ∈ files, ∀ q ∈ files, (modulePath out choice.directory p).steps
      ≠ (mapPath (modulePath out choice.directory q)).steps) ∧
    ∀ (front : List Finished) (c : Finished) (behind : List Finished) (output : Output)
      (lines : List String) (r : Unit × List String) (before after : Files.Entry),
      (front ++ c :: behind).map Finished.path = files →
      c.output = some output →
      ((emitAll (.directory out choice.directory) (front ++ c :: behind)).run lines).Ends before r
        after →
      (∀ d ∈ behind, d.output.isSome → (modulePath out choice.directory d.path).target
        ≠ (modulePath out choice.directory c.path).target) →
      HasModule after (modulePath out choice.directory c.path) output := by
  have hnamed := isNamed_of_mem_collectInputs h
  refine ⟨fun p hp q hq => ?_, fun p _ q _ => steps_modulePath_ne_mapPath _ _ _ _,
    fun front c behind output lines r before after _ houtput hends hlast => ?_⟩
  · exact sameSteps_modulePath_iff (hnamed p hp).name (hnamed q hq).name
      ((hnamed p hp).isAbsolute.trans (hnamed q hq).isAbsolute.symm)
  · exact emitAll_hasModule hends houtput hlast

/-- A directory with two components that have one stem. -/
def twinFiles : Files.Entry :=
  .directory [("a.vue", .file .empty false), ("a.comp", .file .empty false)]

/-- What is chosen in a project in the root. -/
def twinChoice : Choice := ⟨⟨"/"⟩, ["vue", "comp"], []⟩

/-- The two components behind their transforms. -/
def twinComponents : List Finished :=
  [⟨⟨"/a.vue"⟩, some ⟨['1'], default⟩, true, []⟩, ⟨⟨"/a.comp"⟩, some ⟨['2'], default⟩, true, []⟩]

/-- The two components' modules being written. -/
def twinEmission : Except Path (Unit × List String) × Files.Entry :=
  ((emitAll (.directory ⟨"/out"⟩ ⟨"/"⟩) twinComponents).run []).run.run twinFiles

theorem collectInputs_twins : collectInputs twinFiles twinChoice ["a.vue", "a.comp"]
    = .ok (twinComponents.map Finished.path) := by decide +kernel

theorem twinEmission_eq : twinEmission = (.ok ((), []), twinEmission.2) := by
  have hfst : twinEmission.1 = .ok ((), []) := by decide +kernel
  rw [← hfst]

/-- Writing the two modules ends well. -/
theorem twinEmission_ends :
    ((emitAll (.directory ⟨"/out"⟩ ⟨"/"⟩) twinComponents).run []).Ends twinFiles ((), [])
      twinEmission.2 := twinEmission_eq

/-- Two components with one stem share their module, and it is the later one's. -/
theorem collectInputs_modules_twins :
    SameSteps (modulePath ⟨"/out"⟩ ⟨"/"⟩ ⟨"/a.vue"⟩) (modulePath ⟨"/out"⟩ ⟨"/"⟩ ⟨"/a.comp"⟩) ∧
      HasModule twinEmission.2 (modulePath ⟨"/out"⟩ ⟨"/"⟩ ⟨"/a.comp"⟩) ⟨['2'], default⟩ := by
  obtain ⟨hsame, -, hleft⟩ := collectInputs_modules collectInputs_twins ⟨"/out"⟩
  refine ⟨(hsame _ (by decide +kernel) _ (by decide +kernel)).mpr (by decide +kernel), ?_⟩
  exact hleft [⟨⟨"/a.vue"⟩, some ⟨['1'], default⟩, true, []⟩]
    ⟨⟨"/a.comp"⟩, some ⟨['2'], default⟩, true, []⟩ [] _ [] _ _ _ rfl rfl twinEmission_ends (by simp)

/-- Two different components can be collected whose modules have one path, and then the first
one's module is lost although everything was written. -/
theorem collectInputs_lostModule :
    collectInputs twinFiles twinChoice ["a.vue", "a.comp"] = .ok [⟨"/a.vue"⟩, ⟨"/a.comp"⟩] ∧
      modulePath ⟨"/out"⟩ ⟨"/"⟩ ⟨"/a.vue"⟩ = modulePath ⟨"/out"⟩ ⟨"/"⟩ ⟨"/a.comp"⟩ ∧
      twinEmission.1 = .ok ((), []) ∧
      ¬HasModule twinEmission.2 (modulePath ⟨"/out"⟩ ⟨"/"⟩ ⟨"/a.vue"⟩) ⟨['1'], default⟩ := by
  have hpath : modulePath ⟨"/out"⟩ ⟨"/"⟩ ⟨"/a.vue"⟩ = modulePath ⟨"/out"⟩ ⟨"/"⟩ ⟨"/a.comp"⟩ := by
    decide +kernel
  refine ⟨collectInputs_twins, hpath, congrArg Prod.fst twinEmission_eq, fun hfirst => ?_⟩
  have hends : ((emitAll (.directory ⟨"/out"⟩ ⟨"/"⟩)
      ([⟨⟨"/a.vue"⟩, some ⟨['1'], default⟩, true, []⟩] ++
        [⟨⟨"/a.comp"⟩, some ⟨['2'], default⟩, true, []⟩])).run []).Ends twinFiles ((), [])
      twinEmission.2 := twinEmission_ends
  have hsecond := emitAll_hasModule hends rfl (by simp)
  have hcode := hfirst.code
  rw [hpath, hsecond.code] at hcode
  exact absurd (congrArg List.head? (Option.some.inj hcode)) (by simp [moduleFile])

end SingleFile.Command
