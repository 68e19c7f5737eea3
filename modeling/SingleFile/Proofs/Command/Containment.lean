/-
  SingleFile.Proofs.Command.Containment — MODULES AND THE OUTPUT DIRECTORY
  ────────────────────────────────────────────────────────────────────────
  A module is put behind the output directory as its component stands behind
  the project's directory, and a component that does not stand behind it goes
  right into the output directory.  What stands behind a directory may climb
  back out of it, though, and then the module climbs out of the output
  directory as well.

  Main results:
    * `target_modulePath` — where a module goes.
    * `modulePath_staysInside_iff` — the components whose modules stay inside
      every output directory.
-/
import SingleFile.Command.Output
import SingleFile.Proofs.Files.Resolution

namespace SingleFile.Command

open SingleFile.Files Path

/-! ## §1. Where a module goes -/

/-- The extension of modules. -/
def moduleExtension : String := "js"

/-- The name of a component; what has no name is called a component. -/
def componentName (component : Path) : List Char :=
  component.fileName?.getD "component".toList

/-- The path of a component in its project: what stands behind the project's directory, or else the
component's name alone. -/
def placeInProject (project component : Path) : Path :=
  (component.relativeTo? project).getD ⟨String.ofList (componentName component)⟩

theorem modulePath_eq (out project component : Path) : modulePath out project component
    = (out.join (placeInProject project component)).withExtension moduleExtension := by
  unfold modulePath placeInProject componentName
  cases component.relativeTo? project with
  | some rest => rfl
  | none => cases component.fileName? <;> rfl

theorem slash_not_mem_moduleExtension : '/' ∉ moduleExtension.toList := by decide

theorem isName_moduleName (name : List Char) : isName (nameWith moduleExtension name) = true :=
  isName_nameWith (by decide) (by decide) name

/-- The name of a component is a step, and no way out of a directory. -/
theorem componentName_spec (component : Path) : '/' ∉ componentName component ∧
    isStep (componentName component) = true ∧ isName (componentName component) = true := by
  unfold componentName
  cases hname : component.fileName? with
  | none => decide
  | some name =>
    obtain ⟨hsteps, hisName⟩ := steps_of_fileName? hname
    have hmem : name ∈ component.steps :=
      hsteps ▸ List.mem_append_right _ (List.mem_singleton_self name)
    exact ⟨not_mem_of_mem_steps hmem, (List.mem_filter.mp hmem).2, hisName⟩

/-- A name alone is a relative path of one step. -/
theorem steps_componentName (component : Path) :
    (⟨String.ofList (componentName component)⟩ : Path).steps = [componentName component] ∧
      (⟨String.ofList (componentName component)⟩ : Path).isAbsolute = false := by
  obtain ⟨hslash, hstep, -⟩ := componentName_spec component
  constructor
  · rw [steps, String.toList_ofList, stepsOf, splitSlashes_of_not_mem hslash]
    simp [hstep]
  · rw [isAbsolute, String.toList_ofList]
    cases hname : componentName component with
    | nil => rfl
    | cons c cs =>
      have hc : c ≠ '/' := fun hc => hslash (hname ▸ hc ▸ List.mem_cons_self ..)
      simpa using hc

/-- Another extension gives the last step behind a directory another extension. -/
theorem target_withExtension_join {out rest : Path} (extension : String)
    (hrest : rest.isAbsolute = false) (hne : rest.steps ≠ []) (hslash : '/' ∉ extension.toList) :
    ((out.join rest).withExtension extension).target
      = (Target.climb (rest.withExtension extension).target.up out.target).enter
        (rest.withExtension extension).target.trail := by
  obtain ⟨hsteps, habsolute⟩ := steps_join (p := out) hrest
  have hlast : (out.join rest).steps.getLast? = rest.steps.getLast? := by
    rw [hsteps]
    exact List.getLast?_append_of_ne_nil _ hne
  have hfile : (out.join rest).fileName? = rest.fileName? := by
    rw [fileName?_eq, fileName?_eq, hlast]
  cases hname : rest.fileName? with
  | none =>
    -- Without a name neither path is changed.
    have hsame : rest.withExtension extension = rest := by simp only [withExtension, hname]
    have hsame' : (out.join rest).withExtension extension = out.join rest := by
      simp only [withExtension, hfile, hname]
    rw [hsame, hsame', target_join hrest]
  | some name =>
    obtain ⟨hwhole, hwholeAbsolute⟩ := steps_withExtension (hfile.trans hname) hslash
    obtain ⟨hown, hownAbsolute⟩ := steps_withExtension hname hslash
    have hdrop : (out.steps ++ rest.steps).dropLast = out.steps ++ rest.steps.dropLast :=
      List.dropLast_append_of_ne_nil hne
    rw [hsteps, hdrop, List.append_assoc, ← hown] at hwhole
    rw [target, hwhole, hwholeAbsolute, habsolute, List.foldl_append, Target.foldl_step, target,
      target, hownAbsolute, hrest]

/-- **Where a module goes**: from the output directory as far up as its component stands up from
the project's directory, and then down. -/
theorem target_modulePath {out project component : Path}
    (hrelative : (placeInProject project component).isAbsolute = false)
    (hne : (placeInProject project component).steps ≠ []) :
    (modulePath out project component).target
      = (Target.climb ((placeInProject project component).withExtension moduleExtension).target.up
          out.target).enter
        ((placeInProject project component).withExtension moduleExtension).target.trail := by
  rw [modulePath_eq]
  exact target_withExtension_join moduleExtension hrelative hne slash_not_mem_moduleExtension

/-- Another extension leads as far up. -/
theorem up_withExtension (p : Path) :
    (p.withExtension moduleExtension).target.up = p.target.up := by
  cases hname : p.fileName? with
  | none => simp only [withExtension, hname]
  | some name =>
    obtain ⟨directory, hp, hmodule⟩ :=
      target_withExtension hname slash_not_mem_moduleExtension (isName_moduleName name)
    rw [hp, hmodule]
    rfl

/-- A component that does not stand behind the project's directory goes right into the output
directory, under its name. -/
theorem target_modulePath_outside {out project component : Path}
    (h : component.relativeTo? project = none) : (modulePath out project component).target
      = out.target.enter [nameWith moduleExtension (componentName component)] := by
  obtain ⟨hslash, hstep, hisName⟩ := componentName_spec component
  obtain ⟨hsteps, habsolute⟩ := steps_componentName component
  have hplace : placeInProject project component = ⟨String.ofList (componentName component)⟩ := by
    rw [placeInProject, h]
    rfl
  have hname : (⟨String.ofList (componentName component)⟩ : Path).fileName?
      = some (componentName component) := by
    rw [fileName?_eq, hsteps]
    simp [hisName]
  obtain ⟨hsteps', habsolute'⟩ := steps_withExtension hname slash_not_mem_moduleExtension
  rw [hsteps, List.dropLast_singleton] at hsteps'
  have htarget : ((⟨String.ofList (componentName component)⟩ : Path).withExtension
      moduleExtension).target
      = (Target.start false).enter [nameWith moduleExtension (componentName component)] := by
    rw [target_of_steps hsteps' (isName_moduleName _), habsolute', habsolute]
    rfl
  rw [target_modulePath (hplace ▸ habsolute) (hplace ▸ by rw [hsteps]; simp), hplace, htarget]
  rfl

/-! ## §2. Inside and outside -/

/-- Whether the module of a component stays inside an output directory, and goes right into it if
the component lies outside of the project's directory. -/
structure StaysInside (out project component : Path) : Prop where
  inside : (modulePath out project component).target.LiesUnder out.target
  direct : ¬component.target.LiesUnder project.target → ∀ name, component.fileName? = some name →
    (modulePath out project component).target = out.target.enter [nameWith moduleExtension name]

/-- Whether what stands behind a directory leads into it: not to the directory itself, and never
out of it. -/
structure LeadsInto (rest : Path) : Prop where
  relative : rest.isAbsolute = false
  nonempty : rest.steps ≠ []
  level : rest.target.up = 0

theorem placeInProject_of_relativeTo? {project component rest : Path}
    (h : component.relativeTo? project = some rest) : placeInProject project component = rest := by
  rw [placeInProject, h]
  rfl

/-- A component that stands behind the project's directory and leads into it has its module in the
output directory. -/
theorem staysInside_of_leadsInto {out project component rest : Path}
    (h : component.relativeTo? project = some rest) (hrest : LeadsInto rest) :
    StaysInside out project component where
  inside := by
    have hplace := placeInProject_of_relativeTo? h
    rw [target_modulePath (hplace ▸ hrest.relative) (hplace ▸ hrest.nonempty), hplace,
      up_withExtension, hrest.level]
    exact Target.enter_liesUnder ..
  direct houtside := by
    rw [target_of_relativeTo? h hrest.relative, hrest.level] at houtside
    exact absurd (Target.enter_liesUnder ..) houtside

theorem staysInside_outside {out project component : Path}
    (h : component.relativeTo? project = none) : StaysInside out project component where
  inside := by
    rw [target_modulePath_outside h]
    exact Target.enter_liesUnder ..
  direct _ name hname := by
    rw [target_modulePath_outside h, componentName, hname]
    rfl

/-- A module that climbs does not stay inside both of two directories in the root. -/
theorem level_of_staysInside {project component rest : Path}
    (h : component.relativeTo? project = some rest) (hrelative : rest.isAbsolute = false)
    (hne : rest.steps ≠ []) (hstays : ∀ out, StaysInside out project component) :
    rest.target.up = 0 := by
  have hplace := placeInProject_of_relativeTo? h
  cases hup : rest.target.up with
  | zero => rfl
  | succ n =>
    -- Climbing leaves a directory in the root, and the way down then would have to begin with the
    -- names of both directories.
    have hclimbs (out : Path) (name : List Char) (hout : out.target = ⟨true, 0, [name]⟩) :
        [name] <:+ (rest.withExtension moduleExtension).target.trail := by
      have hinside := (hstays out).inside
      rw [target_modulePath (hplace ▸ hrelative) (hplace ▸ hne), hplace, up_withExtension, hup,
        hout, Target.climb_succ_of_root] at hinside
      have hsuffix : [name] <:+ _ ++ [] := hinside.2.2
      rwa [List.append_nil] at hsuffix
    obtain ⟨front, ha⟩ := hclimbs ⟨"/a"⟩ ['a'] (by decide +kernel)
    obtain ⟨front', hb⟩ := hclimbs ⟨"/b"⟩ ['b'] (by decide +kernel)
    exact absurd (List.append_inj_right' (ha.trans hb.symm) rfl) (by decide)

/-- What stands behind the project's directory leads into it, if the component's module stays
inside every output directory. -/
theorem leadsInto_of_staysInside {project component rest : Path}
    (h : component.relativeTo? project = some rest)
    (hstays : ∀ out, StaysInside out project component) : LeadsInto rest := by
  have hmodule (out : Path) : modulePath out project component
      = (out.join rest).withExtension moduleExtension := by
    rw [modulePath_eq, placeInProject_of_relativeTo? h]
  have hrelative : rest.isAbsolute = false := by
    by_contra habsolute
    rw [Bool.not_eq_false] at habsolute
    have hinside := (hstays ⟨""⟩).inside.1
    have hjoin : (⟨""⟩ : Path).join rest = rest := by rw [join, if_pos habsolute]
    rw [isAbsolute_target, hmodule, hjoin, isAbsolute_withExtension _ slash_not_mem_moduleExtension,
      habsolute] at hinside
    exact absurd hinside (by decide)
  have hne : rest.steps ≠ [] := by
    intro hnil
    -- The module is then the output directory itself with another extension.
    have hinside := (hstays ⟨"/a"⟩).inside.2.2
    obtain ⟨hsteps, habsolute⟩ := steps_join (p := ⟨"/a"⟩) hrelative
    have hout : (⟨"/a"⟩ : Path).steps = [['a']] := by decide +kernel
    rw [hnil, hout, List.append_nil] at hsteps
    have hname : ((⟨"/a"⟩ : Path).join rest).fileName? = some ['a'] := by
      rw [fileName?_eq, hsteps]
      rfl
    obtain ⟨hsteps', -⟩ := steps_withExtension hname slash_not_mem_moduleExtension
    rw [hsteps] at hsteps'
    have htrail : (⟨"/a"⟩ : Path).target.trail = [['a']] := by decide +kernel
    rw [hmodule, target_of_steps hsteps' (isName_moduleName _), htrail] at hinside
    have hsuffix : [['a']] <:+ [nameWith moduleExtension ['a']] := hinside
    exact absurd hsuffix (by decide +kernel)
  exact ⟨hrelative, hne, level_of_staysInside h hrelative hne hstays⟩

/-- **Which modules stay inside.**  The module of a component stays inside every output directory,
and goes right into it if the component lies outside of the project's directory, exactly if what
stands behind that directory, if the component stands behind it at all, leads into it. -/
theorem modulePath_staysInside_iff (project input : Path) :
    (∀ out, StaysInside out project (project.join input)) ↔
      ∀ rest, (project.join input).relativeTo? project = some rest → LeadsInto rest := by
  constructor
  · intro hstays rest hrest
    exact leadsInto_of_staysInside hrest hstays
  · intro hleads out
    cases hrest : (project.join input).relativeTo? project with
    | none => exact staysInside_outside hrest
    | some rest => exact staysInside_of_leadsInto hrest (hleads rest hrest)

/-- A component beside the project's directory that is named through it has its module beside the
output directory. -/
theorem modulePath_climbingInput :
    modulePath ⟨"/out"⟩ ⟨"/project"⟩ ((⟨"/project"⟩ : Path).join ⟨"../Bar.vue"⟩)
        = ⟨"/out/../Bar.js"⟩ ∧
      ¬StaysInside ⟨"/out"⟩ ⟨"/project"⟩ ((⟨"/project"⟩ : Path).join ⟨"../Bar.vue"⟩) := by
  have hpath : modulePath ⟨"/out"⟩ ⟨"/project"⟩ ((⟨"/project"⟩ : Path).join ⟨"../Bar.vue"⟩)
      = ⟨"/out/../Bar.js"⟩ := by decide +kernel
  refine ⟨hpath, fun h => ?_⟩
  have hinside := h.inside
  rw [hpath] at hinside
  revert hinside
  decide +kernel

end SingleFile.Command
