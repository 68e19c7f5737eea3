/-
  SingleFile.Proofs.Component.ModuleForm — WHAT BECOMES OF MODULES
  ────────────────────────────────────────────────────────────────
  Among the presets that lower modules one decides, the one whose short name
  comes first in the list of their names, wherever it stands in the
  configuration.  Only where there is no such preset are the plugins asked.

  Main results:
    * `shortName?_eq_iff` — the packages with a short name.
    * `findSome?_preset?_eq_some_iff` — the preset that decides.
    * `transpilerOptions_commonJs_iff` — when modules are lowered.
-/
import Mathlib.Data.List.Nodup
import Mathlib.Data.List.Pairwise
import SingleFile.Component.ScriptLanguage
import SingleFile.Proofs.Markup.Progress

/-! ## §1. Names of packages -/

namespace SingleFile.Config

open SingleFile.Text

/-- The names of the packages that may have a short name. -/
def packageNames (short : String) : List String :=
  short :: packagePrefixes.map fun start => start ++ short

theorem eq_append_of_afterPrefix? {start cs rest : List Char}
    (h : afterPrefix? start cs = some rest) : cs = start ++ rest := by
  induction start generalizing cs with
  | nil => exact Option.some.inj h
  | cons p ps ih =>
    cases cs with
    | nil => cases h
    | cons c cs =>
      rw [afterPrefix?] at h
      split at h
      · next heq => rw [heq, ih h, List.cons_append]
      · cases h

/-- A name is one of those that may have its short name. -/
theorem mem_packageNames_shortName (name : String) : name ∈ packageNames (shortName name) := by
  unfold shortName
  cases hstripped : packagePrefixes.findSome? fun start =>
      afterPrefix? start.toList name.toList with
  | none => exact List.mem_cons_self ..
  | some rest =>
    obtain ⟨start, hstart, hrest⟩ := List.exists_of_findSome?_eq_some hstripped
    have hname : name = start ++ String.ofList rest := by
      rw [← String.toList_inj, String.toList_append, String.toList_ofList]
      exact eq_append_of_afterPrefix? hrest
    exact List.mem_cons_of_mem _ (List.mem_map.mpr ⟨start, hstart, hname.symm⟩)

/-- The characters of a package name without what it begins with. -/
def strippedName (name : List Char) : List Char :=
  ((packagePrefixes.map String.toList).findSome? fun start => afterPrefix? start name).getD name

theorem shortName_eq_iff (name short : String) :
    shortName name = short ↔ strippedName name.toList = short.toList := by
  rw [shortName, strippedName, List.findSome?_map]
  show ((packagePrefixes.findSome? fun start => afterPrefix? start.toList name.toList).map
      String.ofList).getD name = short ↔
    (packagePrefixes.findSome? fun start => afterPrefix? start.toList name.toList).getD
      name.toList = short.toList
  cases packagePrefixes.findSome? fun start => afterPrefix? start.toList name.toList with
  | none => simp [String.toList_inj]
  | some rest => simp [← String.toList_inj]

namespace Entry

/-- Whether an entry names a package that may have a short name. -/
def IsNamed (short : String) (e : Entry) : Prop := ∃ name ∈ packageNames short, e.name? = some name

/-- Whether all packages that may have a short name have it. -/
def IsShort (short : String) : Prop := ∀ name ∈ packageNames short, shortName name = short

/-- The names of packages are compared by their characters. -/
theorem isShort_of_strippedName {short : String}
    (h : ∀ start ∈ [] :: packagePrefixes.map String.toList,
      strippedName (start ++ short.toList) = short.toList) : IsShort short := by
  intro name hname
  rw [shortName_eq_iff]
  rcases List.mem_cons.mp hname with rfl | hname
  · exact h [] (List.mem_cons_self ..)
  · obtain ⟨start, hstart, rfl⟩ := List.mem_map.mp hname
    rw [String.toList_append]
    exact h start.toList (List.mem_cons_of_mem _ (List.mem_map_of_mem hstart))

/-- **The packages with a short name.** -/
theorem shortName?_eq_iff {short : String} (hshort : IsShort short) (e : Entry) :
    e.shortName? = some short ↔ e.IsNamed short := by
  rw [shortName?, Option.map_eq_some_iff]
  constructor
  · rintro ⟨name, hname, rfl⟩
    exact ⟨name, mem_packageNames_shortName name, hname⟩
  · rintro ⟨name, hmem, hname⟩
    exact ⟨name, hname, hshort name hmem⟩

theorem IsNamed.eq {short short' : String} (hshort : IsShort short) (hshort' : IsShort short')
    {e : Entry} (h : e.IsNamed short) (h' : e.IsNamed short') : short = short' := by
  have hname := (shortName?_eq_iff hshort e).mpr h
  rw [(shortName?_eq_iff hshort' e).mpr h'] at hname
  exact (Option.some.inj hname).symm

/-- Whether no two of some entries have one short name. -/
def OnePerName (entries : List Entry) : Prop := (entries.filterMap shortName?).Nodup

instance (entries : List Entry) : Decidable (OnePerName entries) :=
  inferInstanceAs (Decidable (List.Nodup _))

theorem OnePerName.eq {entries : List Entry} (h : OnePerName entries) {e e' : Entry}
    {short : String} (he : e ∈ entries) (he' : e' ∈ entries) (hshort : e.shortName? = some short)
    (hshort' : e'.shortName? = some short) : e = e' := by
  have hsymm : Std.Symm fun a b : Entry => ∀ s, a.shortName? = some s →
      ∀ s', b.shortName? = some s' → s ≠ s' :=
    ⟨fun a b hab s hs s' hs' => (hab s' hs' s hs).symm⟩
  by_contra hne
  exact (List.pairwise_filterMap.mp h).forall he he' hne short hshort short hshort' rfl

/-- A search by short name finds an entry with that name. -/
theorem find?_shortName_eq_some {entries : List Entry} {short : String} {e : Entry}
    (h : (entries.find? fun e => e.shortName? == some short) = some e) :
    e ∈ entries ∧ e.shortName? = some short :=
  ⟨List.mem_of_find?_eq_some h, by simpa using List.find?_some h⟩

theorem find?_shortName_eq_none_iff {entries : List Entry} {short : String} :
    (entries.find? fun e => e.shortName? == some short) = none ↔
      ∀ e ∈ entries, e.shortName? ≠ some short := by
  simp [List.find?_eq_none]

end Entry

end SingleFile.Config

namespace SingleFile.Component

open SingleFile.Config SingleFile.Config.Entry SingleFile.Script

/-! ## §2. The preset that decides -/

/-- The short names that tell how modules are treated are no beginnings of other names. -/
theorem isShort_of_mem (short : String) (h : short ∈ modulePresets ++ modulePlugins) :
    IsShort short := by
  apply isShort_of_strippedName
  revert short
  decide +kernel

theorem isShort_modulePreset {short : String} (h : short ∈ modulePresets) : IsShort short :=
  isShort_of_mem short (List.mem_append_left _ h)

theorem isShort_modulePlugin {short : String} (h : short ∈ modulePlugins) : IsShort short :=
  isShort_of_mem short (List.mem_append_right _ h)

/-- Whether an entry is a preset that lowers modules unless it is told not to. -/
def IsModulePreset (e : Config.Entry) : Prop := ∃ short ∈ modulePresets, e.IsNamed short

/-- Whether an entry is a plugin that lowers modules. -/
def IsModulePlugin (e : Config.Entry) : Prop := ∃ short ∈ modulePlugins, e.IsNamed short

/-- Whether the options of an entry set `modules` to false. -/
def LeavesModules (e : Config.Entry) : Prop :=
  ∃ options, e.options? = some options ∧ options.member? "modules" = some (.bool false)

/-- Whether a preset is the one of some presets that decides about modules: no other one's short
name comes earlier in the list of the names. -/
def Decides (presets : List Config.Entry) (e : Config.Entry) : Prop :=
  e ∈ presets ∧ ∃ short ∈ modulePresets, e.IsNamed short ∧
    ∀ e' ∈ presets, ∀ short' ∈ modulePresets, e'.IsNamed short' →
      modulePresets.idxOf short ≤ modulePresets.idxOf short'

theorem keepsModules_iff (e : Config.Entry) : keepsModules e = true ↔ LeavesModules e := by
  unfold keepsModules LeavesModules
  cases e.options? with
  | none => simp
  | some options =>
    cases hmember : options.member? "modules" with
    | none => simp [hmember]
    | some value => cases value <;> simp [hmember]

theorem decides_congr {presets presets' : List Config.Entry}
    (h : ∀ e, e ∈ presets ↔ e ∈ presets') (e : Config.Entry) :
    Decides presets e ↔ Decides presets' e := by
  simp only [Decides, h]

/-- The preset that a search through the short names finds decides. -/
theorem decides_of_findSome? {c : Transpiler} {e : Config.Entry}
    (h : modulePresets.findSome? c.preset? = some e) : Decides c.presets e := by
  obtain ⟨before, short, behind, hpresets, hfound, hbefore⟩ := List.findSome?_eq_some_iff.mp h
  have hmem : short ∈ modulePresets := hpresets ▸ by simp
  obtain ⟨he, hshort⟩ := find?_shortName_eq_some hfound
  refine ⟨he, short, hmem, (shortName?_eq_iff (isShort_modulePreset hmem) e).mp hshort,
    fun e' he' short' hmem' hnamed => ?_⟩
  -- A short name in front of the one that was found has no preset.
  have hlater : short' ∉ before := fun hbetter =>
    find?_shortName_eq_none_iff.mp (hbefore short' hbetter) e' he'
      ((shortName?_eq_iff (isShort_modulePreset hmem') e').mpr hnamed)
  have hindex : modulePresets.idxOf short ≤ before.length := by
    rw [hpresets, List.idxOf_append]
    split
    · exact List.idxOf_le_length
    · simp
  calc modulePresets.idxOf short ≤ before.length := hindex
    _ ≤ before.length + (short :: behind).idxOf short' := Nat.le_add_right ..
    _ = modulePresets.idxOf short' := by rw [hpresets, List.idxOf_append_of_notMem hlater]

theorem Decides.eq {presets : List Config.Entry} (h : OnePerName presets) {e e' : Config.Entry}
    (he : Decides presets e) (he' : Decides presets e') : e = e' := by
  obtain ⟨hmem, short, hshort, hnamed, hfirst⟩ := he
  obtain ⟨hmem', short', hshort', hnamed', hfirst'⟩ := he'
  have hsame : short = short' := (List.idxOf_inj hshort).mp (Nat.le_antisymm
    (hfirst e' hmem' short' hshort' hnamed') (hfirst' e hmem short hshort hnamed))
  subst hsame
  have hname := shortName?_eq_iff (isShort_modulePreset hshort)
  exact h.eq hmem hmem' ((hname e).mpr hnamed) ((hname e').mpr hnamed')

theorem findSome?_preset?_eq_none_iff {c : Transpiler} :
    modulePresets.findSome? c.preset? = none ↔ ∀ e ∈ c.presets, ¬IsModulePreset e := by
  rw [List.findSome?_eq_none_iff]
  constructor
  · rintro hnone e he ⟨short, hshort, hnamed⟩
    exact find?_shortName_eq_none_iff.mp (hnone short hshort) e he
      ((shortName?_eq_iff (isShort_modulePreset hshort) e).mpr hnamed)
  · intro hnone short hshort
    refine find?_shortName_eq_none_iff.mpr fun e he hname => hnone e he ⟨short, hshort, ?_⟩
    exact (shortName?_eq_iff (isShort_modulePreset hshort) e).mp hname

/-- **The preset that decides** is the one that a search through the short names finds. -/
theorem findSome?_preset?_eq_some_iff {c : Transpiler} (h : OnePerName c.presets)
    {e : Config.Entry} :
    modulePresets.findSome? c.preset? = some e ↔ Decides c.presets e := by
  refine ⟨decides_of_findSome?, fun hdecides => ?_⟩
  cases hfound : modulePresets.findSome? c.preset? with
  | none =>
    obtain ⟨hmem, short, hshort, hnamed, -⟩ := hdecides
    exact absurd ⟨short, hshort, hnamed⟩ (findSome?_preset?_eq_none_iff.mp hfound e hmem)
  | some e' => rw [(decides_of_findSome? hfound).eq h hdecides]

/-! ## §3. When modules are lowered -/

/-- Whether a configuration lowers modules: the preset that decides does not leave them alone, or
there is none and a plugin lowers them. -/
def LowersModules (c : Transpiler) : Prop :=
  (∃ e, Decides c.presets e ∧ ¬LeavesModules e) ∨
    (∀ e ∈ c.presets, ¬IsModulePreset e) ∧ ∃ e ∈ c.plugins, IsModulePlugin e

theorem any_modulePlugins_iff (c : Transpiler) :
    (modulePlugins.any fun name => (c.plugin? name).isSome) = true ↔
      ∃ e ∈ c.plugins, IsModulePlugin e := by
  rw [List.any_eq_true]
  constructor
  · rintro ⟨short, hshort, hsome⟩
    obtain ⟨e, hfound⟩ := Option.isSome_iff_exists.mp hsome
    obtain ⟨he, hname⟩ := find?_shortName_eq_some hfound
    exact ⟨e, he, short, hshort, (shortName?_eq_iff (isShort_modulePlugin hshort) e).mp hname⟩
  · rintro ⟨e, he, short, hshort, hnamed⟩
    refine ⟨short, hshort, List.find?_isSome.mpr ⟨e, he, beq_iff_eq.mpr ?_⟩⟩
    exact (shortName?_eq_iff (isShort_modulePlugin hshort) e).mpr hnamed

theorem transpilerForm_of_preset {c : Transpiler} {e : Config.Entry}
    (h : modulePresets.findSome? c.preset? = some e) :
    transpilerForm c = .commonJs ↔ ¬LeavesModules e := by
  rw [transpilerForm, h, ← keepsModules_iff]
  cases hkept : keepsModules e <;> simp [hkept]

theorem transpilerForm_of_no_preset {c : Transpiler}
    (h : modulePresets.findSome? c.preset? = none) :
    transpilerForm c = .commonJs ↔ ∃ e ∈ c.plugins, IsModulePlugin e := by
  rw [transpilerForm, h, ← any_modulePlugins_iff]
  cases hplugin : modulePlugins.any fun name => (c.plugin? name).isSome <;> simp

theorem transpilerForm_commonJs_iff {c : Transpiler} (h : OnePerName c.presets) :
    transpilerForm c = .commonJs ↔ LowersModules c := by
  cases hfound : modulePresets.findSome? c.preset? with
  | some preset =>
    have hdecides := (findSome?_preset?_eq_some_iff h).mp hfound
    rw [transpilerForm_of_preset hfound]
    constructor
    · exact fun hlowers => .inl ⟨preset, hdecides, hlowers⟩
    · rintro (⟨e, he, hlowers⟩ | ⟨hnone, -⟩)
      · rwa [he.eq h hdecides] at hlowers
      · obtain ⟨hmem, short, hshort, hnamed, -⟩ := hdecides
        exact absurd ⟨short, hshort, hnamed⟩ (hnone preset hmem)
  | none =>
    have hnone := findSome?_preset?_eq_none_iff.mp hfound
    rw [transpilerForm_of_no_preset hfound]
    constructor
    · exact fun hplugin => .inr ⟨hnone, hplugin⟩
    · rintro (⟨e, ⟨hmem, short, hshort, hnamed, -⟩, -⟩ | ⟨-, hplugin⟩)
      · exact absurd ⟨short, hshort, hnamed⟩ (hnone e hmem)
      · exact hplugin

/-! ## §4. What makes no difference -/

theorem form_eq_of_iff {a b : ModuleForm} (h : a = .commonJs ↔ b = .commonJs) : a = b := by
  cases a <;> cases b <;> simp_all

/-- Whether an entry is a module preset whose short name comes later in the list of the names than
that of a preset. -/
def ComesLater (presets : List Config.Entry) (e : Config.Entry) : Prop :=
  ∃ short ∈ modulePresets, e.IsNamed short ∧ ∃ e' ∈ presets, ∃ short' ∈ modulePresets,
    e'.IsNamed short' ∧ modulePresets.idxOf short' < modulePresets.idxOf short

/-- A preset that comes later does not take the decision from another one. -/
theorem Decides.cons {presets : List Config.Entry} {e d : Config.Entry} (h : Decides presets d)
    (hlater : ComesLater presets e) : Decides (e :: presets) d := by
  obtain ⟨hmem, first, hfirst, hnamed, hleast⟩ := h
  obtain ⟨short, hshort, he, e', he', short', hshort', hnamed', hlt⟩ := hlater
  refine ⟨List.mem_cons_of_mem _ hmem, first, hfirst, hnamed, fun other hother name hname hn => ?_⟩
  rcases List.mem_cons.mp hother with rfl | hother
  · obtain rfl := hn.eq (isShort_modulePreset hname) (isShort_modulePreset hshort) he
    exact Nat.le_trans (hleast e' he' short' hshort' hnamed') (Nat.le_of_lt hlt)
  · exact hleast other hother name hname hn

/-- What decides about modules is the same for the same entries. -/
theorem lowersModules_congr {c c' : Transpiler} (hpresets : ∀ e, e ∈ c.presets ↔ e ∈ c'.presets)
    (hplugins : ∀ e, e ∈ c.plugins ↔ e ∈ c'.plugins) : LowersModules c ↔ LowersModules c' := by
  simp only [LowersModules, decides_congr hpresets, hpresets, hplugins]

theorem exists_decides {c : Transpiler} {e : Config.Entry} (h : e ∈ c.presets)
    (hmodule : IsModulePreset e) : ∃ d, Decides c.presets d := by
  cases hfound : modulePresets.findSome? c.preset? with
  | some d => exact ⟨d, decides_of_findSome? hfound⟩
  | none => exact absurd hmodule (findSome?_preset?_eq_none_iff.mp hfound e h)

/-- **When modules are lowered**: exactly if the preset that decides does not leave them alone, or
there is no module preset and a plugin lowers them.  The order of the entries makes no difference,
nor does another module preset whose short name comes later. -/
theorem transpilerOptions_commonJs_iff {c : Transpiler} (h : OnePerName c.presets) :
    ((transpilerOptions c).form = .commonJs ↔ LowersModules c) ∧
      (∀ other : Transpiler, other.presets.Perm c.presets → other.plugins.Perm c.plugins →
        (transpilerOptions other).form = (transpilerOptions c).form) ∧
      ∀ (other : Transpiler) (e : Config.Entry), other.presets.Perm (e :: c.presets) →
        other.plugins.Perm c.plugins → OnePerName other.presets → ComesLater c.presets e →
        (transpilerOptions other).form = (transpilerOptions c).form := by
  have hform : (transpilerOptions c).form = .commonJs ↔ LowersModules c :=
    transpilerForm_commonJs_iff h
  refine ⟨hform, fun other hpresets hplugins => form_eq_of_iff ?_,
    fun other e hpresets hplugins hone hlater => form_eq_of_iff ?_⟩
  · have hone : OnePerName other.presets := (hpresets.filterMap _).nodup_iff.mpr h
    rw [hform, ← lowersModules_congr (fun _ => hpresets.mem_iff) fun _ => hplugins.mem_iff]
    exact transpilerForm_commonJs_iff hone
  · -- One preset decides in both configurations.
    obtain ⟨-, -, -, e', he', short', hshort', hnamed', -⟩ := id hlater
    obtain ⟨d, hd⟩ := exists_decides he' ⟨short', hshort', hnamed'⟩
    have hd' : Decides other.presets d :=
      (decides_congr (fun _ => hpresets.mem_iff) d).mpr (hd.cons hlater)
    show transpilerForm other = .commonJs ↔ transpilerForm c = .commonJs
    rw [transpilerForm_of_preset ((findSome?_preset?_eq_some_iff h).mpr hd),
      transpilerForm_of_preset ((findSome?_preset?_eq_some_iff hone).mpr hd')]

/-- The options that leave modules alone. -/
def leavingOptions : Json.Value := .object [("modules", .bool false)]

/-- A configuration with a preset that lowers modules. -/
def loweringPreset : Transpiler := .mk [.named "@babel/preset-env"] [] []

/-- A preset that leaves modules alone. -/
def leavingPreset : Config.Entry := .configured [.string "es2015", leavingOptions]

/-- The configuration with both presets, in which the one that is listed last decides. -/
def decidedPresets : Transpiler := .mk [leavingPreset, .named "@babel/preset-env"] [] []

theorem transpilerOptions_commonJs_decidedPresets :
    OnePerName loweringPreset.presets ∧ LowersModules loweringPreset ∧
      OnePerName decidedPresets.presets ∧ ComesLater loweringPreset.presets leavingPreset ∧
      (transpilerOptions decidedPresets).form = (transpilerOptions loweringPreset).form := by
  have hone : OnePerName loweringPreset.presets := by decide +kernel
  have hone' : OnePerName decidedPresets.presets := by decide +kernel
  have hform : (transpilerOptions loweringPreset).form = .commonJs := by decide +kernel
  have hlater : ComesLater loweringPreset.presets leavingPreset :=
    ⟨"es2015", by decide, ⟨"es2015", by decide, rfl⟩, _, List.mem_singleton_self _, "env",
      by decide, ⟨"@babel/preset-env", by decide +kernel, rfl⟩, by decide⟩
  obtain ⟨hlowers, -, hfurther⟩ := transpilerOptions_commonJs_iff hone
  exact ⟨hone, hlowers.mp hform, hone', hlater,
    hfurther decidedPresets leavingPreset (.refl _) (.refl _) hone' hlater⟩

/-! ## §5. A plugin that is not asked -/

/-- Whether a configuration has anything that lowers modules. -/
def HasModuleLowering (c : Transpiler) : Prop :=
  (∃ e ∈ c.plugins, IsModulePlugin e) ∨ ∃ e ∈ c.presets, IsModulePreset e ∧ ¬LeavesModules e

/-- A configuration with a preset that leaves modules alone, and a plugin that lowers them. -/
def overruledPlugin : Transpiler :=
  .mk [.configured [.string "env", leavingOptions]] [.named "transform-modules-commonjs"] []

/-- **A plugin is not asked** where a preset leaves modules alone. -/
theorem transpilerOptions_overruledPlugin :
    OnePerName overruledPlugin.presets ∧ (transpilerOptions overruledPlugin).form = .preserved ∧
      ¬((transpilerOptions overruledPlugin).form = .commonJs ↔
        HasModuleLowering overruledPlugin) := by
  have hform : (transpilerOptions overruledPlugin).form = .preserved := by decide +kernel
  refine ⟨by decide +kernel, hform, fun hlowers => ?_⟩
  have hhas : HasModuleLowering overruledPlugin :=
    .inl ⟨_, List.mem_singleton_self _, "transform-modules-commonjs", by decide,
      "transform-modules-commonjs", by decide, rfl⟩
  exact absurd (hform.symm.trans (hlowers.mpr hhas)) (by decide)

end SingleFile.Component
