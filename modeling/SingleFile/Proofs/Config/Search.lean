/-
  SingleFile.Proofs.Config.Search — WHERE CONFIGURATION IS FOUND
  ──────────────────────────────────────────────────────────────
  In a directory the first file with a name for configuration decides, and
  if there is none, the package description, unless that is without
  configuration.  What decides is used even if it turns out to be malformed.
  Among directories the nearest one counts in which anything decides.

  The directories are the ancestors of the working directory's path, which
  goes wrong behind two dots: then an ancestor may lead to a directory that
  was left again and is not around the working directory at all.

  Main results:
    * `packageDecoder_eq_none_iff` — packages without configuration.
    * `transpilerIn_spec` — what is found in one directory.
    * `transpilerAmong_of_lineage` — what is found among ancestors.  The run.
    * `ofFiles_nearest_iff` — for which working directories the
      nearest configuration is found, whatever the files are.
-/
import Mathlib.Data.List.Infix
import SingleFile.Config.Discovery
import SingleFile.Proofs.Files.Ancestors

namespace SingleFile.Config

open SingleFile.Files SingleFile.Json

/-! ## §1. Packages without configuration -/

/-- Whether a term describes a package without configuration: an object without a member for it, or
with one that is null, or a list of a null. -/
inductive OmitsConfiguration : Term → Prop where
  | absent {members : List (Option String × Term)}
    (others : ∀ m ∈ members, m.1 ≠ none ∧ m.1 ≠ some "babel") :
    OmitsConfiguration (.object members)
  | null {before behind : List (Option String × Term)}
    (others : ∀ m ∈ before ++ behind, m.1 ≠ none ∧ m.1 ≠ some "babel") :
    OmitsConfiguration (.object (before ++ (some "babel", .null) :: behind))
  | listed : OmitsConfiguration (.array [.null])

theorem nullable_eq_none_iff {α : Type} {d : Decoder α} {levels : Nat} {t : Term} :
    d.nullable levels t = some none ↔ t = .null := by
  cases t <;> simp [Decoder.nullable]

/-- A field that may be left out is left out, or null. -/
theorem optional_eq_none_iff {α : Type} {d : Decoder α} {field : Field} :
    field.optional d = some none ↔ field = .absent ∨ ∃ levels, field = .present levels .null := by
  cases field with
  | absent => simp [Field.optional]
  | cut => simp [Field.optional]
  | present levels t => simp [Field.optional, nullable_eq_none_iff]

theorem fieldOf?_eq_absent_iff {levels : Nat} {members : List (Option String × Term)}
    {name : String} :
    fieldOf? levels members name = some .absent ↔ ∀ m ∈ members, m.1 ≠ some name := by
  have hfilter : (members.filter fun m => m.1 == some name) = [] ↔
      ∀ m ∈ members, m.1 ≠ some name := by simp [List.filter_eq_nil_iff]
  rw [fieldOf?, ← hfilter]
  split
  · next hnil => simp [hnil]
  · next m hone => simp [hone]
  · next hnil _ => exact ⟨nofun, fun h => (hnil h).elim⟩

theorem fieldOf?_eq_null_iff {levels : Nat} {members : List (Option String × Term)}
    {name : String} :
    (∃ inner, fieldOf? levels members name = some (.present inner .null)) ↔
      ∃ before behind, members = before ++ (some name, .null) :: behind ∧
        ∀ m ∈ before ++ behind, m.1 ≠ some name := by
  have hfilter : (members.filter fun m => m.1 == some name) = [(some name, .null)] ↔
      ∃ before behind, members = before ++ (some name, .null) :: behind ∧
        ∀ m ∈ before ++ behind, m.1 ≠ some name := by
    simp only [List.filter_eq_cons_iff, List.filter_eq_nil_iff, List.mem_append]
    constructor
    · rintro ⟨before, behind, rfl, hbefore, -, hbehind⟩
      refine ⟨before, behind, rfl, ?_⟩
      rintro m (hm | hm)
      · simpa using hbefore m hm
      · simpa using hbehind m hm
    · rintro ⟨before, behind, rfl, hothers⟩
      refine ⟨before, behind, rfl, ?_, by simp, ?_⟩
      · intro m hm
        simpa using hothers m (.inl hm)
      · intro m hm
        simpa using hothers m (.inr hm)
  rw [fieldOf?, ← hfilter]
  split
  · next hnil => simp [hnil]
  · next m hone =>
    -- The only member of the name has that name as its key.
    have hm : m.1 = some name := by
      have hmem : m ∈ members.filter fun m => m.1 == some name := by simp [hone]
      simpa using (List.mem_filter.mp hmem).2
    obtain ⟨key, t⟩ := m
    obtain rfl : key = some name := hm
    simp [hone]
  · next hnil hone =>
    simp only [reduceCtorEq, exists_false, false_iff]
    exact hone _

theorem packageDecoder_object (levels : Nat) (members : List (Option String × Term)) :
    Transpiler.packageDecoder (levels + 1) (.object members)
      = if members.all fun m => m.1.isSome then
          (fieldOf? levels members "babel").bind fun field => field.optional Transpiler.decoder
        else none := by
  rw [Transpiler.packageDecoder, recordFields?]
  split
  · rw [List.mapM_cons]
    cases fieldOf? levels members "babel" <;> rfl
  · rfl

theorem packageDecoder_array (levels : Nat) (items : List Term) :
    Transpiler.packageDecoder (levels + 1) (.array items) = some none ↔ items = [.null] := by
  rw [Transpiler.packageDecoder, recordFields?]
  match items with
  | [] => simp [fieldsInOrder?, Field.optional]
  | [t] => simp [fieldsInOrder?, Field.optional, nullable_eq_none_iff]
  | _ :: _ :: _ => simp [fieldsInOrder?]

/-- **Packages without configuration.** -/
theorem packageDecoder_eq_none_iff {levels : Nat} {t : Term} :
    Transpiler.packageDecoder (levels + 1) t = some none ↔ OmitsConfiguration t := by
  constructor
  · intro h
    cases t with
    | object members =>
      rw [packageDecoder_object] at h
      split at h
      · next hkeys =>
        have hsome : ∀ m ∈ members, m.1 ≠ none := by simpa [Option.ne_none_iff_isSome] using hkeys
        obtain ⟨field, hfield, hnone⟩ := Option.bind_eq_some_iff.mp h
        rcases optional_eq_none_iff.mp hnone with rfl | ⟨inner, rfl⟩
        · exact .absent fun m hm => ⟨hsome m hm, fieldOf?_eq_absent_iff.mp hfield m hm⟩
        · obtain ⟨before, behind, rfl, hothers⟩ := fieldOf?_eq_null_iff.mp ⟨inner, hfield⟩
          refine .null fun m hm => ⟨hsome m ?_, hothers m hm⟩
          simp only [List.mem_append, List.mem_cons] at hm ⊢
          tauto
      · cases h
    | array items =>
      obtain rfl := (packageDecoder_array levels items).mp h
      exact .listed
    | _ => simp [Transpiler.packageDecoder, recordFields?] at h
  · intro h
    cases h with
    | @absent members others =>
      have hkeys : (members.all fun m => m.1.isSome) = true := by
        simpa [Option.ne_none_iff_isSome] using fun m hm => (others m hm).1
      rw [packageDecoder_object, if_pos hkeys,
        fieldOf?_eq_absent_iff.mpr fun m hm => (others m hm).2]
      rfl
    | @null before behind others =>
      have hkeys :
          ((before ++ (some "babel", .null) :: behind).all fun m => m.1.isSome) = true := by
        rw [List.all_eq_true]
        intro m hm
        rw [List.mem_append, List.mem_cons] at hm
        rcases hm with hm | rfl | hm
        · exact Option.isSome_iff_ne_none.mpr (others m (by simp [hm])).1
        · rfl
        · exact Option.isSome_iff_ne_none.mpr (others m (by simp [hm])).1
      obtain ⟨inner, hfield⟩ := fieldOf?_eq_null_iff.mpr
        ⟨before, behind, rfl, fun m hm => (others m hm).2⟩
      rw [packageDecoder_object, if_pos hkeys, hfield]
      rfl
    | listed => exact (packageDecoder_array levels _).mpr rfl

/-! ## §2. What decides in a directory -/

/-- Whether a file with some content has a name in the directory at the end of some names. -/
def HasFile (root : Files.Entry) (directory : List String) (name : String) (content : ByteArray) :
    Prop :=
  ∃ isExecutable, root.shapeAt? (directory ++ [name]) = some (.file content isExecutable)

/-- A file has one content. -/
theorem HasFile.eq {root : Files.Entry} {directory : List String} {name : String}
    {content other : ByteArray} (h : HasFile root directory name content)
    (hother : HasFile root directory name other) : content = other := by
  obtain ⟨_, hshape⟩ := h
  obtain ⟨_, hshape'⟩ := hother
  rw [hshape] at hshape'
  injection hshape' with hfile
  injection hfile

/-- What is read of a content, whatever the path. -/
def contentReader (content : ByteArray) : Reader := fun _ =>
  (String.fromUTF8? content).map String.toList

/-- Whether a content is that of a package without configuration. -/
def PackageOmits (content : ByteArray) : Prop :=
  ∃ text term, String.fromUTF8? content = some text ∧ Term.ofText? text.toList = some term ∧
    OmitsConfiguration term

/-- Whether a file in a directory decides: one with a name for configuration, or a package
description, unless that is without configuration. -/
def IsDecided (root : Files.Entry) (directory : List String) : Prop :=
  (∃ name ∈ transpilerFiles, ∃ content, HasFile root directory name content) ∨
    ∃ content, HasFile root directory "package.json" content ∧ ¬PackageOmits content

/-- What the file comes to that decides in a directory, and nothing but that file. -/
inductive Decides (root : Files.Entry) (directory : Path) :
    Except Failure (Path × Transpiler) → Prop where
  /-- The first file with a name for configuration. -/
  | configuration {before behind : List String} {name : String} {content : ByteArray}
    (listed : transpilerFiles = before ++ name :: behind)
    (isFile : HasFile root directory.names name content)
    (first : ∀ other ∈ before, ∀ content, ¬HasFile root directory.names other content) :
    Decides root directory ((loadTranspiler (contentReader content) (directory.join ⟨name⟩)).map
      fun c => (directory.join ⟨name⟩, c))
  /-- The package description, with configuration. -/
  | package {content : ByteArray} {c : Transpiler}
    (noOther : ∀ name ∈ transpilerFiles, ∀ content, ¬HasFile root directory.names name content)
    (isFile : HasFile root directory.names "package.json" content)
    (loads : loadPackage (contentReader content) (directory.join ⟨"package.json"⟩) = .ok (some c)) :
    Decides root directory (.ok (directory.join ⟨"package.json"⟩, c))
  /-- The package description, which cannot be used. -/
  | brokenPackage {content : ByteArray} {failure : Failure}
    (noOther : ∀ name ∈ transpilerFiles, ∀ content, ¬HasFile root directory.names name content)
    (isFile : HasFile root directory.names "package.json" content)
    (fails : loadPackage (contentReader content) (directory.join ⟨"package.json"⟩)
      = .error failure) :
    Decides root directory (.error failure)

/-- A package description is without configuration if its content says so. -/
theorem loadPackage_eq_none_iff {content : ByteArray} {path : Path} :
    loadPackage (contentReader content) path = .ok none ↔ PackageOmits content := by
  cases htext : String.fromUTF8? content with
  | none =>
    have hload : loadPackage (contentReader content) path = .error ⟨path, .unreadable⟩ := by
      rw [loadPackage, readConfig, contentReader, htext]
      rfl
    simp [hload, PackageOmits, htext]
  | some text =>
    have hload : loadPackage (contentReader content) path
        = orMalformed path (decodeText? Transpiler.packageDecoder text.toList) := by
      rw [loadPackage, readConfig, contentReader, htext]
      rfl
    have hdecode : decodeText? Transpiler.packageDecoder text.toList
        = (Term.ofText? text.toList).bind (Transpiler.packageDecoder textLevels) := rfl
    have homits (term : Term) : Transpiler.packageDecoder textLevels term = some none ↔
        OmitsConfiguration term := packageDecoder_eq_none_iff
    have hmalformed (c : Option (Option Transpiler)) :
        orMalformed path c = .ok none ↔ c = some none := by cases c <;> simp [orMalformed]
    rw [hload, hmalformed, hdecode, Option.bind_eq_some_iff, PackageOmits]
    simp [homits, htext]

/-! ## §3. What is found in a directory -/

/-- The names that are looked for are plain names. -/
theorem plain_of_candidate {name : String} (h : name ∈ "package.json" :: transpilerFiles) :
    '/' ∉ name.toList ∧ Path.isStep name.toList = true ∧ Path.isName name.toList = true := by
  revert name
  decide

theorem isFileAt_join {root : Files.Entry} {directory : Path} (h : directory.isAbsolute = true)
    (hdirectory : root.isDirectoryAt directory = true) {name : String}
    (hname : name ∈ "package.json" :: transpilerFiles) :
    root.isFileAt (directory.join ⟨name⟩) = true ↔
      ∃ content, HasFile root directory.names name content := by
  obtain ⟨hslash, hstep, hplain⟩ := plain_of_candidate hname
  simp only [HasFile, Files.Entry.shapeAt?]
  rw [Files.Entry.isFileAt, Files.Entry.at?_join h hdirectory hslash hstep hplain]
  cases root.atNames? (directory.names ++ [name]) with
  | none => simp
  | some entry => cases entry <;> simp [Files.Entry.shape]

theorem readText?_join {root : Files.Entry} {directory : Path} (h : directory.isAbsolute = true)
    (hdirectory : root.isDirectoryAt directory = true) {name : String} {content : ByteArray}
    (hname : name ∈ "package.json" :: transpilerFiles)
    (hfile : HasFile root directory.names name content) :
    root.readText? (directory.join ⟨name⟩) = contentReader content (directory.join ⟨name⟩) := by
  obtain ⟨hslash, hstep, hplain⟩ := plain_of_candidate hname
  obtain ⟨isExecutable, hshape⟩ := hfile
  obtain ⟨entry, hentry, hfile⟩ := Option.map_eq_some_iff.mp hshape
  rw [Files.Entry.readText?, Files.Entry.at?_join h hdirectory hslash hstep hplain, hentry]
  cases entry with
  | directory _ => cases hfile
  | file content' _ =>
    obtain ⟨rfl, rfl⟩ := Files.Entry.Shape.file.inj hfile
    rfl

theorem loadTranspiler_congr {read other : Reader} {path : Path} (h : read path = other path) :
    loadTranspiler read path = loadTranspiler other path := by
  rw [loadTranspiler, loadTranspiler, readConfig, readConfig, h]

theorem loadPackage_congr {read other : Reader} {path : Path} (h : read path = other path) :
    loadPackage read path = loadPackage other path := by
  rw [loadPackage, loadPackage, readConfig, readConfig, h]

/-- The name that is looked for first and found. -/
theorem candidate_eq_some {root : Files.Entry} {directory path : Path}
    (h : directory.isAbsolute = true) (hdirectory : root.isDirectoryAt directory = true)
    (hfind : (transpilerFiles.map fun name => directory.join ⟨name⟩).find? root.isFileAt
      = some path) :
    ∃ before name behind content, transpilerFiles = before ++ name :: behind ∧
      path = directory.join ⟨name⟩ ∧ HasFile root directory.names name content ∧
      ∀ other ∈ before, ∀ content, ¬HasFile root directory.names other content := by
  rw [List.find?_map, Option.map_eq_some_iff] at hfind
  obtain ⟨name, hname, rfl⟩ := hfind
  obtain ⟨hfile, before, behind, hlisted, hbefore⟩ := List.find?_eq_some_iff_append.mp hname
  have hinitial : before ++ [name] <+: transpilerFiles := ⟨behind, by simp [hlisted]⟩
  have hmem : ∀ other ∈ before ++ [name], other ∈ "package.json" :: transpilerFiles :=
    fun other hother => List.mem_cons_of_mem _ (hinitial.subset hother)
  obtain ⟨content, hcontent⟩ := (isFileAt_join h hdirectory (hmem name (by simp))).mp hfile
  refine ⟨before, name, behind, content, hlisted, rfl, hcontent, ?_⟩
  intro other hother content hothers
  have hnone := hbefore other hother
  rw [Function.comp_apply,
    (isFileAt_join h hdirectory (hmem other (by simp [hother]))).mpr ⟨content, hothers⟩] at hnone
  cases hnone

theorem candidate_eq_none_iff {root : Files.Entry} {directory : Path}
    (h : directory.isAbsolute = true) (hdirectory : root.isDirectoryAt directory = true) :
    (transpilerFiles.map fun name => directory.join ⟨name⟩).find? root.isFileAt = none ↔
      ∀ name ∈ transpilerFiles, ∀ content, ¬HasFile root directory.names name content := by
  rw [List.find?_eq_none]
  constructor
  · intro hnone name hname content hfile
    apply hnone (directory.join ⟨name⟩) (List.mem_map_of_mem hname)
    exact (isFileAt_join h hdirectory (List.mem_cons_of_mem _ hname)).mpr ⟨content, hfile⟩
  · intro hnone path hpath hfile
    obtain ⟨name, hname, rfl⟩ := List.mem_map.mp hpath
    obtain ⟨content, hcontent⟩ :=
      (isFileAt_join h hdirectory (List.mem_cons_of_mem _ hname)).mp hfile
    exact hnone name hname content hcontent

/-- What is found, if something decides. -/
def found (environment : String) (result : Except Failure (Path × Transpiler)) :
    Except Failure (Found Transpiler) :=
  result.map fun decided => some (decided.1, decided.2.resolved environment)

/-- A package description decides, or is without configuration. -/
theorem package_spec {root : Files.Entry} {directory : Path} {content : ByteArray}
    (environment : String)
    (hnone : ∀ name ∈ transpilerFiles, ∀ content, ¬HasFile root directory.names name content)
    (hfile : HasFile root directory.names "package.json" content) :
    let path := directory.join ⟨"package.json"⟩
    (¬IsDecided root directory.names ∧ loadPackage (contentReader content) path = .ok none) ∨
      ∃ result, Decides root directory result ∧
        (loadPackage (contentReader content) path).map
          (Option.map fun c => (path, c.resolved environment)) = found environment result := by
  intro path
  cases hload : loadPackage (contentReader content) path with
  | error failure => exact .inr ⟨_, .brokenPackage hnone hfile hload, rfl⟩
  | ok c =>
    cases c with
    | some c => exact .inr ⟨_, .package hnone hfile hload, rfl⟩
    | none =>
      refine .inl ⟨?_, rfl⟩
      rintro (⟨name, hname, other, hother⟩ | ⟨other, hother, hdecides⟩)
      · exact hnone name hname other hother
      · obtain rfl : other = content := hother.eq hfile
        exact hdecides (loadPackage_eq_none_iff.mp hload)

/-- **What is found in one directory**: what decides there, or nothing if nothing decides. -/
theorem transpilerIn_spec {root : Files.Entry} (environment : String) {directory : Path}
    (h : directory.isAbsolute = true) (hdirectory : root.isDirectoryAt directory = true) :
    (¬IsDecided root directory.names ∧ transpilerIn root environment directory = .ok none) ∨
      ∃ result, Decides root directory result ∧
        transpilerIn root environment directory = found environment result := by
  cases hfind : (transpilerFiles.map fun name => directory.join ⟨name⟩).find? root.isFileAt with
  | some path =>
    obtain ⟨before, name, behind, content, hlisted, rfl, hfile, hfirst⟩ :=
      candidate_eq_some h hdirectory hfind
    have hmem : name ∈ transpilerFiles := by simp [hlisted]
    refine .inr ⟨_, .configuration hlisted hfile hfirst, ?_⟩
    unfold transpilerIn
    simp only [hfind]
    rw [loadTranspiler_congr (readText?_join h hdirectory (List.mem_cons_of_mem _ hmem) hfile)]
    cases loadTranspiler (contentReader content) (directory.join ⟨name⟩) <;> rfl
  | none =>
    have hnone := (candidate_eq_none_iff h hdirectory).mp hfind
    have hisFile : root.isFileAt (directory.join ⟨"package.json"⟩) = true ↔
        ∃ content, HasFile root directory.names "package.json" content :=
      isFileAt_join h hdirectory (List.mem_cons_self ..)
    by_cases hpackage : ∃ content, HasFile root directory.names "package.json" content
    · obtain ⟨content, hfile⟩ := hpackage
      have hin : transpilerIn root environment directory
          = (loadPackage (contentReader content) (directory.join ⟨"package.json"⟩)).map
              (Option.map fun c =>
                (directory.join ⟨"package.json"⟩, c.resolved environment)) := by
        unfold transpilerIn
        simp only [hfind, hisFile.mpr ⟨content, hfile⟩, if_true]
        rw [loadPackage_congr (readText?_join h hdirectory (List.mem_cons_self ..) hfile)]
        cases loadPackage (contentReader content) (directory.join ⟨"package.json"⟩) <;> rfl
      rcases package_spec environment hnone hfile with ⟨hundecided, hload⟩ | hdecided
      · exact .inl ⟨hundecided, by rw [hin, hload]; rfl⟩
      · rw [hin]
        exact .inr hdecided
    · refine .inl ⟨?_, ?_⟩
      · rintro (⟨name, hname, content, hfile⟩ | ⟨content, hfile, -⟩)
        · exact hnone name hname content hfile
        · exact hpackage ⟨content, hfile⟩
      · rw [← hisFile] at hpackage
        unfold transpilerIn
        simp only [hfind, hpackage]
        rfl

/-! ## §4. The nearest directory -/

/-- What the configuration comes to for a directory at the end of some names: what decides in the
nearest directory, of this one and those around it, in which anything decides, or nothing. -/
inductive Nearest (root : Files.Entry) (environment : String) (names : List String) :
    Except Failure (Found Transpiler) → Prop where
  | nothing (undecided : ∀ around, around <+: names → ¬IsDecided root around) :
    Nearest root environment names (.ok none)
  | decided {directory : Path} {result : Except Failure (Path × Transpiler)}
    (isAbsolute : directory.isAbsolute = true) (isAround : directory.names <+: names)
    (decides : Decides root directory result)
    (nearest : ∀ around, around <+: names → directory.names.length < around.length →
      ¬IsDecided root around) :
    Nearest root environment names (found environment result)

theorem transpilerAmong_cons_of_none {root : Files.Entry} {environment : String} {directory : Path}
    (rest : List Path) (hin : transpilerIn root environment directory = .ok none) :
    transpilerAmong root environment (directory :: rest)
      = transpilerAmong root environment rest := by
  rw [transpilerAmong, hin]
  rfl

theorem transpilerAmong_cons_of_found {root : Files.Entry} {environment : String}
    {directory : Path} {result : Except Failure (Path × Transpiler)} (rest : List Path)
    (hin : transpilerIn root environment directory = found environment result) :
    transpilerAmong root environment (directory :: rest) = found environment result := by
  rw [transpilerAmong, hin]
  cases result <;> rfl

/-- If nothing decides in a directory, nor in a nearer one, the next ones are farther. -/
theorem undecided_from {root : Files.Entry} {directory names : List String}
    (haround : directory <+: names) (hundecided : ¬IsDecided root directory)
    (hnearer : ∀ around, around <+: names → directory.length < around.length →
      ¬IsDecided root around) :
    ∀ around, around <+: names → directory.length ≤ around.length → ¬IsDecided root around := by
  intro around haround' hle
  by_cases heq : directory.length = around.length
  · have hsame : directory = around :=
      (List.prefix_of_prefix_length_le haround haround' hle).eq_of_length heq
    rwa [← hsame]
  · exact hnearer around haround' (by omega)

/-- **What is found among ancestors** is the nearest configuration, if all of them are around one
directory and nothing nearer to it decides. -/
theorem transpilerAmong_of_lineage {root : Files.Entry} (environment : String) {p : Path}
    {ancestors : List Path} (lineage : Path.Lineage p ancestors)
    (hdirectory : ∀ d ∈ ancestors, root.isDirectoryAt d = true) {names : List String}
    (haround : ∀ d ∈ ancestors, d.names <+: names)
    (hnearer : ∀ around, around <+: names → p.names.length < around.length →
      ¬IsDecided root around) :
    Nearest root environment names (transpilerAmong root environment ancestors) := by
  induction lineage with
  | @root p absolute noSteps =>
    have hp : p.names <+: names := haround p (List.mem_cons_self ..)
    rcases transpilerIn_spec environment absolute (hdirectory p (List.mem_cons_self ..)) with
      ⟨hundecided, hin⟩ | ⟨result, hdecides, hin⟩
    · have hroot : p.names = [] := Path.names_of_noSteps noSteps
      rw [transpilerAmong_cons_of_none [] hin]
      refine .nothing fun around haround' => ?_
      apply undecided_from hp hundecided hnearer around haround'
      rw [hroot]
      exact Nat.zero_le _
    · rw [transpilerAmong_cons_of_found [] hin]
      exact .decided absolute hp hdecides hnearer
  | @child p q ancestors s absolute steps lineage ih =>
    have hp : p.names <+: names := haround p (List.mem_cons_self ..)
    rcases transpilerIn_spec environment absolute (hdirectory p (List.mem_cons_self ..)) with
      ⟨hundecided, hin⟩ | ⟨result, hdecides, hin⟩
    · rw [transpilerAmong_cons_of_none ancestors hin]
      apply ih
      · exact fun d hd => hdirectory d (List.mem_cons_of_mem _ hd)
      · exact fun d hd => haround d (List.mem_cons_of_mem _ hd)
      · -- The parent has one name less at the most, so no directory between the two is skipped.
        intro around haround' hlt
        have hle : p.names.length ≤ q.names.length + 1 :=
          Path.length_names_le absolute lineage.isAbsolute steps
        exact undecided_from hp hundecided hnearer around haround' (by omega)
    · rw [transpilerAmong_cons_of_found ancestors hin]
      exact .decided absolute hp hdecides hnearer

/-- Among the ancestors of a directory's path that stays around it, the nearest counts. -/
theorem transpilerAmong_of_staysAround {root : Files.Entry} (environment : String) {p : Path}
    (h : p.isAbsolute = true) (hdirectory : root.isDirectoryAt p = true) (hstays : p.StaysAround) :
    Nearest root environment p.names (transpilerAmong root environment p.ancestors) := by
  apply transpilerAmong_of_lineage environment (Path.lineage_ancestors h)
  · exact fun d hd => (Files.Entry.isDirectoryAt_ancestors h hdirectory d hd).2
  · exact (Path.staysAround_iff h).mp hstays
  · intro around haround hlt
    have hle : around.length ≤ p.names.length := haround.length_le
    omega

/-! ## §5. Directories that were left again -/

theorem Decides.isDecided {root : Files.Entry} {directory : Path}
    {result : Except Failure (Path × Transpiler)} (h : Decides root directory result) :
    IsDecided root directory.names := by
  cases h with
  | @configuration before behind name content listed isFile first =>
    exact .inl ⟨name, by simp [listed], content, isFile⟩
  | package noOther isFile loads =>
    refine .inr ⟨_, isFile, fun homits => ?_⟩
    rw [loadPackage_eq_none_iff.mpr homits] at loads
    cases loads
  | brokenPackage noOther isFile fails =>
    refine .inr ⟨_, isFile, fun homits => ?_⟩
    rw [loadPackage_eq_none_iff.mpr homits] at fails
    cases fails

theorem Nearest.eq_none {root : Files.Entry} {environment : String} {names : List String}
    {result : Except Failure (Found Transpiler)} (h : Nearest root environment names result)
    (hundecided : ∀ around, around <+: names → ¬IsDecided root around) : result = .ok none := by
  cases h with
  | nothing _ => rfl
  | decided _ isAround decides _ => exact absurd decides.isDecided (hundecided _ isAround)

/-- If nothing is found among directories, nothing decides in any of them. -/
theorem undecided_of_transpilerAmong {root : Files.Entry} {environment : String}
    {directories : List Path}
    (hdirectories : ∀ d ∈ directories, d.isAbsolute = true ∧ root.isDirectoryAt d = true)
    (hnone : transpilerAmong root environment directories = .ok none) :
    ∀ d ∈ directories, ¬IsDecided root d.names := by
  induction directories with
  | nil => exact fun d hd => absurd hd (List.not_mem_nil)
  | cons d rest ih =>
    obtain ⟨habsolute, hdirectory⟩ := hdirectories d (List.mem_cons_self ..)
    rcases transpilerIn_spec environment habsolute hdirectory with
      ⟨hundecided, hin⟩ | ⟨result, -, hin⟩
    · rw [transpilerAmong_cons_of_none rest hin] at hnone
      intro e he
      rcases List.mem_cons.mp he with rfl | he
      · exact hundecided
      · exact ih (fun d hd => hdirectories d (List.mem_cons_of_mem _ hd)) hnone e he
    · rw [transpilerAmong_cons_of_found rest hin] at hnone
      cases result <;> cases hnone

/-- A single file decides in its own directory only. -/
theorem eq_of_isDecided {root : Files.Entry} {directory around : List String} {name : String}
    (honly : ∀ names content isExecutable,
      root.shapeAt? names = some (.file content isExecutable) → names = directory ++ [name])
    (h : IsDecided root around) : around = directory := by
  rcases h with ⟨other, -, content, isExecutable, hfile⟩ | ⟨content, ⟨isExecutable, hfile⟩, -⟩
  · exact (List.append_inj' (honly _ _ _ hfile) rfl).1
  · exact (List.append_inj' (honly _ _ _ hfile) rfl).1

/-- **For which working directories the nearest configuration is found**, whatever the files are:
those whose path passes no directory but the working directory and those around it. -/
theorem ofFiles_nearest_iff {p : Path} (h : p.isAbsolute = true) :
    (∀ root environment, root.isDirectoryAt p = true →
      Nearest root environment p.names (Source.ofFiles root p environment).transpiler) ↔
      p.StaysAround := by
  constructor
  · intro hnearest
    by_contra hstrays
    obtain ⟨root, hdirectory, d, hd, haround, hfile, honly⟩ :=
      Files.Entry.exists_stray h hstrays ".babelrc" ByteArray.empty
    have hnone : transpilerAmong root "" p.ancestors = .ok none := by
      apply (hnearest root "" hdirectory).eq_none
      intro around haround' hdecided
      exact haround (eq_of_isDecided honly hdecided ▸ haround')
    have hundecided : ¬IsDecided root d.names :=
      undecided_of_transpilerAmong (Files.Entry.isDirectoryAt_ancestors h hdirectory) hnone d hd
    exact hundecided (.inl ⟨".babelrc", by decide, ByteArray.empty, false, hfile⟩)
  · intro hstays root environment hdirectory
    exact transpilerAmong_of_staysAround environment h hdirectory hstays

/-- Empty segments, single dots and a slash at the end are nothing to go wrong with. -/
theorem ofFiles_nearest_dottedPath :
    (⟨"/project/.//ui/"⟩ : Path).isAbsolute = true ∧
      ∀ root environment, root.isDirectoryAt ⟨"/project/.//ui/"⟩ = true →
        Nearest root environment (⟨"/project/.//ui/"⟩ : Path).names
          (Source.ofFiles root ⟨"/project/.//ui/"⟩ environment).transpiler :=
  ⟨by decide, (ofFiles_nearest_iff (by decide)).mpr
    (Path.staysAround_of_isName (by decide))⟩

/-- A directory with configuration in the root. -/
def configuredDirectory : Files.Entry :=
  .directory [("ui", .directory [(".babelrc", .file "\x7b\x7d".toUTF8 false)])]

/-- Out of a directory leads to the root, where nothing decides, but what is in the directory is
found. -/
theorem ofFiles_leftDirectory :
    configuredDirectory.isDirectoryAt ⟨"/ui/.."⟩ = true ∧
      ¬Nearest configuredDirectory "test" (⟨"/ui/.."⟩ : Path).names
        (Source.ofFiles configuredDirectory ⟨"/ui/.."⟩ "test").transpiler := by
  have hnames : (⟨"/ui/.."⟩ : Path).names = [] := by decide
  have hempty : ∀ name ∈ "package.json" :: transpilerFiles, ∀ content,
      ¬HasFile configuredDirectory [] name content := by
    have hnone : ∀ name ∈ "package.json" :: transpilerFiles,
        (configuredDirectory.shapeAt? [name]).isNone = true := by decide
    rintro name hname content ⟨isExecutable, hfile⟩
    have hisNone := hnone name hname
    rw [List.nil_append] at hfile
    rw [hfile] at hisNone
    cases hisNone
  refine ⟨by decide, fun hnearest => ?_⟩
  have hnone : transpilerAmong configuredDirectory "test" (⟨"/ui/.."⟩ : Path).ancestors
      = .ok none := by
    apply hnearest.eq_none
    intro around haround hdecided
    rw [hnames, List.prefix_nil] at haround
    subst haround
    rcases hdecided with ⟨name, hname, content, hfile⟩ | ⟨content, hfile, -⟩
    · exact hempty name (List.mem_cons_of_mem _ hname) content hfile
    · exact hempty "package.json" (List.mem_cons_self ..) content hfile
  have hundecided : ¬IsDecided configuredDirectory (⟨"/ui"⟩ : Path).names :=
    undecided_of_transpilerAmong (by decide) hnone ⟨"/ui"⟩ (by decide)
  exact hundecided (.inl ⟨".babelrc", by decide, _, false, rfl⟩)

end SingleFile.Config
