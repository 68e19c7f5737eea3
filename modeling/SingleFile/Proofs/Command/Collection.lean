/-
  SingleFile.Proofs.Command.Collection — WHAT IS COLLECTED
  ────────────────────────────────────────────────────────
  The files of a directory come in the order of their components, because a
  directory's entries are taken by name and all files of an entry have its
  name in the same place.  None is left out but what stands under a directory
  of packages, and what is not chosen.  Of the files of all inputs those are
  kept that are not the same as an earlier one.

  Main results:
    * `mem_filesOf_iff` — which files a search of a directory comes to.
    * `filesOf_ordered` — the order that it comes to them in.
    * `keptOf_withoutRepeats` — what is kept of some paths.
    * `collectInputs_complete` — what is collected, and when nothing is.
-/
import Mathlib.Data.String.Basic
import SingleFile.Command.Inputs
import SingleFile.Proofs.Files.Descents

namespace SingleFile.Command

open SingleFile.Files Path

/-! ## §1. The files of a directory -/

/-- Whether names lead to a file. -/
def HasFileAt (entry : Files.Entry) (names : List String) : Prop :=
  ∃ content isExecutable, entry.atNames? names = some (.file content isExecutable)

theorem hasFileAt_file_iff {content : ByteArray} {isExecutable : Bool} {names : List String} :
    HasFileAt (.file content isExecutable) names ↔ names = [] := by
  cases names with
  | nil => exact iff_of_true ⟨content, isExecutable, rfl⟩ rfl
  | cons name names => exact iff_of_false (by rintro ⟨_, _, h⟩; cases h) (by simp)

theorem hasFileAt_directory_iff {entries : List (String × Files.Entry)}
    (distinct : (entries.map Prod.fst).Nodup) {names : List String} :
    HasFileAt (.directory entries) names ↔
      ∃ e ∈ entries, ∃ inner, names = e.1 :: inner ∧ HasFileAt e.2 inner := by
  cases names with
  | nil => exact iff_of_false (by rintro ⟨_, _, h⟩; cases h) (by simp)
  | cons name names =>
    constructor
    · rintro ⟨content, isExecutable, h⟩
      obtain ⟨entry, hentry, hinner⟩ := Option.bind_eq_some_iff.mp h
      exact ⟨(name, entry), (Entry.mem_iff_lookup distinct).mpr hentry, names, rfl, content,
        isExecutable, hinner⟩
    · rintro ⟨e, he, inner, hnames, content, isExecutable, hinner⟩
      obtain ⟨rfl, rfl⟩ := List.cons.inj hnames
      exact ⟨content, isExecutable,
        Option.bind_eq_some_iff.mpr ⟨e.2, (Entry.mem_iff_lookup distinct).mp he, hinner⟩⟩

/-- The entries that a search looks into, with what it comes to there. -/
theorem filesByName_eq (directory : Path) (entries : List (String × Files.Entry)) :
    filesByName directory entries = (entries.filter fun e => e.1 != packageDirectory).map
      fun e => (e.1, filesOf (directory.join ⟨e.1⟩) e.2) := by
  induction entries with
  | nil => rfl
  | cons e rest ih =>
    obtain ⟨name, entry⟩ := e
    rw [filesByName, ih]
    by_cases hname : name = packageDirectory <;> simp [hname]

theorem mem_filesOf_directory {directory q : Path} {entries : List (String × Files.Entry)} :
    q ∈ filesOf directory (.directory entries) ↔
      ∃ e ∈ entries, e.1 ≠ packageDirectory ∧ q ∈ filesOf (directory.join ⟨e.1⟩) e.2 := by
  rw [filesOf, filesByName_eq, List.mem_flatMap]
  simp only [byName, List.mem_mergeSort, List.mem_map, List.mem_filter, bne_iff_ne]
  constructor
  · rintro ⟨_, ⟨e, ⟨he, hname⟩, rfl⟩, hq⟩
    exact ⟨e, he, hname, hq⟩
  · rintro ⟨e, he, hname, hq⟩
    exact ⟨_, ⟨e, ⟨he, hname⟩, rfl⟩, hq⟩

/-- **A search of a directory comes to every file** that no directory of packages is passed on
the way to, and to nothing else. -/
theorem mem_filesOf_iff {entry : Files.Entry} (h : entry.IsTree) {p q : Path} :
    q ∈ filesOf p entry ↔
      ∃ names, packageDirectory ∉ names ∧ HasFileAt entry names ∧ q = p.into names := by
  induction h generalizing p with
  | file content isExecutable =>
    rw [filesOf, List.mem_singleton]
    constructor
    · rintro rfl
      exact ⟨[], List.not_mem_nil, hasFileAt_file_iff.mpr rfl, rfl⟩
    · rintro ⟨names, -, hfile, rfl⟩
      rw [hasFileAt_file_iff.mp hfile, into_nil]
  | directory distinct named inner ih =>
    rw [mem_filesOf_directory]
    constructor
    · rintro ⟨e, he, hname, hq⟩
      obtain ⟨names, hpackages, hfile, rfl⟩ := (ih e he).mp hq
      refine ⟨e.1 :: names, ?_, (hasFileAt_directory_iff distinct).mpr ⟨e, he, names, rfl, hfile⟩,
        rfl⟩
      rw [List.mem_cons, not_or]
      exact ⟨Ne.symm hname, hpackages⟩
    · rintro ⟨names, hpackages, hfile, rfl⟩
      obtain ⟨e, he, names, rfl, hinner⟩ := (hasFileAt_directory_iff distinct).mp hfile
      rw [List.mem_cons, not_or] at hpackages
      exact ⟨e, he, Ne.symm hpackages.1, (ih e he).mpr ⟨names, hpackages.2, hinner, rfl⟩⟩

/-! ## §2. The order of a directory's files -/

/-- Whether the components of a path come before those of another. -/
def ComesBefore (p q : Path) : Prop := p.components < q.components

/-- Things by name are in order of their names, if each name is there once. -/
theorem byName_ordered {α : Type} {named : List (String × α)}
    (distinct : (named.map Prod.fst).Nodup) :
    (byName named).Pairwise fun a b => a.1 < b.1 := by
  have hsorted : (byName named).Pairwise fun a b => !(decide (b.1 < a.1)) := by
    refine List.pairwise_mergeSort (fun a b c hab hbc => ?_) (fun a b => ?_) named
    · simp only [Bool.not_eq_true', decide_eq_false_iff_not, not_lt] at hab hbc ⊢
      exact le_trans hab hbc
    · simp only [Bool.or_eq_true, Bool.not_eq_true', decide_eq_false_iff_not, not_lt]
      exact le_total _ _
  have hdistinct : (byName named).Pairwise fun a b => a.1 ≠ b.1 :=
    List.pairwise_map.mp (((List.mergeSort_perm named _).map Prod.fst).nodup_iff.mpr distinct)
  refine (hsorted.and hdistinct).imp fun ⟨hle, hne⟩ => ?_
  simp only [Bool.not_eq_true', decide_eq_false_iff_not, not_lt] at hle
  exact lt_of_le_of_ne hle hne

/-- All files of an entry have the entry's name behind the components of its directory. -/
theorem components_of_mem_filesOf {entry : Files.Entry} (h : entry.IsTree) {directory q : Path}
    (habsolute : directory.isAbsolute = true) {name : String} (hname : IsEntryName name)
    (hq : q ∈ filesOf (directory.join ⟨name⟩) entry) :
    ∃ inner, q.components = directory.components ++ name.toList :: inner := by
  obtain ⟨names, -, ⟨_, _, hfile⟩, rfl⟩ := (mem_filesOf_iff h).mp hq
  have hnames : ∀ n ∈ name :: names, IsEntryName n :=
    List.forall_mem_cons.mpr ⟨hname, h.isEntryName hfile⟩
  obtain ⟨hsteps, hinto⟩ := steps_into (p := directory) hnames
  rw [into_cons] at hsteps hinto
  rw [components_of_isAbsolute (hinto.trans habsolute), hsteps,
    components_of_isAbsolute habsolute]
  exact ⟨names.map String.toList, rfl⟩

/-- **The files of a directory come in the order of their components.** -/
theorem filesOf_ordered {entry : Files.Entry} (h : entry.IsTree) {p : Path}
    (habsolute : p.isAbsolute = true) : (filesOf p entry).Pairwise ComesBefore := by
  induction h generalizing p with
  | file content isExecutable => exact List.pairwise_singleton ..
  | @directory entries distinct named inner ih =>
    have hmem {n : String × List Path} (hn : n ∈ byName (filesByName p entries)) :
        ∃ e ∈ entries, n = (e.1, filesOf (p.join ⟨e.1⟩) e.2) := by
      rw [byName, List.mem_mergeSort, filesByName_eq] at hn
      obtain ⟨e, he, rfl⟩ := List.mem_map.mp hn
      exact ⟨e, (List.mem_filter.mp he).1, rfl⟩
    have hnames : ((filesByName p entries).map Prod.fst).Nodup := by
      rw [filesByName_eq, List.map_map]
      exact (List.filter_sublist.map Prod.fst).nodup distinct
    rw [filesOf, List.pairwise_flatMap]
    constructor
    · intro n hn
      obtain ⟨e, he, rfl⟩ := hmem hn
      exact ih e he ((steps_join (named e he).isAbsolute).2.trans habsolute)
    · refine (byName_ordered hnames).imp_of_mem fun {a b} ha hb hab q hq r hr => ?_
      obtain ⟨e, he, rfl⟩ := hmem ha
      obtain ⟨f, hf, rfl⟩ := hmem hb
      obtain ⟨_, hqComponents⟩ := components_of_mem_filesOf (inner e he) habsolute (named e he) hq
      obtain ⟨_, hrComponents⟩ := components_of_mem_filesOf (inner f hf) habsolute (named f hf) hr
      -- The names of the two entries stand in the same place, and they decide.
      rw [ComesBefore, hqComponents, hrComponents]
      exact List.append_left_lt (List.cons_lt_cons_iff.mpr (.inl hab))

/-! ## §3. What is chosen -/

/-- An extension as it is asked for, without dots in front. -/
def withoutDots (extension : String) : List Char := extension.toList.dropWhile (· == '.')

/-- Whether a name ends in a dot and an extension, and does not begin with that dot. -/
def EndsInExtension (name extension : List Char) : Prop :=
  '.' ∉ extension ∧ ∃ stem ≠ [], name = stem ++ '.' :: extension

theorem splitExtension_eq_some_iff {name extension : List Char} :
    (splitExtension name).2 = some extension ↔ EndsInExtension name extension := by
  have hsplit : name.reverse = name.reverse.takeWhile (· != '.')
      ++ name.reverse.dropWhile (· != '.') := List.takeWhile_append_dropWhile.symm
  have hdots : ∀ c ∈ name.reverse.takeWhile (· != '.'), c ≠ '.' := fun c hc =>
    bne_iff_ne.mp (List.all_eq_true.mp List.all_takeWhile c hc)
  constructor
  · intro h
    unfold splitExtension at h
    dsimp only at h
    split at h
    · cases h
    · next hfront =>
      obtain rfl := Option.some.inj h
      refine ⟨fun hdot => hdots '.' (List.mem_reverse.mp hdot) rfl,
        (name.reverse.dropWhile (· != '.')).tail.reverse, by simpa using hfront, ?_⟩
      cases hbehind : name.reverse.dropWhile (· != '.') with
      | nil => simp [hbehind] at hfront
      | cons c rest =>
        have hc : c = '.' := by
          have := List.head?_dropWhile_not (· != '.') name.reverse
          simpa [hbehind] using this
        have hname := congrArg List.reverse hsplit
        rw [List.reverse_reverse, hbehind, hc, List.reverse_append, List.reverse_cons] at hname
        simpa using hname
  · rintro ⟨hdot, stem, hstem, rfl⟩
    have hreverse : (stem ++ '.' :: extension).reverse
        = extension.reverse ++ '.' :: stem.reverse := by simp
    have hall : ∀ c ∈ extension.reverse, (c != '.') = true := fun c hc =>
      bne_iff_ne.mpr fun h => hdot (h ▸ List.mem_reverse.mp hc)
    have htake : (extension.reverse ++ '.' :: stem.reverse).takeWhile (· != '.')
        = extension.reverse := by
      rw [List.takeWhile_append_of_pos hall]
      simp
    have hdrop : (extension.reverse ++ '.' :: stem.reverse).dropWhile (· != '.')
        = '.' :: stem.reverse := by
      rw [List.dropWhile_append_of_pos hall]
      simp
    simp [splitExtension, hreverse, htake, hdrop, hstem]

theorem hasExtension_iff {choice : Choice} {p : Path} {name : List Char}
    (hname : p.fileName? = some name) : choice.hasExtension p = true ↔
      ∃ wanted ∈ choice.extensions, EndsInExtension name (withoutDots wanted) := by
  have hextension : p.extension? = (splitExtension name).2.map String.ofList := by
    rw [extension?, hname]
    rfl
  rw [Choice.hasExtension, hextension]
  simp only [← splitExtension_eq_some_iff]
  cases (splitExtension name).2 with
  | none => simp
  | some extension =>
    simp only [Option.map_some, List.any_eq_true, beq_iff_eq, String.toList_ofList,
      Option.some.injEq, withoutDots]
    exact exists_congr fun wanted => and_congr_right fun _ => eq_comm

/-- A directory of packages has no extension. -/
theorem packageDirectory_ne_of_endsInExtension {name : String} {extension : List Char}
    (h : EndsInExtension name.toList extension) : packageDirectory ≠ name := by
  rintro rfl
  obtain ⟨-, stem, -, hname⟩ := h
  have hdot : '.' ∈ packageDirectory.toList := by simp [hname]
  exact absurd hdot (by decide)

/-- Whether a search of a directory is for the file at a path: a file that some names lead to from
the directory, through no directory of packages; it has one of the extensions, and no pattern
matches its path in the project. -/
structure IsSoughtIn (root : Files.Entry) (choice : Choice) (directory p : Path) : Prop where
  isFile : root.isFileAt p = true
  names : ∃ front last, (∀ name ∈ front ++ [last], IsEntryName name) ∧
    p = directory.into (front ++ [last]) ∧ packageDirectory ∉ front ∧
    ∃ wanted ∈ choice.extensions, EndsInExtension last.toList (withoutDots wanted)
  unignored : ¬∃ glob ∈ choice.ignored,
    glob.isMatch ((p.relativeTo? choice.directory).getD p).text.toList = true

theorem ignores_eq_false_iff {choice : Choice} {p : Path} : choice.ignores p = false ↔
    ¬∃ glob ∈ choice.ignored,
      glob.isMatch ((p.relativeTo? choice.directory).getD p).text.toList = true := by
  rw [Choice.ignores, ← Bool.not_eq_true, List.any_eq_true]

/-- A search of a directory's files takes those that it is for. -/
theorem mem_taken_iff {root : Files.Entry} (hroot : root.IsTree) {choice : Choice}
    {directory p : Path} {entries : List (String × Files.Entry)}
    (hat : root.at? directory = some (.directory entries)) :
    p ∈ (filesOf directory (.directory entries)).filter choice.takes ↔
      IsSoughtIn root choice directory p := by
  have htree := hroot.of_at? hat
  have habsolute := (Entry.atNames?_of_at? hat).2
  rw [List.mem_filter, mem_filesOf_iff htree, Choice.takes, Bool.and_eq_true, Bool.not_eq_true',
    ignores_eq_false_iff]
  constructor
  · rintro ⟨⟨names, hpackages, ⟨content, isExecutable, hfile⟩, rfl⟩, hextension, hunignored⟩
    have hnames := htree.isEntryName hfile
    have hisFile : root.isFileAt (directory.into names) = true := by
      rw [Files.Entry.isFileAt, Entry.at?_into habsolute hnames, hat, Option.bind_some, hfile]
    rcases List.eq_nil_or_concat names with rfl | ⟨front, last, rfl⟩
    · cases hfile
    · rw [List.concat_eq_append] at *
      exact ⟨hisFile, ⟨front, last, hnames, rfl, fun h => hpackages (List.mem_append_left _ h),
        (hasExtension_iff (fileName?_into hnames)).mp hextension⟩, hunignored⟩
  · rintro ⟨hisFile, ⟨front, last, hnames, rfl, hpackages, hextension⟩, hunignored⟩
    have hlast : packageDirectory ≠ last := by
      obtain ⟨wanted, -, hends⟩ := hextension
      exact packageDirectory_ne_of_endsInExtension hends
    refine ⟨⟨_, by simp [hpackages, hlast], ?_, rfl⟩,
      (hasExtension_iff (fileName?_into hnames)).mpr hextension, hunignored⟩
    rw [Files.Entry.isFileAt, Entry.at?_into habsolute hnames, hat, Option.bind_some] at hisFile
    split at hisFile
    · next content isExecutable hfile => exact ⟨content, isExecutable, hfile⟩
    · cases hisFile

/-! ## §4. Repeats -/

theorem sameAs_iff {p q : Path} :
    p.sameAs q = true ↔ p.isAbsolute = q.isAbsolute ∧ p.components = q.components := by
  rw [sameAs, Bool.and_eq_true, beq_iff_eq, beq_iff_eq]

theorem sameAs_trans {p q r : Path} (hpq : p.sameAs q = true) (hqr : q.sameAs r = true) :
    p.sameAs r = true := by
  rw [sameAs_iff] at *
  exact ⟨hpq.1.trans hqr.1, hpq.2.trans hqr.2⟩

/-- What is kept of paths that come one after the other: each one that is not the same as an
earlier one. -/
inductive KeptOf : List Path → List Path → Prop
  | none : KeptOf [] []
  | repeated {earlier kept : List Path} {p : Path} (before : KeptOf earlier kept)
      (old : ∃ q ∈ earlier, p.sameAs q = true) : KeptOf (earlier ++ [p]) kept
  | first {earlier kept : List Path} {p : Path} (before : KeptOf earlier kept)
      (new : ∀ q ∈ earlier, p.sameAs q = false) : KeptOf (earlier ++ [p]) (kept ++ [p])

namespace KeptOf

variable {all kept : List Path}

theorem subset (h : KeptOf all kept) : kept ⊆ all := by
  induction h with
  | none => exact List.Subset.refl _
  | repeated _ _ ih => exact List.subset_append_of_subset_left _ ih
  | first _ _ ih =>
    exact List.append_subset.mpr
      ⟨List.subset_append_of_subset_left _ ih, List.subset_append_right _ _⟩

/-- For each path one that is the same is kept. -/
theorem exists_sameAs (h : KeptOf all kept) : ∀ p ∈ all, ∃ q ∈ kept, p.sameAs q = true := by
  induction h with
  | none => simp
  | @repeated earlier kept p _ old ih =>
    intro q hq
    rcases List.mem_append.mp hq with hq | hq
    · exact ih q hq
    · obtain rfl := List.mem_singleton.mp hq
      obtain ⟨r, hr, hsame⟩ := old
      obtain ⟨s, hs, hsame'⟩ := ih r hr
      exact ⟨s, hs, sameAs_trans hsame hsame'⟩
  | @first earlier kept p _ new ih =>
    intro q hq
    rcases List.mem_append.mp hq with hq | hq
    · obtain ⟨r, hr, hsame⟩ := ih q hq
      exact ⟨r, List.mem_append_left _ hr, hsame⟩
    · obtain rfl := List.mem_singleton.mp hq
      exact ⟨q, by simp, sameAs_iff.mpr ⟨rfl, rfl⟩⟩

/-- **No two paths that are kept are the same.** -/
theorem distinct (h : KeptOf all kept) : kept.Pairwise fun p q => q.sameAs p = false := by
  induction h with
  | none => exact List.Pairwise.nil
  | repeated _ _ ih => exact ih
  | first before new ih =>
    refine List.pairwise_append.mpr ⟨ih, List.pairwise_singleton .., fun p hp q hq => ?_⟩
    obtain rfl := List.mem_singleton.mp hq
    exact new p (before.subset hp)

/-- A path is the same as one that is kept, if it is the same as any. -/
theorem any_sameAs_iff (h : KeptOf all kept) {p : Path} :
    kept.any p.sameAs = true ↔ ∃ q ∈ all, p.sameAs q = true := by
  rw [List.any_eq_true]
  constructor
  · rintro ⟨q, hq, hsame⟩
    exact ⟨q, h.subset hq, hsame⟩
  · rintro ⟨q, hq, hsame⟩
    obtain ⟨r, hr, hsame'⟩ := h.exists_sameAs q hq
    exact ⟨r, hr, sameAs_trans hsame hsame'⟩

/-- **The loop**: what is kept of further paths behind those that were kept already. -/
theorem foldl (h : KeptOf all kept) (rest : List Path) :
    KeptOf (all ++ rest) (rest.foldl
      (fun kept p => if kept.any p.sameAs then kept else p :: kept) kept.reverse).reverse := by
  induction rest generalizing all kept with
  | nil => simpa using h
  | cons p rest ih =>
    have hsplit : all ++ p :: rest = (all ++ [p]) ++ rest := by simp
    rw [List.foldl_cons, List.any_reverse, hsplit]
    by_cases hold : kept.any p.sameAs = true
    · rw [if_pos hold]
      exact ih (h.repeated (h.any_sameAs_iff.mp hold))
    · rw [if_neg hold, ← List.reverse_concat]
      refine ih (h.first fun q hq => ?_)
      by_contra hsame
      exact hold (h.any_sameAs_iff.mpr ⟨q, hq, Bool.eq_true_of_not_eq_false hsame⟩)

end KeptOf

/-- **What is without repeats is kept.** -/
theorem keptOf_withoutRepeats (paths : List Path) : KeptOf paths (withoutRepeats paths) :=
  KeptOf.none.foldl paths

/-! ## §5. Inputs -/

/-- The paths of some inputs: each input in the project, or the project's directory if there are no
inputs. -/
def pathsOfInputs (choice : Choice) : List String → List Path
  | [] => [choice.directory]
  | inputs => inputs.map fun input => choice.directory.join ⟨input⟩

/-- Whether a path leads to a file or a directory. -/
def Resolves (root : Files.Entry) (p : Path) : Prop :=
  root.isFileAt p = true ∨ root.isDirectoryAt p = true

/-- Whether a path is the first one of some that leads neither to a file nor to a directory. -/
def IsFirstMissing (root : Files.Entry) (paths : List Path) (p : Path) : Prop :=
  ∃ front behind, paths = front ++ p :: behind ∧ (∀ q ∈ front, Resolves root q) ∧
    ¬Resolves root p

/-- The files that a path of an input stands for: a file for itself, and a directory for all files
that are sought in it, in the order of their components. -/
inductive StandsFor (root : Files.Entry) (choice : Choice) (p : Path) : List Path → Prop
  | file (isFile : root.isFileAt p = true) : StandsFor root choice p [p]
  | directory {files : List Path} (isDirectory : root.isDirectoryAt p = true)
      (complete : ∀ q, q ∈ files ↔ IsSoughtIn root choice p q)
      (ordered : files.Pairwise ComesBefore) : StandsFor root choice p files

theorem resolves_iff {root : Files.Entry} {p : Path} : Resolves root p ↔ (root.at? p).isSome := by
  unfold Resolves Files.Entry.isFileAt Files.Entry.isDirectoryAt
  cases root.at? p with
  | none => simp
  | some entry => cases entry <;> simp

/-- A path stands for its files if it leads anywhere, and is missing if not. -/
theorem filesOfInput_spec {root : Files.Entry} (hroot : root.IsTree) (choice : Choice) (p : Path) :
    (Resolves root p ∧ ∃ files, filesOfInput root choice p = .ok files ∧
        StandsFor root choice p files) ∨
      (¬Resolves root p ∧ filesOfInput root choice p = .error (.missing p)) := by
  rw [resolves_iff, filesOfInput]
  cases hat : root.at? p with
  | none => exact .inr ⟨by simp, rfl⟩
  | some entry =>
    refine .inl ⟨rfl, ?_⟩
    cases entry with
    | file content isExecutable =>
      exact ⟨_, rfl, .file (by rw [Files.Entry.isFileAt, hat])⟩
    | directory entries =>
      refine ⟨_, rfl, .directory (by rw [Files.Entry.isDirectoryAt, hat])
        (fun q => mem_taken_iff hroot hat) ?_⟩
      exact (filesOf_ordered (hroot.of_at? hat) (Entry.atNames?_of_at? hat).2).filter _

/-- **The loop over the inputs** ends at the first one that is missing. -/
theorem mapM_filesOfInput {root : Files.Entry} (hroot : root.IsTree) (choice : Choice)
    (paths : List Path) :
    ((∀ p ∈ paths, Resolves root p) ∧ ∃ found, paths.mapM (filesOfInput root choice) = .ok found ∧
        List.Forall₂ (StandsFor root choice) paths found) ∨
      ∃ p, IsFirstMissing root paths p ∧
        paths.mapM (filesOfInput root choice) = .error (.missing p) := by
  induction paths with
  | nil => exact .inl ⟨by simp, [], rfl, .nil⟩
  | cons p rest ih =>
    rw [List.mapM_cons]
    rcases filesOfInput_spec hroot choice p with ⟨hp, files, hfiles, hstands⟩ | ⟨hp, herror⟩
    · rw [hfiles]
      rcases ih with ⟨hrest, found, hfound, hall⟩ | ⟨q, ⟨front, behind, rfl, hfront, hq⟩, herror⟩
      · rw [hfound]
        exact .inl ⟨List.forall_mem_cons.mpr ⟨hp, hrest⟩, _, rfl, .cons hstands hall⟩
      · rw [herror]
        exact .inr ⟨q, ⟨p :: front, behind, rfl, List.forall_mem_cons.mpr ⟨hp, hfront⟩, hq⟩, rfl⟩
    · rw [herror]
      exact .inr ⟨p, ⟨[], rest, rfl, by simp, hp⟩, rfl⟩

theorem IsFirstMissing.unique {root : Files.Entry} {paths : List Path} {p q : Path}
    (hp : IsFirstMissing root paths p) (hq : IsFirstMissing root paths q) : p = q := by
  obtain ⟨front, behind, rfl, hfront, hmissing⟩ := hp
  obtain ⟨front', behind', hsplit, hfront', hmissing'⟩ := hq
  rcases List.append_eq_append_iff.mp hsplit with ⟨more, hmore, hrest⟩ | ⟨more, hmore, hrest⟩
  · cases more with
    | nil => exact (List.cons.inj hrest).1
    | cons r more =>
      obtain rfl := (List.cons.inj hrest).1
      exact absurd (hfront' p (by simp [hmore])) hmissing
  · cases more with
    | nil => exact (List.cons.inj hrest).1.symm
    | cons r more =>
      obtain rfl := (List.cons.inj hrest).1
      exact absurd (hfront q (by simp [hmore])) hmissing'

theorem collectInputs_eq (root : Files.Entry) (choice : Choice) (inputs : List String) :
    collectInputs root choice inputs
      = ((pathsOfInputs choice inputs).mapM (filesOfInput root choice)).map
          fun found => withoutRepeats found.flatten := by
  have hpaths : (if inputs.isEmpty then [choice.directory]
      else inputs.map fun input => choice.directory.join ⟨input⟩)
        = pathsOfInputs choice inputs := by
    cases inputs <;> rfl
  rw [← hpaths]
  unfold collectInputs
  dsimp only
  cases (if inputs.isEmpty then [choice.directory] else _).mapM (filesOfInput root choice) <;> rfl

/-- **What is collected.**  Collecting fails exactly if the path of an input leads neither to a file
nor to a directory, and it names the first such path.  Otherwise what is collected are the first
ones among the files that the inputs stand for, one input after the other, and no two of them are
the same. -/
theorem collectInputs_complete {root : Files.Entry} (hroot : root.IsTree) (choice : Choice)
    (inputs : List String) :
    (∀ problem, collectInputs root choice inputs = .error problem ↔
      ∃ p, IsFirstMissing root (pathsOfInputs choice inputs) p ∧ problem = .missing p) ∧
    ((∀ p ∈ pathsOfInputs choice inputs, Resolves root p) →
      ∃ found files, collectInputs root choice inputs = .ok files ∧
        List.Forall₂ (StandsFor root choice) (pathsOfInputs choice inputs) found ∧
        KeptOf found.flatten files ∧ files.Pairwise fun p q => q.sameAs p = false) := by
  rw [collectInputs_eq]
  rcases mapM_filesOfInput hroot choice (pathsOfInputs choice inputs)
    with ⟨hresolve, found, hfound, hall⟩ | ⟨p, hfirst, herror⟩
  · rw [hfound]
    have hkept := keptOf_withoutRepeats found.flatten
    refine ⟨fun problem => iff_of_false nofun ?_, fun _ => ⟨found, _, rfl, hall, hkept,
      hkept.distinct⟩⟩
    rintro ⟨p, ⟨front, behind, hsplit, -, hmissing⟩, -⟩
    exact hmissing (hresolve p (by simp [hsplit]))
  · rw [herror]
    refine ⟨fun problem => ⟨fun h => ?_, fun ⟨q, hq, hproblem⟩ => ?_⟩, fun hresolve => ?_⟩
    · cases h
      exact ⟨p, hfirst, rfl⟩
    · rw [hproblem, hq.unique hfirst]
      rfl
    · obtain ⟨front, behind, hsplit, -, hmissing⟩ := hfirst
      exact absurd (hresolve p (by simp [hsplit])) hmissing

/-- A project with packages, and with components of two directories. -/
def projectFiles : Files.Entry :=
  .directory [("z.vue", .file .empty false),
    ("src", .directory [("b.vue", .file .empty false), ("a.vue", .file .empty false),
      ("node_modules", .directory [("c.vue", .file .empty false)]),
      ("notes.txt", .file .empty false)])]

/-- The components of the project, whose extension is asked for with a dot. -/
def projectChoice : Choice := ⟨⟨"/"⟩, [".vue"], []⟩

theorem isTree_projectFiles : projectFiles.IsTree := by
  refine .directory (by decide) (by decide) (List.forall_mem_cons.mpr ⟨.file .., ?_⟩)
  refine List.forall_mem_singleton.mpr (.directory (by decide) (by decide) ?_)
  simp only [List.forall_mem_cons, List.not_mem_nil, IsEmpty.forall_iff, implies_true, and_true]
  refine ⟨.file .., .file .., .directory (by decide) (by decide) ?_, .file ..⟩
  exact List.forall_mem_singleton.mpr (.file ..)

/-- A file of packages that is named is taken, and a directory around another one adds what that one
has not. -/
theorem collectInputs_complete_project :
    projectFiles.IsTree ∧
    (∀ p ∈ pathsOfInputs projectChoice ["src/node_modules/c.vue", "src", "."],
      Resolves projectFiles p) ∧
    ∃ found files,
      collectInputs projectFiles projectChoice ["src/node_modules/c.vue", "src", "."] = .ok files ∧
      List.Forall₂ (StandsFor projectFiles projectChoice)
        (pathsOfInputs projectChoice ["src/node_modules/c.vue", "src", "."]) found ∧
      KeptOf found.flatten files ∧ files.Pairwise fun p q => q.sameAs p = false := by
  have hresolve : ∀ p ∈ pathsOfInputs projectChoice ["src/node_modules/c.vue", "src", "."],
      Resolves projectFiles p := by
    simp only [resolves_iff]
    decide +kernel
  exact ⟨isTree_projectFiles, hresolve, (collectInputs_complete isTree_projectFiles _ _).2 hresolve⟩

end SingleFile.Command
