/-
  SingleFile.Proofs.Config.Bases — BASES OF CONFIGURATIONS
  ────────────────────────────────────────────────────────
  A configuration may name a file as its base, which may name one itself, and
  so on.  What is read from the files is left open here: any reader will do,
  and files may well be each other's bases.  The bases are followed up to a
  number, so reading always comes to an end, and each option is taken from
  the first configuration that sets it.

  Main results:
    * `basePath?_eq_some_iff` — the base that a configuration names.
    * `loadTypeCheck_of_follows` — loading past bases that were followed.
      The run.
    * `loadTypeCheck_eq_iff` — what loading comes to, whatever the files are.
-/
import Mathlib.Data.List.Basic
import SingleFile.Config.Discovery

namespace SingleFile.Config

open SingleFile.Files

/-! ## §1. Bases -/

/-- The directory that the text of a path names in front of its last component. -/
def directoryOf (path : Path) : Path := path.parent?.getD ⟨""⟩

/-- A path with the extension of data, which is added if it has another one or none. -/
def withDataExtension (path : Path) : Path :=
  if path.extension? = some "json" then path else ⟨path.text ++ ".json"⟩

/-- Whether a file with a configuration has a base: a path that starts in the file's directory or in
the one around it, and that gets the extension of data. -/
inductive HasBase (path : Path) (c : TypeCheck) : Path → Prop where
  | mk {base : String} (named : c.base = some base)
    (isRelative : "./".toList <+: base.toList ∨ "../".toList <+: base.toList) :
    HasBase path c (withDataExtension ((directoryOf path).join ⟨base⟩))

theorem join_empty {base : Path} (h : base.isAbsolute = false) :
    (⟨""⟩ : Path).join base = base := by
  simp [Path.join, h]

theorem isAbsolute_of_relative {base : String}
    (h : "./".toList <+: base.toList ∨ "../".toList <+: base.toList) :
    (⟨base⟩ : Path).isAbsolute = false := by
  rw [Path.isAbsolute]
  rcases h with ⟨rest, hrest⟩ | ⟨rest, hrest⟩
  · rw [← hrest]
    rfl
  · rw [← hrest]
    rfl

theorem startsRelative_iff (base : String) :
    (base.startsWith "./" || base.startsWith "../") = true ↔
      "./".toList <+: base.toList ∨ "../".toList <+: base.toList := by
  rw [Bool.or_eq_true, String.startsWith_string_iff, String.startsWith_string_iff]

/-- The base that is named by a relative path. -/
theorem basePath?_of_relative {path : Path} {c : TypeCheck} {base : String}
    (named : c.base = some base)
    (isRelative : "./".toList <+: base.toList ∨ "../".toList <+: base.toList) :
    basePath? path c = some (withDataExtension ((directoryOf path).join ⟨base⟩)) := by
  have hjoin : (⟨""⟩ : Path).join ⟨base⟩ = ⟨base⟩ := join_empty (isAbsolute_of_relative isRelative)
  unfold basePath? withDataExtension directoryOf
  rw [named, Option.bind_eq_bind, Option.bind_some,
    if_pos ((startsRelative_iff base).mpr isRelative)]
  cases path.parent? with
  | some directory => simp
  | none => simp [hjoin]

/-- **The base that a configuration names.** -/
theorem basePath?_eq_some_iff {path file : Path} {c : TypeCheck} :
    basePath? path c = some file ↔ HasBase path c file := by
  constructor
  · intro h
    cases named : c.base with
    | none =>
      simp only [basePath?, named] at h
      cases h
    | some base =>
      by_cases isRelative : "./".toList <+: base.toList ∨ "../".toList <+: base.toList
      · rw [basePath?_of_relative named isRelative] at h
        obtain rfl := Option.some.inj h
        exact ⟨named, isRelative⟩
      · rw [← startsRelative_iff] at isRelative
        unfold basePath? at h
        rw [named, Option.bind_eq_bind, Option.bind_some, if_neg isRelative] at h
        cases h
  · rintro ⟨named, isRelative⟩
    exact basePath?_of_relative named isRelative

theorem basePath?_eq_none_iff {path : Path} {c : TypeCheck} :
    basePath? path c = none ↔ ∀ file, ¬HasBase path c file := by
  rw [Option.eq_none_iff_forall_ne_some]
  simp only [ne_eq, basePath?_eq_some_iff]

/-! ## §2. Options of several configurations -/

/-- A configuration with options from others where it leaves them open: each from the first that
sets it. -/
def merged (configs : List TypeCheck) : TypeCheck where
  base := configs.head?.bind TypeCheck.base
  options :=
    { moduleSystem := configs.findSome? fun c => c.options.moduleSystem
      interop := configs.findSome? fun c => c.options.interop
      verbatim := configs.findSome? fun c => c.options.verbatim }

theorem merged_singleton (c : TypeCheck) : merged [c] = c := by
  obtain ⟨base, moduleSystem, interop, verbatim⟩ := c
  cases moduleSystem <;> cases interop <;> cases verbatim <;> rfl

theorem findSome?_cons_eq_or {α β : Type} (f : α → Option β) (a : α) (as : List α) :
    (a :: as).findSome? f = (f a).or (as.findSome? f) := by
  rw [List.findSome?_cons]
  cases f a <;> rfl

/-- A configuration inherits from what others are merged to. -/
theorem merged_cons (c : TypeCheck) (configs : List TypeCheck) :
    merged (c :: configs) = { c with options := c.options.inherit (merged configs).options } := by
  simp only [merged, CompilerOptions.inherit, findSome?_cons_eq_or]
  rfl

/-! ## §3. Following bases -/

/-- Whether one base after the other leads from a file to another one, past some configurations. -/
inductive Follows (read : Reader) : Path → List TypeCheck → Path → Prop where
  | here (path : Path) : Follows read path [] path
  | on {path base last : Path} {c : TypeCheck} {passed : List TypeCheck}
    (reads : readTypeCheck read path = .ok c) (hasBase : HasBase path c base)
    (follows : Follows read base passed last) : Follows read path (c :: passed) last

/-- What loading a file comes to if so many bases may follow on it. -/
inductive ComesTo (read : Reader) (bases : Nat) (path : Path) :
    Except Failure TypeCheck → Prop where
  /-- The bases come to an end, and the configurations are merged. -/
  | stops {last : Path} {passed : List TypeCheck} {c : TypeCheck}
    (follows : Follows read path passed last) (within : passed.length ≤ bases)
    (reads : readTypeCheck read last = .ok c) (noBase : ∀ base, ¬HasBase last c base) :
    ComesTo read bases path (.ok (merged (passed ++ [c])))
  /-- A file cannot be used. -/
  | breaks {last : Path} {passed : List TypeCheck} {cause : FailureCause}
    (follows : Follows read path passed last) (within : passed.length ≤ bases)
    (fails : readTypeCheck read last = .error ⟨last, cause⟩) :
    ComesTo read bases path (.error ⟨last, cause⟩)
  /-- One base too many follows. -/
  | goesOn {last base : Path} {passed : List TypeCheck} {c : TypeCheck}
    (follows : Follows read path passed last) (all : passed.length = bases)
    (reads : readTypeCheck read last = .ok c) (hasBase : HasBase last c base) :
    ComesTo read bases path (.error ⟨last, .unsupported .tooManyBases⟩)

/-- A file that cannot be used is the one that is named. -/
theorem path_of_readTypeCheck {read : Reader} {path : Path} {failure : Failure}
    (h : readTypeCheck read path = .error failure) : failure.path = path := by
  unfold readTypeCheck readConfig at h
  cases htext : read path with
  | none =>
    rw [htext] at h
    obtain rfl := Except.error.inj h
    rfl
  | some text =>
    rw [htext] at h
    replace h : orMalformed path (Json.decodeText? TypeCheck.decoder (plainJson text))
        = .error failure := h
    unfold orMalformed at h
    split at h
    · cases h
    · obtain rfl := Except.error.inj h
      rfl

theorem inheriting_of_error {read : Reader} {path : Path} {failure : Failure}
    (fails : readTypeCheck read path = .error failure)
    (load : Path → Except Failure TypeCheck) : inheriting read load path = .error failure := by
  rw [inheriting, fails]
  rfl

theorem inheriting_of_noBase {read : Reader} {path : Path} {c : TypeCheck}
    (reads : readTypeCheck read path = .ok c) (noBase : ∀ base, ¬HasBase path c base)
    (load : Path → Except Failure TypeCheck) : inheriting read load path = .ok c := by
  simp only [inheriting, reads, bind, Except.bind, basePath?_eq_none_iff.mpr noBase]
  rfl

theorem inheriting_of_hasBase {read : Reader} {path base : Path} {c : TypeCheck}
    (reads : readTypeCheck read path = .ok c) (hasBase : HasBase path c base)
    (load : Path → Except Failure TypeCheck) : inheriting read load path
      = (load base).map fun parent => { c with options := c.options.inherit parent.options } := by
  simp only [inheriting, reads, bind, Except.bind, basePath?_eq_some_iff.mpr hasBase]
  cases load base <;> rfl

/-- **Loading past bases that were followed.** -/
theorem loadTypeCheck_of_follows {read : Reader} {path last : Path} {passed : List TypeCheck}
    (follows : Follows read path passed last) (bases : Nat) :
    loadTypeCheck read (passed.length + bases) path
      = (loadTypeCheck read bases last).map fun c =>
          passed.foldr (fun own c => { own with options := own.options.inherit c.options }) c := by
  induction follows with
  | here path =>
    rw [List.length_nil, Nat.zero_add]
    cases loadTypeCheck read bases path <;> rfl
  | on reads hasBase follows ih =>
    rw [List.length_cons, Nat.add_right_comm, loadTypeCheck,
      inheriting_of_hasBase reads hasBase, ih]
    cases loadTypeCheck read bases _ <;> rfl

theorem foldr_inherit (passed : List TypeCheck) (c : TypeCheck) :
    passed.foldr (fun own c => { own with options := own.options.inherit c.options }) c
      = merged (passed ++ [c]) := by
  induction passed with
  | nil => exact (merged_singleton c).symm
  | cons own passed ih => rw [List.foldr_cons, ih, List.cons_append, merged_cons]

/-! ## §4. What loading comes to -/

theorem loadTypeCheck_of_error {read : Reader} {path : Path} {failure : Failure}
    (fails : readTypeCheck read path = .error failure) (bases : Nat) :
    loadTypeCheck read bases path = .error failure := by
  cases bases with
  | zero => exact inheriting_of_error fails _
  | succ bases => exact inheriting_of_error fails _

theorem loadTypeCheck_of_noBase {read : Reader} {path : Path} {c : TypeCheck}
    (reads : readTypeCheck read path = .ok c) (noBase : ∀ base, ¬HasBase path c base)
    (bases : Nat) : loadTypeCheck read bases path = .ok c := by
  cases bases with
  | zero => exact inheriting_of_noBase reads noBase _
  | succ bases => exact inheriting_of_noBase reads noBase _

theorem loadTypeCheck_of_comesTo {read : Reader} {bases : Nat} {path : Path}
    {result : Except Failure TypeCheck} (h : ComesTo read bases path result) :
    loadTypeCheck read bases path = result := by
  cases h with
  | stops follows within reads noBase =>
    obtain ⟨left, rfl⟩ := Nat.exists_eq_add_of_le within
    rw [loadTypeCheck_of_follows follows, loadTypeCheck_of_noBase reads noBase, ← foldr_inherit]
    rfl
  | breaks follows within fails =>
    obtain ⟨left, rfl⟩ := Nat.exists_eq_add_of_le within
    rw [loadTypeCheck_of_follows follows, loadTypeCheck_of_error fails]
    rfl
  | goesOn follows all reads hasBase =>
    rw [← all, ← Nat.add_zero (List.length _), loadTypeCheck_of_follows follows, loadTypeCheck,
      inheriting_of_hasBase reads hasBase]
    rfl

/-- What comes of a base comes of the file that names it, if one base more may follow. -/
theorem ComesTo.exists_behind {read : Reader} {bases : Nat} {path base : Path} {c : TypeCheck}
    {result : Except Failure TypeCheck} (h : ComesTo read bases base result)
    (reads : readTypeCheck read path = .ok c) (hasBase : HasBase path c base) :
    ∃ result, ComesTo read (bases + 1) path result := by
  cases h with
  | stops follows within reads' noBase =>
    exact ⟨_, .stops (.on reads hasBase follows) (Nat.succ_le_succ within) reads' noBase⟩
  | breaks follows within fails =>
    exact ⟨_, .breaks (.on reads hasBase follows) (Nat.succ_le_succ within) fails⟩
  | goesOn follows all reads' hasBase' =>
    exact ⟨_, .goesOn (.on reads hasBase follows) (congrArg Nat.succ all) reads' hasBase'⟩

/-- A file fails, or is the last one, or has a base. -/
theorem comesTo_or_hasBase (read : Reader) (bases : Nat) (path : Path) :
    (∃ result, ComesTo read bases path result) ∨
      ∃ c base, readTypeCheck read path = .ok c ∧ HasBase path c base := by
  cases reads : readTypeCheck read path with
  | error failure =>
    obtain ⟨file, cause⟩ := failure
    obtain rfl : file = path := path_of_readTypeCheck reads
    exact .inl ⟨_, .breaks (.here _) (Nat.zero_le _) reads⟩
  | ok c =>
    by_cases hasBase : ∃ base, HasBase path c base
    · obtain ⟨base, hasBase⟩ := hasBase
      exact .inr ⟨c, base, rfl, hasBase⟩
    · exact .inl ⟨_, .stops (.here _) (Nat.zero_le _) reads (not_exists.mp hasBase)⟩

/-- Whatever the files are, following the bases comes to something. -/
theorem exists_comesTo (read : Reader) (bases : Nat) (path : Path) :
    ∃ result, ComesTo read bases path result := by
  induction bases generalizing path with
  | zero =>
    rcases comesTo_or_hasBase read 0 path with hresult | ⟨c, base, reads, hasBase⟩
    · exact hresult
    · exact ⟨_, .goesOn (.here _) rfl reads hasBase⟩
  | succ bases ih =>
    rcases comesTo_or_hasBase read (bases + 1) path with hresult | ⟨c, base, reads, hasBase⟩
    · exact hresult
    · obtain ⟨result, hresult⟩ := ih base
      exact hresult.exists_behind reads hasBase

/-- **What loading comes to**, whatever the files are: if at most eight bases follow on one another
and all files can be used, the configurations merged; if a file cannot be used, its failure; and if
a ninth base follows, a failure of the eighth one. -/
theorem loadTypeCheck_eq_iff (read : Reader) (path : Path) (result : Except Failure TypeCheck) :
    loadTypeCheck read maxBases path = result ↔ ComesTo read 8 path result := by
  constructor
  · rintro rfl
    obtain ⟨result, hresult⟩ := exists_comesTo read 8 path
    rw [show loadTypeCheck read maxBases path = result from loadTypeCheck_of_comesTo hresult]
    exact hresult
  · exact loadTypeCheck_of_comesTo

end SingleFile.Config
