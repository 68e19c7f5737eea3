/-
  SingleFile.Proofs.Files.Descents — FURTHER DOWN IN A TREE
  ─────────────────────────────────────────────────────────
  What stands further down in a directory is reached by the names that lead
  to it, and its path is the directory's with these names behind it.  In a
  tree as file systems have it no name stands twice in a directory, so each
  entry is the one that its names lead to.

  Main results:
    * `at?_into` — what names behind a path lead to.
    * `IsTree.mem_iff_lookup` — an entry is the one of its name.
    * `IsTree.of_at?` — what a path leads to is a tree again.
-/
import SingleFile.Proofs.Files.Ancestors

namespace SingleFile.Files

/-! ## §1. Paths with names behind them -/

/-- Whether a text can be an entry's name: it leads into a directory, and not around. -/
structure IsEntryName (name : String) : Prop where
  slashless : '/' ∉ name.toList
  isStep : Path.isStep name.toList = true
  isName : Path.isName name.toList = true

instance (name : String) : Decidable (IsEntryName name) :=
  decidable_of_iff ('/' ∉ name.toList ∧ Path.isStep name.toList = true ∧
      Path.isName name.toList = true)
    ⟨fun ⟨slashless, isStep, isName⟩ => ⟨slashless, isStep, isName⟩,
      fun h => ⟨h.slashless, h.isStep, h.isName⟩⟩

theorem IsEntryName.isAbsolute {name : String} (h : IsEntryName name) :
    (⟨name⟩ : Path).isAbsolute = false := by
  rw [Path.isAbsolute, beq_eq_false_iff_ne]
  exact fun hhead => h.slashless (List.mem_of_mem_head? hhead)

theorem IsEntryName.steps {name : String} (h : IsEntryName name) :
    (⟨name⟩ : Path).steps = [name.toList] := by
  rw [Path.steps, Path.stepsOf, splitSlashes_of_not_mem h.slashless, List.filter_singleton,
    h.isStep]
  rfl

namespace Path

/-- A path with names behind it. -/
def into (p : Path) (names : List String) : Path := names.foldl (fun q name => q.join ⟨name⟩) p

@[simp] theorem into_nil (p : Path) : p.into [] = p := rfl

@[simp] theorem into_cons (p : Path) (name : String) (names : List String) :
    p.into (name :: names) = (p.join ⟨name⟩).into names := rfl

/-- **A path with names behind it leads through its steps and then the names.** -/
theorem steps_into {p : Path} {names : List String} (h : ∀ name ∈ names, IsEntryName name) :
    (p.into names).steps = p.steps ++ names.map String.toList ∧
      (p.into names).isAbsolute = p.isAbsolute := by
  induction names generalizing p with
  | nil => simp
  | cons name names ih =>
    have hname := h name (List.mem_cons_self ..)
    obtain ⟨hsteps, habsolute⟩ := steps_join (p := p) hname.isAbsolute
    obtain ⟨hinner, hinnerAbsolute⟩ := ih (p := p.join ⟨name⟩) fun n hn =>
      h n (List.mem_cons_of_mem _ hn)
    rw [into_cons, hinner, hinnerAbsolute, hsteps, habsolute, hname.steps]
    simp

/-- The last one of the names behind a path is the path's name. -/
theorem fileName?_into {p : Path} {names : List String} {last : String}
    (h : ∀ name ∈ names ++ [last], IsEntryName name) :
    (p.into (names ++ [last])).fileName? = some last.toList := by
  rw [fileName?_eq, (steps_into h).1, List.map_append, ← List.append_assoc, List.map_singleton,
    List.getLast?_concat]
  exact Option.filter_some_pos (h last (by simp)).isName

end Path

namespace Entry

/-! ## §2. What names lead to -/

theorem atNames?_cons (entry : Entry) (name : String) (names : List String) :
    entry.atNames? (name :: names) = (entry.atNames? [name]).bind (atNames? names) := by
  cases entry with
  | file _ _ => rfl
  | directory entries =>
    show (lookup name entries).bind _ = ((lookup name entries).bind (atNames? [])).bind _
    cases lookup name entries with
    | none => rfl
    | some inner => cases inner <;> rfl

/-- What a path leads to stands at the path's names. -/
theorem atNames?_of_at? {root entry : Entry} {p : Path} (h : root.at? p = some entry) :
    root.atNames? p.names = some entry ∧ p.isAbsolute = true := by
  cases hsegments : segmentsOf? p with
  | none => simp [at?, place?, hsegments] at h
  | some segments =>
    rw [at?_eq hsegments, Option.bind_eq_some_iff] at h
    exact ⟨h.choose_spec.2, (segmentsOf?_steps hsegments).2⟩

/-- Only behind a directory's path a name leads to anything. -/
theorem isDirectoryAt_of_join {root : Entry} {d : Path} (hd : d.isAbsolute = true) {name : String}
    (hname : IsEntryName name) (h : (root.at? (d.join ⟨name⟩)).isSome) :
    root.isDirectoryAt d = true := by
  obtain ⟨front, hsegments, hfront⟩ := segmentsOf?_join hd hname.slashless
  rw [at?_eq hsegments] at h
  obtain ⟨entry, hentry⟩ := Option.isSome_iff_exists.mp h
  obtain ⟨there, hwalk, -⟩ := Option.bind_eq_some_iff.mp hentry
  rw [walk?_append, Option.bind_eq_some_iff] at hwalk
  obtain ⟨here, hhere, hlast⟩ := hwalk
  have hdirectory : root.shapeAt? here.reverse = some .directory := by
    rw [walk?] at hlast
    split at hlast
    · next hdirectory => exact hdirectory
    · cases hlast
  rw [← walk?_filter hdirectory, hfront] at hhere
  have hnames := names_of_walk?_steps hd hhere
  rw [isDirectoryAt_iff hd, hnames, List.reverse_reverse]
  exact ⟨hhere, hdirectory⟩

/-- A name behind a path leads on from what the path leads to. -/
theorem at?_join_eq {root : Entry} {d : Path} (hd : d.isAbsolute = true) {name : String}
    (hname : IsEntryName name) :
    root.at? (d.join ⟨name⟩) = (root.at? d).bind (atNames? [name]) := by
  by_cases hdirectory : root.isDirectoryAt d = true
  · rw [at?_join hd hdirectory hname.slashless hname.isStep hname.isName, atNames?_concat]
    cases hat : root.at? d with
    | none => simp [isDirectoryAt, hat] at hdirectory
    | some entry => rw [(atNames?_of_at? hat).1]
  · have hnone : root.at? (d.join ⟨name⟩) = none := by
      by_contra hsome
      exact hdirectory (isDirectoryAt_of_join hd hname (Option.isSome_iff_ne_none.mpr hsome))
    rw [hnone]
    cases hat : root.at? d with
    | none => rfl
    | some entry =>
      cases entry with
      | file _ _ => rfl
      | directory _ => exact absurd (by simp [isDirectoryAt, hat]) hdirectory

/-- **Names behind a path lead on from what the path leads to.** -/
theorem at?_into {root : Entry} {d : Path} (hd : d.isAbsolute = true) {names : List String}
    (h : ∀ name ∈ names, IsEntryName name) :
    root.at? (d.into names) = (root.at? d).bind (atNames? names) := by
  induction names generalizing d with
  | nil =>
    rw [Path.into_nil]
    cases root.at? d with
    | none => rfl
    | some entry => cases entry <;> rfl
  | cons name names ih =>
    have hname := h name (List.mem_cons_self ..)
    have habsolute : (d.join ⟨name⟩).isAbsolute = true :=
      (Path.steps_join hname.isAbsolute).2.trans hd
    rw [Path.into_cons, ih habsolute fun n hn => h n (List.mem_cons_of_mem _ hn),
      at?_join_eq hd hname, Option.bind_assoc]
    exact congrArg _ (funext fun entry => (atNames?_cons entry name names).symm)

/-! ## §3. Trees -/

/-- Trees as file systems have them: the entries of a directory have names, and no two of them
the same one. -/
inductive IsTree : Entry → Prop
  | file (content : ByteArray) (isExecutable : Bool) : IsTree (.file content isExecutable)
  | directory {entries : List (String × Entry)} (distinct : (entries.map Prod.fst).Nodup)
      (named : ∀ e ∈ entries, IsEntryName e.1) (inner : ∀ e ∈ entries, IsTree e.2) :
      IsTree (.directory entries)

/-- **An entry is the one of its name**, where no name stands twice. -/
theorem mem_iff_lookup {entries : List (String × Entry)}
    (distinct : (entries.map Prod.fst).Nodup) {name : String} {entry : Entry} :
    (name, entry) ∈ entries ↔ lookup name entries = some entry := by
  induction entries with
  | nil => simp [lookup]
  | cons e entries ih =>
    obtain ⟨hnew, hrest⟩ := List.nodup_cons.mp distinct
    rw [List.mem_cons, ih hrest]
    by_cases hname : e.1 = name
    · subst hname
      have hhead : lookup e.1 (e :: entries) = some e.2 := by simp [lookup]
      have hnone : lookup e.1 entries ≠ some entry := fun h =>
        hnew (List.mem_map.mpr ⟨_, (ih hrest).mpr h, rfl⟩)
      rw [hhead, Option.some.injEq, or_iff_left hnone]
      exact ⟨fun h => congrArg Prod.snd h.symm, fun h => h ▸ rfl⟩
    · have htail : lookup name (e :: entries) = lookup name entries := by simp [lookup, hname]
      rw [htail, or_iff_right fun h => hname (congrArg Prod.fst h).symm]

theorem IsTree.of_atNames? {root entry : Entry} (h : root.IsTree) {names : List String}
    (hentry : root.atNames? names = some entry) : entry.IsTree := by
  induction names generalizing root with
  | nil =>
    have hroot : root.atNames? [] = some root := by cases root <;> rfl
    rw [hroot] at hentry
    exact Option.some.inj hentry ▸ h
  | cons name names ih =>
    cases h with
    | file _ _ => cases hentry
    | directory distinct named inner =>
      obtain ⟨next, hnext, hrest⟩ := Option.bind_eq_some_iff.mp hentry
      exact ih (inner _ ((mem_iff_lookup distinct).mpr hnext)) hrest

/-- What a path leads to in a tree is a tree. -/
theorem IsTree.of_at? {root entry : Entry} (h : root.IsTree) {p : Path}
    (hentry : root.at? p = some entry) : entry.IsTree :=
  h.of_atNames? (atNames?_of_at? hentry).1

/-- The names that lead to something in a tree are names of entries. -/
theorem IsTree.isEntryName {root entry : Entry} (h : root.IsTree) {names : List String}
    (hentry : root.atNames? names = some entry) : ∀ name ∈ names, IsEntryName name := by
  induction names generalizing root with
  | nil => simp
  | cons name names ih =>
    cases h with
    | file _ _ => cases hentry
    | directory distinct named inner =>
      obtain ⟨next, hnext, hrest⟩ := Option.bind_eq_some_iff.mp hentry
      have hmem := (mem_iff_lookup distinct).mpr hnext
      intro n hn
      rcases List.mem_cons.mp hn with rfl | hn
      · exact named _ hmem
      · exact ih (inner _ hmem) hrest n hn

end Entry

end SingleFile.Files
