/-
  SingleFile.Proofs.Files.Ancestors — PARENTS OF PATHS
  ────────────────────────────────────────────────────
  The parent of a path is the path without its last step, whatever that step
  is: behind two dots the parent is not the directory around, but the one
  that the dots led out of.  Where a path leads to a directory its ancestors
  do so too, and what has a name in the directory is found behind the path.

  Main results:
    * `lineage_ancestors` — an ancestor has one step less than the one before.
    * `isDirectoryAt_ancestors` — the ancestors of a directory's path lead to
      directories.
    * `at?_join` — what a name behind a directory's path leads to.
    * `staysAround_iff` — paths whose ancestors are around where they lead.
    * `exists_stray` — for all other paths a file can stand off the way.
-/
import Mathlib.Data.Finset.Max
import SingleFile.Proofs.Files.Writing

namespace SingleFile.Files

/-! ## §1. Parents -/

namespace Path

/-- In an absolute path the segments that count are the steps. -/
theorem counts_of_isAbsolute {p : Path} (h : p.isAbsolute = true) :
    ∀ s ∈ p.segments, s.counts = isStep s.text := by
  intro s hs
  obtain ⟨rest, hrest⟩ := p.isAbsolute_iff.mp h
  simp only [segments, hrest] at hs
  obtain ⟨text, -, rfl⟩ := List.mem_map.mp hs
  rfl

/-- The last segment of an absolute path that counts is its last step. -/
theorem steps_of_trimEnd {p : Path} (h : p.isAbsolute = true) {front : List Segment}
    {last : Segment} (htrim : trimEnd p.segments = front ++ [last]) :
    p.steps = stepsAmong front ++ [last.text] := by
  have hmem : last ∈ p.segments := (trimEnd_isInitial p.segments).subset (by simp [htrim])
  have hstep : isStep last.text = true := by
    rw [← counts_of_isAbsolute h last hmem]
    exact counts_getLast_trimEnd htrim
  rw [← stepsAmong_segments, ← stepsAmong_trimEnd p.segments_plain, htrim]
  simp [stepsAmong, hstep]

/-- A path with no steps has no parent. -/
theorem parent?_eq_none {p : Path} (hp : p.parent? = none) : p.steps = [] := by
  rcases List.eq_nil_or_concat (trimEnd p.segments) with hnil | ⟨front, last, hconcat⟩
  · rw [← stepsAmong_segments, ← stepsAmong_trimEnd p.segments_plain, hnil]
    rfl
  · rw [parent?, hconcat] at hp
    split at hp
    · next hnil => simp at hnil
    · cases hp

/-- **The parent of a path is the path without its last step.** -/
theorem parent?_eq_some {p q : Path} (h : p.isAbsolute = true) (hq : p.parent? = some q) :
    q.isAbsolute = true ∧ ∃ s, p.steps = q.steps ++ [s] := by
  rcases List.eq_nil_or_concat (trimEnd p.segments) with hnil | ⟨front, last, hconcat⟩
  · rw [parent?, hnil] at hq
    cases hq
  · rw [List.concat_eq_append] at hconcat
    have hplain : ∀ s ∈ front, IsPlain s := fun s hs =>
      trimEnd_plain p.segments_plain s (hconcat ▸ List.mem_append_left _ hs)
    have hparent : p.parent? = some (ofSegments true (trimEnd front)) := by
      have hfront : (front ++ [last]).dropLast = front := List.dropLast_concat ..
      rw [parent?, hconcat, h]
      simp [hfront]
    rw [hparent] at hq
    obtain rfl := Option.some.inj hq
    refine ⟨by simp [ofSegments, isAbsolute], last.text, ?_⟩
    have hslashless : ∀ s ∈ trimEnd front, '/' ∉ s.text := fun s hs =>
      (trimEnd_plain hplain s hs).slashless
    rw [steps_of_trimEnd h hconcat, steps_ofSegments hslashless, stepsAmong_trimEnd hplain]

/-- Absolute paths of which each one is the one before without its last step, down to the root. -/
inductive Lineage : Path → List Path → Prop where
  | root {p : Path} (absolute : p.isAbsolute = true) (noSteps : p.steps = []) : Lineage p [p]
  | child {p q : Path} {ancestors : List Path} {s : List Char} (absolute : p.isAbsolute = true)
    (steps : p.steps = q.steps ++ [s]) (lineage : Lineage q ancestors) :
    Lineage p (p :: ancestors)

theorem lineage_ancestorsWithin {p : Path} (h : p.isAbsolute = true) {bound : Nat}
    (hbound : p.steps.length ≤ bound) : Lineage p (ancestorsWithin bound p) := by
  induction bound generalizing p with
  | zero => exact .root h (List.length_eq_zero_iff.mp (Nat.le_zero.mp hbound))
  | succ bound ih =>
    rw [ancestorsWithin]
    cases hparent : p.parent? with
    | none => exact .root h (parent?_eq_none hparent)
    | some q =>
      obtain ⟨hq, s, hsteps⟩ := parent?_eq_some h hparent
      refine .child h hsteps (ih hq ?_)
      rw [hsteps, List.length_append, List.length_singleton] at hbound
      omega

/-- **An ancestor has one step less than the one before.** -/
theorem lineage_ancestors {p : Path} (h : p.isAbsolute = true) : Lineage p p.ancestors := by
  refine lineage_ancestorsWithin h ?_
  rw [← stepsAmong_segments, stepsAmong]
  calc ((p.segments.map Segment.text).filter isStep).length
      ≤ (p.segments.map Segment.text).length := List.length_filter_le ..
    _ = p.segments.length := List.length_map ..

theorem Lineage.isAbsolute {p : Path} {ancestors : List Path} (h : Lineage p ancestors) :
    p.isAbsolute = true := by
  cases h with
  | root absolute _ => exact absolute
  | child absolute _ _ => exact absolute

/-- The steps of an ancestor are those that a path begins with. -/
theorem Lineage.steps_isInitial {p : Path} {ancestors : List Path} (h : Lineage p ancestors) :
    ∀ d ∈ ancestors, d.isAbsolute = true ∧ d.steps <+: p.steps := by
  induction h with
  | root absolute _ =>
    intro d hd
    rw [List.mem_singleton.mp hd]
    exact ⟨absolute, List.prefix_refl _⟩
  | child absolute steps lineage ih =>
    intro d hd
    rcases List.mem_cons.mp hd with rfl | hd
    · exact ⟨absolute, List.prefix_refl _⟩
    · rw [steps]
      exact ⟨(ih d hd).1, (ih d hd).2.trans (List.prefix_append ..)⟩

/-- A step leads one name farther down at the most. -/
theorem length_names_le {p q : Path} {s : List Char} (hp : p.isAbsolute = true)
    (hq : q.isAbsolute = true) (hsteps : p.steps = q.steps ++ [s]) :
    p.names.length ≤ q.names.length + 1 := by
  have htarget : p.target = q.target.step s := by
    rw [target, target, hsteps, hp, hq, List.foldl_append]
    rfl
  rw [names, names, List.length_reverse, List.length_reverse, List.length_map, List.length_map,
    htarget, Target.step]
  split
  · rw [Target.around]
    split
    · next htrail => simp [htrail]; omega
    · split <;> simp
  · simp

/-- Where an absolute path leads is decided by its steps. -/
theorem names_of_steps {p q : Path} (hp : p.isAbsolute = true) (hq : q.isAbsolute = true)
    (h : p.steps = q.steps) : p.names = q.names := by
  rw [names, names, target, target, h, hp, hq]

theorem names_of_noSteps {p : Path} (h : p.steps = []) : p.names = [] := by
  rw [names, target, h]
  rfl

/-- Every beginning of a path's steps is that of an ancestor. -/
theorem Lineage.exists_of_isInitial {p : Path} {ancestors : List Path} (h : Lineage p ancestors)
    {front : List (List Char)} (hfront : front <+: p.steps) : ∃ d ∈ ancestors, d.steps = front := by
  induction h with
  | root _ noSteps =>
    rw [noSteps] at hfront
    exact ⟨_, List.mem_singleton_self _, noSteps.trans (List.prefix_nil.mp hfront).symm⟩
  | @child p q ancestors s _ steps _ ih =>
    rw [steps, List.prefix_concat_iff] at hfront
    rcases hfront with rfl | hfront
    · exact ⟨p, List.mem_cons_self .., steps⟩
    · obtain ⟨d, hd, hsteps⟩ := ih hfront
      exact ⟨d, List.mem_cons_of_mem _ hd, hsteps⟩

end Path

namespace Entry

/-! ## §2. Directories that a path leads to -/

/-- A walk that ends in a directory starts in one. -/
theorem directory_of_walk? {root : Entry} {here there : List String} {segments : List (List Char)}
    (h : root.walk? here segments = some there)
    (hthere : root.shapeAt? there.reverse = some .directory) :
    root.shapeAt? here.reverse = some .directory := by
  cases segments with
  | nil =>
    obtain rfl := Option.some.inj h
    exact hthere
  | cons segment rest =>
    rw [walk?] at h
    split at h
    · next hdirectory => exact hdirectory
    · cases h

/-- A walk to a directory goes by the steps alone. -/
theorem walk?_filter {root : Entry} {here there : List String} {segments : List (List Char)}
    (hthere : root.shapeAt? there.reverse = some .directory) :
    root.walk? here (segments.filter Path.isStep) = some there ↔
      root.walk? here segments = some there := by
  induction segments generalizing here with
  | nil => exact Iff.rfl
  | cons segment rest ih =>
    by_cases hstep : Path.isStep segment = true
    · rw [List.filter_cons_of_pos hstep, walk?, walk?]
      split
      · split
        · exact ih
        · split
          · exact ih
          · dsimp only
            split
            · exact ih
            · exact Iff.rfl
      · exact Iff.rfl
    · have hdot : (segment.isEmpty || segment == ['.']) = true := by
        simpa [Path.isStep, or_iff_not_imp_left] using hstep
      rw [List.filter_cons_of_neg hstep, ih, walk?, hdot]
      constructor
      · intro hwalk
        rw [directory_of_walk? hwalk hthere]
        exact hwalk
      · intro hwalk
        split at hwalk
        · exact hwalk
        · cases hwalk

/-- Steps that are a walk lead where the walk does. -/
theorem names_of_walk?_steps {root : Entry} {p : Path} {there : List String}
    (h : p.isAbsolute = true) (hwalk : root.walk? [] p.steps = some there) :
    p.names = there.reverse := by
  have hsteps : p.steps.filter Path.isStep = p.steps :=
    List.filter_eq_self.mpr fun s hs => (List.mem_filter.mp hs).2
  have htarget : p.target = ⟨true, 0, there.map String.toList⟩ := by
    rw [← walk?_target hwalk, hsteps, Path.target, h]
    rfl
  rw [Path.names, htarget, List.map_map]
  simp

theorem exists_segments {p : Path} (h : p.isAbsolute = true) :
    ∃ segments, segmentsOf? p = some segments := by
  obtain ⟨rest, hrest⟩ := p.isAbsolute_iff.mp h
  exact ⟨splitSlashes rest, by simp [segmentsOf?, hrest]⟩

theorem isDirectoryAt_iff_shape {root : Entry} {p : Path} :
    root.isDirectoryAt p = true ↔ (root.at? p).map shape = some .directory := by
  rw [isDirectoryAt]
  cases root.at? p with
  | none => simp
  | some entry => cases entry <;> simp [shape]

/-- **A path leads to a directory if its steps are a walk to one.** -/
theorem isDirectoryAt_iff {root : Entry} {p : Path} (h : p.isAbsolute = true) :
    root.isDirectoryAt p = true ↔
      root.walk? [] p.steps = some p.names.reverse ∧ root.shapeAt? p.names = some .directory := by
  obtain ⟨segments, hsegments⟩ := exists_segments h
  have hsteps : p.steps = segments.filter Path.isStep := (segmentsOf?_steps hsegments).1
  rw [isDirectoryAt_iff_shape, at?_eq hsegments]
  constructor
  · intro hshape
    cases hwalk : root.walk? [] segments with
    | none =>
      rw [hwalk] at hshape
      cases hshape
    | some there =>
      rw [hwalk] at hshape
      have hnames : p.names = there.reverse := (names_of_walk? hsegments hwalk).2
      have hdirectory : root.shapeAt? p.names = some .directory := hshape
      refine ⟨?_, hdirectory⟩
      rw [hnames] at hdirectory
      rw [hsteps, hnames, List.reverse_reverse, walk?_filter hdirectory, hwalk]
  · rintro ⟨hwalk, hdirectory⟩
    rw [hsteps, walk?_filter (by rwa [List.reverse_reverse])] at hwalk
    rw [hwalk]
    exact hdirectory

/-- **Where a path leads to a directory, the beginnings of its steps do so too.** -/
theorem isDirectoryAt_of_isInitial {root : Entry} {p q : Path} (hp : p.isAbsolute = true)
    (hq : q.isAbsolute = true) (hsteps : q.steps <+: p.steps) (h : root.isDirectoryAt p = true) :
    root.isDirectoryAt q = true := by
  obtain ⟨behind, hbehind⟩ := hsteps
  obtain ⟨hwalk, hdirectory⟩ := (isDirectoryAt_iff hp).mp h
  rw [← hbehind, walk?_append, Option.bind_eq_some_iff] at hwalk
  obtain ⟨there, hthere, hrest⟩ := hwalk
  have hshape : root.shapeAt? there.reverse = some .directory :=
    directory_of_walk? hrest (by rwa [List.reverse_reverse])
  have hnames : q.names = there.reverse := names_of_walk?_steps hq hthere
  refine (isDirectoryAt_iff hq).mpr ⟨?_, ?_⟩
  · rw [hnames, List.reverse_reverse, hthere]
  · rw [hnames, hshape]

/-- The ancestors of a directory's path lead to directories. -/
theorem isDirectoryAt_ancestors {root : Entry} {p : Path} (h : p.isAbsolute = true)
    (hp : root.isDirectoryAt p = true) :
    ∀ d ∈ p.ancestors, d.isAbsolute = true ∧ root.isDirectoryAt d = true := by
  intro d hd
  obtain ⟨habsolute, hsteps⟩ := (Path.lineage_ancestors h).steps_isInitial d hd
  exact ⟨habsolute, isDirectoryAt_of_isInitial h habsolute hsteps hp⟩

/-! ## §3. Names in a directory -/

/-- The last segment of a path behind a directory's is the name, and the others are the directory's
steps. -/
theorem segmentsOf?_join {d : Path} (h : d.isAbsolute = true) {name : String}
    (hslash : '/' ∉ name.toList) :
    ∃ front, segmentsOf? (d.join ⟨name⟩) = some (front ++ [name.toList]) ∧
      front.filter Path.isStep = d.steps := by
  have hrelative : (⟨name⟩ : Path).isAbsolute = false := by
    rw [Path.isAbsolute, beq_eq_false_iff_ne]
    exact fun hhead => hslash (List.mem_of_mem_head? hhead)
  obtain ⟨rest, hrest⟩ := d.isAbsolute_iff.mp h
  have hsteps : d.steps = Path.stepsOf rest := by rw [Path.steps, hrest, Path.stepsOf_slash]
  -- Only a path that ends in a slash gets none in front of the name.
  rcases List.eq_nil_or_concat rest with rfl | ⟨front, last, rfl⟩
  · refine ⟨[], ?_, hsteps.symm⟩
    simp [Path.join, hrelative, hrest, segmentsOf?, splitSlashes_of_not_mem hslash]
  · rw [List.concat_eq_append] at hrest hsteps
    have hend : ('/' :: (front ++ [last])).getLast? = some last := by
      rw [← List.cons_append, List.getLast?_concat]
    by_cases hlast : last = '/'
    · subst hlast
      refine ⟨splitSlashes front, ?_, ?_⟩
      · simp [Path.join, hrelative, hrest, hend, segmentsOf?, splitSlashes_append,
          splitSlashes_of_not_mem hslash]
      · rw [hsteps, Path.stepsOf_append, Path.stepsOf_nil, List.append_nil]
        rfl
    · refine ⟨splitSlashes (front ++ [last]), ?_, hsteps.symm⟩
      have hslashed : splitSlashes (front ++ last :: '/' :: name.toList)
          = splitSlashes (front ++ [last]) ++ [name.toList] := by
        rw [← splitSlashes_of_not_mem hslash, ← splitSlashes_append, List.append_assoc]
        rfl
      simp [Path.join, hrelative, hrest, hend, hlast, segmentsOf?, hslashed]

theorem names_join {d : Path} (h : d.isAbsolute = true) {name : String}
    (hslash : '/' ∉ name.toList) (hstep : Path.isStep name.toList = true)
    (hname : Path.isName name.toList = true) :
    (d.join ⟨name⟩).names = d.names ++ [name] := by
  obtain ⟨front, hsegments, hfront⟩ := segmentsOf?_join h hslash
  obtain ⟨hsteps, habsolute⟩ := segmentsOf?_steps hsegments
  rw [List.filter_append, hfront, List.filter_singleton, hstep] at hsteps
  rw [Path.names, Path.target_of_steps hsteps hname, habsolute, ← h]
  simp [Target.enter, Path.names, Path.target]

/-- **What a name behind a directory's path leads to stands in the directory.** -/
theorem at?_join {root : Entry} {d : Path} (h : d.isAbsolute = true)
    (hd : root.isDirectoryAt d = true) {name : String} (hslash : '/' ∉ name.toList)
    (hstep : Path.isStep name.toList = true) (hname : Path.isName name.toList = true) :
    root.at? (d.join ⟨name⟩) = root.atNames? (d.names ++ [name]) := by
  obtain ⟨front, hsegments, hfront⟩ := segmentsOf?_join h hslash
  obtain ⟨hwalk, hdirectory⟩ := (isDirectoryAt_iff h).mp hd
  rw [← hfront, walk?_filter (by rwa [List.reverse_reverse])] at hwalk
  have hdot : (name.toList.isEmpty || name.toList == ['.']) = false := by
    simpa [Path.isStep] using hstep
  have hup : (name.toList == ['.', '.']) = false := by
    rw [Path.isName, Bool.and_eq_true, bne_iff_ne, bne_iff_ne] at hname
    exact beq_eq_false_iff_ne.mpr hname.2
  rw [at?_eq hsegments, names_join h hslash hstep hname, walk?_append, hwalk, Option.bind_some,
    walk?, List.reverse_reverse, hdirectory]
  simp only [hdot, hup, Bool.false_eq_true, if_false, String.ofList_toList, List.reverse_cons,
    List.reverse_reverse]
  cases hentry : root.atNames? (d.names ++ [name]) with
  | none => simp [shapeAt?, hentry]
  | some entry => simp [shapeAt?, hentry, walk?]

/-! ## §4. Trees that a path leads through -/

/-- Whether nothing stands in a tree but directories that are passed on some steps. -/
def OnlyAlong (root : Entry) (steps : List (List Char)) : Prop :=
  ∀ names shape, root.shapeAt? names = some shape →
    shape = .directory ∧ ∃ front, front <+: steps ∧ root.walk? [] front = some names.reverse

theorem OnlyAlong.concat {root : Entry} {steps : List (List Char)} (h : root.OnlyAlong steps)
    (s : List Char) : root.OnlyAlong (steps ++ [s]) := by
  intro names shape hshape
  obtain ⟨hdirectory, front, hfront, hwalk⟩ := h names shape hshape
  exact ⟨hdirectory, front, hfront.trans (List.prefix_append ..), hwalk⟩

theorem onlyAlong_emptyDirectory : emptyDirectory.OnlyAlong [] := by
  intro names shape hshape
  cases names with
  | nil =>
    rw [shapeAt?_nil] at hshape
    exact ⟨(Option.some.inj hshape).symm, [], List.prefix_refl _, rfl⟩
  | cons name names =>
    rw [emptyDirectory, shapeAt?_directory] at hshape
    cases hshape

/-- One more step of a walk by a name. -/
theorem walk?_name {root : Entry} {here : List String} {s : List Char}
    (hdirectory : root.shapeAt? here.reverse = some .directory) (hstep : Path.isStep s = true)
    (hup : s ≠ Target.dotDot) (hsome : (root.shapeAt? (here.reverse ++ [String.ofList s])).isSome) :
    root.walk? here [s] = some (String.ofList s :: here) := by
  have hdot : (s.isEmpty || s == ['.']) = false := by simpa [Path.isStep] using hstep
  have hup' : (s == ['.', '.']) = false := beq_eq_false_iff_ne.mpr hup
  rw [walk?, hdirectory]
  simp [hdot, hup', hsome, walk?]

/-- **Any steps are a walk in some tree** that has in it what is passed, and nothing else. -/
theorem exists_onlyAlong {steps : List (List Char)} (hsteps : ∀ s ∈ steps, Path.isStep s = true) :
    ∃ (root : Entry) (there : List String), root.walk? [] steps = some there ∧
      root.shapeAt? there.reverse = some .directory ∧ root.OnlyAlong steps := by
  induction steps using List.reverseRecOn with
  | nil => exact ⟨emptyDirectory, [], rfl, rfl, onlyAlong_emptyDirectory⟩
  | append_singleton steps s ih =>
    obtain ⟨root, there, hwalk, hdirectory, honly⟩ :=
      ih fun t ht => hsteps t (List.mem_append_left _ ht)
    have hstep : Path.isStep s = true := hsteps s (by simp)
    have hdot : (s.isEmpty || s == ['.']) = false := by simpa [Path.isStep] using hstep
    by_cases hup : s = Target.dotDot
    · subst hup
      refine ⟨root, there.tail, ?_, ?_, honly.concat _⟩
      · rw [walk?_append, hwalk, Option.bind_some, walk?, hdirectory]
        rfl
      · cases there with
        | nil => exact hdirectory
        | cons name around =>
          rw [List.reverse_cons] at hdirectory
          exact shapeAt?_of_concat hdirectory
    · cases hshape : root.shapeAt? (there.reverse ++ [String.ofList s]) with
      | some shape =>
        obtain ⟨rfl, -⟩ := honly _ _ hshape
        refine ⟨root, String.ofList s :: there, ?_, ?_, honly.concat _⟩
        · rw [walk?_append, hwalk, Option.bind_some]
          exact walk?_name hdirectory hstep hup (by rw [hshape]; rfl)
        · rw [List.reverse_cons, hshape]
      | none =>
        -- The step leads nowhere yet, so a directory is put there.
        have hold : root.shapeAt? (there.reverse ++ [String.ofList s]) ≠ some .directory := by
          simp [hshape]
        have hnew := shapeAt?_insertAt hdirectory hold fun n names =>
          show emptyDirectory.shapeAt? (n :: names) = none from rfl
        have hextends := extends_of_shapeAt? hold hnew
        have hthere : (root.insertAt (there.reverse ++ [String.ofList s]) emptyDirectory).walk? []
            (steps ++ [s]) = some (String.ofList s :: there) := by
          rw [walk?_append, walk?_of_extends hextends hwalk, Option.bind_some]
          refine walk?_name (hextends.directories _ hdirectory) hstep hup ?_
          rw [hnew, if_pos rfl]
          rfl
        refine ⟨_, _, hthere, ?_, ?_⟩
        · rw [List.reverse_cons, hnew, if_pos rfl]
          rfl
        · intro names shape hnames
          rw [hnew] at hnames
          split at hnames
          · next heq =>
            refine ⟨(Option.some.inj hnames).symm, steps ++ [s], List.prefix_refl _, ?_⟩
            rw [hthere, heq, List.reverse_append, List.reverse_reverse]
            rfl
          · obtain ⟨hshape', front, hfront, hfrontWalk⟩ := honly names shape hnames
            exact ⟨hshape', front, hfront.trans (List.prefix_append ..),
              walk?_of_extends hextends hfrontWalk⟩

end Entry

/-! ## §5. Paths that stay around where they lead -/

namespace Path

/-- Whether a path passes no directory but the one it leads to and those around it. -/
def StaysAround (p : Path) : Prop :=
  ∀ q : Path, q.isAbsolute = true → q.steps <+: p.steps → q.names <+: p.names

/-- **A path stays around where it leads exactly if its ancestors are around it.** -/
theorem staysAround_iff {p : Path} (h : p.isAbsolute = true) :
    p.StaysAround ↔ ∀ d ∈ p.ancestors, d.names <+: p.names := by
  constructor
  · intro hstays d hd
    obtain ⟨hd', hsteps⟩ := (lineage_ancestors h).steps_isInitial d hd
    exact hstays d hd' hsteps
  · intro haround q hq hsteps
    obtain ⟨d, hd, heq⟩ := (lineage_ancestors h).exists_of_isInitial hsteps
    rw [← names_of_steps ((lineage_ancestors h).steps_isInitial d hd).1 hq heq]
    exact haround d hd

/-- Steps that are names lead down through them. -/
theorem names_of_isName {p : Path} (h : ∀ s ∈ p.steps, isName s = true) :
    p.names = p.steps.map String.ofList := by
  have htrail (steps : List (List Char)) (t : Target) (hnames : ∀ s ∈ steps, isName s = true) :
      (steps.foldl Target.step t).trail = steps.reverse ++ t.trail := by
    induction steps generalizing t with
    | nil => rfl
    | cons s steps ih =>
      rw [List.foldl_cons, ih _ fun s hs => hnames s (List.mem_cons_of_mem _ hs),
        Target.step_of_isName (hnames s (List.mem_cons_self ..))]
      simp [Target.enter]
  rw [names, target, htrail _ _ h]
  simp [Target.start]

/-- A path without two dots stays around where it leads. -/
theorem staysAround_of_isName {p : Path} (h : ∀ s ∈ p.steps, isName s = true) :
    p.StaysAround := by
  intro q _ hsteps
  rw [names_of_isName h, names_of_isName fun s hs => h s (hsteps.subset hs)]
  exact hsteps.map _

/-- Of the ancestors that are not around where a path leads, one has the most names. -/
theorem exists_farthest {p : Path} (h : p.isAbsolute = true) (hstrays : ¬p.StaysAround) :
    ∃ d ∈ p.ancestors, ¬d.names <+: p.names ∧
      ∀ e ∈ p.ancestors, ¬e.names <+: p.names → e.names.length ≤ d.names.length := by
  rw [staysAround_iff h] at hstrays
  push Not at hstrays
  obtain ⟨d, hd, hstrays⟩ := hstrays
  classical
  have hne : (p.ancestors.toFinset.filter fun e => ¬e.names <+: p.names).Nonempty :=
    ⟨d, by simp [hd, hstrays]⟩
  obtain ⟨farthest, hmem, hmax⟩ := Finset.exists_max_image _ (fun e => e.names.length) hne
  rw [Finset.mem_filter, List.mem_toFinset] at hmem
  exact ⟨farthest, hmem.1, hmem.2, fun e he hstrays => hmax e (by simp [he, hstrays])⟩

end Path

namespace Entry

/-- What stands only along a path's steps is a directory that an ancestor leads to. -/
theorem OnlyAlong.exists_ancestor {root : Entry} {p : Path} (honly : root.OnlyAlong p.steps)
    (h : p.isAbsolute = true) {names : List String} {shape : Shape}
    (hshape : root.shapeAt? names = some shape) :
    shape = .directory ∧ ∃ d ∈ p.ancestors, d.names = names := by
  obtain ⟨hdirectory, front, hfront, hwalk⟩ := honly names shape hshape
  obtain ⟨d, hd, rfl⟩ := (Path.lineage_ancestors h).exists_of_isInitial hfront
  refine ⟨hdirectory, d, hd, ?_⟩
  rw [names_of_walk?_steps ((Path.lineage_ancestors h).steps_isInitial d hd).1 hwalk,
    List.reverse_reverse]

/-- **Where a path does not stay around, a file can stand off the way**: in a directory that an
ancestor leads to, which is not around where the path leads, and nowhere else. -/
theorem exists_stray {p : Path} (h : p.isAbsolute = true) (hstrays : ¬p.StaysAround)
    (name : String) (content : ByteArray) :
    ∃ root : Entry, root.isDirectoryAt p = true ∧ ∃ d ∈ p.ancestors, ¬d.names <+: p.names ∧
      root.shapeAt? (d.names ++ [name]) = some (.file content false) ∧
      ∀ names content isExecutable, root.shapeAt? names = some (.file content isExecutable) →
        names = d.names ++ [name] := by
  obtain ⟨d, hd, haround, hfarthest⟩ := Path.exists_farthest h hstrays
  obtain ⟨root, there, hwalk, hdirectory, honly⟩ :=
    exists_onlyAlong fun s (hs : s ∈ p.steps) => (List.mem_filter.mp hs).2
  have hnames : p.names = there.reverse := names_of_walk?_steps h hwalk
  have hp : root.isDirectoryAt p = true := by
    refine (isDirectoryAt_iff h).mpr ⟨?_, ?_⟩
    · rw [hnames, List.reverse_reverse, hwalk]
    · rw [hnames, hdirectory]
  obtain ⟨habsolute, hdirectory⟩ := isDirectoryAt_ancestors h hp d hd
  have hparent : root.shapeAt? d.names = some .directory :=
    ((isDirectoryAt_iff habsolute).mp hdirectory).2
  -- A directory of the file's name would be farther off the way.
  have hold : root.shapeAt? (d.names ++ [name]) ≠ some .directory := by
    intro hshape
    obtain ⟨-, e, he, hnames⟩ := honly.exists_ancestor h hshape
    have hle := hfarthest e he fun hinitial =>
      haround ((List.prefix_append d.names [name]).trans (hnames ▸ hinitial))
    rw [hnames, List.length_append, List.length_singleton] at hle
    omega
  have hnew := shapeAt?_insertAt hparent hold (shapeAt?_file content false)
  have hextends := extends_of_shapeAt? hold hnew
  refine ⟨root.insertAt (d.names ++ [name]) (file content false),
    (isDirectoryAt_iff h).mpr ⟨?_, ?_⟩, d, hd, haround, ?_, ?_⟩
  · exact walk?_of_extends hextends ((isDirectoryAt_iff h).mp hp).1
  · exact hextends.directories _ ((isDirectoryAt_iff h).mp hp).2
  · rw [hnew, if_pos rfl]
    rfl
  · intro names content' isExecutable hfile
    rw [hnew] at hfile
    split at hfile
    · next heq => exact heq
    · cases (honly _ _ hfile).1

end Entry

end SingleFile.Files
