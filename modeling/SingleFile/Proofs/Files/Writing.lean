/-
  SingleFile.Proofs.Files.Writing — WHAT WRITING CHANGES
  ──────────────────────────────────────────────────────
  A tree is looked at through what stands at the end of some names: nothing,
  a directory, or a file with its content.  Following a path is a walk over
  names that asks only what stands there, making directories adds some where
  nothing stood, and writing a text changes what stands at the names that
  the path leads to, and nothing else.

  Main results:
    * `at?_eq` — what a path leads to stands at the path's names.
    * `createDirectories?_keeps` — making directories changes nothing else.
    * `writeText?_spec` — what writing a text changes, and what is read then.
    * `readText?_of_extends` — what is read still after other things changed.
-/
import SingleFile.Files.Tree
import SingleFile.Proofs.Files.Resolution

namespace SingleFile.Files

/-- The names that a path leads to from the root. -/
def Path.names (p : Path) : List String := (p.target.trail.map String.ofList).reverse

/-- Whether a path starts at the root and ends in a name. -/
def Path.EndsInName (p : Path) : Prop :=
  ∃ front name, Entry.segmentsOf? p = some (front ++ [name]) ∧ isStep name = true ∧
    isName name = true

namespace Entry

/-! ## §1. Shapes -/

/-- What stands at a place, but for what is below. -/
inductive Shape where
  | directory
  | file (content : ByteArray) (isExecutable : Bool)

/-- What an entry is. -/
def shape : Entry → Shape
  | .directory _ => .directory
  | .file content isExecutable => .file content isExecutable

/-- What stands at the end of some names. -/
def shapeAt? (root : Entry) (names : List String) : Option Shape :=
  (root.atNames? names).map shape

@[simp] theorem shapeAt?_nil (root : Entry) : root.shapeAt? [] = some root.shape := by
  cases root <;> rfl

theorem shapeAt?_file (content : ByteArray) (isExecutable : Bool) (name : String)
    (names : List String) : (file content isExecutable).shapeAt? (name :: names) = none := rfl

theorem shapeAt?_directory (entries : List (String × Entry)) (name : String)
    (names : List String) : (directory entries).shapeAt? (name :: names)
      = (lookup name entries).bind fun inner => inner.shapeAt? names := by
  rw [shapeAt?, atNames?]
  cases lookup name entries <;> rfl

theorem exists_directory_of_shape {e : Entry} (h : e.shape = .directory) :
    ∃ entries, e = directory entries := by
  cases e with
  | directory entries => exact ⟨entries, rfl⟩
  | file _ _ => exact absurd h (by simp [shape])

theorem atNames?_concat (root : Entry) (names : List String) (name : String) :
    root.atNames? (names ++ [name]) = (root.atNames? names).bind (atNames? [name]) := by
  induction names generalizing root with
  | nil => cases root <;> rfl
  | cons n names ih =>
    cases root with
    | file _ _ => rfl
    | directory entries =>
      rw [List.cons_append, atNames?, atNames?]
      cases lookup n entries with
      | none => rfl
      | some inner => exact ih inner

theorem lookup_replaceIn (name other : String) (entry : Entry)
    (entries : List (String × Entry)) : lookup other (replaceIn name entry entries)
      = if other = name then some entry else lookup other entries := by
  induction entries with
  | nil =>
    by_cases h : other = name
    · simp [replaceIn, lookup, h]
    · simp [replaceIn, lookup, h, Ne.symm h]
  | cons e rest ih =>
    unfold lookup at ih ⊢
    rw [replaceIn]
    by_cases he : e.1 = name
    · by_cases h : other = name
      · simp [he, h]
      · simp [he, h, Ne.symm h]
    · by_cases h : e.1 = other
      · simp [h, h ▸ he]
      · simp [he, h, ih]

/-! ## §2. Trees that grow -/

/-- Whether all that stands in a tree stands in another one. -/
def Keeps (before after : Entry) : Prop :=
  ∀ names shape, before.shapeAt? names = some shape → after.shapeAt? names = some shape

/-- Whether directories stay directories and files stay files, whatever is in them. -/
structure Extends (before after : Entry) : Prop where
  directories : ∀ names, before.shapeAt? names = some .directory →
    after.shapeAt? names = some .directory
  isSome : ∀ names, (before.shapeAt? names).isSome → (after.shapeAt? names).isSome

theorem Keeps.refl (root : Entry) : root.Keeps root := fun _ _ h => h

theorem Keeps.trans {a b c : Entry} (hab : a.Keeps b) (hbc : b.Keeps c) : a.Keeps c :=
  fun names shape h => hbc names shape (hab names shape h)

theorem Keeps.extends {before after : Entry} (h : before.Keeps after) : before.Extends after where
  directories names := h names .directory
  isSome names hsome := by
    obtain ⟨shape, hshape⟩ := Option.isSome_iff_exists.mp hsome
    rw [h names shape hshape]
    rfl

theorem Extends.refl (root : Entry) : root.Extends root := (Keeps.refl root).extends

theorem Extends.trans {a b c : Entry} (hab : a.Extends b) (hbc : b.Extends c) : a.Extends c where
  directories names h := hbc.directories names (hab.directories names h)
  isSome names h := hbc.isSome names (hab.isSome names h)

/-- Where nothing stood an entry can be put without any change elsewhere. -/
theorem insertAt_keeps {root : Entry} {names : List String} (leaf : Entry)
    (h : root.shapeAt? names = none) : root.Keeps (root.insertAt names leaf) := by
  induction names generalizing root with
  | nil => exact absurd h (by simp)
  | cons name names ih =>
    cases root with
    | file _ _ => exact Keeps.refl _
    | directory entries =>
      intro other shape hother
      cases other with
      | nil => simpa [Entry.shape, insertAt] using hother
      | cons n rest =>
        rw [shapeAt?_directory] at h hother
        rw [insertAt, shapeAt?_directory, lookup_replaceIn]
        split
        · next hn =>
          subst hn
          cases hinner : lookup n entries with
          | none => simp [hinner] at hother
          | some inner =>
            rw [hinner] at h hother
            exact ih h rest shape hother
        · exact hother

/-- What stands in a tree behind a file or an empty directory was put where a directory had no
directory of that name. -/
theorem shapeAt?_insertAt {root leaf : Entry} {parent : List String} {name : String}
    (hparent : root.shapeAt? parent = some .directory)
    (hold : root.shapeAt? (parent ++ [name]) ≠ some .directory)
    (hleaf : ∀ n names, leaf.shapeAt? (n :: names) = none) (names : List String) :
    (root.insertAt (parent ++ [name]) leaf).shapeAt? names
      = if names = parent ++ [name] then some leaf.shape else root.shapeAt? names := by
  induction parent generalizing root names with
  | nil =>
    obtain ⟨entries, rfl⟩ := exists_directory_of_shape (by simpa using hparent)
    cases names with
    | nil => simp [insertAt, shape]
    | cons n rest =>
      rw [List.nil_append, insertAt, shapeAt?_directory, lookup_replaceIn, shapeAt?_directory]
      by_cases hn : n = name
      · subst hn
        cases rest with
        | nil => simp [insertAt]
        | cons m rest =>
          rw [if_pos rfl, if_neg (by simp)]
          rw [List.nil_append, shapeAt?_directory] at hold
          refine (hleaf m rest).trans ?_
          cases hinner : lookup n entries with
          | none => rfl
          | some inner =>
            rw [hinner] at hold
            cases inner with
            | file _ _ => rfl
            | directory _ => exact absurd rfl hold
      · rw [if_neg hn, if_neg (by simp [hn])]
  | cons p parent ih =>
    obtain ⟨entries, rfl⟩ : ∃ entries, root = directory entries := by
      cases root with
      | directory entries => exact ⟨entries, rfl⟩
      | file _ _ => exact absurd hparent (by simp [shapeAt?_file])
    rw [shapeAt?_directory] at hparent
    rw [List.cons_append, shapeAt?_directory] at hold
    cases hinner : lookup p entries with
    | none => simp [hinner] at hparent
    | some inner =>
      rw [hinner] at hparent hold
      cases names with
      | nil => simp [insertAt, shape]
      | cons n rest =>
        rw [List.cons_append, insertAt, shapeAt?_directory, lookup_replaceIn, shapeAt?_directory,
          hinner]
        by_cases hn : n = p
        · subst hn
          rw [if_pos rfl, hinner]
          simpa using ih hparent hold rest
        · rw [if_neg hn, if_neg (by simp [hn])]

/-! ## §3. Walks -/

/-- Goes on along segments from some names, the innermost first, to the names they lead to. -/
def walk? (root : Entry) : List String → List (List Char) → Option (List String)
  | here, [] => some here
  | here, segment :: rest =>
    match root.shapeAt? here.reverse with
    | some .directory =>
      if segment.isEmpty || segment == ['.'] then walk? root here rest
      else if segment == ['.', '.'] then walk? root here.tail rest
      else
        let inner := String.ofList segment :: here
        if (root.shapeAt? inner.reverse).isSome then walk? root inner rest else none
    | _ => none

theorem walk?_append (root : Entry) (here : List String) (front behind : List (List Char)) :
    root.walk? here (front ++ behind) = (root.walk? here front).bind (root.walk? · behind) := by
  induction front generalizing here with
  | nil => rfl
  | cons segment front ih =>
    rw [List.cons_append, walk?, walk?]
    split
    · split
      · exact ih _
      · split
        · exact ih _
        · dsimp only
          split
          · exact ih _
          · rfl
    · rfl

/-- A walk goes the same way in a tree that has grown. -/
theorem walk?_of_extends {before after : Entry} (h : before.Extends after)
    {here there : List String} {segments : List (List Char)}
    (hwalk : before.walk? here segments = some there) :
    after.walk? here segments = some there := by
  induction segments generalizing here with
  | nil => exact hwalk
  | cons segment rest ih =>
    rw [walk?] at hwalk ⊢
    split at hwalk
    · next hdirectory =>
      rw [h.directories _ hdirectory]
      dsimp only
      split at hwalk
      · next hdot => rw [if_pos hdot]; exact ih hwalk
      · next hdot =>
        rw [if_neg hdot]
        split at hwalk
        · next hup => rw [if_pos hup]; exact ih hwalk
        · next hup =>
          rw [if_neg hup]
          dsimp only at hwalk ⊢
          split at hwalk
          · next hsome => rw [if_pos (h.isSome _ hsome)]; exact ih hwalk
          · exact absurd hwalk (by simp)
    · exact absurd hwalk (by simp)

/-- A walk leads to the target of its steps. -/
theorem walk?_target {root : Entry} {here there : List String} {segments : List (List Char)}
    (h : root.walk? here segments = some there) :
    (segments.filter Path.isStep).foldl Target.step ⟨true, 0, here.map String.toList⟩
      = ⟨true, 0, there.map String.toList⟩ := by
  induction segments generalizing here with
  | nil =>
    obtain rfl := Option.some.inj h
    rfl
  | cons segment rest ih =>
    rw [walk?] at h
    split at h
    · split at h
      · next hdot =>
        have hstep : Path.isStep segment = false := by rw [Path.isStep, hdot]; rfl
        rw [List.filter_cons_of_neg (by simp [hstep])]
        exact ih h
      · next hdot =>
        have hstep : Path.isStep segment = true := by simpa [Path.isStep] using hdot
        rw [List.filter_cons_of_pos hstep, List.foldl_cons]
        split at h
        · next hup =>
          rw [beq_iff_eq.mp hup, ← ih h]
          congr 1
          cases here <;> rfl
        · next hup =>
          dsimp only at h
          split at h
          · rw [← ih h]
            congr 1
            simp [Target.step, Target.dotDot, beq_iff_eq.not.mp hup]
          · exact absurd h (by simp)
    · exact absurd h (by simp)

/-! ## §4. Following paths -/

/-- Whether a place is one of a tree: its directories stand in each other, the outermost at the
root, and the entry stands in the innermost. -/
def Grounded (root : Entry) : List (String × Entry) → Entry → Prop
  | [], entry => entry = root
  | (name, around) :: trail, entry =>
    Grounded root trail around ∧ ∃ entries, around = directory entries ∧
      lookup name entries = some entry

theorem Grounded.atNames? {root : Entry} {trail : List (String × Entry)} {entry : Entry}
    (h : Grounded root trail entry) :
    root.atNames? (trail.map Prod.fst).reverse = some entry := by
  induction trail generalizing entry with
  | nil =>
    obtain rfl : entry = root := h
    cases entry <;> rfl
  | cons parent trail ih =>
    obtain ⟨name, around⟩ := parent
    obtain ⟨haround, entries, rfl, hlookup⟩ := h
    rw [List.map_cons, List.reverse_cons, atNames?_concat, ih haround]
    show (lookup name entries).bind (Entry.atNames? []) = some entry
    rw [hlookup]
    cases entry <;> rfl

/-- **Following segments is a walk.** -/
theorem follow?_spec {root : Entry} (segments : List (List Char)) {trail : List (String × Entry)}
    {entry : Entry} (h : Grounded root trail entry) :
    (∀ place ∈ follow? segments ⟨trail, entry⟩, Grounded root place.trail place.entry) ∧
      root.walk? (trail.map Prod.fst) segments
        = (follow? segments ⟨trail, entry⟩).map fun place => place.trail.map Prod.fst := by
  induction segments generalizing trail entry with
  | nil =>
    refine ⟨fun place hplace => ?_, rfl⟩
    obtain rfl := Option.some.inj hplace
    exact h
  | cons segment rest ih =>
    have hshape : root.shapeAt? (trail.map Prod.fst).reverse = some entry.shape := by
      rw [shapeAt?, h.atNames?]
      rfl
    rw [walk?, follow?, hshape]
    cases entry with
    | file _ _ => exact ⟨by simp, rfl⟩
    | directory entries =>
      dsimp only [Entry.shape]
      split
      · exact ih h
      · split
        · -- Above the root is the root.
          cases trail with
          | nil => exact ih h
          | cons parent trail => exact ih h.1
        · have hinner : root.atNames? ((String.ofList segment :: trail.map Prod.fst).reverse)
              = lookup (String.ofList segment) entries := by
            rw [List.reverse_cons, atNames?_concat, h.atNames?]
            show (lookup (String.ofList segment) entries).bind (atNames? []) = _
            cases lookup (String.ofList segment) entries with
            | none => rfl
            | some inner => cases inner <;> rfl
          rw [shapeAt?, hinner]
          cases hlookup : lookup (String.ofList segment) entries with
          | none => exact ⟨by simp, rfl⟩
          | some inner =>
            have hground : Grounded root ((String.ofList segment, directory entries) :: trail)
                inner := ⟨h, entries, rfl, hlookup⟩
            exact ih hground

theorem names_inj {p q : Path} (hp : p.isAbsolute = true) (hq : q.isAbsolute = true)
    (h : p.names = q.names) : p.target = q.target := by
  have htrail : p.target.trail = q.target.trail :=
    List.map_injective_iff.mpr (fun _ _ => String.ofList_injective) (List.reverse_injective h)
  have habsolute : p.target.isAbsolute = q.target.isAbsolute := by
    rw [p.isAbsolute_target, q.isAbsolute_target, hp, hq]
  have hup : p.target.up = q.target.up := by rw [Path.up_target hp, Path.up_target hq]
  cases hpt : p.target
  cases hqt : q.target
  simp_all

theorem segmentsOf?_steps {p : Path} {segments : List (List Char)}
    (h : segmentsOf? p = some segments) :
    p.steps = segments.filter Path.isStep ∧ p.isAbsolute = true := by
  unfold segmentsOf? at h
  split at h
  · next rest htext =>
    obtain rfl := Option.some.inj h
    rw [Path.steps, htext, Path.stepsOf_slash]
    exact ⟨rfl, p.isAbsolute_iff.mpr ⟨rest, htext⟩⟩
  · exact absurd h (by simp)

/-- A walk along a path leads to the path's names. -/
theorem names_of_walk? {root : Entry} {p : Path} {segments : List (List Char)}
    {here : List String} (hsegments : segmentsOf? p = some segments)
    (hwalk : root.walk? [] segments = some here) :
    p.target = ⟨true, 0, here.map String.toList⟩ ∧ p.names = here.reverse := by
  obtain ⟨hsteps, habsolute⟩ := segmentsOf?_steps hsegments
  have htarget : p.target = ⟨true, 0, here.map String.toList⟩ := by
    rw [Path.target, hsteps, habsolute]
    exact walk?_target hwalk
  refine ⟨htarget, ?_⟩
  rw [Path.names, htarget, List.map_map]
  simp

/-- **What a path leads to stands at the path's names**, if the walk there is possible. -/
theorem at?_eq {root : Entry} {p : Path} {segments : List (List Char)}
    (hsegments : segmentsOf? p = some segments) :
    root.at? p = (root.walk? [] segments).bind fun _ => root.atNames? p.names := by
  have hground : Grounded root [] root := rfl
  obtain ⟨hplaces, hwalk⟩ := follow?_spec segments hground
  rw [at?, place?, hsegments, Option.bind_some]
  cases hplace : follow? segments ⟨[], root⟩ with
  | none =>
    rw [hplace] at hwalk
    rw [show root.walk? [] segments = none from hwalk]
    rfl
  | some place =>
    rw [hplace] at hwalk
    have hhere : root.walk? [] segments = some (place.trail.map Prod.fst) := hwalk
    rw [hhere, Option.bind_some, (names_of_walk? hsegments hhere).2,
      (hplaces place hplace).atNames?]
    rfl

/-- What stands in something stands in a directory. -/
theorem shapeAt?_of_concat {root : Entry} {names : List String} {name : String} {shape : Shape}
    (h : root.shapeAt? (names ++ [name]) = some shape) : root.shapeAt? names = some .directory := by
  rw [shapeAt?, atNames?_concat] at h
  rw [shapeAt?]
  cases hentry : root.atNames? names with
  | none => simp [hentry] at h
  | some entry =>
    cases entry with
    | directory _ => rfl
    | file _ _ => simp [hentry, atNames?] at h

/-- **A path that leads to a file ends in a name.** -/
theorem endsInName_of_at? {root : Entry} {p : Path} {content : ByteArray} {isExecutable : Bool}
    (h : root.at? p = some (file content isExecutable)) : p.EndsInName := by
  cases hsegments : segmentsOf? p with
  | none => simp [at?, place?, hsegments] at h
  | some segments =>
    rw [at?_eq hsegments, Option.bind_eq_some_iff] at h
    obtain ⟨here, hwalk, hentry⟩ := h
    have hfile : root.shapeAt? here.reverse ≠ some .directory := by
      rw [← (names_of_walk? hsegments hwalk).2, shapeAt?, hentry]
      exact nofun
    -- The last segment decides what the walk ends at: only a name leads to a file.
    obtain ⟨front, last, hconcat⟩ := (List.eq_nil_or_concat segments).resolve_left (by
      rintro rfl
      unfold segmentsOf? at hsegments
      split at hsegments
      · exact splitSlashes_ne_nil _ (Option.some.inj hsegments)
      · cases hsegments)
    rw [List.concat_eq_append] at hconcat
    rw [hconcat, walk?_append, Option.bind_eq_some_iff] at hwalk
    obtain ⟨around, -, hlast⟩ := hwalk
    rw [walk?] at hlast
    split at hlast
    · next hdirectory =>
      split at hlast
      · obtain rfl := Option.some.inj hlast
        exact absurd hdirectory hfile
      · next hdot =>
        split at hlast
        · -- Out of a directory leads to a directory.
          obtain rfl := Option.some.inj hlast
          cases around with
          | nil => exact absurd hdirectory hfile
          | cons name around =>
            rw [List.reverse_cons] at hdirectory
            exact absurd (shapeAt?_of_concat hdirectory) hfile
        · next hup =>
          refine ⟨front, last, by rw [hsegments, hconcat], by simpa [Path.isStep] using hdot, ?_⟩
          simp only [Bool.or_eq_true, not_or, beq_iff_eq] at hdot hup
          simp [Path.isName, hdot.2, hup]
    · cases hlast

/-! ## §5. Reading -/

/-- A text is read where the walk leads to a file that holds it. -/
theorem readText?_of_walk? {root : Entry} {p : Path} {segments : List (List Char)}
    {here : List String} {content : ByteArray} {isExecutable : Bool}
    (hsegments : segmentsOf? p = some segments) (hwalk : root.walk? [] segments = some here)
    (hshape : root.shapeAt? p.names = some (.file content isExecutable)) :
    root.readText? p = (String.fromUTF8? content).map String.toList := by
  rw [readText?, at?_eq hsegments, hwalk, Option.bind_some]
  obtain ⟨entry, hentry, hfile⟩ := Option.map_eq_some_iff.mp hshape
  rw [hentry]
  cases entry with
  | directory _ => exact absurd hfile (by simp [shape])
  | file content' isExecutable' =>
    obtain ⟨rfl, rfl⟩ := Shape.file.inj hfile
    rfl

/-- What is read is in a file that a walk leads to. -/
theorem walk?_of_readText? {root : Entry} {p : Path} {text : List Char}
    (hread : root.readText? p = some text) :
    ∃ segments here content isExecutable, segmentsOf? p = some segments ∧
      root.walk? [] segments = some here ∧
      root.shapeAt? p.names = some (.file content isExecutable) := by
  cases hsegments : segmentsOf? p with
  | none => simp [readText?, at?, place?, hsegments] at hread
  | some segments =>
    have hat : root.at? p = _ := at?_eq hsegments
    cases hwalk : root.walk? [] segments with
    | none =>
      rw [hwalk] at hat
      simp [readText?, hat] at hread
    | some here =>
      rw [hwalk, Option.bind_some] at hat
      cases hentry : root.atNames? p.names with
      | none => simp [readText?, hat, hentry] at hread
      | some entry =>
        cases entry with
        | directory _ => simp [readText?, hat, hentry] at hread
        | file content isExecutable =>
          refine ⟨segments, here, content, isExecutable, rfl, hwalk, ?_⟩
          rw [shapeAt?, hentry]
          rfl

/-- **A text is still read when other things have changed.** -/
theorem readText?_of_extends {before after : Entry} {p : Path} {text : List Char}
    (h : before.Extends after)
    (hsame : ∀ shape, before.shapeAt? p.names = some shape → after.shapeAt? p.names = some shape)
    (hread : before.readText? p = some text) : after.readText? p = some text := by
  obtain ⟨segments, here, content, isExecutable, hsegments, hwalk, hshape⟩ :=
    walk?_of_readText? hread
  rw [readText?_of_walk? hsegments hwalk hshape] at hread
  rw [readText?_of_walk? hsegments (walk?_of_extends h hwalk) (hsame _ hshape), hread]

/-! ## §6. Writing -/

/-- **Making directories changes nothing that stands.** -/
theorem createDirectories?_keeps {before after : Entry} {p : Path}
    (h : before.createDirectories? p = some after) : before.Keeps after := by
  obtain ⟨segments, -, halong⟩ := Option.bind_eq_some_iff.mp h
  -- The induction is over the segments that are left, from wherever the others have led.
  generalize ([] : List String) = here at halong
  clear h
  induction segments generalizing before here with
  | nil =>
    obtain rfl := Option.some.inj halong
    exact Keeps.refl _
  | cons segment rest ih =>
    rw [createAlong?] at halong
    split at halong
    · exact ih _ halong
    · split at halong
      · exact ih _ halong
      · dsimp only at halong
        split at halong
        · exact ih _ halong
        · exact absurd halong (by simp)
        · next hnone =>
          exact (insertAt_keeps _ (by rw [shapeAt?, hnone]; rfl)).trans (ih _ halong)

/-- What it takes to write a text, and what is done. -/
theorem writeText?_eq_some {before after : Entry} {p : Path} {text : List Char}
    (h : before.writeText? p text = some after) :
    ∃ (front : List (List Char)) (name : List Char) (here : List String),
      segmentsOf? p = some (front ++ [name]) ∧ Path.isStep name = true ∧
      Path.isName name = true ∧ before.walk? [] front = some here ∧
      before.shapeAt? here.reverse = some .directory ∧
      before.shapeAt? (here.reverse ++ [String.ofList name]) ≠ some .directory ∧
      after = before.insertAt (here.reverse ++ [String.ofList name])
        (file (String.ofList text).toUTF8 false) := by
  simp only [writeText?, Option.bind_eq_bind, Option.bind_eq_some_iff,
    Option.filter_eq_some_iff] at h
  obtain ⟨segments, hsegments, name, ⟨hlast, hname⟩, place, hplace, h⟩ := h
  have hname' : Path.isStep name = true ∧ Path.isName name = true := by
    simp only [Bool.and_eq_true, Bool.not_eq_true', Path.isName, bne_iff_ne, ne_eq] at hname
    simpa [Path.isStep, Path.isName, hname.1] using hname.2
  have hground : Grounded before [] before := rfl
  obtain ⟨hplaces, hwalk⟩ := follow?_spec segments.dropLast hground
  rw [hplace] at hwalk
  have hat := (hplaces place hplace).atNames?
  split at h
  · exact absurd h (by simp)
  · next entries hentries =>
    rw [hentries] at hat
    have hparent : before.shapeAt? (place.trail.map Prod.fst).reverse = some .directory := by
      rw [shapeAt?, hat]
      rfl
    have hold : before.atNames? ((place.trail.map Prod.fst).reverse ++ [String.ofList name])
        = lookup (String.ofList name) entries := by
      rw [atNames?_concat, hat]
      show (lookup (String.ofList name) entries).bind (atNames? []) = _
      cases lookup (String.ofList name) entries with
      | none => rfl
      | some inner => cases inner <;> rfl
    refine ⟨segments.dropLast, name, place.trail.map Prod.fst, ?_, hname'.1, hname'.2, hwalk,
      hparent, ?_, ?_⟩
    · rw [hsegments, List.dropLast_append_getLast? name hlast]
    · rw [shapeAt?, hold]
      split at h
      · exact absurd h (by simp)
      · next hother =>
        intro hdirectory
        obtain ⟨inner, hinner, hshape⟩ := Option.map_eq_some_iff.mp hdirectory
        obtain ⟨entries', rfl⟩ := exists_directory_of_shape hshape
        exact hother entries' hinner
    · split at h
      · exact absurd h (by simp)
      · exact (Option.some.inj h).symm

theorem fromUTF8?_toUTF8 (s : String) : String.fromUTF8? s.toUTF8 = some s := by
  have hvalid : s.toUTF8.IsValidUTF8 := s.isValidUTF8
  rw [String.fromUTF8?, dif_pos hvalid]
  rfl

/-- What writing a text changes: what stands at the names that the path leads to, of which the last
one is the last segment of the path. -/
structure Writes (before after : Entry) (p : Path) (text : List Char) : Prop where
  place : p.EndsInName
  old : before.shapeAt? p.names ≠ some .directory
  new : ∀ names, after.shapeAt? names
    = if names = p.names then some (.file (String.ofList text).toUTF8 false)
      else before.shapeAt? names
  read : after.readText? p = some text

/-- A tree in which what is no directory was changed has grown. -/
theorem extends_of_shapeAt? {before after : Entry} {names : List String} {shape : Shape}
    (hold : before.shapeAt? names ≠ some .directory)
    (hnew : ∀ other, after.shapeAt? other
      = if other = names then some shape else before.shapeAt? other) : before.Extends after where
  directories other hdirectory := by
    have hne : other ≠ names := fun heq => hold (heq ▸ hdirectory)
    rw [hnew, if_neg hne, hdirectory]
  isSome other hsome := by
    rw [hnew]
    split
    · rfl
    · exact hsome

theorem Writes.extends {before after : Entry} {p : Path} {text : List Char}
    (h : Writes before after p text) : before.Extends after := extends_of_shapeAt? h.old h.new

/-- **What writing a text changes, and what is read then.** -/
theorem writeText?_spec {before after : Entry} {p : Path} {text : List Char}
    (h : before.writeText? p text = some after) : Writes before after p text := by
  obtain ⟨front, name, here, hsegments, hstep, hname, hwalk, hparent, hold, hafter⟩ :=
    writeText?_eq_some h
  have hnew (names : List String) : after.shapeAt? names
      = if names = here.reverse ++ [String.ofList name]
        then some (.file (String.ofList text).toUTF8 false) else before.shapeAt? names := by
    rw [hafter]
    exact shapeAt?_insertAt hparent hold (fun _ _ => rfl) names
  have hextends := extends_of_shapeAt? hold hnew
  -- The walk to the file's directory is still possible, and then there is the file.
  have hthere : after.walk? [] (front ++ [name]) = some (String.ofList name :: here) := by
    have hdot : (name.isEmpty || name == ['.']) = false := by simpa [Path.isStep] using hstep
    have hup : (name == ['.', '.']) = false := by
      simp only [Path.isName, Bool.and_eq_true, bne_iff_ne] at hname
      exact beq_eq_false_iff_ne.mpr hname.2
    rw [walk?_append, walk?_of_extends hextends hwalk, Option.bind_some, walk?,
      hextends.directories _ hparent]
    simp only [hdot, hup, Bool.false_eq_true, if_false, List.reverse_cons, hnew, if_true,
      Option.isSome_some]
    rfl
  have hnames : p.names = here.reverse ++ [String.ofList name] := by
    rw [(names_of_walk? hsegments hthere).2, List.reverse_cons]
  rw [← hnames] at hold hnew
  refine ⟨⟨front, name, hsegments, hstep, hname⟩, hold, hnew, ?_⟩
  rw [readText?_of_walk? hsegments hthere (by rw [hnew, if_pos rfl]), fromUTF8?_toUTF8,
    Option.map_some, String.toList_ofList]

end Entry

namespace Path.EndsInName

variable {p : Path}

theorem isAbsolute (h : p.EndsInName) : p.isAbsolute = true := by
  obtain ⟨front, name, hsegments, -⟩ := h
  exact (Entry.segmentsOf?_steps hsegments).2

theorem isSome_fileName? (h : p.EndsInName) : p.fileName?.isSome := by
  obtain ⟨front, name, hsegments, hstep, hname⟩ := h
  rw [fileName?_eq, (Entry.segmentsOf?_steps hsegments).1, List.filter_append,
    List.filter_singleton, hstep]
  simp [hname]

end Path.EndsInName

end SingleFile.Files
