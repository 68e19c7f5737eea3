/-
  SingleFile.Proofs.Files.Steps — THE STEPS OF A PATH
  ───────────────────────────────────────────────────
  A path leads through its steps: the segments that are neither empty nor a
  dot.  They are its components, but for a dot that a relative path may begin
  with, and they are all that decides where the path leads.

  Main results:
    * `components_eq` — the components of a path and its steps.
    * `steps_withExtension` — another extension changes the last step only.
    * `steps_join` — a path behind another one leads through the steps of both.
    * `relativeTo?_steps` — what is behind a base are the further steps.
-/
import Mathlib.Data.List.Basic
import Mathlib.Data.List.Induction
import SingleFile.Files.Path

namespace SingleFile.Files

/-! ## §1. Slashes -/

theorem splitSlashes_ne_nil (text : List Char) : splitSlashes text ≠ [] := by
  cases text with
  | nil => simp [splitSlashes]
  | cons c cs =>
    rw [splitSlashes]
    split <;> simp

theorem splitSlashes_cons_of_ne {c : Char} (hc : c ≠ '/') {cs first : List Char}
    {rest : List (List Char)} (h : splitSlashes cs = first :: rest) :
    splitSlashes (c :: cs) = (c :: first) :: rest := by
  simp [splitSlashes, hc, h]

theorem splitSlashes_slash (cs : List Char) : splitSlashes ('/' :: cs) = [] :: splitSlashes cs := by
  simp [splitSlashes]

/-- The texts of a text with a slash in it are those in front of the slash and those behind. -/
theorem splitSlashes_append (a b : List Char) :
    splitSlashes (a ++ '/' :: b) = splitSlashes a ++ splitSlashes b := by
  induction a with
  | nil => exact splitSlashes_slash b
  | cons c cs ih =>
    rw [List.cons_append]
    by_cases hc : c = '/'
    · subst hc
      rw [splitSlashes_slash, splitSlashes_slash, ih, List.cons_append]
    · obtain ⟨first, rest, hcs⟩ := List.exists_cons_of_ne_nil (splitSlashes_ne_nil cs)
      rw [hcs, List.cons_append] at ih
      rw [splitSlashes_cons_of_ne hc ih, splitSlashes_cons_of_ne hc hcs, List.cons_append]

theorem splitSlashes_of_not_mem {text : List Char} (h : '/' ∉ text) :
    splitSlashes text = [text] := by
  induction text with
  | nil => rfl
  | cons c cs ih =>
    have hc : c ≠ '/' := fun hc => h (hc ▸ List.mem_cons_self ..)
    exact splitSlashes_cons_of_ne hc (ih fun hmem => h (List.mem_cons_of_mem _ hmem))

theorem splitSlashes_append_of_not_mem {text ending last : List Char} {front : List (List Char)}
    (h : splitSlashes text = front ++ [last]) (hending : '/' ∉ ending) :
    splitSlashes (text ++ ending) = front ++ [last ++ ending] := by
  -- The ending goes to the last text, wherever that begins, so both lists vary in the induction.
  induction text generalizing front last with
  | nil =>
    obtain ⟨rfl, rfl⟩ : front = [] ∧ last = [] := by
      have hone : [] ++ [[]] = front ++ [last] := h
      obtain ⟨hfront, hlast⟩ := List.append_inj' hone rfl
      exact ⟨hfront.symm, (List.singleton_inj.mp hlast).symm⟩
    exact splitSlashes_of_not_mem hending
  | cons c cs ih =>
    rw [List.cons_append]
    by_cases hc : c = '/'
    · subst hc
      rw [splitSlashes_slash] at h ⊢
      cases front with
      | nil => exact absurd (List.cons.inj h).2 (splitSlashes_ne_nil cs)
      | cons first front =>
        obtain ⟨rfl, hcs⟩ := List.cons.inj h
        rw [ih hcs, List.cons_append]
    · obtain ⟨first, rest, hcs⟩ := List.exists_cons_of_ne_nil (splitSlashes_ne_nil cs)
      rw [splitSlashes_cons_of_ne hc hcs] at h
      cases front with
      | nil =>
        obtain ⟨hlast, hrest⟩ := List.cons.inj h
        rw [hrest] at hcs
        rw [← hlast]
        exact splitSlashes_cons_of_ne hc (ih (show splitSlashes cs = [] ++ [first] from hcs))
      | cons first' front =>
        obtain ⟨hfirst, hrest⟩ := List.cons.inj h
        rw [hrest] at hcs
        rw [← hfirst]
        exact splitSlashes_cons_of_ne hc
          (ih (show splitSlashes cs = (first :: front) ++ [last] from hcs))

theorem not_mem_of_mem_splitSlashes {text s : List Char} (h : s ∈ splitSlashes text) :
    '/' ∉ s := by
  induction text generalizing s with
  | nil =>
    rw [List.mem_singleton.mp h]
    exact List.not_mem_nil
  | cons c cs ih =>
    by_cases hc : c = '/'
    · subst hc
      rw [splitSlashes_slash] at h
      rcases List.mem_cons.mp h with rfl | h
      · exact List.not_mem_nil
      · exact ih h
    · obtain ⟨first, rest, hcs⟩ := List.exists_cons_of_ne_nil (splitSlashes_ne_nil cs)
      rw [splitSlashes_cons_of_ne hc hcs] at h
      rw [hcs] at ih
      rcases List.mem_cons.mp h with rfl | h
      · exact List.not_mem_cons_of_ne_of_not_mem (Ne.symm hc) (ih (List.mem_cons_self ..))
      · exact ih (List.mem_cons_of_mem _ h)

theorem joinSlashes_cons_cons (s t : List Char) (rest : List (List Char)) :
    joinSlashes (s :: t :: rest) = s ++ '/' :: joinSlashes (t :: rest) := by
  simp [joinSlashes, List.intercalate]

/-- **Texts with slashes between them are cut into these texts.** -/
theorem splitSlashes_joinSlashes {texts : List (List Char)} (hne : texts ≠ [])
    (h : ∀ s ∈ texts, '/' ∉ s) : splitSlashes (joinSlashes texts) = texts := by
  induction texts with
  | nil => exact absurd rfl hne
  | cons s rest ih =>
    have hs := h s (List.mem_cons_self ..)
    cases rest with
    | nil =>
      have hone : joinSlashes [s] = s := by simp [joinSlashes, List.intercalate]
      rw [hone, splitSlashes_of_not_mem hs]
    | cons t rest =>
      have hrest : splitSlashes (joinSlashes (t :: rest)) = t :: rest :=
        ih (by simp) fun u hu => h u (List.mem_cons_of_mem _ hu)
      rw [joinSlashes_cons_cons, splitSlashes_append, splitSlashes_of_not_mem hs, hrest,
        List.singleton_append]

namespace Path

/-! ## §2. Steps -/

/-- Whether a text between slashes leads anywhere. -/
def isStep (text : List Char) : Bool := !(text.isEmpty || text == ['.'])

/-- The steps that a text spells. -/
def stepsOf (text : List Char) : List (List Char) := (splitSlashes text).filter isStep

/-- The steps that a path leads through. -/
def steps (p : Path) : List (List Char) := stepsOf p.text.toList

theorem stepsOf_append (a b : List Char) :
    stepsOf (a ++ '/' :: b) = stepsOf a ++ stepsOf b := by
  rw [stepsOf, splitSlashes_append, List.filter_append]
  rfl

theorem stepsOf_nil : stepsOf [] = [] := rfl

theorem stepsOf_slash (text : List Char) : stepsOf ('/' :: text) = stepsOf text :=
  stepsOf_append [] text

theorem stepsOf_joinSlashes {texts : List (List Char)} (h : ∀ s ∈ texts, '/' ∉ s) :
    stepsOf (joinSlashes texts) = texts.filter isStep := by
  cases texts with
  | nil => rfl
  | cons s rest => rw [stepsOf, splitSlashes_joinSlashes (by simp) h]

theorem not_mem_of_mem_steps {p : Path} {s : List Char} (h : s ∈ p.steps) : '/' ∉ s :=
  not_mem_of_mem_splitSlashes (List.mem_filter.mp h).1

/-! ## §3. Segments and steps -/

/-- What all segments of a path have in common: no slash, and where one counts it is a step, unless
it is the dot that a path begins with. -/
structure IsPlain (s : Segment) : Prop where
  slashless : '/' ∉ s.text
  counts : (s.counts && s.text != ['.']) = isStep s.text

theorem innerSegment_isPlain {text : List Char} (h : '/' ∉ text) : IsPlain (innerSegment text) where
  slashless := h
  counts := by
    show (isStep text && text != ['.']) = isStep text
    cases hstep : isStep text with
    | false => rfl
    | true => simp_all [isStep]

theorem firstSegment_isPlain {text : List Char} (h : '/' ∉ text) :
    IsPlain ⟨text, !text.isEmpty⟩ where
  slashless := h
  counts := by
    rw [isStep, Bool.not_or]
    rfl

/-- The segments of a path, as they are written: those of its text behind the root. -/
theorem segments_plain (p : Path) : ∀ s ∈ p.segments, IsPlain s := by
  intro s hs
  unfold segments at hs
  split at hs
  · next rest _ =>
    obtain ⟨text, htext, rfl⟩ := List.mem_map.mp hs
    exact innerSegment_isPlain (not_mem_of_mem_splitSlashes htext)
  · next text _ =>
    split at hs
    · exact absurd hs List.not_mem_nil
    · next first rest hsplit =>
      have hplain (t : List Char) (ht : t ∈ first :: rest) : '/' ∉ t :=
        not_mem_of_mem_splitSlashes (hsplit ▸ ht)
      rcases List.mem_cons.mp hs with rfl | hs
      · exact firstSegment_isPlain (hplain first (List.mem_cons_self ..))
      · obtain ⟨t, ht, rfl⟩ := List.mem_map.mp hs
        exact innerSegment_isPlain (hplain t (List.mem_cons_of_mem _ ht))

/-- The steps among some segments. -/
def stepsAmong (segments : List Segment) : List (List Char) :=
  (segments.map Segment.text).filter isStep

theorem stepsAmong_eq {segments : List Segment} (h : ∀ s ∈ segments, IsPlain s) :
    ((segments.filter Segment.counts).map Segment.text).filter (· != ['.'])
      = stepsAmong segments := by
  induction segments with
  | nil => rfl
  | cons s rest ih =>
    obtain ⟨hs, hrest⟩ := List.forall_mem_cons.mp h
    have hcounts := hs.counts
    have ih := ih hrest
    unfold stepsAmong at ih ⊢
    cases hc : s.counts <;> cases hd : s.text != ['.'] <;> simp_all

theorem map_text_innerSegment (texts : List (List Char)) :
    (texts.map innerSegment).map Segment.text = texts := by
  rw [List.map_map]
  exact List.map_id _

theorem stepsAmong_segments (p : Path) : stepsAmong p.segments = p.steps := by
  unfold stepsAmong segments steps stepsOf
  split
  · next rest hrest => rw [map_text_innerSegment, hrest, splitSlashes_slash]; rfl
  · split
    · next hsplit => exact absurd hsplit (splitSlashes_ne_nil _)
    · next hsplit => rw [List.map_cons, map_text_innerSegment, hsplit]

/-- Segments behind the first one count where they are steps. -/
theorem components_inner (texts : List (List Char)) :
    ((texts.map innerSegment).filter Segment.counts).map Segment.text = texts.filter isStep := by
  induction texts with
  | nil => rfl
  | cons s texts ih =>
    have hs : (innerSegment s).counts = isStep s := rfl
    cases hstep : isStep s <;> simp_all [innerSegment]

theorem isAbsolute_iff (p : Path) : p.isAbsolute = true ↔ ∃ rest, p.text.toList = '/' :: rest := by
  rw [isAbsolute]
  cases p.text.toList <;> simp

/-- The components of an absolute path are its steps. -/
theorem components_of_isAbsolute {p : Path} (h : p.isAbsolute = true) :
    p.components = p.steps := by
  obtain ⟨rest, hrest⟩ := p.isAbsolute_iff.mp h
  have hsegments : p.segments = (splitSlashes rest).map innerSegment := by
    simp only [segments, hrest]
  rw [components, hsegments, components_inner, steps, hrest, stepsOf_slash, stepsOf]

/-- **The components of a path are its steps, and a dot that it may begin with.** -/
theorem components_eq (p : Path) :
    ∃ front, (front = [] ∨ front = [['.']]) ∧ p.components = front ++ p.steps := by
  cases habsolute : p.isAbsolute with
  | true => exact ⟨[], .inl rfl, components_of_isAbsolute habsolute⟩
  | false =>
    obtain ⟨first, rest, hsplit⟩ := List.exists_cons_of_ne_nil (splitSlashes_ne_nil p.text.toList)
    have hsegments : p.segments = ⟨first, !first.isEmpty⟩ :: rest.map innerSegment := by
      unfold segments
      split
      · next htext => exact absurd (p.isAbsolute_iff.mpr ⟨_, htext⟩) (by simp [habsolute])
      · rw [hsplit]
    have hcomponents : p.components
        = (if first.isEmpty then [] else [first]) ++ rest.filter isStep := by
      rw [components, hsegments, ← components_inner]
      cases first.isEmpty <;> simp
    have hsteps : p.steps = (if isStep first then [first] else []) ++ rest.filter isStep := by
      rw [steps, stepsOf, hsplit]
      cases hfirst : isStep first <;> simp [hfirst]
    -- A dot is the only first text that counts as a component and is no step.
    by_cases hdot : first = ['.']
    · subst hdot
      exact ⟨[['.']], .inr rfl, by rw [hcomponents, hsteps]; rfl⟩
    · refine ⟨[], .inl rfl, ?_⟩
      rw [hcomponents, hsteps]
      cases hempty : first.isEmpty <;> simp [isStep, hempty, hdot]

/-- The components of a path but for dots are its steps. -/
theorem components_filter (p : Path) : p.components.filter (· != ['.']) = p.steps := by
  rw [components, stepsAmong_eq p.segments_plain, stepsAmong_segments]

/-! ## §4. Names -/

/-- The name of a path is its last step, unless that leads out of a directory. -/
theorem fileName?_eq (p : Path) : p.fileName? = p.steps.getLast?.filter isName := by
  obtain ⟨front, hfront, hcomponents⟩ := p.components_eq
  rw [fileName?, hcomponents]
  rcases List.eq_nil_or_concat p.steps with hnil | ⟨steps, last, hconcat⟩
  · rw [hnil]
    rcases hfront with rfl | rfl <;> rfl
  · rw [hconcat]
    simp

/-- A path with a name leads through further steps to that name. -/
theorem steps_of_fileName? {p : Path} {name : List Char} (h : p.fileName? = some name) :
    p.steps = p.steps.dropLast ++ [name] ∧ isName name = true := by
  rw [fileName?_eq, Option.filter_eq_some_iff] at h
  exact ⟨(List.dropLast_append_getLast? name h.1).symm, h.2⟩

theorem stem_ne_nil {name : List Char} (h : name ≠ []) : (splitExtension name).1 ≠ [] := by
  unfold splitExtension
  dsimp only
  split
  · exact h
  · next hfront => simpa using hfront

theorem stem_subset (name : List Char) : (splitExtension name).1 ⊆ name := by
  unfold splitExtension
  dsimp only
  split
  · exact List.Subset.refl name
  · intro c hc
    have hc := List.mem_of_mem_tail (List.mem_reverse.mp hc)
    exact List.mem_reverse.mp ((List.dropWhile_sublist _).subset hc)

/-- A name with another extension. -/
def nameWith (extension : String) (name : List Char) : List Char :=
  (splitExtension name).1 ++ '.' :: extension.toList

theorem isStep_nameWith {extension : String} {name : List Char} (h : name ≠ []) :
    isStep (nameWith extension name) = true := by
  obtain ⟨c, rest, hstem⟩ := List.exists_cons_of_ne_nil (stem_ne_nil h)
  simp [isStep, nameWith, hstem]

/-! ## §5. Paths of segments -/

theorem steps_ofSegments {isAbsolute : Bool} {segments : List Segment}
    (h : ∀ s ∈ segments, '/' ∉ s.text) :
    (ofSegments isAbsolute segments).steps = stepsAmong segments := by
  have hjoin : stepsOf (joinSlashes (segments.map Segment.text)) = stepsAmong segments :=
    stepsOf_joinSlashes (List.forall_mem_map.mpr h)
  rw [steps, ofSegments, String.toList_ofList]
  cases isAbsolute with
  | false => exact hjoin
  | true => exact (stepsOf_slash _).trans hjoin

/-- A path of segments is relative if its first segment begins it with no slash. -/
theorem isAbsolute_ofSegments {segments : List Segment}
    (h : ∀ s ∈ segments.head?, s.text ≠ [] ∧ '/' ∉ s.text) (isAbsolute : Bool) :
    (ofSegments isAbsolute segments).isAbsolute = isAbsolute := by
  cases isAbsolute with
  | true => simp [ofSegments, Path.isAbsolute]
  | false =>
    cases segments with
    | nil => rfl
    | cons s rest =>
      obtain ⟨hne, hslash⟩ := h s rfl
      obtain ⟨c, cs, hs⟩ := List.exists_cons_of_ne_nil hne
      have hc : c ≠ '/' := fun hc => hslash (hs ▸ hc ▸ List.mem_cons_self ..)
      cases rest with
      | nil => simp [ofSegments, Path.isAbsolute, joinSlashes, List.intercalate, hs, hc]
      | cons t rest =>
        simp [ofSegments, Path.isAbsolute, joinSlashes_cons_cons, hs, hc]

theorem trimEnd_concat (segments : List Segment) (s : Segment) :
    trimEnd (segments ++ [s]) = if s.counts then segments ++ [s] else trimEnd segments := by
  rw [trimEnd, List.reverse_append]
  cases hs : s.counts <;> simp [hs, trimEnd]

theorem filter_trimEnd (segments : List Segment) :
    (trimEnd segments).filter Segment.counts = segments.filter Segment.counts := by
  induction segments using List.reverseRecOn with
  | nil => rfl
  | append_singleton segments s ih =>
    rw [trimEnd_concat]
    cases hcounts : s.counts <;> simp [hcounts, ih]

theorem filter_dropWhile (segments : List Segment) :
    (segments.dropWhile fun s => !s.counts).filter Segment.counts
      = segments.filter Segment.counts := by
  induction segments with
  | nil => rfl
  | cons s segments ih => cases hcounts : s.counts <;> simp [hcounts, ih]

theorem counts_getLast_trimEnd {segments front : List Segment} {last : Segment}
    (h : trimEnd segments = front ++ [last]) : last.counts = true := by
  induction segments using List.reverseRecOn with
  | nil => simp [trimEnd] at h
  | append_singleton segments s ih =>
    rw [trimEnd_concat] at h
    cases hcounts : s.counts with
    | true =>
      rw [hcounts, if_pos rfl] at h
      rw [← List.singleton_inj.mp (List.append_inj_right' h rfl), hcounts]
    | false =>
      rw [hcounts, if_neg (by simp)] at h
      exact ih h

theorem trimEnd_isInitial (segments : List Segment) : trimEnd segments <+: segments :=
  List.reverse_suffix.mp (by
    rw [trimEnd, List.reverse_reverse]
    exact List.dropWhile_suffix _)

/-- Segments that name nothing are no steps. -/
theorem stepsAmong_trimEnd {segments : List Segment} (h : ∀ s ∈ segments, IsPlain s) :
    stepsAmong (trimEnd segments) = stepsAmong segments := by
  rw [← stepsAmong_eq h, ← filter_trimEnd, stepsAmong_eq]
  exact fun s hs => h s ((trimEnd_isInitial segments).subset hs)

theorem trimEnd_plain {segments : List Segment} (h : ∀ s ∈ segments, IsPlain s) :
    ∀ s ∈ trimEnd segments, IsPlain s :=
  fun s hs => h s ((trimEnd_isInitial segments).subset hs)

/-- A relative path begins with no slash. -/
theorem head?_trimEnd {p : Path} (h : p.isAbsolute = false) :
    ∀ s ∈ (trimEnd p.segments).head?, s.text ≠ [] ∧ '/' ∉ s.text := by
  intro s hs
  have hmem : s ∈ trimEnd p.segments := List.mem_of_mem_head? hs
  refine ⟨fun hempty => ?_, (trimEnd_plain p.segments_plain s hmem).slashless⟩
  have hfirst : p.segments.head? = some s := by
    obtain ⟨rest, hrest⟩ := trimEnd_isInitial p.segments
    rw [← hrest, List.head?_append, hs]
    rfl
  -- An empty first segment would stand in front of a slash, or there are no segments at all.
  cases htext : p.text.toList with
  | nil =>
    have hsegments : p.segments = [⟨[], false⟩] := by simp [segments, htext, splitSlashes]
    rw [hsegments] at hmem
    exact List.not_mem_nil hmem
  | cons c cs =>
    have hc : c ≠ '/' := by
      rintro rfl
      exact absurd (p.isAbsolute_iff.mpr ⟨cs, htext⟩) (by simp [h])
    obtain ⟨first, rest, hcs⟩ := List.exists_cons_of_ne_nil (splitSlashes_ne_nil cs)
    have hsplit := splitSlashes_cons_of_ne hc hcs
    unfold segments at hfirst
    split at hfirst
    · next hslash => exact hc (by rw [htext] at hslash; exact (List.cons.inj hslash).1)
    · rw [htext, hsplit] at hfirst
      obtain rfl := Option.some.inj hfirst
      exact absurd hempty (by simp)

/-- The segments of a path with a name, and the steps in front of the name. -/
theorem exists_front_of_fileName? {p : Path} {name : List Char} (hname : p.fileName? = some name) :
    ∃ front last, trimEnd p.segments = front ++ [last] ∧ stepsAmong front = p.steps.dropLast := by
  obtain ⟨hsteps, -⟩ := steps_of_fileName? hname
  have hmem : name ∈ p.steps := hsteps ▸ List.mem_append_right _ (List.mem_singleton_self name)
  have hwhole : stepsAmong (trimEnd p.segments) = p.steps := by
    rw [stepsAmong_trimEnd p.segments_plain, stepsAmong_segments]
  rcases List.eq_nil_or_concat (trimEnd p.segments) with hnil | ⟨front, last, hconcat⟩
  · rw [hnil] at hwhole
    exact absurd hmem (by rw [← hwhole]; exact List.not_mem_nil)
  rw [List.concat_eq_append] at hconcat
  -- What is left at the end counts, so it is the last component, which is the name.
  have hlast : isStep last.text = true := by
    have hcomponents : p.components = ((front ++ [last]).filter Segment.counts).map
        Segment.text := by rw [components, ← filter_trimEnd, hconcat]
    have hcounts := counts_getLast_trimEnd hconcat
    rw [fileName?, hcomponents] at hname
    simp [hcounts, Option.filter_eq_some_iff] at hname
    rw [hname.1]
    exact (List.mem_filter.mp hmem).2
  refine ⟨front, last, hconcat, ?_⟩
  rw [← hwhole, hconcat]
  simp [stepsAmong, hlast]

/-- **Another extension changes the name of a path and no step in front of it.** -/
theorem steps_withExtension {p : Path} {name : List Char} {extension : String}
    (hname : p.fileName? = some name) (hslash : '/' ∉ extension.toList) :
    (p.withExtension extension).steps = p.steps.dropLast ++ [nameWith extension name] ∧
      (p.withExtension extension).isAbsolute = p.isAbsolute := by
  obtain ⟨hsteps, hisName⟩ := steps_of_fileName? hname
  obtain ⟨front, last, hconcat, hfront⟩ := exists_front_of_fileName? hname
  have hmem : name ∈ p.steps := hsteps ▸ List.mem_append_right _ (List.mem_singleton_self name)
  have hne : name ≠ [] := by
    rintro rfl
    exact absurd (List.mem_filter.mp hmem).2 (by decide)
  have hnamed : '/' ∉ nameWith extension name := by
    intro hc
    rcases List.mem_append.mp hc with hc | hc
    · exact not_mem_of_mem_steps hmem (stem_subset name hc)
    · exact hslash ((List.mem_cons.mp hc).resolve_left (by decide))
  have hform : p.withExtension extension
      = ofSegments p.isAbsolute (front ++ [⟨nameWith extension name, true⟩]) := by
    simp only [withExtension, hname, hconcat, List.dropLast_concat]
    rfl
  rw [hform]
  constructor
  · rw [steps_ofSegments, ← hfront]
    · simp [stepsAmong, isStep_nameWith hne]
    · intro s hs
      rcases List.mem_append.mp hs with hs | hs
      · have hplain := trimEnd_plain p.segments_plain
        exact (hplain s (hconcat ▸ List.mem_append_left _ hs)).slashless
      · rw [List.mem_singleton.mp hs]
        exact hnamed
  · cases habsolute : p.isAbsolute with
    | true => simp [ofSegments, isAbsolute]
    | false =>
      refine isAbsolute_ofSegments (fun s hs => ?_) false
      cases front with
      | nil =>
        obtain rfl := Option.some.inj hs
        exact ⟨by simp [nameWith], hnamed⟩
      | cons first front =>
        refine head?_trimEnd habsolute s ?_
        rw [hconcat]
        exact hs

theorem isAbsolute_withExtension (p : Path) {extension : String}
    (hslash : '/' ∉ extension.toList) :
    (p.withExtension extension).isAbsolute = p.isAbsolute := by
  cases hname : p.fileName? with
  | none => simp only [withExtension, hname]
  | some name => exact (steps_withExtension hname hslash).2

/-! ## §6. Paths behind paths -/

/-- **A path behind another one leads through the steps of both.** -/
theorem steps_join {p q : Path} (hq : q.isAbsolute = false) :
    (p.join q).steps = p.steps ++ q.steps ∧ (p.join q).isAbsolute = p.isAbsolute := by
  rw [join, if_neg (by simp [hq])]
  rcases List.eq_nil_or_concat p.text.toList with hnil | ⟨front, last, hconcat⟩
  · have hp : p.steps = [] := by rw [steps, hnil, stepsOf_nil]
    simp only [hnil, List.isEmpty_nil, Bool.true_or, if_true, List.nil_append,
      String.ofList_toList, hp]
    exact ⟨trivial, by rw [hq, isAbsolute, hnil]; rfl⟩
  · rw [List.concat_eq_append] at hconcat
    have hhead (rest : List Char) : (⟨String.ofList (p.text.toList ++ rest)⟩ : Path).isAbsolute
        = p.isAbsolute := by
      simp [isAbsolute, hconcat, List.head?_append]
    simp only [List.append_assoc]
    refine ⟨?_, hhead _⟩
    -- A slash at the end cuts off an empty text, which is no step.
    by_cases hlast : last = '/'
    · subst hlast
      simp only [steps, String.toList_ofList, hconcat, List.getLast?_concat, BEq.rfl, Bool.or_true,
        if_true, List.nil_append, List.append_assoc, List.singleton_append]
      rw [stepsOf_append, stepsOf_append, stepsOf_nil, List.append_nil]
    · have hslash : (p.text.toList.isEmpty || p.text.toList.getLast? == some '/') = false := by
        simp [hconcat, hlast]
      rw [hslash]
      simp only [steps, String.toList_ofList, Bool.false_eq_true, if_false, List.singleton_append]
      exact stepsOf_append _ _

/-- What is left of segments behind some components. -/
theorem dropComponents?_eq_some {components : List (List Char)} {segments rest : List Segment}
    (h : dropComponents? components segments = some rest) :
    (segments.filter Segment.counts).map Segment.text
      = components ++ (rest.filter Segment.counts).map Segment.text ∧ rest <:+ segments := by
  induction segments generalizing components with
  | nil =>
    cases components with
    | nil =>
      obtain rfl := Option.some.inj h
      exact ⟨rfl, List.suffix_refl _⟩
    | cons c cs => exact absurd h (by simp [dropComponents?])
  | cons s segments ih =>
    cases components with
    | nil =>
      obtain rfl := Option.some.inj h
      exact ⟨rfl, List.suffix_refl _⟩
    | cons c cs =>
      rw [dropComponents?] at h
      -- A segment that does not count is passed over; any other has to be the next component.
      split at h
      · next hcounts =>
        obtain ⟨hsteps, hsuffix⟩ := ih h
        exact ⟨by simpa [by simpa using hcounts] using hsteps, hsuffix.trans (List.suffix_cons ..)⟩
      · next hcounts =>
        split at h
        · next htext =>
          obtain ⟨hsteps, hsuffix⟩ := ih h
          refine ⟨?_, hsuffix.trans (List.suffix_cons ..)⟩
          simp [by simpa using hcounts, beq_iff_eq.mp htext, hsteps]
        · exact absurd h (by simp)

/-- Segments that are made a path of their own. -/
def behind (segments : List Segment) : Path :=
  let inner := segments.map fun s => innerSegment s.text
  ofSegments false (trimEnd (inner.dropWhile fun s => !s.counts))

theorem steps_behind {segments : List Segment} (h : ∀ s ∈ segments, '/' ∉ s.text) :
    (behind segments).steps = stepsAmong segments ∧ (behind segments).isAbsolute = false := by
  have hinner : ∀ s ∈ segments.map fun s => innerSegment s.text, IsPlain s :=
    List.forall_mem_map.mpr fun s hs => innerSegment_isPlain (h s hs)
  have hdropped : ∀ s ∈ (segments.map fun s => innerSegment s.text).dropWhile fun s => !s.counts,
      IsPlain s := fun s hs => hinner s ((List.dropWhile_sublist _).subset hs)
  constructor
  · rw [behind, steps_ofSegments fun s hs => (trimEnd_plain hdropped s hs).slashless,
      stepsAmong_trimEnd hdropped, ← stepsAmong_eq hdropped, filter_dropWhile, stepsAmong_eq hinner,
      stepsAmong, List.map_map]
    rfl
  · refine isAbsolute_ofSegments (fun s hs => ?_) false
    have hhead : ((segments.map fun s => innerSegment s.text).dropWhile fun s =>
        !s.counts).head? = some s := by
      obtain ⟨rest, hrest⟩ := trimEnd_isInitial
        ((segments.map fun s => innerSegment s.text).dropWhile fun s => !s.counts)
      rw [← hrest, List.head?_append, hs]
      rfl
    have hcounts := List.head?_dropWhile_not (fun s : Segment => !s.counts)
      (segments.map fun s => innerSegment s.text)
    rw [hhead] at hcounts
    have hmem := List.mem_of_mem_head? hhead
    refine ⟨fun hempty => ?_, (hdropped s hmem).slashless⟩
    have hstep := (hdropped s hmem).counts
    simp_all [isStep]

/-- **What is behind a base that a path starts with are the further steps.**  Only a base that is
no directory at all leaves an absolute path absolute. -/
theorem relativeTo?_steps {p base rest : Path} (h : p.relativeTo? base = some rest) :
    p.steps = base.steps ++ rest.steps ∧
      (p.isAbsolute = base.isAbsolute ∧ rest.isAbsolute = false ∨
        base.isAbsolute = false ∧ base.steps = [] ∧ rest.isAbsolute = p.isAbsolute) := by
  unfold relativeTo? at h
  split at h
  · split at h
    · exact absurd h (by simp)
    · next habsolute =>
      obtain ⟨segments, hdrop, hrest⟩ := Option.map_eq_some_iff.mp h
      obtain rfl : behind segments = rest := hrest
      obtain ⟨hsteps, hsuffix⟩ := dropComponents?_eq_some hdrop
      obtain ⟨hsteps', habsolute'⟩ := steps_behind fun s hs =>
        (p.segments_plain s (hsuffix.subset hs)).slashless
      refine ⟨?_, .inl ⟨by simpa using Eq.symm (by simpa using habsolute), habsolute'⟩⟩
      rw [hsteps', ← components_filter, ← components_filter, components, hsteps,
        List.filter_append, stepsAmong_eq fun s hs => p.segments_plain s (hsuffix.subset hs)]
  · next hbase =>
    -- The base has no components, so nothing is taken away.
    obtain rfl := Option.some.inj h
    simp only [Bool.or_eq_true, Bool.not_eq_true', not_or, Bool.not_eq_true,
      Bool.not_eq_false, List.isEmpty_iff] at hbase
    have hnone : base.steps = [] := by rw [← components_filter, hbase.2]; rfl
    refine ⟨?_, .inr ⟨hbase.1, hnone, ?_⟩⟩
    · rw [steps_ofSegments fun s hs => (trimEnd_plain p.segments_plain s hs).slashless,
        stepsAmong_trimEnd p.segments_plain, stepsAmong_segments, hnone, List.nil_append]
    · cases habsolute : p.isAbsolute with
      | true => simp [ofSegments, isAbsolute]
      | false => exact isAbsolute_ofSegments (head?_trimEnd habsolute) false

end Path
end SingleFile.Files
