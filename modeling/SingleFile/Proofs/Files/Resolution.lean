/-
  SingleFile.Proofs.Files.Resolution — WHERE PATHS LEAD
  ─────────────────────────────────────────────────────
  A name leads into a directory, two dots lead back out of it, and where
  there is nothing to lead out of they lead up from where a relative path
  starts.  No link is followed, so where a path leads is decided by its text
  alone.

  Main results:
    * `foldl_step` — steps lead up from where they start, and then down.
    * `target_join` — a path behind another one leads on from there.
    * `target_withExtension` — another extension leads to another name in the
      same directory.
-/
import SingleFile.Proofs.Files.Steps

namespace SingleFile.Files

/-! ## §1. Targets -/

/-- Where a path leads: so many directories up from where it starts, and down through names, the
innermost first. -/
structure Target where
  isAbsolute : Bool
  up : Nat
  trail : List (List Char)
deriving DecidableEq, Repr

namespace Target

/-- Where no step leads. -/
def start (isAbsolute : Bool) : Target := ⟨isAbsolute, 0, []⟩

/-- What leads back out of a directory. -/
def dotDot : List Char := ['.', '.']

/-- The directory around a target; nothing is around the root. -/
def around (t : Target) : Target :=
  match t.trail with
  | _ :: trail => { t with trail := trail }
  | [] => if t.isAbsolute then t else { t with up := t.up + 1 }

/-- Goes on from a target by a step. -/
def step (t : Target) (s : List Char) : Target :=
  if s = dotDot then t.around else { t with trail := s :: t.trail }

/-- The directory so many directories around a target. -/
def climb : Nat → Target → Target
  | 0, t => t
  | n + 1, t => (climb n t).around

/-- Goes on from a target down through names, the innermost first. -/
def enter (t : Target) (trail : List (List Char)) : Target := { t with trail := trail ++ t.trail }

/-- Whether a target is a directory or lies under it. -/
def LiesUnder (t directory : Target) : Prop :=
  t.isAbsolute = directory.isAbsolute ∧ t.up = directory.up ∧ directory.trail <:+ t.trail

instance (t directory : Target) : Decidable (t.LiesUnder directory) :=
  inferInstanceAs (Decidable (_ ∧ _ ∧ _))

theorem step_of_isName {s : List Char} (h : Path.isName s = true) (t : Target) :
    t.step s = t.enter [s] := by
  have hs : s ≠ dotDot := by
    rintro rfl
    exact absurd h (by decide)
  rw [step, if_neg hs]
  rfl

theorem enter_liesUnder (t : Target) (trail : List (List Char)) : (t.enter trail).LiesUnder t :=
  ⟨rfl, rfl, List.suffix_append ..⟩

theorem isAbsolute_around (t : Target) : t.around.isAbsolute = t.isAbsolute := by
  unfold around
  split
  · rfl
  · split <;> rfl

theorem isAbsolute_step (t : Target) (s : List Char) : (t.step s).isAbsolute = t.isAbsolute := by
  unfold step
  split
  · exact t.isAbsolute_around
  · rfl

theorem isAbsolute_foldl (t : Target) (steps : List (List Char)) :
    (steps.foldl step t).isAbsolute = t.isAbsolute := by
  induction steps generalizing t with
  | nil => rfl
  | cons s steps ih => rw [List.foldl_cons, ih, isAbsolute_step]

/-- No steps lead up from the root. -/
theorem up_foldl {t : Target} (habsolute : t.isAbsolute = true) (hup : t.up = 0)
    (steps : List (List Char)) : (steps.foldl step t).up = 0 := by
  induction steps generalizing t with
  | nil => exact hup
  | cons s steps ih =>
    refine ih (t.isAbsolute_step s ▸ habsolute) ?_
    unfold step around
    rw [if_pos habsolute]
    split
    · split <;> exact hup
    · exact hup

/-- Nothing is left of a directory in the root that is climbed out of. -/
theorem climb_succ_of_root (n : Nat) (name : List Char) :
    climb (n + 1) ⟨true, 0, [name]⟩ = start true := by
  induction n with
  | zero => rfl
  | succ n ih =>
    rw [climb, ih]
    rfl

/-- **Steps lead up from where they start, and then down.** -/
theorem foldl_step (t : Target) (steps : List (List Char)) :
    steps.foldl step t = (climb (steps.foldl step (start false)).up t).enter
      (steps.foldl step (start false)).trail := by
  -- The last step decides whether a name is entered, left again, or the climb goes on.
  induction steps using List.reverseRecOn with
  | nil => rfl
  | append_singleton steps s ih =>
    have habsolute : (steps.foldl step (start false)).isAbsolute = false :=
      isAbsolute_foldl (start false) steps
    rw [List.foldl_append, List.foldl_append, ih]
    generalize steps.foldl step (start false) = reached at habsolute ⊢
    obtain ⟨isAbsolute, up, trail⟩ := reached
    obtain rfl : isAbsolute = false := habsolute
    by_cases hs : s = dotDot
    · cases trail with
      | nil => simp [step, hs, around, climb, enter]
      | cons name trail => simp [step, hs, around, enter]
    · simp [step, hs, enter]

end Target

namespace Path

/-- Where a path leads. -/
def target (p : Path) : Target := p.steps.foldl Target.step (.start p.isAbsolute)

theorem isAbsolute_target (p : Path) : p.target.isAbsolute = p.isAbsolute :=
  Target.isAbsolute_foldl _ _

theorem up_target {p : Path} (h : p.isAbsolute = true) : p.target.up = 0 := by
  rw [target, h]
  exact Target.up_foldl rfl rfl p.steps

/-! ## §2. Paths behind paths -/

/-- **A path behind another one leads on from there.** -/
theorem target_join {p q : Path} (hq : q.isAbsolute = false) :
    (p.join q).target = (Target.climb q.target.up p.target).enter q.target.trail := by
  obtain ⟨hsteps, habsolute⟩ := steps_join (p := p) hq
  rw [target, hsteps, habsolute, List.foldl_append, Target.foldl_step, target, target, hq]

/-- What is behind a base leads on from there, unless the base is no directory at all. -/
theorem target_of_relativeTo? {p base rest : Path} (h : p.relativeTo? base = some rest)
    (hrest : rest.isAbsolute = false) :
    p.target = (Target.climb rest.target.up base.target).enter rest.target.trail := by
  obtain ⟨hsteps, habsolute⟩ := relativeTo?_steps h
  have hbase : p.isAbsolute = base.isAbsolute := by
    rcases habsolute with ⟨hsame, -⟩ | ⟨hbase, -, hsame⟩
    · exact hsame
    · rw [hbase, ← hsame, hrest]
  rw [target, hsteps, hbase, List.foldl_append, Target.foldl_step, target, target, hrest]

/-- A name behind further steps is in the directory that these lead to. -/
theorem target_of_steps {p : Path} {front : List (List Char)} {name : List Char}
    (hsteps : p.steps = front ++ [name]) (hname : isName name = true) :
    p.target = (front.foldl Target.step (.start p.isAbsolute)).enter [name] := by
  rw [target, hsteps, List.foldl_append]
  exact Target.step_of_isName hname _

/-- An extension that is no dot leaves a name a name. -/
theorem isName_nameWith {extension : String} (hne : extension.toList ≠ [])
    (hdot : '.' ∉ extension.toList) (name : List Char) :
    isName (nameWith extension name) = true := by
  obtain ⟨c, rest, hextension⟩ := List.exists_cons_of_ne_nil hne
  rw [hextension] at hdot
  rw [nameWith, hextension]
  rcases (splitExtension name).1 with _ | ⟨a, _ | ⟨b, stem⟩⟩ <;>
    simp_all [isName, Ne.symm]

/-- **Another extension leads to another name in the same directory.** -/
theorem target_withExtension {p : Path} {name : List Char} {extension : String}
    (hname : p.fileName? = some name) (hslash : '/' ∉ extension.toList)
    (hnamed : isName (nameWith extension name) = true) :
    ∃ directory : Target, p.target = directory.enter [name] ∧
      (p.withExtension extension).target = directory.enter [nameWith extension name] := by
  obtain ⟨hsteps, hisName⟩ := steps_of_fileName? hname
  obtain ⟨hsteps', habsolute⟩ := steps_withExtension hname hslash
  exact ⟨_, target_of_steps hsteps hisName, habsolute ▸ target_of_steps hsteps' hnamed⟩

end Path

end SingleFile.Files
