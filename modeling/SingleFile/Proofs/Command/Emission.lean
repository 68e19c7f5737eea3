/-
  SingleFile.Proofs.Command.Emission — MODULES ON DISK
  ────────────────────────────────────────────────────
  Modules are written one after the other, each with its map beside it.  What
  is written for one component is changed by no other, unless the other one's
  module goes to the same place: a name of a module is no name of a map, and
  different modules have different maps.

  Main results:
    * `target_mapPath` — where the map of a module goes.
    * `writeModule_spec` — what writing one module changes.  The step.
    * `emitAll_hasModule` — which modules are there in the end.  The run.
-/
import SingleFile.Command.Run
import SingleFile.Proofs.Command.Containment
import SingleFile.Proofs.Files.Writing

namespace SingleFile.Command

open SingleFile.Component SingleFile.Files Path

/-! ## §1. Modules and maps -/

/-- What the name of a map has behind the name of its module. -/
def mapEnding : List Char := ".map".toList

theorem isAbsolute_mapPath (p : Path) : (mapPath p).isAbsolute = p.isAbsolute := by
  rw [isAbsolute, isAbsolute, mapPath, String.toList_append]
  cases p.text.toList <;> rfl

/-- The name of a map is a step, and no way out of a directory. -/
theorem mapName_spec (name : List Char) :
    isStep (name ++ mapEnding) = true ∧ isName (name ++ mapEnding) = true := by
  rcases name with _ | ⟨a, _ | ⟨b, name⟩⟩ <;> simp [isStep, isName, mapEnding]

/-- **Where the map of a module goes**: to a name in the directory that the module's segments but
the last one lead to. -/
theorem steps_mapPath {p : Path} {front : List (List Char)} {last : List Char}
    (h : splitSlashes p.text.toList = front ++ [last]) :
    (mapPath p).steps = front.filter isStep ++ [last ++ mapEnding] := by
  have hmap : splitSlashes (mapPath p).text.toList = front ++ [last ++ mapEnding] := by
    rw [mapPath, String.toList_append]
    exact splitSlashes_append_of_not_mem h (by decide)
  rw [steps, stepsOf, hmap]
  simp [(mapName_spec last).1]

/-- Maps go to names of maps. -/
theorem target_mapPath (p : Path) : ∃ (directory : Target) (last : List Char),
    (mapPath p).target = directory.enter [last ++ mapEnding] := by
  obtain ⟨front, last, hsplit⟩ := (List.eq_nil_or_concat (splitSlashes p.text.toList)).resolve_left
    (splitSlashes_ne_nil _)
  rw [List.concat_eq_append] at hsplit
  exact ⟨_, last, target_of_steps (steps_mapPath hsplit) (mapName_spec last).2⟩

/-- The map of a module with a name goes to the module's directory. -/
theorem target_mapPath_of_endsInName {p : Path} (h : p.EndsInName) :
    ∃ (directory : Target) (name : List Char), p.target = directory.enter [name] ∧
      (mapPath p).target = directory.enter [name ++ mapEnding] := by
  obtain ⟨front, name, hsegments, hstep, hname⟩ := h
  obtain ⟨rest, htext⟩ := p.isAbsolute_iff.mp (Entry.segmentsOf?_steps hsegments).2
  rw [Entry.segmentsOf?, htext] at hsegments
  have hsplit : splitSlashes p.text.toList = ([] :: front) ++ [name] := by
    rw [htext, splitSlashes_slash, Option.some.inj hsegments, List.cons_append]
  have hsteps : p.steps = ([] :: front).filter isStep ++ [name] := by
    rw [steps, stepsOf, hsplit, List.filter_append, List.filter_singleton, hstep]
    rfl
  have hmap := target_of_steps (steps_mapPath hsplit) (mapName_spec name).2
  rw [isAbsolute_mapPath] at hmap
  exact ⟨_, name, target_of_steps hsteps hname, hmap⟩

/-- Where a module with a name goes: to a name with the extension of modules. -/
theorem target_modulePath_of_fileName? {out project component : Path}
    (h : (modulePath out project component).fileName?.isSome) :
    ∃ (directory : Target) (name : List Char), (modulePath out project component).target
      = directory.enter [nameWith moduleExtension name] := by
  rw [modulePath_eq] at h ⊢
  cases hname : (out.join (placeInProject project component)).fileName? with
  | none =>
    have hsame : (out.join (placeInProject project component)).withExtension moduleExtension
        = out.join (placeInProject project component) := by simp only [withExtension, hname]
    rw [hsame, hname] at h
    exact absurd h (by simp)
  | some name =>
    obtain ⟨directory, -, htarget⟩ :=
      target_withExtension hname slash_not_mem_moduleExtension (isName_moduleName name)
    exact ⟨directory, name, htarget⟩

/-- No module goes where a map goes. -/
theorem target_modulePath_ne_mapPath {out project component : Path} (p : Path)
    (h : (modulePath out project component).fileName?.isSome) :
    (modulePath out project component).target ≠ (mapPath p).target := by
  obtain ⟨directory, name, hmodule⟩ := target_modulePath_of_fileName? h
  obtain ⟨directory', last, hmap⟩ := target_mapPath p
  rw [hmodule, hmap]
  intro heq
  have htrail := congrArg (fun t : Target => t.trail.head?) heq
  -- A name cannot end in the extension of modules and in that of maps.
  have hnames : nameWith moduleExtension name = last ++ mapEnding := Option.some.inj htrail
  have hends := congrArg List.getLast? hnames
  simp [nameWith, moduleExtension, mapEnding] at hends

/-! ## §2. Writing that ends well -/

/-- Whether writing ends well, with what it returns and the files then. -/
def Writing.Ends {α : Type} (w : Writing α) (before : Files.Entry) (a : α)
    (after : Files.Entry) : Prop := w.run.run before = (.ok a, after)

section

variable {α β : Type} {before after : Files.Entry}

theorem Writing.ends_pure {a b : α} (h : Writing.Ends (pure a) before b after) :
    a = b ∧ before = after := by
  cases h
  exact ⟨rfl, rfl⟩

theorem Writing.ends_bind {w : Writing α} {f : α → Writing β} {b : β}
    (h : Writing.Ends (w >>= f) before b after) :
    ∃ a mid, w.Ends before a mid ∧ (f a).Ends mid b after := by
  rw [Ends, ExceptT.run_bind, StateT.run_bind] at h
  cases hw : w.run.run before with
  | mk result mid =>
    rw [hw] at h
    cases result with
    | error path => cases h
    | ok a => exact ⟨a, mid, hw, h⟩

theorem Writing.ends_change {path : Path} {changed? : Files.Entry → Path → Option Files.Entry}
    {u : Unit} (h : (change path changed?).Ends before u after) :
    changed? before path = some after := by
  unfold change at h
  obtain ⟨files, mid, hget, h⟩ := ends_bind h
  obtain ⟨rfl, rfl⟩ : before = files ∧ before = mid := by
    cases hget
    exact ⟨rfl, rfl⟩
  split at h
  · next files hfiles =>
    rw [hfiles]
    cases h
    rfl
  · cases h

end

/-! ## §3. One module -/

/-- Whether a module and its map are there. -/
structure HasModule (files : Files.Entry) (path : Path) (output : Output) : Prop where
  code : files.readText? path = some (moduleFile (mapPath path) output.code)
  map : files.readText? (mapPath path) = some output.map.toJson.write.toList

/-- What writing a module changes: what stands at the names of the module and of its map. -/
structure WritesModule (before after : Files.Entry) (path : Path) (output : Output) : Prop where
  place : path.EndsInName
  grows : before.Extends after
  others : ∀ names shape, names ≠ path.names → names ≠ (mapPath path).names →
    before.shapeAt? names = some shape → after.shapeAt? names = some shape
  hasModule : HasModule after path output

/-- A module with a name is not in the place of its map. -/
theorem names_ne_mapPath {p : Path} (h : p.EndsInName) : p.names ≠ (mapPath p).names := by
  intro heq
  have htarget := Entry.names_inj h.isAbsolute
    ((isAbsolute_mapPath p).trans h.isAbsolute) heq
  obtain ⟨directory, name, hmodule, hmap⟩ := target_mapPath_of_endsInName h
  rw [hmodule, hmap] at htarget
  have hnames : [name] ++ directory.trail = [name ++ mapEnding] ++ directory.trail :=
    congrArg Target.trail htarget
  simp [mapEnding] at hnames

/-- **What writing one module changes.** -/
theorem writeModule_spec {before after : Files.Entry} {path : Path} {output : Output} {u : Unit}
    (h : (writeModule path output).Ends before u after) :
    WritesModule before after path output := by
  obtain ⟨start, hkeeps, h⟩ : ∃ start, before.Keeps start ∧
      (do
        change path fun files path => files.writeText? path (moduleFile (mapPath path) output.code)
        change (mapPath path) fun files path =>
          files.writeText? path output.map.toJson.write.toList : Writing Unit).Ends
        start u after := by
    unfold writeModule at h
    cases hparent : path.parent? with
    | none =>
      rw [hparent] at h
      exact ⟨before, Entry.Keeps.refl before, h⟩
    | some parent =>
      rw [hparent] at h
      obtain ⟨_, start, hchange, h⟩ := Writing.ends_bind h
      exact ⟨start, Entry.createDirectories?_keeps (Writing.ends_change hchange), h⟩
  -- The module is written before its map, so it has to be read across that second writing.
  obtain ⟨_, mid, hcode, hmap⟩ := Writing.ends_bind h
  have hcode := Entry.writeText?_spec (Writing.ends_change hcode)
  have hmap := Entry.writeText?_spec (Writing.ends_change hmap)
  have hne := names_ne_mapPath hcode.place
  exact {
    place := hcode.place
    grows := hkeeps.extends.trans (hcode.extends.trans hmap.extends)
    others := fun names shape hmodule hmapPath hshape => by
      rw [hmap.new, if_neg hmapPath, hcode.new, if_neg hmodule]
      exact hkeeps names shape hshape
    hasModule :=
      { code := Entry.readText?_of_extends hmap.extends
          (fun shape hshape => by rw [hmap.new, if_neg hne, hshape]) hcode.read
        map := hmap.read } }

/-! ## §4. All modules -/

/-- Modules in different places have maps in different places. -/
theorem target_eq_of_mapPath {p q : Path} (hp : p.EndsInName) (hq : q.EndsInName)
    (h : (mapPath p).target = (mapPath q).target) : p.target = q.target := by
  obtain ⟨directory, name, hp, hpmap⟩ := target_mapPath_of_endsInName hp
  obtain ⟨directory', name', hq, hqmap⟩ := target_mapPath_of_endsInName hq
  rw [hpmap, hqmap] at h
  obtain ⟨isAbsolute, up, trail⟩ := directory
  obtain ⟨isAbsolute', up', trail'⟩ := directory'
  simp only [Target.enter, Target.mk.injEq, List.singleton_append, List.cons.injEq,
    List.append_cancel_right_eq] at h
  obtain ⟨rfl, rfl, rfl, rfl⟩ := h
  rw [hp, hq]

section

variable {out project : Path} {before after : Files.Entry}

/-- A module is left as it is by a module that goes to another place. -/
theorem HasModule.of_writesModule {component other : Path} {output output' : Output}
    (h : HasModule before (modulePath out project component) output)
    (hplace : (modulePath out project component).EndsInName)
    (hwrites : WritesModule before after (modulePath out project other) output')
    (hne : (modulePath out project other).target ≠ (modulePath out project component).target) :
    HasModule after (modulePath out project component) output := by
  have hother := hwrites.place
  have hmap := (isAbsolute_mapPath (modulePath out project component)).trans hplace.isAbsolute
  have hmap' := (isAbsolute_mapPath (modulePath out project other)).trans hother.isAbsolute
  constructor
  · refine Entry.readText?_of_extends hwrites.grows (fun shape => ?_) h.code
    refine hwrites.others _ shape (fun heq => ?_) (fun heq => ?_)
    · exact hne (Entry.names_inj hplace.isAbsolute hother.isAbsolute heq).symm
    · exact target_modulePath_ne_mapPath _ hplace.isSome_fileName?
        (Entry.names_inj hplace.isAbsolute hmap' heq)
  · refine Entry.readText?_of_extends hwrites.grows (fun shape => ?_) h.map
    refine hwrites.others _ shape (fun heq => ?_) (fun heq => ?_)
    · exact target_modulePath_ne_mapPath _ hother.isSome_fileName?
        (Entry.names_inj hmap hother.isAbsolute heq).symm
    · exact hne (target_eq_of_mapPath hplace hother (Entry.names_inj hmap hmap' heq)).symm

variable {lines : List String} {r : Unit × List String}

/-- Emitting into a directory writes the module of the first component, if it has one, and goes on
with the others. -/
theorem emitAll_cons {c : Finished} {rest : List Finished}
    (h : ((emitAll (.directory out project) (c :: rest)).run lines).Ends before r after) :
    ∃ mid, ((emitAll (.directory out project) rest).run lines).Ends mid r after ∧
      (c.output = none → mid = before) ∧
      ∀ output, c.output = some output →
        WritesModule before mid (modulePath out project c.path) output := by
  rw [emitAll, List.forM, StateT.run_bind] at h
  obtain ⟨⟨u, lines'⟩, mid, hfirst, hrest⟩ := Writing.ends_bind h
  cases houtput : c.output with
  | none =>
    rw [houtput, StateT.run_pure] at hfirst
    obtain ⟨heq, rfl⟩ := Writing.ends_pure hfirst
    obtain ⟨-, rfl⟩ := Prod.mk.inj heq
    exact ⟨before, hrest, fun _ => rfl, nofun⟩
  | some output =>
    rw [houtput] at hfirst
    obtain ⟨_, written, hwrite, hlines⟩ := Writing.ends_bind hfirst
    obtain ⟨heq, rfl⟩ := Writing.ends_pure hlines
    obtain ⟨-, rfl⟩ := Prod.mk.inj heq
    refine ⟨written, hrest, nofun, fun output' houtput' => ?_⟩
    obtain rfl := Option.some.inj houtput'
    exact writeModule_spec hwrite

/-- A module stays there when no further module goes to its place. -/
theorem HasModule.of_emitAll {component : Path} {output : Output} {rest : List Finished}
    (h : HasModule before (modulePath out project component) output)
    (hplace : (modulePath out project component).EndsInName)
    (hends : ((emitAll (.directory out project) rest).run lines).Ends before r after)
    (hne : ∀ d ∈ rest, d.output.isSome →
      (modulePath out project d.path).target ≠ (modulePath out project component).target) :
    HasModule after (modulePath out project component) output := by
  induction rest generalizing before with
  | nil =>
    obtain ⟨-, rfl⟩ := Writing.ends_pure hends
    exact h
  | cons d rest ih =>
    obtain ⟨mid, hrest, hnone, hwrites⟩ := emitAll_cons hends
    refine ih ?_ hrest fun e he => hne e (List.mem_cons_of_mem d he)
    cases houtput : d.output with
    | none => exact hnone houtput ▸ h
    | some output' =>
      exact h.of_writesModule hplace (hwrites output' houtput)
        (hne d (List.mem_cons_self ..) (by rw [houtput]; rfl))

/-- **Which modules are there in the end**: those in whose place no later one was written. -/
theorem emitAll_hasModule {front behind : List Finished} {c : Finished} {output : Output}
    (hends : ((emitAll (.directory out project) (front ++ c :: behind)).run lines).Ends before r
      after)
    (houtput : c.output = some output)
    (hlast : ∀ d ∈ behind, d.output.isSome →
      (modulePath out project d.path).target ≠ (modulePath out project c.path).target) :
    HasModule after (modulePath out project c.path) output := by
  induction front generalizing before with
  | nil =>
    obtain ⟨mid, hrest, -, hwrites⟩ := emitAll_cons hends
    have hwrites := hwrites output houtput
    exact hwrites.hasModule.of_emitAll hwrites.place hrest hlast
  | cons d front ih =>
    obtain ⟨mid, hrest, -⟩ := emitAll_cons hends
    exact ih hrest

end

end SingleFile.Command
