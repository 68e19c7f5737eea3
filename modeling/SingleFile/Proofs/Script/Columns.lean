/-
  SingleFile.Proofs.Script.Columns — TYPES ARE TAKEN OUT IN PLACE
  ───────────────────────────────────────────────────────────────
  Where a module's syntax is preserved, text is written for four constructs
  that mean something at run time, and for a list of imports or exports of
  which a part is dropped.  A program without them is only blanked: whatever
  overlaps, no character moves.

  Main results:
    * `lowerItem_blanks` — an item asks for blanks.  The step.
    * `planOf_blanks` — so does a program.
    * `rewrite_keepsColumns` — every character stays in its column.
-/
import SingleFile.Proofs.Script.ErasureFrame
import SingleFile.Proofs.Script.ImportActions
import SingleFile.Proofs.Script.Refusals

namespace SingleFile.Script

open SingleFile.Text Grammar

/-! ## §1. Lists of which a part is dropped -/

/-- Whether some entries of a list are kept and some are not. -/
def dropsSome {α : Type} (keeps : α → Bool) (entries : List α) : Bool :=
  entries.any keeps && entries.any fun entry => !keeps entry

/-- Whether a statement names parts of modules of which some are dropped and some are not: some
names of an import are types or not used, or some entries of an export list are types. -/
def Node.isThinned (options : RewriteOptions) (items : List Node) (n : Node) : Bool :=
  match n.kind with
  | .importDecl decl =>
    !decl.typeOnly && dropsSome (keepsImport (referencesOf options items)) decl.items
  | .exportList list =>
    !list.typeOnly
      && dropsSome (keepsExport (items.flatMap typeNames) list.source.isNone) list.items
  | _ => false

/-- A list that is not dropped in part is kept as a whole, if any of it is kept. -/
theorem filter_eq_self_of_dropsSome {α : Type} {keeps : α → Bool} {entries : List α}
    (h : dropsSome keeps entries = false) (hsome : entries.filter keeps ≠ []) :
    entries.filter keeps = entries := by
  obtain ⟨entry, hentry⟩ := List.exists_mem_of_ne_nil _ hsome
  obtain ⟨hmem, hkept⟩ := List.mem_filter.mp hentry
  have hany : entries.any keeps = true := List.any_eq_true.mpr ⟨entry, hmem, hkept⟩
  rw [dropsSome, hany, Bool.true_and, List.any_eq_false] at h
  exact List.filter_eq_self.mpr fun x hx => by simpa using h x hx

/-! ## §2. Items -/

variable {options : RewriteOptions} {source out : List Char} {items : List Node} {n : Node}
  {known : Module}

/-- Whether all of some actions write nothing. -/
def WriteNothing (actions : List Action) : Prop := ∀ a ∈ actions, a.WritesNothing

theorem writeNothing_nil : WriteNothing [] := fun _ ha => absurd ha List.not_mem_nil

theorem drop_blanks (span : Span) :
    Lower.Does known (Lower.record [blankSpan span]) fun _ xs _ => WriteNothing xs := by
  refine (Lower.Does.record _).mono ?_
  rintro _ _ _ ⟨rfl, -⟩
  exact List.forall_mem_singleton.mpr trivial

theorem eraseTypes_blanks {d : Node} (hd : writesNothing d = true) :
    Lower.Does known (Lower.eraseTypes d) fun _ xs _ => WriteNothing xs := by
  have hnodes : writeNothing [d] = true := by
    rw [writeNothing, hd]
    rfl
  refine (Lower.Does.eraseTypes d).mono ?_
  rintro _ _ _ ⟨rfl, -⟩
  exact fun a ha =>
    eraseAll_writesNothing hnodes (mem_eraseAll.mpr ⟨d, List.mem_singleton_self d, ha⟩)

/-- Where imports and exports stay, a step does what it does there. -/
theorem ifPreserved_does {α : Type} (hform : known.options.form = .preserved)
    {whereLowered whereKept : Lower α} {result : α → List Action → String → Prop}
    (h : Lower.Does known whereKept result) :
    Lower.Does known (do if ← Lower.isCommonJs then whereLowered else whereKept) result :=
  ifCommonJs_does_either (fun hcommonJs => by rw [hform] at hcommonJs; contradiction) fun _ => h

/-- An export list of which nothing is dropped is left as it is written. -/
theorem lowerExportList_whole {list : ExportList} (hform : known.options.form = .preserved)
    (htype : list.typeOnly = false)
    (hall : list.items.filter (keepsExport known.typeNames list.source.isNone) = list.items) :
    Lower.Does known (lowerExportList n list) fun _ xs later => xs = [] ∧ later = "" := by
  have hgives : Lower.Gives known Lower.isCommonJs fun b => b = false := by
    intro s
    refine ⟨rfl, rfl, ?_⟩
    show (known.options.form == .commonJs) = false
    rw [hform]
    rfl
  unfold lowerExportList
  refine .bindRead ?_
  dsimp only
  rw [hall, htype, Bool.false_or, Bool.not_and_self, if_neg Bool.false_ne_true]
  refine .after hgives ?_
  rintro _ rfl
  simp only [Bool.not_false, if_true, bne_self_eq_false, Bool.false_eq_true, if_false]
  exact fun _ => ⟨[], "", rfl, String.append_empty.symm, rfl, rfl⟩

theorem lowerExportList_blanks {list : ExportList} (hform : known.options.form = .preserved)
    (hwhole : list.typeOnly = false →
      dropsSome (keepsExport known.typeNames list.source.isNone) list.items = false) :
    Lower.Does known (lowerExportList n list) fun _ xs _ => WriteNothing xs := by
  by_cases hdropped : list.typeOnly = true ∨ (list.items ≠ [] ∧
      list.items.filter (keepsExport known.typeNames list.source.isNone) = [])
  · have hcondition : (list.typeOnly || (!list.items.isEmpty &&
        (list.items.filter (keepsExport known.typeNames list.source.isNone)).isEmpty)) = true := by
      simpa using hdropped
    unfold lowerExportList
    refine .bindRead ?_
    dsimp only
    rw [if_pos hcondition]
    exact drop_blanks _
  · obtain ⟨htype, hsome⟩ := not_or.mp hdropped
    replace htype : list.typeOnly = false := Bool.eq_false_iff.mpr htype
    -- Nothing is dropped: either there is nothing in the list, or all of it is kept.
    have hall : list.items.filter (keepsExport known.typeNames list.source.isNone)
        = list.items := by
      by_cases hnone : list.items = []
      · rw [hnone]
        rfl
      · exact filter_eq_self_of_dropsSome (hwhole htype) fun hempty => hsome ⟨hnone, hempty⟩
    refine (lowerExportList_whole hform htype hall).mono ?_
    rintro _ _ _ ⟨rfl, -⟩
    exact writeNothing_nil

/-- An import of which no name alone is dropped is left as it is written, or dropped whole. -/
theorem lowerImport_blanks {decl : Import} (hform : options.form = .preserved)
    (hkind : n.kind = .importDecl decl) (hwhole : n.isThinned options items = false) :
    Lower.Does (knownOf options source items) (lowerImport n decl) fun _ xs _ =>
      WriteNothing xs := by
  refine (lowerImport_becomes hkind).mono ?_
  rintro _ xs _ ⟨hbecomes, -⟩
  cases hbecomes with
  | dropped => exact List.forall_mem_singleton.mpr trivial
  | required _ _ hcommonJs => rw [knownOf, hform] at hcommonJs; contradiction
  | whole => exact writeNothing_nil
  | restated hkind' hstays _ hfewer =>
    obtain rfl := Kind.importDecl.inj (hkind.symm.trans hkind')
    obtain ⟨htype, hsome⟩ := hstays
    rw [Node.isThinned, hkind, Bool.and_eq_false_iff, htype] at hwhole
    have hlist := hwhole.resolve_left (by decide)
    refine absurd ?_ hfewer
    rw [← filter_keepsImport htype] at hsome ⊢
    rcases hsome with hnone | hsome
    · rw [hnone]
      rfl
    · exact filter_eq_self_of_dropsSome hlist hsome
  | aliasDropped => exact List.forall_mem_singleton.mpr trivial
  | aliasKept hkind' => rw [hkind] at hkind'; contradiction

theorem lowerExport_blanks {d : Node} (hform : known.options.form = .preserved)
    (hd : writesNothing d = true) :
    Lower.Does known (lowerExport n d) fun _ xs _ => WriteNothing xs := by
  unfold lowerExport
  split
  · exact drop_blanks _
  · have hstays : Lower.Does known (do
          if ← Lower.isCommonJs then
            Lower.markExports
            Lower.record (exportActions (← read).source n d)
          Lower.eraseTypes d) fun _ xs _ => WriteNothing xs :=
      ifPreserved_does hform (eraseTypes_blanks hd)
    exact .look _ (hstays.mono fun _ _ _ h => List.forall_mem_cons.mpr ⟨trivial, h⟩)

theorem lowerDefault_blanks {d : Node} (hform : known.options.form = .preserved)
    (hd : writesNothing d = true) :
    Lower.Does known (lowerDefault n d) fun _ xs _ => WriteNothing xs := by
  unfold lowerDefault
  dsimp only
  split
  · exact drop_blanks _
  · split
    · exact drop_blanks _
    · exact ifPreserved_does hform (eraseTypes_blanks hd)

theorem lowerExportAll_blanks {span : Span} {typeOnly : Bool}
    (hform : known.options.form = .preserved) :
    Lower.Does known (lowerExportAll n span typeOnly) fun _ xs _ => WriteNothing xs := by
  unfold lowerExportAll
  split
  · exact drop_blanks _
  · exact ifPreserved_does hform fun _ =>
      ⟨[], "", rfl, String.append_empty.symm, writeNothing_nil⟩

/-- **An item asks for blanks**, if it asks for nothing to be written and drops no part of a list.
The step. -/
theorem lowerItem_blanks (hform : options.form = .preserved) (hn : writesNothing n = true)
    (hwhole : n.isThinned options items = false) :
    Lower.Does (knownOf options source items) (lowerItem n) fun _ xs _ => WriteNothing xs := by
  have hbelow {d : Node} (hkind : n.kind.isDeclaration = false) (hchildren : n.children = [d]) :
      writesNothing d = true := by
    have hall := (writesNothing_below hn (isTypeOnly_eq_false hkind)).2
    rw [hchildren] at hall
    exact writeNothing_iff.mp hall d (List.mem_singleton_self d)
  have hwrites (hkind : n.kind.isDeclaration = false) : n.kind.writes = false :=
    (writesNothing_below hn (isTypeOnly_eq_false hkind)).1
  unfold lowerItem
  split
  · next hkind => exact lowerImport_blanks hform hkind hwhole
  -- A name given to an entity is written, and so is the export of a whole module.
  · next hkind =>
    have hnever := hwrites (by rw [hkind]; rfl)
    rw [hkind] at hnever
    exact Bool.noConfusion hnever
  · next hkind hchildren => exact lowerExport_blanks hform (hbelow (by rw [hkind]; rfl) hchildren)
  · next hkind hchildren => exact lowerDefault_blanks hform (hbelow (by rw [hkind]; rfl) hchildren)
  · next hkind hchildren =>
    unfold lowerDefaultExpression
    exact ifPreserved_does hform (eraseTypes_blanks (hbelow (by rw [hkind]; rfl) hchildren))
  · next list hkind =>
    refine lowerExportList_blanks hform fun htype => ?_
    rw [Node.isThinned, hkind, Bool.and_eq_false_iff, htype] at hwhole
    exact hwhole.resolve_left (by decide)
  · exact lowerExportAll_blanks hform
  · next hkind _ =>
    have hnever := hwrites (by rw [hkind]; rfl)
    rw [hkind] at hnever
    exact Bool.noConfusion hnever
  · exact drop_blanks _
  · exact eraseTypes_blanks hn

/-! ## §3. Programs -/

variable {program : Program}

/-- **A program asks for blanks**, and refuses what there is to be refused. -/
theorem planOf_blanks (hform : options.form = .preserved)
    (hitems : writeNothing program.items = true)
    (hwhole : ∀ n ∈ program.items, n.isThinned options program.items = false) :
    WriteNothing (planOf options source program).actions := by
  intro a ha
  cases hmodule : program.isModule with
  | false =>
    rw [planOf, hmodule] at ha
    exact eraseAll_writesNothing hitems ha
  | true =>
    obtain ⟨parts, behind, hactions, hparts, hbehind⟩ :=
      @planOf_knownItems options source program (fun _ xs => WriteNothing xs) hmodule
        fun n hn => lowerItem_blanks hform (writeNothing_iff.mp hitems n hn) (hwhole n hn)
    rw [hactions] at ha
    rcases List.mem_append.mp ha with ha' | hlast
    · obtain ⟨part, hpart, ha'⟩ := List.mem_flatten.mp ha'
      obtain ⟨i, hi, rfl⟩ := List.getElem_of_mem hpart
      have hlength := hparts.length_eq
      exact hparts.get (i := i) (by omega) hi a ha'
    · -- Nothing is put off where exports stay, so nothing is inserted behind the last item.
      rw [← hactions] at ha
      obtain ⟨offset, text, rfl⟩ := hbehind a hlast
      rcases (planOf_lowers ha).writesNothing_or_lists hform hitems with h | ⟨_, _, _, _, h⟩
      · exact h
      · exact absurd h (by simp)

/-- **Taking types out in place keeps columns.**  A program with no enum that is not ambient, no
parameter that declares a field, no name given to a module or entity and no export assignment, of
which no list of imports or exports is dropped in part, is rewritten to a text of as many
characters, where its syntax is preserved: each is the one that stood there, or a space in place
of one that ends no line. -/
theorem rewrite_keepsColumns (hparse : parse ⟨options.typed, true⟩ source = .ok program)
    (hform : options.form = .preserved) (hitems : writeNothing program.items = true)
    (hwhole : ∀ n ∈ program.items, n.isThinned options program.items = false)
    (h : rewrite options source = .ok out) : List.Forall₂ Blanks source out := by
  refine (Plan.carryOut_done (carryOut_of_rewrite hparse h)).blanked fun e he => ?_
  rcases Plan.mem_edits (mem_of_mem_carriedOut he) with ⟨a, ha, own, hown, he⟩ | he
  · exact (planOf_blanks hform hitems hwhole a ha).blanks hown e he
  · rw [front_of_preserved hform] at he
    exact absurd he List.not_mem_nil

/-- A module with types in many places: an import that is dropped as a whole, an ambient enum, a
class with modifiers, marks and members that are types. -/
def typedModule : List Char :=
  ("import \x7b A \x7d from 'a'\ndeclare enum D \x7b\x7d\nabstract class E<T> \x7b\n"
    ++ "  private x?: A = y as T\n  abstract n(): void\n"
    ++ "  static m(this: E, z: D) \x7b return z! \x7d\n\x7d\n").toList

/-- Types are taken out of a module that stays one. -/
def typedInPlace : RewriteOptions := ⟨true, .preserved, .shared, .helper, true⟩

theorem rewrite_keepsColumns_typedModule :
    ∃ program, parse ⟨true, true⟩ typedModule = .ok program ∧
      writeNothing program.items = true ∧
      (∀ n ∈ program.items, n.isThinned typedInPlace program.items = false) ∧
      ∃ out, rewrite typedInPlace typedModule = .ok out ∧ out ≠ typedModule ∧
        List.Forall₂ Blanks typedModule out := by
  obtain ⟨program, hparse, hitems, hwhole⟩ := exists_parse_of_any
    (p := fun program => writeNothing program.items = true ∧
      ∀ n ∈ program.items, n.isThinned typedInPlace program.items = false)
    (show (parse ⟨true, true⟩ typedModule).toOption.any _ = true by decide +kernel)
  obtain ⟨out, hout, hchanged⟩ := exists_rewrite_of_any
    (p := fun out => out ≠ typedModule)
    (show (outcome? typedInPlace typedModule).any _ = true by decide +kernel)
  have hkept : List.Forall₂ Blanks typedModule out :=
    @rewrite_keepsColumns typedInPlace typedModule out program hparse rfl hitems hwhole hout
  exact ⟨program, hparse, hitems, hwhole, out, hout, hchanged, hkept⟩

end SingleFile.Script
