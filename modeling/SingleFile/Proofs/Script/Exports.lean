/-
  SingleFile.Proofs.Script.Exports — EVERY EXPORT IS ASSIGNED ONCE
  ────────────────────────────────────────────────────────────────
  Where exports are lowered, a plan writes statements around the items of a
  module and behind the last one.  The assignments among them are the exports
  of the module, each one once and in order: those of functions in front of
  the functions, those of variables and classes behind them, and those of
  local lists behind the last item.

  Main results:
    * `lowerItem_does` — what is written for an item.  The step.
    * `doneFor_all` — what is written for all items.  The run.
    * `planOf_states` — the assignments of a plan are the exports.
-/
import SingleFile.Proofs.Script.ExportStatements
import SingleFile.Proofs.Script.ImportActions

namespace SingleFile.Script

open SingleFile.Text Grammar

/-! ## §1. Items -/

variable {known : Module} {items : List Node} {n : Node}

/-- What is done for an item: its exports are written, and the others are put off. -/
def DoneFor (known : Module) (items : List Node) (n : Node) (xs : List Action) (d : String) :
    Prop :=
  WritesExports known.options known.source items n xs ∧
    d = String.join ((exportsAtEnd known.source items n).map Assignment.text)

theorem DoneFor.written {own : List Action}
    (hown : WritesExports known.options known.source items n own)
    (hend : exportsAtEnd known.source items n = []) : DoneFor known items n own "" :=
  ⟨hown, by rw [hend]; rfl⟩

theorem record_does {actions : List Action}
    (hown : WritesExports known.options known.source items n actions)
    (hend : exportsAtEnd known.source items n = []) :
    Lower.Does known (Lower.record actions) fun _ => DoneFor known items n := by
  refine (Lower.Does.record actions).mono ?_
  rintro _ _ _ ⟨rfl, rfl⟩
  exact .written hown hend

/-- Actions around what an item exports, which has its types taken out. -/
theorem recordThenErase_done {d : Node} {own : List Action} (hn : n ∈ items)
    (hchildren : n.children = [d])
    (hown : WritesExports known.options known.source items n own)
    (hend : exportsAtEnd known.source items n = []) :
    Lower.Does known (do Lower.record own; Lower.eraseTypes d)
      fun _ => DoneFor known items n := by
  refine (recordThenErase_does own d).mono ?_
  rintro _ _ _ ⟨rfl, rfl⟩
  exact .written (hown.append_silent fun a ha => .erasedPart hn hchildren ha) hend

/-- To look at the text first does nothing for an item. -/
theorem look_done (offset : Nat) {step : Lower Unit}
    (h : Lower.Does known step fun _ => DoneFor known items n) :
    Lower.Does known (Lower.look offset >>= fun _ => step) fun _ => DoneFor known items n := by
  refine .look offset (h.mono ?_)
  rintro _ _ _ ⟨hown, hd⟩
  exact ⟨hown.look, hd⟩

/-- What an import is lowered to assigns nothing. -/
theorem Requires.isSilent {options : RewriteOptions} {source : List Char} {decl : Import}
    {kept : List ImportItem} {text : String} (h : Requires options source decl.source kept text)
    (hkind : n.kind = .importDecl decl) (hkept : kept ⊆ decl.items) :
    IsSilent options source n text := by
  cases h with
  | effects hitems => exact .calls (.requires hkind)
  | single hitems =>
    exact .binds (.imports hkind (hkept (hitems ▸ List.mem_singleton_self _)) (Or.inl rfl))
  | shared count hitems =>
    refine ⟨.binds (temporaryName count) (requireCall source decl.source) ::
      kept.map fun item => .binds item.binding.text
        (importedText options source (temporaryName count) item), ?_, ?_, ?_⟩
    · rw [textOf_cons, textOf, List.map_map]
      rfl
    · intro statement hstatement
      rcases List.mem_cons.mp hstatement with rfl | hstatement
      · exact .reads (by rw [readModule?, hkind]) count
      · obtain ⟨item, hitem, rfl⟩ := List.mem_map.mp hstatement
        exact .imports hkind (hkept hitem) (Or.inr ⟨count, rfl⟩)
    · rw [assignmentsOf, List.filterMap_cons, List.filterMap_map]
      exact List.filterMap_eq_nil_iff.mpr fun _ _ => rfl

/-- Where imports are lowered, what becomes of one writes its exports: those of a name that is
given to an entity or module and exported. -/
theorem ImportBecomes.writesExports {options : RewriteOptions} {source : List Char}
    {used : String → Bool} {actions : List Action} (hform : options.form = .commonJs)
    (hn : n ∈ items) (hvalue : ¬NamesType items n)
    (h : ImportBecomes options source used n actions) :
    WritesExports options source items n actions := by
  have hnone {decl : Import} (hkind : n.kind = .importDecl decl) :
      ExportsNothing options source items n := by
    simp [ExportsNothing, exportsInFront, exportsBehind, hkind]
  cases h with
  | dropped hkind hdropped => exact .dropped hn (hnone hkind)
  | required hkind hstays _ htext =>
    exact .replaced hn (hnone hkind) (htext.isSilent hkind (List.filter_subset_self _))
  -- Imports are written as imports only where they stay.
  | whole hkind hstays hkept _ => exact absurd (hform.symm.trans hkept) (by decide)
  | restated hkind hstays hkept _ => exact absurd (hform.symm.trans hkept) (by decide)
  | @aliasDropped name isExport typeOnly isExternal value hkind hdropped =>
    refine .dropped hn ⟨fun module => ?_, by simp [exportsBehind, hkind]⟩
    cases typeOnly <;> cases isExport <;> simp_all [exportsInFront, AliasStays]
  | @aliasKept name isExport typeOnly isExternal value hkind hstays =>
    obtain ⟨rfl, -⟩ := hstays
    have hbehind : exportsBehind n = [] := by simp [exportsBehind, hkind]
    have hlist : ∀ list, n.kind ≠ .exportList list := by simp [hkind]
    have hbinds : Statement.Serves options source n (.binds name
        (if isExternal then requireCall source value else textAt source value)) := .names hkind
    cases isExport with
    | false =>
      exact .replaced hn ⟨fun module => by simp [exportsInFront, hkind], hbehind⟩ (.binds hbinds)
    | true =>
      have hfront : exportsInFront options source items "" n = [ownExport name] := by
        simp [exportsInFront, hkind, hvalue]
      rw [aliasText, if_pos rfl, hform]
      refine .reading hn "" [.binds name _, .assigns (ownExport name)] ?_
        (List.forall_mem_cons.mpr ⟨hbinds, List.forall_mem_singleton.mpr (.assigns _)⟩)
        hfront.symm hbehind fun list _ h => absurd h (hlist list)
      rw [textOf_cons, textOf_cons, textOf_nil, String.append_empty]
      rfl

/-- An import is done for as soon as nothing of it has to wait. -/
theorem becomes_done (hform : known.options.form = .commonJs) {step : Lower Unit} (hn : n ∈ items)
    (hvalue : ¬NamesType items n) (hend : exportsAtEnd known.source items n = [])
    (h : Lower.Does known step fun _ xs d =>
      ImportBecomes known.options known.source known.uses n xs ∧ d = "") :
    Lower.Does known step fun _ => DoneFor known items n := by
  refine h.mono ?_
  rintro _ _ _ ⟨hbecomes, rfl⟩
  exact .written (hbecomes.writesExports hform hn hvalue) hend

theorem lowerExport_does (hform : known.options.form = .commonJs) (hn : n ∈ items) {d : Node}
    (hkind : n.kind = .exportDecl) (hchildren : n.children = [d]) :
    Lower.Does known (lowerExport n d) fun _ => DoneFor known items n := by
  have hend : exportsAtEnd known.source items n = [] := by simp [exportsAtEnd, hkind]
  unfold lowerExport
  split
  · next htype =>
    refine record_does (.dropped hn ⟨fun module => ?_, ?_⟩) hend
    · simp [exportsInFront, hkind, hchildren, htype]
    · simp [exportsBehind, hkind, hchildren, htype]
  · next htype =>
    refine look_done _ (ifCommonJs_does hform (.after markExports_gives fun _ _ => .bindRead ?_))
    exact recordThenErase_done hn hchildren
      (exportActions_writes hn hkind hchildren (Bool.eq_false_iff.mpr htype)) hend

theorem lowerDefault_does (hform : known.options.form = .commonJs) (hn : n ∈ items) {d : Node}
    (hkind : n.kind = .exportDefaultDecl) (hchildren : n.children = [d]) :
    Lower.Does known (lowerDefault n d) fun _ => DoneFor known items n := by
  have hend : exportsAtEnd known.source items n = [] := by simp [exportsAtEnd, hkind]
  have hlist : ∀ list, n.kind ≠ .exportList list := by simp [hkind]
  have hdropped (htype : isDefaultType d = true) :
      WritesExports known.options known.source items n [blankSpan n.span] := by
    refine .dropped hn ⟨fun module => ?_, ?_⟩
    · simp [exportsInFront, hkind, hchildren, htype]
    · simp [exportsBehind, hkind, hchildren, htype]
  unfold lowerDefault
  dsimp only
  split
  · next name hd => exact record_does (hdropped (by simp [isDefaultType, hd])) hend
  · next hinterface =>
    split
    · next hoverload =>
      obtain ⟨hd, hbody⟩ : d.kind = .functionExpr ∧ d.children.any hasBody = false := by
        simpa using hoverload
      exact record_does (hdropped (by simp [isDefaultType, hd, hbody])) hend
    · next hoverload =>
      have htype : isDefaultType d = false := by
        unfold isDefaultType
        split <;> simp_all
      refine ifCommonJs_does hform (.after markExports_gives fun _ _ => .bindRead ?_)
      refine look_done _ (look_done _ ?_)
      -- A function is named in front of itself and a class behind itself; what has no name is a
      -- value that ends with a semicolon.
      split
      · next name hname hd =>
        have hfront : exportsInFront known.options known.source items "" n
            = [defaultExport (some name)] := by
          simp only [exportsInFront, hkind, hchildren, htype, hd, hname]
          rfl
        have hbehind : exportsBehind n = [] := by
          simp only [exportsBehind, hkind, hchildren, htype, hd, hname]
          rfl
        exact recordThenErase_done hn hchildren (.inFront hn [defaultExport (some name)]
          (by rw [textOf_assigns]; rfl) hfront hbehind hlist) hend
      · next name hname hd =>
        have hfront : exportsInFront known.options known.source items "" n = [] := by
          simp [exportsInFront, hkind, hchildren, htype, hname]
        have hbehind : exportsBehind n = [defaultExport (some name)] := by
          simp [exportsBehind, hkind, hchildren, htype, hname]
        exact recordThenErase_done hn hchildren (.around hn [] [defaultExport (some name)] false rfl
          (by rw [textOf_assigns]; rfl) hfront hbehind hlist) hend
      · next name hname =>
        have hfront : exportsInFront known.options known.source items "" n
            = [defaultExport none] := by
          simp [exportsInFront, hkind, hchildren, htype, hname]
        have hbehind : exportsBehind n = [] := by
          simp [exportsBehind, hkind, hchildren, htype, hname]
        exact recordThenErase_done hn hchildren (.around hn [defaultExport none] [] false
          (by decide) (by decide) hfront hbehind hlist) hend

theorem lowerDefaultExpression_does (hform : known.options.form = .commonJs) (hn : n ∈ items)
    (hvalue : ¬NamesType items n) {value : Node}
    (hkind : n.kind = .exportDefaultExpr) (hchildren : n.children = [value]) :
    Lower.Does known (lowerDefaultExpression n value) fun _ => DoneFor known items n := by
  have hend : exportsAtEnd known.source items n = [] := by simp [exportsAtEnd, hkind]
  have hfront : exportsInFront known.options known.source items "" n = [defaultExport none] := by
    simp [exportsInFront, hkind, hchildren, hvalue]
  unfold lowerDefaultExpression
  refine ifCommonJs_does hform (.after markExports_gives fun _ _ => ?_)
  exact recordThenErase_done hn hchildren (.inFront hn [defaultExport none] (by decide) hfront
    (by simp [exportsBehind, hkind]) (by simp [hkind])) hend

theorem lowerExportAll_does (hform : known.options.form = .commonJs) (hn : n ∈ items) {span : Span}
    {typeOnly : Bool} (hkind : n.kind = .exportAll span typeOnly) :
    Lower.Does known (lowerExportAll n span typeOnly) fun _ => DoneFor known items n := by
  have hend : exportsAtEnd known.source items n = [] := by simp [exportsAtEnd, hkind]
  have hnothing : ExportsNothing known.options known.source items n := by
    simp [ExportsNothing, exportsInFront, exportsBehind, hkind]
  unfold lowerExportAll
  split
  · exact record_does (.dropped hn hnothing) hend
  · refine ifCommonJs_does hform (.after markExports_gives fun _ _ => ?_)
    refine .after (text_gives _) ?_
    rintro _ rfl
    refine .after (callHelper_gives _ _) ?_
    rintro _ rfl
    exact record_does (.replaced hn hnothing (.calls (.passesOn hkind))) hend

/-! ## §2. Export lists -/

theorem foreignExport_gives (module : String) (entry : ExportItem) :
    Lower.Gives known (foreignExport module entry)
      fun t => t = (entry.foreignAssignment known.options known.source module).text := by
  cases entry with
  | named span entity exported typeOnly =>
    unfold foreignExport
    dsimp only
    split
    · next hdefault =>
      refine .bind (defaultOf_gives _) ?_
      rintro _ rfl
      refine .bind (property_gives _ _) ?_
      rintro _ rfl
      refine .pure ?_
      rw [ExportItem.foreignAssignment, if_pos hdefault]
      rfl
    · next hdefault =>
      refine .bind (property_gives _ _) ?_
      rintro _ rfl
      refine .bind (property_gives _ _) ?_
      rintro _ rfl
      refine .pure ?_
      rw [ExportItem.foreignAssignment, if_neg hdefault]
      rfl
  | wholeModule span exported =>
    refine .bind (property_gives _ _) ?_
    rintro _ rfl
    exact .pure rfl

theorem localExport_gives (entry : ExportItem) :
    Lower.Gives known (localExport entry) fun t =>
      t = String.join ((entry.ownAssignment? known.source).toList.map Assignment.text) := by
  cases entry with
  | named span entity exported typeOnly =>
    refine .bind (property_gives _ _) ?_
    rintro _ rfl
    refine .bind (text_gives _) ?_
    rintro _ rfl
    exact .pure (String.empty_append).symm
  | wholeModule span exported => exact .pure rfl

theorem join_ownAssignments (source : List Char) (entries : List ExportItem) :
    String.join (entries.map fun entry =>
        String.join ((entry.ownAssignment? source).toList.map Assignment.text))
      = String.join ((entries.filterMap (·.ownAssignment? source)).map Assignment.text) := by
  induction entries with
  | nil => rfl
  | cons entry rest ih =>
    rw [List.map_cons, String.join_cons, ih, List.filterMap_cons]
    cases entry.ownAssignment? source with
    | none => exact String.empty_append
    | some a =>
      rw [List.map_cons, String.join_cons]
      exact congrArg (· ++ _) String.empty_append

/-- Of another module's names, those are kept that are not marked. -/
theorem keepsExport_foreign (names : List String) (entry : ExportItem) :
    keepsExport names false entry = !entry.isMarked := by
  cases entry <;> simp [keepsExport, ExportItem.isMarked]

/-- **Where names are told apart, the entries of local lists are kept that are no types.** -/
theorem keepsExport_own (h : NamesApart items) (hn : n ∈ items) {entries : List ExportItem}
    (hkind : n.kind = .exportList ⟨entries, none, false⟩) {entry : ExportItem}
    (hentry : entry ∈ entries) :
    keepsExport (items.flatMap typeNames) true entry = decide (entry.IsValue items) := by
  rw [Bool.eq_iff_iff, decide_eq_true_iff]
  cases entry with
  | wholeModule span exported =>
    simp [keepsExport, ExportItem.IsValue, ExportItem.isMarked, ExportItem.ownName?]
  | named span entity exported typeOnly =>
    cases hword : entity.word? with
    | none =>
      simp [keepsExport, ExportItem.IsValue, ExportItem.isMarked, ExportItem.ownName?, hword]
    | some name =>
      cases typeOnly with
      | true => simp [keepsExport, ExportItem.IsValue, ExportItem.isMarked]
      | false =>
        have hlisted : name ∈ items.flatMap listedNames := by
          refine List.mem_flatMap.mpr ⟨n, hn, ?_⟩
          rw [listedNames, hkind]
          exact List.mem_filterMap.mpr ⟨_, List.mem_filter.mpr ⟨hentry, rfl⟩, hword⟩
        have hkept : keepsExport (items.flatMap typeNames) true
            (.named span entity exported false) = true ↔ name ∉ items.flatMap typeNames := by
          simp [keepsExport, hword]
        have hvalue : (ExportItem.named span entity exported false).IsValue items
            ↔ ¬IsPureType items name := by
          simp [ExportItem.IsValue, ExportItem.isMarked, ExportItem.ownName?, hword]
        rw [hkept, hvalue, isTypeName_iff h hlisted]

/-- **A local list puts off its exports**, and nothing is left of it. -/
theorem lowerExportList_own (hform : known.options.form = .commonJs)
    (hnames : known.typeNames = items.flatMap typeNames) (h : NamesApart items) (hn : n ∈ items)
    {entries : List ExportItem} (hkind : n.kind = .exportList ⟨entries, none, false⟩) :
    Lower.Does known (lowerExportList n ⟨entries, none, false⟩)
      fun _ => DoneFor known items n := by
  have hnothing : ExportsNothing known.options known.source items n := by
    simp [ExportsNothing, exportsInFront, exportsBehind, hkind]
  have hend : exportsAtEnd known.source items n
      = (entries.filter fun entry => entry.IsValue items).filterMap
          (·.ownAssignment? known.source) := by
    simp only [exportsAtEnd, hkind]
  have hkept : entries.filter (keepsExport known.typeNames true)
      = entries.filter fun entry => entry.IsValue items := by
    rw [hnames]
    exact List.filter_congr fun entry hentry => keepsExport_own h hn hkind hentry
  unfold lowerExportList
  refine .bindRead ?_
  dsimp only
  rw [Option.isNone_none, hkept, Bool.false_or]
  split
  · next hdropped =>
    -- No entry is kept, so there is nothing to be put off.
    rw [Bool.and_eq_true, List.isEmpty_iff (l := List.filter _ _)] at hdropped
    rw [hdropped.2] at hend
    exact record_does (.dropped hn hnothing) hend
  · refine .after (isCommonJs_gives hform) ?_
    rintro _ rfl
    rw [Bool.not_true, if_neg (by decide)]
    refine .after markExports_gives fun _ _ => .after (.mapM_eq _ fun entry _ =>
      localExport_gives entry) ?_
    rintro _ rfl
    refine (Lower.Does.bind (putOff_does _) fun _ => .record _).mono ?_
    rintro _ _ _ ⟨_, _, _, _, _, ⟨rfl, rfl⟩, ⟨rfl, rfl⟩, rfl, rfl⟩
    refine ⟨.replaced hn hnothing .empty, ?_⟩
    rw [String.append_empty, join_ownAssignments, hend]

/-- **Another module's list is assigned where it stands**, behind a variable for the module. -/
theorem lowerExportList_foreign (hform : known.options.form = .commonJs) (hn : n ∈ items)
    {entries : List ExportItem} {span : Span}
    (hkind : n.kind = .exportList ⟨entries, some span, false⟩) :
    Lower.Does known (lowerExportList n ⟨entries, some span, false⟩)
      fun _ => DoneFor known items n := by
  have hend : exportsAtEnd known.source items n = [] := by simp [exportsAtEnd, hkind]
  have hbehind : exportsBehind n = [] := by simp [exportsBehind, hkind]
  have hfront (module : String) : exportsInFront known.options known.source items module n
      = (entries.filter fun entry => !entry.isMarked).map
          (·.foreignAssignment known.options known.source module) := by
    simp only [exportsInFront, hkind]
  have hkept : entries.filter (keepsExport known.typeNames false)
      = entries.filter fun entry => !entry.isMarked :=
    List.filter_congr fun entry _ => keepsExport_foreign _ entry
  unfold lowerExportList
  refine .bindRead ?_
  dsimp only
  rw [Option.isNone_some, hkept, Bool.false_or]
  split
  · next hdropped =>
    rw [Bool.and_eq_true, List.isEmpty_iff (l := List.filter _ _)] at hdropped
    refine record_does (.dropped hn ⟨fun module => ?_, hbehind⟩) hend
    rw [hfront, hdropped.2]
    rfl
  · refine .after (isCommonJs_gives hform) ?_
    rintro _ rfl
    rw [Bool.not_true, if_neg (by decide)]
    refine .after markExports_gives fun _ _ => .after temporary_gives ?_
    rintro _ ⟨count, rfl⟩
    refine .after (text_gives span) ?_
    rintro _ rfl
    refine .after (.mapM_eq _ fun entry _ => foreignExport_gives (temporaryName count) entry) ?_
    rintro _ rfl
    have hread : readModule? n = some span := by rw [readModule?, hkind]
    refine record_does (.reading hn (temporaryName count)
      (.binds (temporaryName count) (requireCall known.source span) ::
        (exportsInFront known.options known.source items (temporaryName count) n).map .assigns) ?_
      (List.forall_mem_cons.mpr ⟨.reads hread count, serves_assigns _⟩) ?_ hbehind ?_) hend
    · rw [textOf_cons, textOf_assigns, hfront, List.map_map]
      rfl
    · exact assignmentsOf_assigns _
    · intro list span' hlist hsource _
      obtain rfl := Kind.exportList.inj (hkind.symm.trans hlist)
      obtain rfl := Option.some.inj hsource
      rfl

theorem lowerExportList_does (hform : known.options.form = .commonJs)
    (hnames : known.typeNames = items.flatMap typeNames) (h : NamesApart items) (hn : n ∈ items)
    {list : ExportList} (hkind : n.kind = .exportList list) :
    Lower.Does known (lowerExportList n list) fun _ => DoneFor known items n := by
  obtain ⟨entries, from?, typeOnly⟩ := list
  cases typeOnly with
  | true =>
    have hnothing : ExportsNothing known.options known.source items n := by
      simp [ExportsNothing, exportsInFront, exportsBehind, hkind]
    unfold lowerExportList
    refine .bindRead ?_
    dsimp only
    rw [Bool.true_or, if_pos rfl]
    exact record_does (.dropped hn hnothing) (by simp [exportsAtEnd, hkind])
  | false =>
    cases from? with
    | none => exact lowerExportList_own hform hnames h hn hkind
    | some span => exact lowerExportList_foreign hform hn hkind

/-! ## §3. Modules -/

/-- **What is done for an item**: its exports are written, and its types are taken out. -/
theorem lowerItem_does (hform : known.options.form = .commonJs)
    (hnames : known.typeNames = items.flatMap typeNames) (h : NamesApart items) (hn : n ∈ items)
    (hassignment : n.kind ≠ .exportAssignment) :
    Lower.Does known (lowerItem n) fun _ => DoneFor known items n := by
  have hvalue := h.not_namesType hn
  unfold lowerItem
  split
  · next hkind =>
    exact becomes_done hform hn hvalue (by simp [exportsAtEnd, hkind]) (lowerImport_becomes hkind)
  · next hkind =>
    exact becomes_done hform hn hvalue (by simp [exportsAtEnd, hkind])
      (lowerImportEquals_becomes hkind)
  · next hkind hchildren => exact lowerExport_does hform hn hkind hchildren
  · next hkind hchildren => exact lowerDefault_does hform hn hkind hchildren
  · next hkind hchildren => exact lowerDefaultExpression_does hform hn hvalue hkind hchildren
  · next hkind => exact lowerExportList_does hform hnames h hn hkind
  · next hkind => exact lowerExportAll_does hform hn hkind
  · next hkind _ => exact absurd hkind hassignment
  · next hkind =>
    refine record_does (.dropped hn ?_) (by simp [exportsAtEnd, hkind])
    simp [ExportsNothing, exportsInFront, exportsBehind, hkind]
  · next _ himportEquals hlist _ _ hexport hdefault hexpression _ =>
    have hfront : ∀ module, exportsInFront known.options known.source items module n = [] := by
      intro module
      unfold exportsInFront
      split
      · next d hkind hchildren => exact absurd hchildren (hexport d hkind)
      · next d hkind hchildren => exact absurd hchildren (hdefault d hkind)
      · next d hkind hchildren => exact absurd hchildren (hexpression d hkind)
      · next hkind => exact absurd hkind (himportEquals _ _ _ _ _)
      · next hkind => exact absurd hkind (hlist _)
      · rfl
    have hbehind : exportsBehind n = [] := by
      unfold exportsBehind
      split
      · next d hkind hchildren => exact absurd hchildren (hexport d hkind)
      · next d hkind hchildren => exact absurd hchildren (hdefault d hkind)
      · rfl
    have hend : exportsAtEnd known.source items n = [] := by
      unfold exportsAtEnd
      split
      · next hkind => exact absurd hkind (hlist _)
      · rfl
    refine (Lower.Does.eraseTypes n).mono ?_
    rintro _ _ _ ⟨rfl, rfl⟩
    exact .written (.nothing ⟨hfront, hbehind⟩ fun a ha => .erased hn ha) hend

/-- What is done for each of some items, put together. -/
theorem doneFor_all {nodes : List Node} {parts : List (List Action × String)}
    (h : List.Forall₂ (fun n part => DoneFor known items n part.1 part.2) nodes parts) :
    (∃ stated : List (Action × List Statement),
      (parts.map Prod.fst).flatten = stated.map Prod.fst ∧
        (∀ p ∈ stated, p.1.States known.options known.source items p.2) ∧
        targetsOf stated = nodes.flatMap (targetsAt known.options known.source items)) ∧
      String.join (parts.map Prod.snd)
        = String.join ((nodes.flatMap (exportsAtEnd known.source items)).map Assignment.text) := by
  induction h with
  | nil => exact ⟨⟨[], rfl, List.forall_mem_nil _, rfl⟩, rfl⟩
  | cons hdone _ ih =>
    obtain ⟨⟨first, hfirst, hstates, htargets⟩, htext⟩ := hdone
    obtain ⟨⟨stated, hstated, hall, hothers⟩, htexts⟩ := ih
    refine ⟨⟨first ++ stated, ?_, List.forall_mem_append.mpr ⟨hstates, hall⟩, ?_⟩, ?_⟩
    · rw [List.map_cons, List.flatten_cons, hfirst, hstated, List.map_append]
    · rw [targetsOf_append, htargets, hothers, List.flatMap_cons]
    · rw [List.map_cons, String.join_cons, htext, htexts, List.flatMap_cons, List.map_append,
        String.join_append]

/-- The actions behind the last item write the exports that have their values when the module is
done. -/
theorem closing_states {options : RewriteOptions} {source : List Char} {deferred : String}
    (hdeferred : deferred
      = String.join ((items.flatMap (exportsAtEnd source items)).map Assignment.text)) :
    ∃ stated : List (Action × List Statement),
      (if deferred = "" ∨ items = [] then [] else closing items deferred) = stated.map Prod.fst ∧
      (∀ p ∈ stated, p.1.States options source items p.2) ∧
      targetsOf stated = (items.flatMap (exportsAtEnd source items)).map Assignment.target := by
  subst hdeferred
  split
  · next hnone =>
    refine ⟨[], rfl, List.forall_mem_nil _, ?_⟩
    have hempty : items.flatMap (exportsAtEnd source items) = [] := by
      rcases hnone with hnone | rfl
      · cases hend : items.flatMap (exportsAtEnd source items) with
        | nil => rfl
        | cons a rest =>
          rw [hend, List.map_cons, String.join_cons] at hnone
          simp [a.text_ne_empty] at hnone
      · rfl
    rw [hempty]
    rfl
  · next hsome =>
    obtain ⟨-, hitems⟩ := not_or.mp hsome
    have hlast := List.getLast?_eq_some_getLast hitems
    refine ⟨[(.insert (items.getLast hitems).stop (textOf (closingStatements source items)),
      closingStatements source items)], ?_, List.forall_mem_singleton.mpr (.closing hlast), ?_⟩
    · rw [closing, hlast, closingStatements, textOf_cons, textOf_assigns]
      rfl
    · rw [targetsOf, List.flatMap_singleton]
      exact congrArg _ (assignmentsOf_assigns _)

/-- **What a plan writes for the exports of a module.**  Where exports are lowered, the statements
that are written for an item assign its exports, and those at the end the entries of local lists
that are no types; all of them in order, and nothing else is assigned. -/
theorem planOf_states {options : RewriteOptions} {program : Program}
    (hform : options.form = .commonJs) (hmodule : program.isModule = true)
    (hassignment : ∀ n ∈ program.items, n.kind ≠ .exportAssignment)
    (hapart : NamesApart program.items) (source : List Char) :
    ∃ stated : List (Action × List Statement),
      (planOf options source program).actions = stated.map Prod.fst ∧
      (∀ p ∈ stated, p.1.States options source program.items p.2) ∧
      targetsOf stated = exportTargets options source program.items := by
  obtain ⟨parts, hactions, hparts⟩ := @planOf_eachItem options source program
    (DoneFor (knownOf options source program.items) program.items) hmodule fun n hn =>
      lowerItem_does hform rfl hapart hn (hassignment n hn)
  obtain ⟨⟨stated, hstated, hstates, htargets⟩, hdeferred⟩ := doneFor_all hparts
  obtain ⟨behind, hbehind, hcloses, hend⟩ :=
    @closing_states program.items options source _ hdeferred
  refine ⟨stated ++ behind, ?_, List.forall_mem_append.mpr ⟨hstates, hcloses⟩, ?_⟩
  · rw [hactions, hstated, hbehind, List.map_append]
  · rw [targetsOf_append, htargets, hend, exportTargets]
    rfl

/-- How the scripts below are rewritten. -/
def typedToCommonJs : RewriteOptions := ⟨true, .commonJs, .shared, .none, true⟩

end SingleFile.Script
