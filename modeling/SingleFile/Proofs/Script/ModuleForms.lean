/-
  SingleFile.Proofs.Script.ModuleForms — WHAT A LOWERING ASKS FOR
  ───────────────────────────────────────────────────────────────
  Item by item, a lowering takes types out, drops or replaces statements that
  only name parts of modules, and puts something in front of and behind an
  exported declaration.  Where the module's syntax is preserved, nothing is
  put around a declaration.

  Main results:
    * `Lowers` — the forms of actions, and what is known of their texts.
    * `lowerItem_records` — every action of an item has one of the forms.
    * `lowered_lowers` — the same for all items of a module.
    * `planOf_lowers` — the same for a program, be it a module or not.
-/
import SingleFile.Proofs.Script.LoweringSteps

namespace SingleFile.Script

open SingleFile.Text

variable {known : Module} {allowed : Action → Prop}

/-! ## §1. Forms of actions -/

/-- The parts of an item that a lowering copies, in the order in which they stand. -/
def Kind.copied : Kind → List Span
  | .importDecl decl => decl.items.flatMap ImportItem.copied ++ [decl.source]
  | .importEquals _ _ _ _ value => [value]
  | .exportList list => list.items.map ExportItem.span ++ list.source.toList
  | .exportAll source _ => [source]
  | _ => []

/-- Whether an item is a statement that only names parts of modules. -/
def Kind.isListing : Kind → Bool
  | .importDecl _ => true
  | .importEquals .. => true
  | .exportList _ => true
  | .exportAll .. => true
  | _ => false

/-- Whether an item is something that is exported. -/
def Kind.isExport : Kind → Bool
  | .exportDecl => true
  | .exportDefaultDecl => true
  | .exportDefaultExpr => true
  | .exportAssignment => true
  | _ => false

/-- Where the part of an exported item stops that a lowering replaces: the keywords, and what
separates them from what is exported. -/
def exportFront? (source : List Char) (n : Node) : Option Nat :=
  match n.kind, n.children with
  | .exportDecl, [_] => some (behindKeyword source n.start "export")
  | .exportDefaultDecl, [_] =>
    some (behindKeyword source (behindKeyword source n.start "export") "default")
  | .exportDefaultExpr, [value] => some value.start
  | .exportAssignment, [value] => some value.start
  | _, _ => none

/-- **What a lowering asks for.**  Of the texts it writes it is said how many line feeds they
have, as long as the names in the module are single lines. -/
inductive Lowers (options : RewriteOptions) (source : List Char) (items : List Node) :
    Action → Prop where
  /-- Types are taken out. -/
  | erases {a : Action} (ha : a ∈ eraseAll source items) : Lowers options source items a
  /-- The text is looked at. -/
  | looks (offset : Nat) : Lowers options source items (.look offset)
  /-- An item that imports or exports is dropped. -/
  | drops {n : Node} (hn : n ∈ items) (hitem : isModuleItem n = true) :
    Lowers options source items (blankSpan n.span)
  /-- A statement that names parts of modules is replaced; its parts are copied once. -/
  | replaces {n : Node} {text : String} (hn : n ∈ items) (hkind : n.kind.isListing = true)
    (htext : havePlainNames items = true → lineFeeds text ≤ feedsAt source n.kind.copied) :
    Lowers options source items (.replace n.start n.stop text)
  /-- A list of another module's names is replaced. -/
  | reexports {n : Node} {list : ExportList} {text : String} (hn : n ∈ items)
    (hlist : n.kind = .exportList list) (hsource : list.source.isSome = true)
    (hform : options.form = .commonJs) :
    Lowers options source items (.replace n.start n.stop text)
  /-- The front of an exported item is replaced. -/
  | opens {n : Node} {offset : Nat} {text : String} (hn : n ∈ items)
    (hfront : exportFront? source n = some offset)
    (hform : options.form = .commonJs ∨ n.kind = .exportAssignment)
    (htext : havePlainNames items = true → lineFeeds text = 0) :
    Lowers options source items (.replace n.start offset text)
  /-- Something is put behind an exported declaration. -/
  | closes {n : Node} {text : String} (hn : n ∈ items) (hform : options.form = .commonJs)
    (htext : havePlainNames items = true → lineFeeds text = 0) :
    Lowers options source items (.insert n.stop text)
  /-- The assignments of local lists are put behind the last item. -/
  | defers {last : Node} (hlast : items.getLast? = some last) (hform : options.form = .commonJs) :
    Lowers options source items
      (.insert last.stop (";" ++ (lowered options source items).deferred))

variable {items : List Node}

/-- An action of a module that is being lowered. -/
abbrev Module.Lowers (known : Module) (items : List Node) : Action → Prop :=
  Script.Lowers known.options known.source items

theorem action_records {a : Action} (h : known.Lowers items a) :
    Lower.Records known (known.Lowers items) (Lower.record [a]) fun _ => True := by
  refine .record fun b hb => ?_
  obtain rfl := List.mem_singleton.mp hb
  exact h

theorem drop_records {n : Node} (hn : n ∈ items) (hitem : isModuleItem n = true) :
    Lower.Records known (known.Lowers items) (Lower.record [blankSpan n.span]) fun _ => True :=
  action_records (.drops hn hitem)

theorem actions_records {a b : Action} (h : known.Lowers items a) (h' : known.Lowers items b) :
    Lower.Records known (known.Lowers items) (Lower.record [a, b]) fun _ => True := by
  refine .record fun c hc => ?_
  rcases List.mem_cons.mp hc with rfl | hc
  · exact h
  · obtain rfl := List.mem_singleton.mp hc
    exact h'

theorem look_records (offset : Nat) :
    Lower.Records known (known.Lowers items) (Lower.look offset) fun _ => True :=
  action_records (.looks offset)

theorem markExports_records :
    Lower.Records known allowed Lower.markExports fun _ => True :=
  .modify (fun _ => rfl) fun _ => ⟨rfl, rfl⟩

theorem eraseTypes_records {n : Node} (h : ∀ source, erase source n ⊆ eraseAll source items) :
    Lower.Records known (known.Lowers items) (Lower.eraseTypes n) fun _ => True := by
  refine .bindRead ?_
  exact .record fun a ha => .erases (h _ ha)

theorem erase_subset_eraseAll {n : Node} (hn : n ∈ items) (source : List Char) :
    erase source n ⊆ eraseAll source items := by
  induction items with
  | nil => exact absurd hn (by simp)
  | cons m rest ih =>
    rw [eraseAll]
    rcases List.mem_cons.mp hn with rfl | hn
    · exact List.subset_append_left ..
    · exact fun a ha => List.mem_append_right _ (ih hn ha)

/-! ## §2. Items that import -/

/-- The names of an item are single lines if those of all items are. -/
theorem hasPlainNames_of_mem {n : Node} (hn : n ∈ items) (h : havePlainNames items = true) :
    n.kind.hasPlainNames = true :=
  (havePlainNames_iff.mp h n hn).1

/-- The names of an import are single lines. -/
theorem ImportItem.isPlain_of_names {decl : Import}
    (h : (Kind.importDecl decl).hasPlainNames = true) {item : ImportItem}
    (hitem : item ∈ decl.items) : item.IsPlain :=
  fun _ hname => Kind.lineFeeds_of_mem_names h (List.mem_flatMap.mpr ⟨item, hitem, hname⟩)

/-- **An import is dropped or replaced.** -/
theorem lowerImport_records {n : Node} {decl : Import} (hn : n ∈ items)
    (hkind : n.kind = .importDecl decl) :
    Lower.Records known (known.Lowers items) (lowerImport n decl) fun _ => True := by
  have hreplaces {source text : String} (hsource : source = textAt known.source decl.source)
      (htext : (∀ item ∈ decl.items.filter (keepsImport known.references), item.IsPlain) →
        lineFeeds text ≤ feedsAt known.source
          ((decl.items.filter (keepsImport known.references)).flatMap ImportItem.copied)
            + lineFeeds source) :
      known.Lowers items (.replace n.start n.stop text) := by
    refine .replaces hn (by rw [hkind]; rfl) fun hplain => ?_
    -- Only names that are kept are copied, and those are some of all names.
    have hnames := hasPlainNames_of_mem hn hplain
    rw [hkind] at hnames ⊢
    have hle := htext fun item hitem =>
      ImportItem.isPlain_of_names hnames (List.mem_filter.mp hitem).1
    have hsub : (decl.items.filter (keepsImport known.references)).Sublist decl.items :=
      List.filter_sublist
    have hkept := feedsAt_sublist known.source (hsub.flatMap ImportItem.copied)
    show _ ≤ feedsAt known.source (decl.items.flatMap ImportItem.copied ++ [decl.source])
    rw [feedsAt_append, feedsAt_singleton, ← hsource]
    omega
  unfold lowerImport
  refine .bindRead ?_
  dsimp only
  split
  · exact drop_records hn (by rw [isModuleItem, hkind])
  · refine .bind (text_records _) fun source hsource => ?_
    refine ifCommonJs_records (fun hform => ?_) ?_
    · refine .bind (requireText_records hform _ source) fun text htext => ?_
      exact action_records (hreplaces hsource htext)
    · split
      · refine .bind (importText_records _ source) fun text htext => ?_
        exact action_records (hreplaces hsource htext)
      · exact .pure trivial

/-- **A name given to an entity is dropped or replaced.** -/
theorem lowerImportEquals_records {n : Node} {name : String}
    {isExport typeOnly isExternal : Bool} {value : Span} (hn : n ∈ items)
    (hkind : n.kind = .importEquals name isExport typeOnly isExternal value) :
    Lower.Records known (known.Lowers items)
      (lowerImportEquals n name isExport typeOnly isExternal value) fun _ => True := by
  have hreplaces {text : String}
      (htext : lineFeeds name = 0 → lineFeeds text = lineFeeds (textAt known.source value)) :
      known.Lowers items (.replace n.start n.stop text) := by
    refine .replaces hn (by rw [hkind]; rfl) fun hplain => ?_
    have hnames := hasPlainNames_of_mem hn hplain
    rw [hkind] at hnames ⊢
    rw [htext (Kind.lineFeeds_of_mem_names hnames (List.mem_singleton.mpr rfl))]
    exact Nat.le_of_eq (feedsAt_singleton known.source value).symm
  -- The entity or module is copied once, whatever is written around it.
  have hvalue : lineFeeds (if isExternal = true then "require(" ++ textAt known.source value ++ ")"
      else textAt known.source value) = lineFeeds (textAt known.source value) := by
    split
    · simp [lineFeeds]
    · rfl
  unfold lowerImportEquals
  refine .bindRead ?_
  dsimp only
  split
  · exact drop_records hn (by rw [isModuleItem, hkind])
  · refine .bind (text_records _) ?_
    rintro _ rfl
    split
    · refine action_records (hreplaces fun hname => ?_)
      rw [lineFeeds_varText, hname, Nat.zero_add, hvalue]
    · refine ifCommonJs_records (fun _ => ?_) ?_
      · refine .bind markExports_records fun _ _ => action_records (hreplaces fun hname => ?_)
        rw [lineFeeds_append, lineFeeds_varText, lineFeeds_exportOf, hname, Nat.zero_add,
            Nat.add_zero, hvalue]
      · refine action_records (hreplaces fun hname => ?_)
        rw [lineFeeds_append, lineFeeds_varText, hname, Nat.zero_add, hvalue]
        exact Nat.zero_add _

/-! ## §3. Exported declarations -/

mutual

/-- The names a pattern binds are single lines. -/
theorem lineFeeds_of_mem_boundNames {name : String} :
    ∀ n : Node, havePlainNames [n] = true → name ∈ boundNames n → lineFeeds name = 0
  | .mk kind span children, h, hname => by
    obtain ⟨hown, hbelow, -⟩ := havePlainNames_cons.mp h
    unfold boundNames at hname
    split at hname
    · obtain rfl := List.mem_singleton.mp hname
      exact Kind.lineFeeds_of_mem_names hown (List.mem_singleton.mpr rfl)
    · exact lineFeeds_of_mem_boundNamesOf children hbelow hname
    · exact lineFeeds_of_mem_boundNamesOf children hbelow hname
    · exact lineFeeds_of_mem_lastBoundNames children hbelow hname
    · exact lineFeeds_of_mem_firstBoundNames children hbelow hname
    · exact lineFeeds_of_mem_firstBoundNames children hbelow hname
    · exact lineFeeds_of_mem_firstBoundNames children hbelow hname
    · exact lineFeeds_of_mem_firstBoundNames children hbelow hname
    · simp at hname

theorem lineFeeds_of_mem_boundNamesOf {name : String} :
    ∀ nodes : List Node, havePlainNames nodes = true → name ∈ boundNamesOf nodes →
      lineFeeds name = 0
  | [], _, hname => absurd hname (by simp [boundNamesOf])
  | n :: rest, h, hname => by
    obtain ⟨hown, hbelow, hrest⟩ := havePlainNames_cons.mp h
    rw [boundNamesOf] at hname
    rcases List.mem_append.mp hname with hname | hname
    · exact lineFeeds_of_mem_boundNames n (havePlainNames_cons.mpr ⟨hown, hbelow, rfl⟩) hname
    · exact lineFeeds_of_mem_boundNamesOf rest hrest hname

theorem lineFeeds_of_mem_firstBoundNames {name : String} :
    ∀ nodes : List Node, havePlainNames nodes = true → name ∈ firstBoundNames nodes →
      lineFeeds name = 0
  | [], _, hname => absurd hname (by simp [firstBoundNames])
  | n :: _, h, hname => by
    obtain ⟨hown, hbelow, -⟩ := havePlainNames_cons.mp h
    rw [firstBoundNames] at hname
    exact lineFeeds_of_mem_boundNames n (havePlainNames_cons.mpr ⟨hown, hbelow, rfl⟩) hname

theorem lineFeeds_of_mem_lastBoundNames {name : String} :
    ∀ nodes : List Node, havePlainNames nodes = true → name ∈ lastBoundNames nodes →
      lineFeeds name = 0
  | [], _, hname => absurd hname (by simp [lastBoundNames])
  | [n], h, hname => lineFeeds_of_mem_boundNames n h hname
  | _ :: m :: rest, h, hname =>
    lineFeeds_of_mem_lastBoundNames (m :: rest) (havePlainNames_cons.mp h).2.2 hname

end

/-- The name of a function or class is a single line. -/
theorem lineFeeds_declaredName? {n : Node} {name : String} (h : havePlainNames n.children = true)
    (hname : declaredName? n = some name) : lineFeeds name = 0 := by
  obtain ⟨first, hfirst, hident⟩ := Option.bind_eq_some_iff.mp hname
  have hplain := (havePlainNames_iff.mp h first (List.mem_of_head? hfirst)).1
  refine Kind.lineFeeds_of_mem_names hplain ?_
  unfold Node.ident? at hident
  split at hident
  · next kind hkind =>
    obtain rfl := Option.some.inj hident
    rw [hkind]
    exact List.mem_singleton.mpr rfl
  · simp at hident

/-- The names a declaration exports behind itself are single lines. -/
theorem lineFeeds_of_mem_exportedNames {n : Node} {name : String}
    (h : havePlainNames [n] = true) (hname : name ∈ exportedNames n) : lineFeeds name = 0 := by
  obtain ⟨hown, hbelow, -⟩ := havePlainNames_cons.mp h
  unfold exportedNames at hname
  split at hname
  · exact lineFeeds_declaredName? hbelow (Option.mem_toList.mp hname)
  · obtain ⟨part, hpart, hname⟩ := List.mem_flatMap.mp hname
    obtain ⟨hfirst, hmore⟩ := havePlainNames_iff.mp hbelow part hpart
    exact lineFeeds_of_mem_boundNames part (havePlainNames_cons.mpr ⟨hfirst, hmore, rfl⟩) hname
  · next hkind =>
    rw [hkind] at hown
    exact Kind.lineFeeds_of_mem_names hown hname
  · simp at hname

/-- Assignments of names to the exports of the same names are a single line. -/
theorem lineFeeds_exports {names : List String} (h : ∀ name ∈ names, lineFeeds name = 0) :
    lineFeeds (String.join (names.map fun name => exportOf name name)) = 0 := by
  rw [lineFeeds_join, List.map_map, List.sum_eq_zero_iff_forall_eq_nat]
  intro count hcount
  obtain ⟨name, hname, rfl⟩ := List.mem_map.mp hcount
  show lineFeeds (exportOf name name) = 0
  rw [lineFeeds_exportOf, h name hname]

/-- The names below an item are single lines if those of all items are. -/
theorem havePlainNames_child {n child : Node} (hn : n ∈ items) (hchildren : n.children = [child])
    (h : havePlainNames items = true) : havePlainNames [child] = true := by
  have hbelow := (havePlainNames_iff.mp h n hn).2
  rwa [hchildren] at hbelow

/-- What is erased from something exported is erased from the item. -/
theorem erase_child_subset {n child : Node} (hn : n ∈ items) (hkind : n.kind.isExport = true)
    (hchildren : n.children = [child]) (source : List Char) :
    erase source child ⊆ eraseAll source items := by
  -- The walk asks for nothing at the item itself.
  have hitem : erase source n = erase source child := by
    cases n with
    | mk kind span children =>
      obtain rfl : children = [child] := hchildren
      change kind.isExport = true at hkind
      have hown : erase source (.mk kind span [child]) = [] ++ (erase source child ++ []) := by
        unfold Kind.isExport at hkind
        split at hkind
        · rfl
        · rfl
        · rfl
        · rfl
        · simp at hkind
      rw [hown, List.nil_append, List.append_nil]
  rw [← hitem]
  exact erase_subset_eraseAll hn source

/-- **The actions around an exported declaration.** -/
theorem exportActions_lower {n declaration : Node} (hn : n ∈ items) (hkind : n.kind = .exportDecl)
    (hchildren : n.children = [declaration]) (hform : known.options.form = .commonJs) :
    ∀ a ∈ exportActions known.source n declaration, known.Lowers items a := by
  have hplain := havePlainNames_child hn hchildren
  unfold exportActions
  dsimp only
  intro a ha
  rcases List.mem_append.mp ha with ha | ha
  · split at ha
    · exact absurd ha List.not_mem_nil
    · obtain rfl := List.mem_singleton.mp ha
      exact .looks n.stop
  rcases List.mem_cons.mp ha with rfl | ha
  · refine .opens hn (by rw [exportFront?, hkind, hchildren]) (Or.inl hform) fun hall => ?_
    have hdeclared := (havePlainNames_cons.mp (hplain hall)).2.1
    split
    · exact lineFeeds_exports fun name hname =>
        lineFeeds_declaredName? hdeclared (Option.mem_toList.mp hname)
    · rfl
  · split at ha
    · simp at ha
    · obtain rfl := List.mem_singleton.mp ha
      refine .closes hn hform fun hall => ?_
      have hnames := lineFeeds_exports fun name hname =>
        lineFeeds_of_mem_exportedNames (hplain hall) hname
      rw [lineFeeds_append, hnames]
      split <;> rfl

/-- **An exported declaration.** -/
theorem lowerExport_records {n declaration : Node} (hn : n ∈ items) (hkind : n.kind = .exportDecl)
    (hchildren : n.children = [declaration]) :
    Lower.Records known (known.Lowers items) (lowerExport n declaration) fun _ => True := by
  have herase : ∀ source, erase source declaration ⊆ eraseAll source items :=
    erase_child_subset hn (by rw [hkind]; rfl) hchildren
  unfold lowerExport
  split
  · exact drop_records hn (by rw [isModuleItem, hkind])
  · refine .bind (look_records n.start) fun _ _ => ifCommonJs_records (fun hform => ?_) ?_
    · refine .bind markExports_records fun _ _ => ?_
      refine .bindRead ?_
      refine .bind (.record (exportActions_lower hn hkind hchildren hform)) fun _ _ => ?_
      exact eraseTypes_records herase
    · exact eraseTypes_records herase

/-- **The default export of a function or class.** -/
theorem lowerDefault_records {n declaration : Node} (hn : n ∈ items)
    (hkind : n.kind = .exportDefaultDecl) (hchildren : n.children = [declaration]) :
    Lower.Records known (known.Lowers items) (lowerDefault n declaration) fun _ => True := by
  have hfront : exportFront? known.source n = some (behindKeyword known.source
      (behindKeyword known.source n.start "export") "default") := by
    rw [exportFront?, hkind, hchildren]
  have herase : ∀ source, erase source declaration ⊆ eraseAll source items :=
    erase_child_subset hn (by rw [hkind]; rfl) hchildren
  have hname {name : String} (h : declaredName? declaration = some name)
      (hall : havePlainNames items = true) : lineFeeds (exportOf "default" name) = 0 := by
    have hbelow := (havePlainNames_cons.mp (havePlainNames_child hn hchildren hall)).2.1
    rw [lineFeeds_exportOf, lineFeeds_declaredName? hbelow h]
    rfl
  unfold lowerDefault
  dsimp only
  -- Interfaces and overloads are dropped; all else is lowered by whether it has a name.
  split
  · exact drop_records hn (by rw [isModuleItem, hkind])
  · split
    · exact drop_records hn (by rw [isModuleItem, hkind])
    · refine ifCommonJs_records (fun hform => ?_) ?_
      · refine .bind markExports_records fun _ _ => ?_
        refine .bindRead ?_
        refine .bind (look_records _) fun _ _ => .bind (look_records _) fun _ _ => ?_
        split
        · next hdeclared _ =>
          refine .bind (action_records ?_) fun _ _ => eraseTypes_records herase
          exact .opens hn hfront (Or.inl hform) (hname hdeclared)
        · next hdeclared _ =>
          refine .bind (actions_records ?_ ?_) fun _ _ => eraseTypes_records herase
          · exact .opens hn hfront (Or.inl hform) fun _ => rfl
          · refine .closes hn hform fun hall => ?_
            rw [lineFeeds_append, hname hdeclared hall]
            rfl
        · refine .bind (actions_records ?_ ?_) fun _ _ => eraseTypes_records herase
          · exact .opens hn hfront (Or.inl hform) fun _ => by decide
          · exact .closes hn hform fun _ => rfl
      · exact eraseTypes_records herase

/-- **The default export of an expression.** -/
theorem lowerDefaultExpression_records {n value : Node} (hn : n ∈ items)
    (hkind : n.kind = .exportDefaultExpr) (hchildren : n.children = [value]) :
    Lower.Records known (known.Lowers items) (lowerDefaultExpression n value) fun _ => True := by
  have hfront : exportFront? known.source n = some value.start := by
    rw [exportFront?, hkind, hchildren]
  have herase := erase_child_subset hn (by rw [hkind]; rfl) hchildren
  unfold lowerDefaultExpression
  refine ifCommonJs_records (fun hform => ?_) ?_
  · refine .bind markExports_records fun _ _ => ?_
    refine .bind (action_records ?_) fun _ _ => eraseTypes_records herase
    exact .opens hn hfront (Or.inl hform) fun _ => by decide
  · exact eraseTypes_records herase

/-! ## §4. Export lists -/

/-- **An export statement for some entries copies each text once.** -/
theorem exportText_records (list : List ExportItem) (source : Option Span) :
    Lower.Records known allowed (exportText list source) fun t =>
      lineFeeds t ≤ feedsAt known.source (list.map ExportItem.span ++ source.toList) := by
  have hcomma : lineFeeds ", " = 0 := by decide
  unfold exportText
  refine .bind (.mapM _ fun item _ => text_records item.span) fun names hnames => ?_
  have hsum : (names.map lineFeeds).sum = feedsAt known.source (list.map ExportItem.span) := by
    induction hnames with
    | nil => rfl
    | cons hfirst _ ih =>
      rw [List.map_cons, List.sum_cons, ih, hfirst]
      rfl
  have hlist : lineFeeds ("export \x7b " ++ ", ".intercalate names ++ " \x7d")
      = feedsAt known.source (list.map ExportItem.span) := by
    rw [lineFeeds_append, lineFeeds_append, lineFeeds_intercalate hcomma, hsum]
    exact Nat.zero_add _
  rw [feedsAt_append]
  cases source with
  | none =>
    refine .pure ?_
    rw [lineFeeds_append, hlist]
    exact Nat.le_refl _
  | some span =>
    refine .bind (text_records span) ?_
    rintro _ rfl
    refine .pure ?_
    rw [lineFeeds_append, lineFeeds_append, lineFeeds_append, hlist, Option.toList,
        feedsAt_singleton]
    exact Nat.le_refl _

theorem property_recordsNothing (object : String) (name : ModuleName) :
    Lower.Records known allowed (Lower.property object name) fun _ => True :=
  (property_records object name).mono fun _ _ => trivial

theorem localExport_records (item : ExportItem) :
    Lower.Records known allowed (localExport item) fun _ => True := by
  cases item with
  | named span entity exported typeOnly =>
    refine .bind (property_recordsNothing _ _) fun _ _ => ?_
    exact .bind (text_records _) fun _ _ => .pure trivial
  | wholeModule span exported => exact .pure trivial

theorem foreignExport_records (hform : known.options.form = .commonJs) (module : String)
    (item : ExportItem) :
    Lower.Records known allowed (foreignExport module item) fun _ => True := by
  cases item with
  | named span entity exported typeOnly =>
    unfold foreignExport
    dsimp only
    split
    · refine .bind (defaultOf_records hform module) fun _ _ => ?_
      exact .bind (property_recordsNothing _ _) fun _ _ => .pure trivial
    · refine .bind (property_recordsNothing _ _) fun _ _ => ?_
      exact .bind (property_recordsNothing _ _) fun _ _ => .pure trivial
  | wholeModule span exported =>
    exact .bind (property_recordsNothing _ _) fun _ _ => .pure trivial

/-- **An export list is dropped or replaced**; if it is a local one, its assignments are put
off. -/
theorem lowerExportList_records {n : Node} {list : ExportList} (hn : n ∈ items)
    (hkind : n.kind = .exportList list) :
    Lower.Records known (known.Lowers items) (lowerExportList n list) fun _ => True := by
  have hlisting : n.kind.isListing = true := by
    rw [hkind]
    rfl
  unfold lowerExportList
  refine .bindRead ?_
  dsimp only
  split
  · exact drop_records hn (by rw [isModuleItem, hkind])
  · refine .bind isCommonJs_records fun lowers hlowers => ?_
    split
    · split
      · refine .bind (exportText_records _ _) fun text htext => ?_
        refine .bind (action_records (.replaces hn hlisting fun _ => ?_)) fun _ _ => .pure trivial
        rw [hkind]
        refine Nat.le_trans htext (feedsAt_sublist _ (List.Sublist.append ?_ (List.Sublist.refl _)))
        exact List.filter_sublist.map ExportItem.span
      · exact .pure trivial
    · next hcommonJs =>
      have hform : known.options.form = .commonJs := by simpa [hlowers] using hcommonJs
      refine .bind markExports_records fun _ _ => ?_
      split
      -- A local list: nothing is written here.
      · refine .bind (.mapM _ fun item _ => localExport_records item) fun assignments _ => ?_
        refine .bind (.modify_of_commonJs hform fun _ => rfl) fun _ _ => ?_
        exact action_records (.replaces hn hlisting fun _ => Nat.zero_le _)
      · next span hsource =>
        refine .bind temporary_records fun module _ => ?_
        refine .bind (text_records span) fun source _ => ?_
        refine .bind (.mapM _ fun item _ => foreignExport_records hform module item)
          fun assignments _ => ?_
        exact action_records (.reexports hn hkind (by rw [hsource]; rfl) hform)

/-- **An export of everything is dropped or replaced.** -/
theorem lowerExportAll_records {n : Node} {source : Span} {typeOnly : Bool} (hn : n ∈ items)
    (hkind : n.kind = .exportAll source typeOnly) :
    Lower.Records known (known.Lowers items) (lowerExportAll n source typeOnly)
      fun _ => True := by
  unfold lowerExportAll
  split
  · exact drop_records hn (by rw [isModuleItem, hkind])
  · refine ifCommonJs_records (fun hform => ?_) ?_
    · refine .bind markExports_records fun _ _ => ?_
      refine .bind (text_records source) ?_
      rintro _ rfl
      refine .bind (callHelper_records hform _ _) fun call hcall => ?_
      refine action_records (.replaces hn (by rw [hkind]; rfl) fun _ => ?_)
      rw [hkind, lineFeeds_append, hcall, lineFeeds_append, lineFeeds_append]
      show 0 + _ + 0 + 0 ≤ _
      rw [Nat.zero_add]
      exact Nat.le_of_eq (feedsAt_singleton known.source source).symm
    · exact .pure trivial

/-! ## §5. Items -/

/-- **Every action of an item has one of the forms.** -/
theorem lowerItem_records {n : Node} (hn : n ∈ items) :
    Lower.Records known (known.Lowers items) (lowerItem n) fun _ => True := by
  unfold lowerItem
  split
  · next hkind => exact lowerImport_records hn hkind
  · next hkind => exact lowerImportEquals_records hn hkind
  · next hkind hchildren => exact lowerExport_records hn hkind hchildren
  · next hkind hchildren => exact lowerDefault_records hn hkind hchildren
  · next hkind hchildren => exact lowerDefaultExpression_records hn hkind hchildren
  · next hkind => exact lowerExportList_records hn hkind
  · next hkind => exact lowerExportAll_records hn hkind
  · next value hkind hchildren =>
    have hfront : exportFront? known.source n = some value.start := by
      rw [exportFront?, hkind, hchildren]
    refine .bind (action_records (.opens hn hfront (Or.inr hkind) fun _ => by decide)) fun _ _ => ?_
    exact eraseTypes_records (erase_child_subset hn (by rw [hkind]; rfl) hchildren)
  · next hkind => exact drop_records hn (by rw [isModuleItem, hkind])
  · exact eraseTypes_records (erase_subset_eraseAll hn)

/-- The items of a module one after another, without what comes behind the last one. -/
def lowerEach (items : List Node) : Lower Unit := do
  for item in items do lowerItem item

/-- What is recorded once the items are done. -/
def closing (items : List Node) (deferred : String) : List Action :=
  match items.getLast? with
  | some last => [.insert last.stop (";" ++ deferred)]
  | none => []

/-- The assignments behind the last item are the last thing that a lowering records. -/
theorem lowerItems_eq (known : Module) (items : List Node) (s : Lowering) {done : Lowering}
    (h : (((lowerEach items).run known).run s).2 = done) :
    (((lowerItems items).run known).run s).2 =
      if done.deferred = "" ∨ items = [] then done
      else { done with actions := closing items done.deferred :: done.actions } := by
  have hrun : (((lowerItems items).run known).run s).2 =
      (((if !done.deferred.isEmpty then
        match items.getLast? with
        | some last => Lower.record [.insert last.stop (";" ++ done.deferred)]
        | none => pure ()
      else pure () : Lower Unit).run known).run done).2 := by
    rw [← h]
    rfl
  rw [hrun, closing]
  split
  · next hnonempty =>
    have hdeferred : done.deferred ≠ "" := by simpa using hnonempty
    cases hlast : items.getLast? with
    | none => rw [if_pos (Or.inr (List.getLast?_eq_none_iff.mp hlast))]; rfl
    | some last =>
      have hitems : items ≠ [] := by
        rintro rfl
        exact absurd hlast (by simp)
      rw [if_neg (by simp [hdeferred, hitems])]
      rfl
  · next hdeferred =>
    rw [if_pos (Or.inl (by simpa using hdeferred))]
    rfl

/-- Recording them changes nothing else. -/
theorem lowerItems_run (known : Module) (items : List Node) (s : Lowering) {done : Lowering}
    (h : (((lowerEach items).run known).run s).2 = done) :
    (((lowerItems items).run known).run s).2.deferred = done.deferred ∧
      (((lowerItems items).run known).run s).2.helpers = done.helpers ∧
      ∀ l ∈ (((lowerItems items).run known).run s).2.actions,
        l ∈ done.actions ∨ (done.deferred ≠ "" ∧ l = closing items done.deferred) := by
  rw [lowerItems_eq known items s h]
  split
  · exact ⟨rfl, rfl, fun l hl => Or.inl hl⟩
  · next hdeferred =>
    refine ⟨rfl, rfl, fun l hl => ?_⟩
    rcases List.mem_cons.mp hl with rfl | hl
    · exact Or.inr ⟨fun hnone => hdeferred (Or.inl hnone), rfl⟩
    · exact Or.inl hl

/-- **Every action of a module has one of the forms**, and helpers are asked for only where
imports and exports are lowered. -/
theorem lowered_lowers (options : RewriteOptions) (source : List Char) (items : List Node) :
    (∀ l ∈ (lowered options source items).actions, ∀ a ∈ l, Lowers options source items a) ∧
      (options.form = .commonJs ∨ (lowered options source items).helpers = []) := by
  obtain ⟨known, rfl, rfl, hlowered⟩ : ∃ known : Module, known.source = source ∧
      known.options = options ∧
      lowered options source items = (((lowerItems items).run known).run Lowering.start).2 :=
    ⟨_, rfl, rfl, rfl⟩
  -- The items one after another, from a start where nothing is recorded.
  have heach : Lower.Records known (known.Lowers items) (lowerEach items) fun _ => True := by
    unfold lowerEach
    refine (Lower.Records.forIn (fun _ _ => True) trivial ?_).mono fun _ _ => trivial
    intro n rest s hn _
    exact .bind (lowerItem_records hn) fun _ _ => .pure ⟨_, rfl, trivial⟩
  have hstart : Lowering.start.Sound known (known.Lowers items) :=
    ⟨fun _ hl => absurd hl (List.not_mem_nil), Or.inr ⟨rfl, rfl⟩⟩
  obtain ⟨hdone, hform⟩ := (heach Lowering.start hstart).2
  obtain ⟨hdeferred, hhelpers, hactions⟩ := lowerItems_run known items Lowering.start rfl
  rw [← hlowered] at hdeferred hhelpers hactions
  refine ⟨fun l hl a ha => ?_, ?_⟩
  · rcases hactions l hl with hl | ⟨hnonempty, rfl⟩
    · exact hdone l hl a ha
    · unfold closing at ha
      split at ha
      · next last hlast =>
        obtain rfl := List.mem_singleton.mp ha
        rw [← hdeferred]
        exact .defers hlast (hform.resolve_right fun hnone => hnonempty hnone.1)
      · simp at ha
  · rw [hhelpers]
    exact hform.imp_right And.right

/-! ## §6. Programs -/

/-- **Every action for a program has one of the forms**; what is no module only has types taken
out of it. -/
theorem planOf_lowers {options : RewriteOptions} {source : List Char} {program : Program}
    {a : Action} (ha : a ∈ (planOf options source program).actions) :
    Lowers options source program.items a := by
  unfold planOf at ha
  split at ha
  · obtain ⟨l, hl, ha⟩ := List.mem_flatten.mp ha
    exact (lowered_lowers ..).1 l (List.mem_reverse.mp hl) a ha
  · exact .erases ha

/-- A rewrite carries out the plan of the program that was read. -/
theorem carryOut_of_rewrite {options : RewriteOptions} {source out : List Char}
    {program : Program} (hparse : parse ⟨options.typed, true⟩ source = .ok program)
    (h : rewrite options source = .ok out) :
    (planOf options source program).carryOut source = .ok out := by
  rw [rewrite, hparse] at h
  exact h

end SingleFile.Script
