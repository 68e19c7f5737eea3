/-
  SingleFile.Proofs.Script.PlainScripts — SCRIPTS WITHOUT TYPES
  ─────────────────────────────────────────────────────────────
  A plain script whose imports and exports stay is left alone, but for the
  words that are taken for typed modifiers of a member: a line comment in
  front of the member may end with such a word.  Looking for words, the text
  is cut, which is possible between two characters only.

  Main results:
    * `lowerItem_walks` — what a plain item asks for.  The step.
    * `mem_planOf_of_plain` — what a plain program asks for.  The run.
    * `carryOut_of_plain` — what becomes of a text in which that is done.
    * `rewrite_untouched_iff` — a plain script is left alone exactly if no
      such word is found; it panics exactly if it is looked for elsewhere than
      between two characters.
    * `rewrite_commentedMember` — a comment that is blanked.
-/
import SingleFile.Proofs.Script.Columns
import SingleFile.Proofs.Script.PlainTrees

namespace SingleFile.Script

open SingleFile.Text Grammar

/-! ## §1. Items of plain modules -/

section

variable {options : RewriteOptions} {source : List Char} {n : Node} {nodes items : List Node}
  {known : Module}

theorem lowerItem_of_notModuleItem (h : isModuleItem n = false) :
    lowerItem n = Lower.eraseTypes n := by
  unfold isModuleItem at h
  unfold lowerItem
  split
  all_goals first
    | rfl
    | (next hkind => rw [hkind] at h; exact Bool.noConfusion h)
    | (next hkind _ => rw [hkind] at h; exact Bool.noConfusion h)

/-- Items that any program may have are walked one after another.  The run. -/
theorem lowerEach_of_notModuleItems (h : ∀ n ∈ nodes, isModuleItem n = false) (s : Lowering) :
    (((lowerEach nodes).run known).run s).2
      = { s with actions := (nodes.map (erase known.source)).reverse ++ s.actions } := by
  unfold lowerEach
  induction nodes generalizing s with
  | nil => rfl
  | cons n nodes ih =>
    obtain ⟨hn, hnodes⟩ := List.forall_mem_cons.mp h
    rw [List.forIn_cons, lowerItem_of_notModuleItem hn, List.map_cons, List.reverse_cons,
      List.append_assoc]
    exact ih hnodes { s with actions := erase known.source n :: s.actions }

theorem eraseAll_eq_flatten (source : List Char) (nodes : List Node) :
    eraseAll source nodes = (nodes.map (erase source)).flatten := by
  induction nodes with
  | nil => rfl
  | cons n nodes ih => rw [eraseAll, ih, List.map_cons, List.flatten_cons]

/-- **A program without imports and exports** only has types taken out of it, whether it is a module
or not. -/
theorem planOf_of_notModuleItems {program : Program}
    (h : ∀ n ∈ program.items, isModuleItem n = false) :
    planOf options source program = ⟨eraseAll source program.items, ""⟩ := by
  unfold planOf
  split
  · have hlowered : lowered options source program.items
        = ⟨(program.items.map (erase source)).reverse, [], "", 0, false⟩ := by
      have hdone :=
        @lowerEach_of_notModuleItems _ (knownOf options source program.items) h Lowering.start
      rw [show Lowering.start.actions = [] from rfl, List.append_nil] at hdone
      exact (lowerItems_eq (knownOf options source program.items) program.items Lowering.start
        hdone).trans (if_pos (Or.inl rfl))
    have hnone : program.items.any isModuleItem = false :=
      List.any_eq_false.mpr fun n hn => by rw [h n hn]; exact Bool.false_ne_true
    have hprologue : modulePrologue options program.items
        ⟨(program.items.map (erase source)).reverse, [], "", 0, false⟩ = "" := by
      rw [modulePrologue, hnone, Bool.and_false]
      rfl
    dsimp only
    rw [hlowered, hprologue, List.reverse_reverse, ← eraseAll_eq_flatten]
  · rfl

/-- Whether some actions are looks at some places and those of a walk over some trees, in any
order. -/
def Walks (source : List Char) (looks : List Nat) (nodes : List Node) (actions : List Action) :
    Prop :=
  ∀ a, a ∈ actions ↔ (∃ offset ∈ looks, a = .look offset) ∨ a ∈ eraseAll source nodes

theorem walks_eraseAll (source : List Char) (nodes : List Node) :
    Walks source [] nodes (eraseAll source nodes) :=
  fun a => by simp

theorem eraseTypes_walks (d : Node) :
    Lower.Does known (Lower.eraseTypes d) fun _ xs later =>
      Walks known.source [] [d] xs ∧ later = "" := by
  refine (Lower.Does.eraseTypes d).mono ?_
  rintro _ _ _ ⟨rfl, rfl⟩
  exact ⟨fun a => by simp [mem_eraseAll], rfl⟩

theorem pure_walks :
    Lower.Does known (pure ()) fun _ xs later => Walks known.source [] [] xs ∧ later = "" :=
  fun _ => ⟨[], "", rfl, String.append_empty.symm, walks_eraseAll _ [], rfl⟩

/-- No name of a plain program is one of a type. -/
theorem typeNames_of_plain (h : ArePlain [n]) : typeNames n = [] := by
  have hkind := h.kind (mem_subtreesOf_of_mem (List.mem_singleton_self n))
  unfold typeNames
  dsimp only
  cases hn : n.kind with
  | importDecl decl =>
    rw [hn, Kind.isPlain, Bool.and_eq_true, Bool.not_eq_true', List.all_eq_true] at hkind
    obtain ⟨htype, hmarks⟩ := hkind
    refine List.filterMap_eq_nil_iff.mpr fun item hitem => ?_
    have hunmarked := hmarks item hitem
    cases item with
    | defaultItem binding => rw [htype]; rfl
    | wholeModule binding => rfl
    | named binding imported typeOnly =>
      rw [Import.isMarked, Bool.not_eq_true'] at hunmarked
      dsimp only
      rw [hunmarked]
      rfl
  | exportDecl =>
    refine List.flatMap_eq_nil_iff.mpr fun d hd => ?_
    have hbelow := (h.child hd).kind (mem_subtreesOf_of_mem (List.mem_singleton_self d))
    split
    · next hkind => rw [hkind] at hbelow; exact Bool.noConfusion hbelow
    · next hkind => rw [hkind] at hbelow; exact Bool.noConfusion hbelow
    · rfl
  | interfaceDecl name => rw [hn] at hkind; exact Bool.noConfusion hkind
  | typeAlias name => rw [hn] at hkind; exact Bool.noConfusion hkind
  | _ => rfl

/-- A plain import stays as it is, where all its names are kept. -/
theorem lowerImport_walks {decl : Import} (hkind : n.kind = .importDecl decl)
    (hform : known.options.form = .preserved) (htype : decl.typeOnly = false)
    (hkeeps : decl.items.all (keepsImport known.references) = true) :
    Lower.Does known (lowerImport n decl) fun _ xs later =>
      Walks known.source [] [] xs ∧ later = "" := by
  have hall : keptItems known.uses decl = decl.items := by
    rw [← filter_keepsImport htype]
    exact List.filter_eq_self.mpr (List.all_eq_true.mp hkeeps)
  have hstays : decl.Stays known.uses := by
    refine ⟨htype, ?_⟩
    rw [hall]
    exact em _
  refine (lowerImport_becomes hkind).mono ?_
  rintro _ xs later ⟨hbecomes, rfl⟩
  refine ⟨?_, rfl⟩
  cases hbecomes with
  | dropped hkind' hdropped =>
    obtain rfl := Kind.importDecl.inj (hkind.symm.trans hkind')
    exact absurd hstays hdropped
  | required _ _ hcommonJs => rw [hform] at hcommonJs; contradiction
  | whole => exact walks_eraseAll _ []
  | restated hkind' _ _ hfewer =>
    obtain rfl := Kind.importDecl.inj (hkind.symm.trans hkind')
    exact absurd hall hfewer
  | aliasDropped hkind' => rw [hkind] at hkind'; contradiction
  | aliasKept hkind' => rw [hkind] at hkind'; contradiction

/-- The default export of a plain script is no interface, and has a body if it is a function. -/
theorem isDefaultType_of_isPlain (h : n.isPlain = true) : isDefaultType n = false := by
  obtain ⟨kind, span, children⟩ := n
  obtain ⟨hkind, hbody⟩ := Bool.and_eq_true_iff.mp h
  unfold isDefaultType
  split
  · next hinterface =>
    obtain rfl : kind = _ := hinterface
    exact Bool.noConfusion hkind
  · next hfunction =>
    obtain rfl : kind = _ := hfunction
    have hbody : children.any hasBody = true := hbody
    rw [show (Node.mk .functionExpr span children).children = children from rfl, hbody]
    rfl
  · rfl

theorem lowerDefault_walks {d : Node} (hform : known.options.form = .preserved)
    (hvalue : isDefaultType d = false) :
    Lower.Does known (lowerDefault n d) fun _ xs later =>
      Walks known.source [] [d] xs ∧ later = "" := by
  unfold isDefaultType at hvalue
  unfold lowerDefault
  dsimp only
  split
  · next hd =>
    rw [hd] at hvalue
    exact Bool.noConfusion hvalue
  · split
    · next hoverload =>
      obtain ⟨hd, hbody⟩ : d.kind = .functionExpr ∧ d.children.any hasBody = false := by
        simpa using hoverload
      rw [hd] at hvalue
      dsimp only at hvalue
      rw [hbody] at hvalue
      exact Bool.noConfusion hvalue
    · exact ifPreserved_does hform (eraseTypes_walks d)

theorem lowerExportList_walks {list : ExportList} (hkind : n.kind = .exportList list)
    (hform : known.options.form = .preserved) (htypes : known.typeNames = [])
    (hplain : n.kind.isPlain = true) :
    Lower.Does known (lowerExportList n list) fun _ xs later =>
      Walks known.source [] [] xs ∧ later = "" := by
  rw [hkind, Kind.isPlain, Bool.and_eq_true, Bool.not_eq_true', List.all_eq_true] at hplain
  obtain ⟨htype, hmarks⟩ := hplain
  have hall : list.items.filter (keepsExport known.typeNames list.source.isNone)
      = list.items := by
    refine List.filter_eq_self.mpr fun entry hentry => ?_
    have hunmarked := hmarks entry hentry
    rw [htypes]
    cases entry with
    | named span entity exported typeOnly =>
      rw [ExportItem.isMarked] at hunmarked
      rw [keepsExport, hunmarked]
      cases entity.word? <;> simp
    | wholeModule span exported => rfl
  refine (lowerExportList_whole hform htype hall).mono ?_
  rintro _ _ _ ⟨rfl, rfl⟩
  exact ⟨walks_eraseAll _ [], rfl⟩

/-- The word in front of an exported declaration is looked for where the statement begins. -/
theorem lowerExport_walks {d : Node} (hform : known.options.form = .preserved)
    (hvalue : isTypeOnly d = false) :
    Lower.Does known (lowerExport n d) fun _ xs later =>
      Walks known.source [n.start] [d] xs ∧ later = "" := by
  unfold lowerExport
  rw [hvalue, if_neg Bool.false_ne_true]
  have hstays : Lower.Does known (do
      if ← Lower.isCommonJs then
        Lower.markExports
        Lower.record (exportActions (← read).source n d)
      Lower.eraseTypes d) fun _ xs later => Walks known.source [] [d] xs ∧ later = "" :=
    ifPreserved_does hform (eraseTypes_walks d)
  refine .look _ (hstays.mono ?_)
  rintro _ xs _ ⟨hwalks, hlater⟩
  refine ⟨fun a => ?_, hlater⟩
  rw [List.mem_cons, hwalks a]
  simp

/-- Where the word in front of an exported declaration is looked for. -/
def Node.exportPlaces (n : Node) : List Nat :=
  match n.kind, n.children with
  | .exportDecl, [_] => [n.start]
  | _, _ => []

/-- Whether an item is no import of which a name is dropped for not being used. -/
def Node.keepsImports (references : Option (List String)) (n : Node) : Bool :=
  match n.kind with
  | .importDecl decl => decl.items.all (keepsImport references)
  | _ => true

/-- **A plain item asks for what a walk through its parts asks for**, where imports and exports stay
and none is dropped.  The step. -/
theorem lowerItem_walks (h : ArePlain [n]) (hform : known.options.form = .preserved)
    (hkeeps : n.keepsImports known.references = true) (htypes : known.typeNames = []) :
    Lower.Does known (lowerItem n) fun _ xs later =>
      Walks known.source n.exportPlaces n.walkedParts xs ∧ later = "" := by
  have hkind := h.kind (mem_subtreesOf_of_mem (List.mem_singleton_self n))
  have hchild {d : Node} (hchildren : n.children = [d]) : d.isPlain = true :=
    h.child (hchildren ▸ List.mem_singleton_self d) d
      (mem_subtreesOf_of_mem (List.mem_singleton_self d))
  unfold lowerItem
  split
  · next decl himport =>
    rw [Node.keepsImports, himport] at hkeeps
    rw [himport, Kind.isPlain, Bool.and_eq_true, Bool.not_eq_true'] at hkind
    rw [Node.exportPlaces, Node.walkedParts, himport]
    exact lowerImport_walks himport hform hkind.1 hkeeps
  · next halias =>
    rw [halias] at hkind
    exact Bool.noConfusion hkind
  · next d hexport hchildren =>
    have hvalue := isTypeOnly_of_isPlain (hchild hchildren)
    rw [Node.exportPlaces, Node.walkedParts, hexport, hchildren]
    dsimp only
    rw [hvalue, if_neg Bool.false_ne_true]
    exact lowerExport_walks hform hvalue
  · next d hdefault hchildren =>
    have hvalue := isDefaultType_of_isPlain (hchild hchildren)
    rw [Node.exportPlaces, Node.walkedParts, hdefault, hchildren]
    dsimp only
    rw [hvalue, if_neg Bool.false_ne_true]
    exact lowerDefault_walks hform hvalue
  · next value hexpression hchildren =>
    rw [Node.exportPlaces, Node.walkedParts, hexpression, hchildren]
    exact ifPreserved_does hform (eraseTypes_walks value)
  · next list hlist =>
    rw [Node.exportPlaces, Node.walkedParts, hlist]
    exact lowerExportList_walks hlist hform htypes hkind
  · next span typeOnly hall =>
    rw [Node.exportPlaces, Node.walkedParts, hall]
    rw [hall, Kind.isPlain, Bool.not_eq_true'] at hkind
    unfold lowerExportAll
    rw [hkind, if_neg Bool.false_ne_true]
    exact ifPreserved_does hform pure_walks
  · next hassignment _ =>
    rw [hassignment] at hkind
    exact Bool.noConfusion hkind
  · next hnamespace =>
    rw [hnamespace] at hkind
    exact Bool.noConfusion hkind
  · next himport halias hlist hall hnamespace hexport hdefault hexpression hassignment =>
    have hplaces : n.exportPlaces = [] := by
      unfold Node.exportPlaces
      split
      · next d hkind hchildren => exact (hexport d hkind hchildren).elim
      · rfl
    rw [hplaces, walkedParts_eq_self himport halias hexport hdefault hexpression hlist hall
      hassignment hnamespace]
    exact eraseTypes_walks n

end

/-! ## §2. Plain programs -/

/-- Whether the imports and exports of a program stay as they are: they are neither lowered nor
dropped, or there are none. -/
def Program.IsKept (options : RewriteOptions) (program : Program) : Prop :=
  (options.form = .preserved ∧
      ∀ n ∈ program.items, n.keepsImports (referencesOf options program.items) = true) ∨
    ∀ n ∈ program.items, isModuleItem n = false

section

variable {options : RewriteOptions} {source : List Char} {program : Program}

/-- No import is dropped unless that is asked for. -/
theorem isKept_of_preserved (hplain : ArePlain program.items) (hform : options.form = .preserved)
    (helide : options.elideImports = false) : program.IsKept options := by
  refine .inl ⟨hform, fun n hn => ?_⟩
  have hkind := hplain.kind (mem_subtreesOf_of_mem hn)
  unfold Node.keepsImports
  split
  · next decl himport =>
    rw [himport, Kind.isPlain, Bool.and_eq_true, List.all_eq_true] at hkind
    refine List.all_eq_true.mpr fun item hitem => ?_
    have hunmarked := hkind.2 item hitem
    rw [referencesOf, helide]
    cases item with
    | named binding imported typeOnly =>
      rw [Import.isMarked, Bool.not_eq_true', Bool.or_eq_false_iff] at hunmarked
      rw [keepsImport, hunmarked.2]
      rfl
    | _ => rfl
  · rfl

theorem walkedParts_of_notModuleItem {n : Node} (h : isModuleItem n = false) :
    n.walkedParts = [n] := by
  unfold isModuleItem at h
  unfold Node.walkedParts
  split
  all_goals first
    | rfl
    | (next hkind => rw [hkind] at h; exact Bool.noConfusion h)
    | (next hkind _ => rw [hkind] at h; exact Bool.noConfusion h)

theorem exportPlaces_of_notModuleItem {n : Node} (h : isModuleItem n = false) :
    n.exportPlaces = [] := by
  unfold Node.exportPlaces
  split
  · next hkind _ =>
    rw [isModuleItem, hkind] at h
    exact Bool.noConfusion h
  · rfl

/-- What is done for some items, one after another, is what a walk through all their parts does. -/
theorem walks_flatten {items : List Node} {parts : List (List Action)}
    (h : List.Forall₂ (fun n xs => Walks source n.exportPlaces n.walkedParts xs) items parts) :
    Walks source (items.flatMap Node.exportPlaces) (items.flatMap Node.walkedParts)
      parts.flatten := by
  induction h with
  | nil => exact walks_eraseAll _ []
  | cons hfirst _ ih =>
    intro a
    rw [List.flatten_cons, List.flatMap_cons, List.flatMap_cons, eraseAll_append, List.mem_append,
      List.mem_append, hfirst a, ih a]
    simp only [List.mem_append, or_and_right, exists_or]
    exact or_or_or_comm

/-- Where the words in front of the exported declarations of a program are looked for. -/
def Program.exportPlaces (program : Program) : List Nat :=
  if program.isModule then program.items.flatMap Node.exportPlaces else []

/-- **A plain program asks for what a walk through its parts asks for**, for looks at its exported
declarations, and for nothing in front of it. -/
theorem planOf_walks (hplain : ArePlain program.items) (hkept : program.IsKept options) :
    (planOf options source program).front = [] ∧
      Walks source program.exportPlaces program.walkedTrees
        (planOf options source program).actions := by
  rcases hkept with ⟨hform, hkeeps⟩ | hitems
  · refine ⟨front_of_preserved hform, ?_⟩
    cases hmodule : program.isModule with
    | false =>
      rw [planOf, Program.exportPlaces, Program.walkedTrees, hmodule]
      exact walks_eraseAll source program.items
    | true =>
      have hitem {n : Node} (hn : n ∈ program.items) : ArePlain [n] :=
        hplain.mono (subtreesOf_singleton_subset (mem_subtreesOf_of_mem hn))
      have htypes : program.items.flatMap typeNames = [] :=
        List.flatMap_eq_nil_iff.mpr fun n hn => typeNames_of_plain (hitem hn)
      obtain ⟨parts, hactions, hparts⟩ := planOf_settledItems hmodule fun n hn =>
        @lowerItem_walks _ (knownOf options source program.items) (hitem hn) hform (hkeeps n hn)
          htypes
      rw [hactions, Program.exportPlaces, Program.walkedTrees, hmodule, if_pos rfl, if_pos rfl]
      exact walks_flatten hparts
  · have hwalked : program.walkedTrees = program.items := by
      rw [Program.walkedTrees]
      split
      · rw [List.flatMap_congr fun n hn => walkedParts_of_notModuleItem (hitems n hn),
          List.flatMap_singleton']
      · rfl
    have hplaces : program.exportPlaces = [] := by
      rw [Program.exportPlaces]
      split
      · exact List.flatMap_eq_nil_iff.mpr fun n hn => exportPlaces_of_notModuleItem (hitems n hn)
      · rfl
    rw [planOf_of_notModuleItems hitems, hwalked, hplaces]
    exact ⟨rfl, walks_eraseAll source program.items⟩

/-- Whether the text is looked at in a place for a plain program: where the statement of an exported
declaration begins, or around the modifiers of a member of a class. -/
def Program.LooksAt (program : Program) (offset : Nat) : Prop :=
  offset ∈ program.exportPlaces ∨ ∃ n, Walked program.walkedTrees n ∧ offset ∈ n.lookedPlaces

/-- **A plain program asks for the words that are taken for modifiers**, for looks, and for nothing
else. -/
theorem mem_planOf_of_plain (hplain : ArePlain program.items) (hkept : program.IsKept options)
    {a : Action} : a ∈ (planOf options source program).actions ↔
      (∃ offset, program.LooksAt offset ∧ a = .look offset) ∨
        ∃ n, Walked program.walkedTrees n ∧ ∃ m ∈ n.takenWords source, a = m.blanked := by
  have hrequests {n : Node} (hwalked : Walked program.walkedTrees n) : a ∈ n.requests source ↔
      (∃ offset ∈ n.lookedPlaces, a = .look offset) ∨ ∃ m ∈ n.takenWords source, a = m.blanked :=
    mem_requests_of_plain (hplain.mono (subtreesOf_singleton_subset
      (walkedTrees_subset program hwalked.mem_subtreesOf)))
  rw [(planOf_walks hplain hkept).2 a, mem_eraseAll_iff]
  constructor
  · rintro (⟨offset, hoffset, rfl⟩ | ⟨n, hwalked, ha⟩)
    · exact .inl ⟨offset, .inl hoffset, rfl⟩
    · rcases (hrequests hwalked).mp ha with ⟨offset, hoffset, rfl⟩ | htaken
      · exact .inl ⟨offset, .inr ⟨n, hwalked, hoffset⟩, rfl⟩
      · exact .inr ⟨n, hwalked, htaken⟩
  · rintro (⟨offset, hoffset | ⟨n, hwalked, hoffset⟩, rfl⟩ | ⟨n, hwalked, htaken⟩)
    · exact .inl ⟨offset, hoffset, rfl⟩
    · exact .inr ⟨n, hwalked, (hrequests hwalked).mpr (.inl ⟨offset, hoffset, rfl⟩)⟩
    · exact .inr ⟨n, hwalked, (hrequests hwalked).mpr (.inr htaken)⟩

theorem mem_takenWords {floor : Nat} {member : Node} {m : Modifier}
    (h : m ∈ takenWords source floor member) :
    m.isTyped = true ∧ ∃ key, m ∈ modifiersBetween source floor key := by
  unfold takenWords at h
  split at h
  · next key _ =>
    obtain ⟨hm, htyped⟩ := List.mem_filter.mp h
    exact ⟨htyped, key, hm⟩
  · exact absurd h List.not_mem_nil

/-- A word that is taken for a modifier is a word of the text, and is not blank. -/
theorem slice?_of_mem_takenWords {n : Node} {m : Modifier} (h : m ∈ n.takenWords source) :
    ∃ word, slice? source m.start m.stop = some word ∧ blankText word ≠ word := by
  unfold Node.takenWords at h
  split at h
  · obtain ⟨part, -, hm⟩ := List.mem_flatMap.mp h
    obtain ⟨htyped, key, hm⟩ := mem_takenWords hm
    obtain ⟨word, hslice, hspelled⟩ := slice?_of_mem_modifiersBetween hm
    exact ⟨word, hslice, blankText_typedModifier (hspelled htyped)⟩
  · exact absurd h List.not_mem_nil

end

/-! ## §3. Rewrites -/

section

variable {options : RewriteOptions} {source : List Char} {program : Program}

/-- A word that is taken for a modifier comes to one edit, which blanks it. -/
theorem edits?_blanked {n : Node} {m : Modifier} (h : m ∈ n.takenWords source) :
    ∃ e : Edit, m.blanked.edits? source = some [e] ∧ e.text = blankText (e.removed source) ∧
      e.text ≠ e.removed source := by
  obtain ⟨word, hslice, hchanges⟩ := slice?_of_mem_takenWords h
  have hword : word ≠ [] := by
    rintro rfl
    exact hchanges rfl
  have hlonger : ¬m.stop ≤ m.start := by
    obtain ⟨a, b, -, hstart, hstop⟩ := slice?_eq_some hslice
    have hpos := byteLength_pos hword
    rw [byteLength_append] at hstop
    omega
  refine ⟨⟨m.start, m.stop, blankText word⟩, ?_, ?_, ?_⟩
  · rw [Modifier.blanked, Action.edits?, if_neg hlonger, hslice]
    rfl
  · rw [Edit.removed_of_slice? hslice]
  · rw [Edit.removed_of_slice? hslice]
    exact hchanges

/-- Whether every place in which the text is looked at for a plain program is one between two
characters of it. -/
def Program.LooksFit (source : List Char) (program : Program) : Prop :=
  ∀ offset, program.LooksAt offset → (splitAt? source offset).isSome = true

/-- A plan panics that looks elsewhere than between two characters. -/
theorem carryOut_of_not_looksFit (hplain : ArePlain program.items)
    (hkept : program.IsKept options) (h : ¬program.LooksFit source) :
    (planOf options source program).carryOut source = .error .panicked := by
  unfold Program.LooksFit at h
  push Not at h
  obtain ⟨offset, hlooks, hsplits⟩ := h
  refine Plan.carryOut_panicked
    ((mem_planOf_of_plain hplain hkept).mpr (.inl ⟨offset, hlooks, rfl⟩)) ?_
  rw [Action.edits?, Option.not_isSome_iff_eq_none.mp hsplits]
  rfl

/-- The plan of a plain program refuses nothing. -/
theorem firstRefusal?_of_plain (hplain : ArePlain program.items) (hkept : program.IsKept options) :
    firstRefusal? (planOf options source program).actions = none := by
  cases hfirst : firstRefusal? (planOf options source program).actions with
  | none => rfl
  | some refusal =>
    rcases (mem_planOf_of_plain hplain hkept).mp (mem_of_firstRefusal? hfirst) with
      ⟨_, _, heq⟩ | ⟨n, -, m, -, heq⟩
    · exact absurd heq (by simp)
    · exact absurd heq (by simp [Modifier.blanked])

/-- All edits of a plain program can be done, since they are blanks over words of the text. -/
theorem exists_done_of_plain (hplain : ArePlain program.items) (hkept : program.IsKept options)
    (hlooks : program.LooksFit source) :
    ∃ edits out, editsOf? source (planOf options source program).actions = some edits ∧
      (planOf options source program).carryOut source = .ok out ∧
      Done source (carriedOut edits) source out := by
  have hfits : ∀ a ∈ (planOf options source program).actions,
      a.IsWithin source ∧ a.Fits source := by
    intro a ha
    rcases (mem_planOf_of_plain hplain hkept).mp ha with ⟨offset, hoffset, rfl⟩ | ⟨n, -, m, hm, rfl⟩
    · exact ⟨hlooks offset hoffset, trivial⟩
    · obtain ⟨word, hslice, -⟩ := slice?_of_mem_takenWords hm
      exact ⟨fun _ => by rw [hslice]; rfl, trivial⟩
  obtain ⟨edits, hedits, hfeeds⟩ := editsOf?_keepsFeeds hfits
  obtain ⟨out, hout⟩ := exists_applyEdits fun e he => by
    obtain ⟨old, hold, -⟩ := hfeeds e he
    rw [hold]
    rfl
  have hordered : ∀ e ∈ edits, e.start ≤ e.stop := by
    intro e he
    obtain ⟨old, hold, -⟩ := hfeeds e he
    exact le_of_slice? hold
  refine ⟨edits, out, hedits, Plan.carryOut_eq_ok_iff.mpr
    ⟨edits, hedits, firstRefusal?_of_plain hplain hkept, ?_⟩, applyEdits_done hordered hout⟩
  rw [(planOf_walks hplain hkept).1, List.append_nil]
  exact hout

/-- Each edit of a plain program is that of a word which is taken for a modifier, and changes it. -/
theorem taken_of_mem_edits {edits : List Edit} {e : Edit} (hplain : ArePlain program.items)
    (hkept : program.IsKept options)
    (hedits : editsOf? source (planOf options source program).actions = some edits)
    (he : e ∈ edits) :
    e.text = blankText (e.removed source) ∧ e.text ≠ e.removed source ∧
      ∃ n, Walked program.walkedTrees n ∧ n.takenWords source ≠ [] := by
  obtain ⟨a, ha, own, hown, he⟩ := (mem_editsOf? hedits e).mp he
  rcases (mem_planOf_of_plain hplain hkept).mp ha with ⟨offset, -, rfl⟩ | ⟨n, hwalked, m, hm, rfl⟩
  · exact absurd he (Action.eq_nil_of_look hown ▸ List.not_mem_nil)
  · obtain ⟨x, hx, hblank, hchanges⟩ := edits?_blanked hm
    obtain rfl := Option.some.inj (hown.symm.trans hx)
    obtain rfl := List.mem_singleton.mp he
    exact ⟨hblank, hchanges, n, hwalked, List.ne_nil_of_mem hm⟩

/-- A word that is taken for a modifier has an edit. -/
theorem ne_nil_of_takenWords {edits : List Edit} {n : Node} (hplain : ArePlain program.items)
    (hkept : program.IsKept options)
    (hedits : editsOf? source (planOf options source program).actions = some edits)
    (hwalked : Walked program.walkedTrees n) (htaken : n.takenWords source ≠ []) : edits ≠ [] := by
  obtain ⟨m, hm⟩ := List.exists_mem_of_ne_nil _ htaken
  obtain ⟨e, he, -⟩ := edits?_blanked hm
  have hmem : e ∈ edits := (mem_editsOf? hedits e).mpr
    ⟨m.blanked, (mem_planOf_of_plain hplain hkept).mpr (.inr ⟨n, hwalked, m, hm, rfl⟩), [e], he,
      List.mem_singleton_self e⟩
  exact List.ne_nil_of_mem hmem

/-- **The plan of a plain program is carried out**, if all looks are between two characters.  It
moves no character: the words that are taken for modifiers are made blank, and all else is kept. -/
theorem carryOut_of_plain (hplain : ArePlain program.items) (hkept : program.IsKept options)
    (hlooks : program.LooksFit source) :
    ∃ out, (planOf options source program).carryOut source = .ok out ∧
      List.Forall₂ Blanks source out ∧
      (out = source ↔ ∀ n, Walked program.walkedTrees n → n.takenWords source = []) := by
  obtain ⟨edits, out, hedits, hcarried, hdone⟩ := exists_done_of_plain hplain hkept hlooks
  have hwords : ∀ e ∈ carriedOut edits, e.text = blankText (e.removed source) ∧
      e.text ≠ e.removed source ∧ ∃ n, Walked program.walkedTrees n ∧ n.takenWords source ≠ [] :=
    fun e he => taken_of_mem_edits hplain hkept hedits (mem_of_mem_carriedOut he)
  have hblank : ∀ e ∈ carriedOut edits, e.text = blankText (e.removed source) :=
    fun e he => (hwords e he).1
  refine ⟨out, hcarried, hdone.blanked hblank, (hdone.eq_iff_of_blanks hblank).trans ?_⟩
  constructor
  · intro hsame n hwalked
    by_contra htaken
    -- The word's edit may begin inside another one; but then that one changes the text.
    obtain ⟨first, hfirst⟩ := List.exists_mem_of_ne_nil _
      (carriedOut_ne_nil (ne_nil_of_takenWords hplain hkept hedits hwalked htaken))
    exact (hwords first hfirst).2.1 (hsame first hfirst)
  · intro hnone e he
    obtain ⟨-, -, n, hwalked, htaken⟩ := hwords e he
    exact absurd (hnone n hwalked) htaken

/-- **A plain script is left alone exactly if no word in it is taken for a modifier.**  If every
place that is looked at for words is between two characters, its rewrite succeeds and every
character stays in its place; if one is not, its rewrite panics. -/
theorem rewrite_untouched_iff (hparse : parse ⟨options.typed, true⟩ source = .ok program)
    (hplain : ArePlain program.items) (hkept : program.IsKept options) :
    (program.LooksFit source → ∃ out, rewrite options source = .ok out ∧
        List.Forall₂ Blanks source out ∧
        (out = source ↔ ∀ n, Walked program.walkedTrees n → n.takenWords source = [])) ∧
      (¬program.LooksFit source → rewrite options source = .error .panicked) := by
  have hrewrite : rewrite options source = (planOf options source program).carryOut source := by
    rw [rewrite, hparse]
  rw [hrewrite]
  exact ⟨carryOut_of_plain hplain hkept, carryOut_of_not_looksFit hplain hkept⟩

end

/-- A plain module whose class has all kinds of modifiers, and a typed one in a comment. -/
def plainModule : List Char :=
  ("import a, \x7b b \x7d from 'a'\nclass C extends a \x7b\n  #x = 1\n"
    ++ "  static async *m(y, ...z) \x7b return this.#x \x7d\n  /* private */ get n() \x7b\x7d\n"
    ++ "  constructor(y = b) \x7b super(y) \x7d\n\x7d\nexport default C\n").toList

/-- How plain scripts stay what they are. -/
def leftAlone : RewriteOptions := ⟨false, .preserved, .shared, .helper, false⟩

/-- The places in which the text is looked at for a program are those of its parts. -/
theorem Program.LooksAt.of_subtrees {program : Program} {offset : Nat}
    (h : program.LooksAt offset) :
    ∃ n ∈ subtreesOf program.items, offset ∈ n.exportPlaces ++ n.lookedPlaces := by
  rcases h with h | ⟨n, hwalked, h⟩
  · unfold Program.exportPlaces at h
    split at h
    · obtain ⟨n, hn, h⟩ := List.mem_flatMap.mp h
      exact ⟨n, mem_subtreesOf_of_mem hn, List.mem_append_left _ h⟩
    · exact absurd h List.not_mem_nil
  · exact ⟨n, walkedTrees_subset program hwalked.mem_subtreesOf, List.mem_append_right _ h⟩

theorem rewrite_untouched_plainModule :
    ∃ program, parse ⟨false, true⟩ plainModule = .ok program ∧ ArePlain program.items ∧
      program.IsKept leftAlone ∧ program.LooksFit plainModule ∧
      rewrite leftAlone plainModule = .ok plainModule := by
  obtain ⟨program, hparse, hplain, hnone⟩ := exists_parse_of_any
    (p := fun program => ArePlain program.items ∧ ∀ n ∈ subtreesOf program.items,
      n.takenWords plainModule = [] ∧ ∀ offset ∈ n.exportPlaces ++ n.lookedPlaces,
        (splitAt? plainModule offset).isSome = true)
    (show (parse ⟨false, true⟩ plainModule).toOption.any _ = true by decide +kernel)
  have hkept : program.IsKept leftAlone := isKept_of_preserved hplain rfl rfl
  have hlooks : program.LooksFit plainModule := by
    intro offset hoffset
    obtain ⟨n, hn, hmem⟩ := hoffset.of_subtrees
    exact (hnone n hn).2 offset hmem
  obtain ⟨out, hout, -, huntouched⟩ :=
    (@rewrite_untouched_iff leftAlone _ _ hparse hplain hkept).1 hlooks
  have hsame : out = plainModule := huntouched.mpr fun n hwalked =>
    (hnone n (walkedTrees_subset program hwalked.mem_subtreesOf)).1
  exact ⟨program, hparse, hplain, hkept, hlooks, by rw [hout, hsame]⟩

/-- A class with a line comment in front of a method. -/
def commentedMember : List Char := "class A \x7b\n  // private\n  b() \x7b\x7d\n\x7d\n".toList

/-- **A word of a comment is taken for a modifier**: the script has no types at all, and yet it is
not left alone. -/
theorem rewrite_commentedMember :
    (∃ program, parse ⟨false, true⟩ commentedMember = .ok program ∧ ArePlain program.items ∧
        ∀ n ∈ program.items, isModuleItem n = false) ∧
      ∃ out, rewrite leftAlone commentedMember = .ok out ∧ out ≠ commentedMember :=
  ⟨exists_parse_of_any
      (p := fun program => ArePlain program.items ∧ ∀ n ∈ program.items, isModuleItem n = false)
      (show (parse ⟨false, true⟩ commentedMember).toOption.any _ = true by decide +kernel),
    exists_rewrite_of_any (by decide +kernel)⟩

end SingleFile.Script
