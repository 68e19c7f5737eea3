/-
  SingleFile.Proofs.Script.ExportStatements — STATEMENTS THAT EXPORT
  ──────────────────────────────────────────────────────────────────
  What a lowering writes for an item is a sequence of statements in the front
  of the item and another one behind it.  The assignments among them are told
  apart from the statements that only serve the item: the variables that it
  declares or reads a module through, and the calls that it stands for.

  Main results:
    * `Action.States` — an action with the statements that it writes.
    * `WritesExports` — the actions that write the exports of an item.
    * `exportActions_writes` — those of an exported declaration.
-/
import SingleFile.Proofs.Script.ExportNames

namespace SingleFile.Script

open SingleFile.Text

/-! ## §1. Statements -/

/-- A statement that a lowering writes. -/
inductive Statement where
  | empty
  | binds (name value : String)
  /-- A call of `require` or of a helper. -/
  | calls (text : String)
  | assigns (a : Assignment)

/-- The text of a statement. -/
def Statement.text : Statement → String
  | empty => ";"
  | binds name value => varText name value
  | calls text => text ++ ";"
  | assigns a => a.text

/-- The assignment that a statement is. -/
def Statement.assignment? : Statement → Option Assignment
  | assigns a => some a
  | _ => none

/-- The text of some statements. -/
def textOf (statements : List Statement) : String := String.join (statements.map Statement.text)

/-- The assignments among some statements. -/
def assignmentsOf (statements : List Statement) : List Assignment :=
  statements.filterMap Statement.assignment?

@[simp] theorem textOf_nil : textOf [] = "" := rfl

@[simp] theorem textOf_cons (statement : Statement) (rest : List Statement) :
    textOf (statement :: rest) = statement.text ++ textOf rest := by
  rw [textOf, List.map_cons, String.join_cons]
  rfl

@[simp] theorem textOf_append (front behind : List Statement) :
    textOf (front ++ behind) = textOf front ++ textOf behind := by
  induction front with
  | nil => rw [List.nil_append, textOf_nil, String.empty_append]
  | cons statement rest ih =>
    rw [List.cons_append, textOf_cons, textOf_cons, ih, String.append_assoc]

theorem textOf_assigns (assignments : List Assignment) :
    textOf (assignments.map .assigns) = String.join (assignments.map Assignment.text) := by
  rw [textOf, List.map_map]
  rfl

theorem Assignment.text_ne_empty (a : Assignment) : a.text ≠ "" := by
  obtain ⟨target, value⟩ := a
  cases value <;> simp [Assignment.text]

theorem assignmentsOf_assigns (assignments : List Assignment) :
    assignmentsOf (assignments.map .assigns) = assignments := by
  induction assignments with
  | nil => rfl
  | cons a rest ih => exact congrArg (a :: ·) ih

/-! ## §2. What is written for an item -/

/-- The module that an item reads through a variable. -/
def readModule? (n : Node) : Option Span :=
  match n.kind with
  | .importDecl decl => some decl.source
  | .exportList list => list.source
  | _ => none

/-- The statements that may be written for an item: assignments to exports, the variables that it
declares or reads a module through, and the calls that it stands for. -/
inductive Statement.Serves (options : RewriteOptions) (source : List Char) (n : Node) :
    Statement → Prop where
  | empty : Serves options source n .empty
  | assigns (a : Assignment) : Serves options source n (.assigns a)
  | requires {decl : Import} (hkind : n.kind = .importDecl decl) :
    Serves options source n (.calls (requireCall source decl.source))
  | passesOn {span : Span} {typeOnly : Bool} (hkind : n.kind = .exportAll span typeOnly) :
    Serves options source n (.calls (Helper.exportStar.call options.helpers
      ("require(" ++ textAt source span ++ "), exports")))
  | reads {span : Span} (hread : readModule? n = some span) (count : Nat) :
    Serves options source n (.binds (temporaryName count) (requireCall source span))
  | imports {decl : Import} {item : ImportItem} {module : String}
    (hkind : n.kind = .importDecl decl) (hitem : item ∈ decl.items)
    (hmodule : module = requireCall source decl.source ∨ ∃ count, module = temporaryName count) :
    Serves options source n
      (.binds item.binding.text (importedText options source module item))
  | names {name : String} {isExport typeOnly isExternal : Bool} {value : Span}
    (hkind : n.kind = .importEquals name isExport typeOnly isExternal value) :
    Serves options source n
      (.binds name (if isExternal then requireCall source value else textAt source value))

/-- Whether the values of another module's list are read through a variable that has the module. -/
def ReadsModule (source : List Char) (n : Node) (module : String) (front : List Statement) : Prop :=
  ∀ list span, n.kind = .exportList list → list.source = some span → assignmentsOf front ≠ [] →
    front.head? = some (.binds module (requireCall source span))

/-- Whether an item exports nothing where it stands. -/
def ExportsNothing (options : RewriteOptions) (source : List Char) (items : List Node) (n : Node) :
    Prop :=
  (∀ module, exportsInFront options source items module n = []) ∧ exportsBehind n = []

/-- The statements behind the last item: the exports that have their values when the module is
done. -/
def closingStatements (source : List Char) (items : List Node) : List Statement :=
  .empty :: (items.flatMap (exportsAtEnd source items)).map .assigns

/-- **An action with the statements that it writes** for one of some items.  In the front of an item
and behind it stand its exports, among statements that serve it; behind the last item stand those
of the lists.  All other actions write no statement. -/
inductive Action.States (options : RewriteOptions) (source : List Char) (items : List Node) :
    Action → List Statement → Prop where
  | front {n : Node} (hn : n ∈ items) (stop : Nat) (module : String) {statements : List Statement}
    (hserves : ∀ statement ∈ statements, statement.Serves options source n)
    (hexports : assignmentsOf statements = exportsInFront options source items module n)
    (hreads : ReadsModule source n module statements) :
    States options source items (.replace n.start stop (textOf statements)) statements
  | behind {n : Node} (hn : n ∈ items) {statements : List Statement}
    (hserves : ∀ statement ∈ statements, statement.Serves options source n)
    (hexports : assignmentsOf statements = exportsBehind n) :
    States options source items (.insert n.stop (textOf statements)) statements
  | closing {last : Node} (hlast : items.getLast? = some last) :
    States options source items (.insert last.stop (textOf (closingStatements source items)))
      (closingStatements source items)
  | look (offset : Nat) : States options source items (.look offset) []
  /-- An item that exports nothing is dropped. -/
  | dropped {n : Node} (hn : n ∈ items) (hnothing : ExportsNothing options source items n) :
    States options source items (blankSpan n.span) []
  /-- Types are taken out of an item. -/
  | erased {n : Node} {a : Action} (hn : n ∈ items) (ha : a ∈ erase source n) :
    States options source items a []
  /-- Types are taken out of what an item exports. -/
  | erasedPart {n d : Node} {a : Action} (hn : n ∈ items) (hd : n.children = [d])
    (ha : a ∈ erase source d) : States options source items a []

/-- What some statements assign to, action by action. -/
def targetsOf {α : Type} (stated : List (α × List Statement)) : List String :=
  (stated.flatMap fun p => assignmentsOf p.2).map Assignment.target

/-- Whether some actions write the exports of an item, each one once and in order, and nothing else
to `exports`. -/
def WritesExports (options : RewriteOptions) (source : List Char) (items : List Node) (n : Node)
    (actions : List Action) : Prop :=
  ∃ stated : List (Action × List Statement), actions = stated.map Prod.fst ∧
    (∀ p ∈ stated, p.1.States options source items p.2) ∧
    targetsOf stated = targetsAt options source items n

/-- Whether a text is that of statements that serve an item and assign nothing. -/
def IsSilent (options : RewriteOptions) (source : List Char) (n : Node) (text : String) : Prop :=
  ∃ statements, text = textOf statements ∧
    (∀ statement ∈ statements, statement.Serves options source n) ∧ assignmentsOf statements = []

/-! ## §3. Actions that write exports -/

variable {options : RewriteOptions} {source : List Char} {items : List Node} {n : Node}

section

variable {α : Type} {stated stated' : List (α × List Statement)}

theorem targetsOf_append :
    targetsOf (stated ++ stated') = targetsOf stated ++ targetsOf stated' := by
  rw [targetsOf, List.flatMap_append, List.map_append]
  rfl

theorem targetsOf_eq_nil (h : ∀ p ∈ stated, p.2 = []) : targetsOf stated = [] := by
  rw [targetsOf, List.flatMap_eq_nil_iff.mpr fun p hp => by rw [h p hp]; rfl]
  rfl

end

theorem ExportsNothing.targetsAt_eq (h : ExportsNothing options source items n) :
    targetsAt options source items n = [] := by
  rw [targetsAt, h.1, h.2]
  rfl

/-- Actions that write no statement may come behind those that write an item's exports. -/
theorem WritesExports.append_silent {own others : List Action}
    (h : WritesExports options source items n own)
    (hothers : ∀ a ∈ others, a.States options source items []) :
    WritesExports options source items n (own ++ others) := by
  obtain ⟨stated, rfl, hstates, htargets⟩ := h
  refine ⟨stated ++ others.map (·, []), ?_, List.forall_mem_append.mpr ⟨hstates, ?_⟩, ?_⟩
  · rw [List.map_append, List.map_map]
    exact congrArg (_ ++ ·) (List.map_id _).symm
  · exact List.forall_mem_map.mpr hothers
  · rw [targetsOf_append, htargets, targetsOf_eq_nil (List.forall_mem_map.mpr fun _ _ => rfl),
      List.append_nil]

/-- To look at the text writes nothing. -/
theorem WritesExports.look {own : List Action} {offset : Nat}
    (h : WritesExports options source items n own) :
    WritesExports options source items n (.look offset :: own) := by
  obtain ⟨stated, rfl, hstates, htargets⟩ := h
  exact ⟨(.look offset, []) :: stated, rfl, List.forall_mem_cons.mpr ⟨.look offset, hstates⟩,
    htargets⟩

/-- Nothing is written for an item without exports. -/
theorem WritesExports.nothing {own : List Action} (h : ExportsNothing options source items n)
    (hown : ∀ a ∈ own, a.States options source items []) :
    WritesExports options source items n own := by
  have hnone : WritesExports options source items n [] :=
    ⟨[], rfl, List.forall_mem_nil _, h.targetsAt_eq.symm⟩
  exact hnone.append_silent hown

/-- An item without exports is dropped. -/
theorem WritesExports.dropped (hn : n ∈ items) (h : ExportsNothing options source items n) :
    WritesExports options source items n [blankSpan n.span] :=
  .nothing h (List.forall_mem_singleton.mpr (.dropped hn h))

/-- Statements in the place of an item, with a variable for another module if one is read. -/
theorem WritesExports.reading {text : String} {stop : Nat} (hn : n ∈ items) (module : String)
    (front : List Statement) (htext : text = textOf front)
    (hserves : ∀ statement ∈ front, statement.Serves options source n)
    (hfront : assignmentsOf front = exportsInFront options source items module n)
    (hbehind : exportsBehind n = []) (hreads : ReadsModule source n module front) :
    WritesExports options source items n [.replace n.start stop text] := by
  refine ⟨[(.replace n.start stop text, front)], rfl, List.forall_mem_singleton.mpr ?_, ?_⟩
  · rw [htext]
    exact .front hn stop module hserves hfront hreads
  · rw [targetsOf, List.flatMap_singleton, hfront, target_exportsInFront, targetsAt, hbehind,
      List.append_nil]

theorem serves_assigns (assignments : List Assignment) :
    ∀ statement ∈ assignments.map Statement.assigns, statement.Serves options source n := by
  intro statement hstatement
  obtain ⟨a, -, rfl⟩ := List.mem_map.mp hstatement
  exact .assigns a

/-- Assignments in the front of an item that reads no other module, and behind it, where what is
not terminated is ended first. -/
theorem WritesExports.around {text text' : String} {stop : Nat} (hn : n ∈ items)
    (front behind : List Assignment) (terminated : Bool)
    (htext : text = textOf (front.map .assigns))
    (htext' : text' = (if terminated then "" else ";") ++ textOf (behind.map .assigns))
    (hfront : exportsInFront options source items "" n = front) (hbehind : exportsBehind n = behind)
    (hkind : ∀ list, n.kind ≠ .exportList list) :
    WritesExports options source items n [.replace n.start stop text, .insert n.stop text'] := by
  have hnone : assignmentsOf (if terminated then [] else [.empty]) = [] := by
    cases terminated <;> rfl
  have hstatements : assignmentsOf
      ((if terminated then [] else [.empty]) ++ behind.map .assigns) = behind := by
    rw [assignmentsOf, List.filterMap_append]
    show assignmentsOf _ ++ assignmentsOf _ = behind
    rw [hnone, assignmentsOf_assigns, List.nil_append]
  have htext'' : text' = textOf ((if terminated then [] else [.empty]) ++ behind.map .assigns) := by
    rw [htext', textOf_append]
    cases terminated <;> rfl
  refine ⟨[(.replace n.start stop text, front.map .assigns),
    (.insert n.stop text', (if terminated then [] else [.empty]) ++ behind.map .assigns)], rfl,
    List.forall_mem_cons.mpr ⟨?_, List.forall_mem_singleton.mpr ?_⟩, ?_⟩
  · rw [htext]
    exact .front hn stop "" (serves_assigns _) ((assignmentsOf_assigns _).trans hfront.symm)
      fun list _ h => absurd h (hkind list)
  · rw [htext'']
    refine .behind hn (List.forall_mem_append.mpr ⟨?_, serves_assigns _⟩)
      (hstatements.trans hbehind.symm)
    cases terminated with
    | false => exact List.forall_mem_singleton.mpr .empty
    | true => exact List.forall_mem_nil _
  · rw [targetsOf, List.flatMap_cons, List.flatMap_singleton, hstatements, assignmentsOf_assigns,
      targetsAt, hfront, hbehind]

/-- Assignments in the front of an item that reads no other module. -/
theorem WritesExports.inFront {text : String} {stop : Nat} (hn : n ∈ items)
    (assignments : List Assignment) (htext : text = textOf (assignments.map .assigns))
    (hfront : exportsInFront options source items "" n = assignments)
    (hbehind : exportsBehind n = []) (hkind : ∀ list, n.kind ≠ .exportList list) :
    WritesExports options source items n [.replace n.start stop text] :=
  .reading hn "" _ htext (serves_assigns assignments)
    ((assignmentsOf_assigns _).trans hfront.symm) hbehind fun list _ h => absurd h (hkind list)

/-- An item without exports is replaced by statements that assign nothing. -/
theorem WritesExports.replaced {text : String} {stop : Nat} (hn : n ∈ items)
    (h : ExportsNothing options source items n) (hsilent : IsSilent options source n text) :
    WritesExports options source items n [.replace n.start stop text] := by
  obtain ⟨front, htext, hserves, hnone⟩ := hsilent
  exact .reading hn "" front htext hserves (hnone.trans (h.1 "").symm) h.2
    fun _ _ _ _ hsome => absurd hnone hsome

theorem IsSilent.empty : IsSilent options source n "" := ⟨[], rfl, List.forall_mem_nil _, rfl⟩

theorem IsSilent.calls {text : String} (h : (Statement.calls text).Serves options source n) :
    IsSilent options source n (text ++ ";") :=
  ⟨[.calls text], by rw [textOf_cons, textOf_nil, String.append_empty]; rfl,
    List.forall_mem_singleton.mpr h, rfl⟩

theorem IsSilent.binds {name value : String}
    (h : (Statement.binds name value).Serves options source n) :
    IsSilent options source n (varText name value) :=
  ⟨[.binds name value], by rw [textOf_cons, textOf_nil, String.append_empty]; rfl,
    List.forall_mem_singleton.mpr h, rfl⟩

/-- The exports of a declaration are written around it. -/
theorem exportActions_writes {d : Node} (hn : n ∈ items) (hkind : n.kind = .exportDecl)
    (hchildren : n.children = [d]) (htype : isTypeOnly d = false) :
    WritesExports options source items n (exportActions source n d) := by
  have hlist : ∀ list, n.kind ≠ .exportList list := by simp [hkind]
  have hown (names : List String) :
      String.join (names.map fun name => exportOf name name)
        = textOf ((names.map ownExport).map .assigns) := by
    rw [textOf_assigns, List.map_map]
    rfl
  unfold exportActions
  cases hfunction : isFunctionDecl d with
  | true =>
    have hnames : exportedNames d = [] ∧ (declaredName? d).toList = exportNames d := by
      unfold isFunctionDecl at hfunction
      split at hfunction
      · next hd => simp [exportedNames, exportNames, hd]
      · exact absurd hfunction (by simp)
    rw [hnames.1, hnames.2]
    have hfront : exportsInFront options source items "" n = (exportNames d).map ownExport := by
      simp [exportsInFront, hkind, hchildren, hfunction, htype]
    have hbehind : exportsBehind n = [] := by
      simp [exportsBehind, hkind, hchildren, hfunction]
    exact .inFront hn _ (hown _) hfront hbehind hlist
  | false =>
    have hnames : exportedNames d = exportNames d := by
      unfold isFunctionDecl at hfunction
      unfold exportedNames exportNames
      split at hfunction
      · exact absurd hfunction (by simp)
      · next hd => split <;> simp_all
    have hfront : exportsInFront options source items "" n = [] := by
      simp [exportsInFront, hkind, hchildren, hfunction]
    have hbehind : exportsBehind n = (exportNames d).map ownExport := by
      simp [exportsBehind, hkind, hchildren, hfunction, htype]
    rw [hnames]
    dsimp only
    cases hsome : exportNames d with
    | nil =>
      rw [hsome] at hbehind
      exact .inFront hn [] rfl hfront hbehind hlist
    | cons name names =>
      rw [hsome] at hbehind
      have hwrites : WritesExports options source items n
          [.replace n.start (behindKeyword source n.start "export") "",
            .insert n.stop ((if isEnumDecl d || endsWithSemicolon source n.stop then "" else ";")
              ++ String.join ((name :: names).map fun name => exportOf name name))] :=
        .around hn [] _ _ rfl (by rw [← hown]) hfront hbehind hlist
      cases henum : isEnumDecl d with
      | true => rwa [henum] at hwrites
      | false =>
        rw [henum] at hwrites
        exact hwrites.look

end SingleFile.Script
