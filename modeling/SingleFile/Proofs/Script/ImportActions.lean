/-
  SingleFile.Proofs.Script.ImportActions — WHAT BECOMES OF AN IMPORT
  ──────────────────────────────────────────────────────────────────
  Support layer: an import is dropped, lowered to variables, left as it is or
  written anew with fewer items.  Which of these it is depends on the module
  form and on the names that are used, and on nothing else.

  Contents:
    * what an import is written as: `requireText_gives_required` where imports
      are lowered, `importText_gives` where they stay.
    * `ImportBecomes` — what becomes of an import.
    * `lowerImport_becomes`, `lowerImportEquals_becomes` — one lemma for each
      way to import.
-/
import SingleFile.Proofs.Script.ExportNames
import SingleFile.Proofs.Script.ItemActions

namespace SingleFile.Script

open SingleFile.Text

variable {known : Module}

/-! ## §1. What imports are written as -/

/-- **What an import is lowered to**: a call for the effects of a module, or variables for parts of
it, one for each name. -/
inductive Requires (options : RewriteOptions) (source : List Char) (span : Span)
    (items : List ImportItem) : String → Prop where
  | effects (hitems : items = []) :
    Requires options source span items (requireCall source span ++ ";")
  /-- A single name is read off the call itself. -/
  | single {item : ImportItem} (hitems : items = [item]) :
    Requires options source span items (varText item.binding.text
      (importedText options source (requireCall source span) item))
  /-- More names share a variable for the module. -/
  | shared (count : Nat) (hitems : items ≠ []) :
    Requires options source span items (varText (temporaryName count) (requireCall source span)
      ++ String.join (items.map fun item => varText item.binding.text
        (importedText options source (temporaryName count) item)))

theorem requireText_gives_required (span : Span) (items : List ImportItem) :
    Lower.Gives known (requireText items (textAt known.source span))
      (Requires known.options known.source span items) := by
  have hbind (module : String) (item : ImportItem) :
      Lower.Gives known (do return varText item.binding.text (← importValue module item))
        fun t => t = varText item.binding.text
          (importedText known.options known.source module item) := by
    refine .bind (importValue_gives module item) ?_
    rintro _ rfl
    exact .pure rfl
  have hshared (hitems : items ≠ []) : Lower.Gives known (do
      let module ← Lower.temporary
      let bindings ← items.mapM fun item => do
        return varText item.binding.text (← importValue module item)
      return varText module ("require(" ++ textAt known.source span ++ ")")
        ++ String.join bindings) (Requires known.options known.source span items) := by
    refine .bind temporary_gives ?_
    rintro _ ⟨count, rfl⟩
    refine .bind (.mapM_eq _ fun item _ => hbind (temporaryName count) item) ?_
    rintro _ rfl
    exact .pure (.shared count hitems)
  unfold requireText
  dsimp only
  split
  · exact .pure (.effects rfl)
  · next item =>
    split
    · refine (hbind _ item).mono ?_
      rintro _ rfl
      exact .single rfl
    · exact hshared (List.cons_ne_nil item [])
  · next hnil _ => exact hshared hnil

/-- An import item outside of braces. -/
def ImportItem.clause? : ImportItem → Option String
  | .defaultItem binding => some binding.text
  | .wholeModule binding => some ("* as " ++ binding.text)
  | .named .. => none

/-- An import item in braces. -/
def ImportItem.specifier? (source : List Char) : ImportItem → Option String
  | .named binding (some name) _ => some (textAt source name.span ++ " as " ++ binding.text)
  | .named binding none _ => some binding.text
  | _ => none

/-- The clauses of an import statement; the names in braces are the last one. -/
def importClauses (source : List Char) (items : List ImportItem) : List String :=
  let named := items.filterMap (·.specifier? source)
  items.filterMap ImportItem.clause?
    ++ if named.isEmpty then [] else ["\x7b " ++ ", ".intercalate named ++ " \x7d"]

/-- **What an import is written as** where imports stay. -/
def importStatement (source : List Char) (items : List ImportItem) (span : Span) : String :=
  "import " ++ ", ".intercalate (importClauses source items) ++ " from " ++ textAt source span
    ++ ";"

/-- A loop that never ends early keeps what each round does. -/
theorem Lower.Gives.forIn {β σ : Type} (result : List β → σ → Prop) {items : List β} {start : σ}
    {step : β → σ → Lower (ForInStep σ)} (hstart : result items start)
    (hstep : ∀ x rest s, result (x :: rest) s →
      Lower.Gives known (step x s) fun r => ∃ next, r = .yield next ∧ result rest next) :
    Lower.Gives known (ForIn.forIn items start step) (result []) := by
  induction items generalizing start with
  | nil => exact .pure hstart
  | cons x rest ih =>
    rw [List.forIn_cons]
    refine .bind (hstep x rest start hstart) ?_
    rintro r ⟨next, rfl, hnext⟩
    exact ih hnext

theorem importText_gives (span : Span) (items : List ImportItem) :
    Lower.Gives known (importText items (textAt known.source span))
      fun t => t = importStatement known.source items span := by
  unfold importText
  -- What is found so far, and what the items to come will add, is the whole.
  refine .bind (.forIn (fun rest found =>
      found.1 ++ rest.filterMap ImportItem.clause? = items.filterMap ImportItem.clause? ∧
      found.2 ++ rest.filterMap (·.specifier? known.source)
        = items.filterMap (·.specifier? known.source)) ?_ ?_) ?_
  · exact ⟨rfl, rfl⟩
  · rintro item rest ⟨clauses, named⟩ ⟨hclauses, hnamed⟩
    rw [List.filterMap_cons] at hclauses hnamed
    cases item with
    | defaultItem binding =>
      exact .pure ⟨_, rfl, by rw [← hclauses, List.append_assoc]; rfl, hnamed⟩
    | wholeModule binding =>
      exact .pure ⟨_, rfl, by rw [← hclauses, List.append_assoc]; rfl, hnamed⟩
    | named binding imported typeOnly =>
      cases imported with
      | none => exact .pure ⟨_, rfl, hclauses, by rw [← hnamed, List.append_assoc]; rfl⟩
      | some name =>
        refine .bind (text_gives name.span) ?_
        rintro _ rfl
        exact .pure ⟨_, rfl, hclauses, by rw [← hnamed, List.append_assoc]; rfl⟩
  · rintro ⟨clauses, named⟩ ⟨hclauses, hnamed⟩
    rw [List.filterMap_nil, List.append_nil] at hclauses hnamed
    dsimp only at hclauses hnamed ⊢
    subst hclauses hnamed
    split
    · next hsome =>
      refine .pure ?_
      rw [importStatement, importClauses, if_neg (by simpa using hsome)]
    · next hnone =>
      refine .pure ?_
      rw [importStatement, importClauses, if_pos (by simpa using hnone), List.append_nil]

/-! ## §2. Imports that stay -/

/-- The items of an import that are kept: those that are used, and not marked as types. -/
def keptItems (used : String → Bool) (decl : Import) : List ImportItem :=
  decl.items.filter fun item => !decl.isMarked item && used item.binding.text

/-- Whether an import stays: it does unless it is of types only, or has items and none is kept. -/
def Import.Stays (used : String → Bool) (decl : Import) : Prop :=
  decl.typeOnly = false ∧ (decl.items = [] ∨ keptItems used decl ≠ [])

/-- Whether a name given to an entity or module stays: it does unless it is of a type only, or is
neither used nor exported. -/
def AliasStays (used : String → Bool) (name : String) (isExport typeOnly : Bool) : Prop :=
  typeOnly = false ∧ (isExport = true ∨ used name = true)

/-- The statement that gives a name to an entity or module. -/
def aliasText (options : RewriteOptions) (source : List Char) (name : String)
    (isExport isExternal : Bool) (value : Span) : String :=
  let binding := varText name
    (if isExternal then requireCall source value else textAt source value)
  if isExport then
    match options.form with
    | .commonJs => binding ++ exportOf name name
    | .preserved => "export " ++ binding
  else binding

/-- **What becomes of an import.**  All of one that does not stay is blanked, and one that stays has
its kept items and no others. -/
inductive ImportBecomes (options : RewriteOptions) (source : List Char) (used : String → Bool)
    (n : Node) : List Action → Prop where
  | dropped {decl : Import} (hkind : n.kind = .importDecl decl) (hdropped : ¬decl.Stays used) :
    ImportBecomes options source used n [blankSpan n.span]
  | required {decl : Import} {text : String} (hkind : n.kind = .importDecl decl)
    (hstays : decl.Stays used) (hform : options.form = .commonJs)
    (htext : Requires options source decl.source (keptItems used decl) text) :
    ImportBecomes options source used n [.replace n.start n.stop text]
  /-- An import that keeps all its items is left as it is written. -/
  | whole {decl : Import} (hkind : n.kind = .importDecl decl) (hstays : decl.Stays used)
    (hform : options.form = .preserved) (hall : keptItems used decl = decl.items) :
    ImportBecomes options source used n []
  | restated {decl : Import} (hkind : n.kind = .importDecl decl) (hstays : decl.Stays used)
    (hform : options.form = .preserved) (hfewer : keptItems used decl ≠ decl.items) :
    ImportBecomes options source used n
      [.replace n.start n.stop (importStatement source (keptItems used decl) decl.source)]
  | aliasDropped {name : String} {isExport typeOnly isExternal : Bool} {value : Span}
    (hkind : n.kind = .importEquals name isExport typeOnly isExternal value)
    (hdropped : ¬AliasStays used name isExport typeOnly) :
    ImportBecomes options source used n [blankSpan n.span]
  | aliasKept {name : String} {isExport typeOnly isExternal : Bool} {value : Span}
    (hkind : n.kind = .importEquals name isExport typeOnly isExternal value)
    (hstays : AliasStays used name isExport typeOnly) :
    ImportBecomes options source used n
      [.replace n.start n.stop (aliasText options source name isExport isExternal value)]

/-! ## §3. Steps -/

/-- The names that count as used: all of them, unless unused imports are dropped. -/
def Module.uses (known : Module) (name : String) : Bool :=
  (known.references.map fun names => names.contains name).getD true

variable {n : Node}

theorem record_becomes {actions : List Action}
    (h : ImportBecomes known.options known.source known.uses n actions) :
    Lower.Does known (Lower.record actions) fun _ xs d =>
      ImportBecomes known.options known.source known.uses n xs ∧ d = "" := by
  refine (Lower.Does.record actions).mono ?_
  rintro _ _ _ ⟨rfl, rfl⟩
  exact ⟨h, rfl⟩

/-- In an import that is not of types only, the names that count as used are kept. -/
theorem filter_keepsImport {decl : Import} (htype : decl.typeOnly = false) :
    decl.items.filter (keepsImport known.references) = keptItems known.uses decl := by
  refine List.filter_congr fun item _ => ?_
  cases item <;> simp [keepsImport, Import.isMarked, Module.uses, htype]

theorem lowerImport_becomes {decl : Import} (hkind : n.kind = .importDecl decl) :
    Lower.Does known (lowerImport n decl) fun _ xs d =>
      ImportBecomes known.options known.source known.uses n xs ∧ d = "" := by
  unfold lowerImport
  refine .bindRead ?_
  dsimp only
  -- The filter of the step does not know of imports of types only, so they come first.
  cases htype : decl.typeOnly with
  | true => exact record_becomes (.dropped hkind fun h => Bool.noConfusion (htype.symm.trans h.1))
  | false =>
    rw [filter_keepsImport htype]
    split
    · next hnone =>
      obtain ⟨hitems, hkept⟩ : decl.items ≠ [] ∧ keptItems known.uses decl = [] := by
        simpa using hnone
      exact record_becomes (.dropped hkind fun h => h.2.elim hitems (absurd hkept))
    · next hsome =>
      have hstays : decl.Stays known.uses := by
        refine ⟨htype, or_iff_not_imp_left.mpr fun hitems hkept => hsome ?_⟩
        simpa [hkept] using hitems
      refine .after (text_gives _) ?_
      rintro _ rfl
      refine ifCommonJs_does_either (fun hform => ?_) fun hform => ?_
      · refine .after (requireText_gives_required _ _) fun text htext => ?_
        exact record_becomes (.required hkind hstays hform htext)
      · split
        · next hfewer =>
          refine .after (importText_gives _ _) ?_
          rintro _ rfl
          refine record_becomes (.restated hkind hstays hform fun hall => ?_)
          simp [hall] at hfewer
        · next hlength =>
          have hall : keptItems known.uses decl = decl.items :=
            List.filter_sublist.eq_of_length (by simpa [keptItems] using hlength)
          exact fun _ =>
            ⟨[], "", rfl, String.append_empty.symm, .whole hkind hstays hform hall, rfl⟩

theorem lowerImportEquals_becomes {name : String} {isExport typeOnly isExternal : Bool}
    {value : Span} (hkind : n.kind = .importEquals name isExport typeOnly isExternal value) :
    Lower.Does known (lowerImportEquals n name isExport typeOnly isExternal value)
      fun _ xs d => ImportBecomes known.options known.source known.uses n xs ∧ d = "" := by
  unfold lowerImportEquals
  refine .bindRead ?_
  dsimp only
  split
  · next hdropped =>
    refine record_becomes (.aliasDropped hkind ?_)
    rintro ⟨htype, hused⟩
    cases isExport <;> simp_all [Module.uses]
  · next hkept =>
    have hstays : AliasStays known.uses name isExport typeOnly := by
      cases isExport <;> cases typeOnly <;> simp_all [AliasStays, Module.uses]
    have hwritten : ∀ text,
        text = aliasText known.options known.source name isExport isExternal value →
        Lower.Does known (Lower.record [.replace n.start n.stop text]) fun _ xs d =>
          ImportBecomes known.options known.source known.uses n xs ∧ d = "" := by
      rintro _ rfl
      exact record_becomes (.aliasKept hkind hstays)
    refine .after (text_gives _) ?_
    rintro _ rfl
    cases isExport with
    | false => exact hwritten _ rfl
    | true =>
      refine ifCommonJs_does_either (fun hform => ?_) fun hform => ?_
      · exact .after markExports_gives fun _ _ => hwritten _ (by rw [aliasText, hform]; rfl)
      · exact hwritten _ (by rw [aliasText, hform]; rfl)

end SingleFile.Script
