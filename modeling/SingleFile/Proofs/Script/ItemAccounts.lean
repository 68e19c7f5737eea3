/-
  SingleFile.Proofs.Script.ItemAccounts — MADE NAMES ITEM BY ITEM
  ───────────────────────────────────────────────────────────────
  Every kind of item keeps the account of made names.  Only imports, lists of
  another module's names and exports of everything use any; all other items
  copy and rearrange the program's own text.

  Main results:
    * `lowerItem_leads` — an item keeps the account.  The step.
    * `lowered_isAccounted` — the account of a module.  The run.
    * `planOf_entries` — what a plan is made of.
-/
import SingleFile.Proofs.Script.NameAccounts

namespace SingleFile.Script

open SingleFile.Text

variable {known : Module} {items : List Node} {helpers : List Helper} {n : Node}

/-! ## §1. Items -/

/-- Whether an item keeps the account of what is made up. -/
def Lower.KeepsAccount (known : Module) (items : List Node) (helpers : List Helper)
    (step : Lower Unit) : Prop :=
  Lower.Leads known helpers (Lowering.IsAccounted known.source items helpers none) step
    fun _ => Lowering.IsAccounted known.source items helpers none

theorem words_subset_of_import {decl : Import} {item : ImportItem} (hn : n ∈ items)
    (hkind : n.kind = .importDecl decl) (hitem : item ∈ decl.items) :
    item.words ⊆ namesIn items := by
  intro word hword
  refine mem_namesIn (mem_subtreesOf_of_mem hn) ?_
  rw [hkind]
  exact List.mem_flatMap.mpr ⟨item, hitem, hword⟩

theorem words_subset_of_exportList {list : ExportList} {entry : ExportItem} (hn : n ∈ items)
    (hkind : n.kind = .exportList list) (hentry : entry ∈ list.items) :
    entry.words ⊆ namesIn items := by
  intro word hword
  refine mem_namesIn (mem_subtreesOf_of_mem hn) ?_
  rw [hkind]
  exact List.mem_flatMap.mpr ⟨entry, hentry, hword⟩

theorem subtreesOf_child_subset {child : Node} (hn : n ∈ items) (hchildren : n.children = [child]) :
    subtreesOf [child] ⊆ subtreesOf items := by
  have hbelow := subtreesOf_children_of_mem_subtreesOf items (mem_subtreesOf_of_mem hn)
  rwa [hchildren] at hbelow

theorem lowerImport_leads {decl : Import} (hform : known.options.form = .commonJs) (hn : n ∈ items)
    (hkind : n.kind = .importDecl decl) :
    Lower.KeepsAccount known items helpers (lowerImport n decl) := by
  unfold lowerImport
  refine .bindRead ?_
  dsimp only
  split
  · exact blankSpan_leads n.span
  · refine .bindText (.bindCommonJs hform ?_)
    exact .bind (requireText_leads (fun _ => .copied decl.source) fun item hitem =>
      words_subset_of_import hn hkind (List.mem_of_mem_filter hitem)) (replace_leads hn)

theorem lowerImportEquals_leads {name : String} {isExport typeOnly isExternal : Bool}
    {value : Span} (hform : known.options.form = .commonJs) (hn : n ∈ items)
    (hkind : n.kind = .importEquals name isExport typeOnly isExternal value) :
    Lower.KeepsAccount known items helpers
      (lowerImportEquals n name isExport typeOnly isExternal value) := by
  have hname : name ∈ namesIn items := by
    refine mem_namesIn (mem_subtreesOf_of_mem hn) ?_
    rw [hkind]
    exact List.mem_singleton_self _
  have hbinding : IsSpelled known.source items [] (varText name
      (if isExternal then "require(" ++ textAt known.source value ++ ")"
        else textAt known.source value)) := by
    refine varText_spelled hname ?_
    split
    · exact requireCall_spelled value
    · exact .copied value
  unfold lowerImportEquals
  refine .bindRead ?_
  dsimp only
  split
  · exact blankSpan_leads n.span
  · refine .bindText ?_
    split
    · exact record_leads (List.forall_mem_singleton.mpr hbinding)
    · refine .bindCommonJs hform (.bind markExports_leads fun _ => ?_)
      exact record_leads (List.forall_mem_singleton.mpr
        (hbinding.append (exportOf_spelled (.name hname) (.name hname))))

theorem lowerExport_leads {declaration : Node} (hform : known.options.form = .commonJs)
    (hn : n ∈ items) (hchildren : n.children = [declaration]) :
    Lower.KeepsAccount known items helpers (lowerExport n declaration) := by
  unfold lowerExport
  split
  · exact blankSpan_leads n.span
  · refine .bind (look_leads n.start) fun _ => ?_
    refine .bindCommonJs hform (.bind markExports_leads fun _ => .bindRead ?_)
    exact recordThenErase_leads (fun a ha => exportActions_spelled hn hchildren ha)
      (subtreesOf_child_subset hn hchildren)

theorem lowerDefault_leads {declaration : Node} (hform : known.options.form = .commonJs)
    (hn : n ∈ items) (hchildren : n.children = [declaration]) :
    Lower.KeepsAccount known items helpers (lowerDefault n declaration) := by
  have hsub := subtreesOf_child_subset hn hchildren
  have hexport {name : String} (hname : declaredName? declaration = some name) :
      IsSpelled known.source items [] (exportOf "default" name) :=
    exportOf_spelled (.word (by decide)) (.name (namesIn_subset hsub
      (namesIn_subset (subtreesOf_children_subset declaration) (declaredName?_mem_namesIn hname))))
  unfold lowerDefault
  dsimp only
  split
  · exact blankSpan_leads n.span
  · split
    · exact blankSpan_leads n.span
    · refine .bindCommonJs hform (.bind markExports_leads fun _ => .bindRead ?_)
      refine .bind (look_leads _) fun _ => .bind (look_leads _) fun _ => ?_
      split
      · next hname _ =>
        exact recordThenErase_leads (List.forall_mem_singleton.mpr (hexport hname)) hsub
      · next hname _ =>
        exact recordThenErase_leads (List.forall_mem_cons.mpr ⟨.empty,
          List.forall_mem_singleton.mpr ((IsSpelled.word (by decide)).append (hexport hname))⟩) hsub
      · have hopen : IsSpelled known.source items [] "exports.default = " := .word (by decide)
        have hclose : IsSpelled known.source items [] ";" := .word (by decide)
        exact recordThenErase_leads (List.forall_mem_cons.mpr ⟨hopen,
          List.forall_mem_singleton.mpr hclose⟩) hsub

theorem lowerDefaultExpression_leads {value : Node} (hform : known.options.form = .commonJs)
    (hn : n ∈ items) (hchildren : n.children = [value]) :
    Lower.KeepsAccount known items helpers (lowerDefaultExpression n value) := by
  unfold lowerDefaultExpression
  refine .bindCommonJs hform (.bind markExports_leads fun _ => ?_)
  have hopen : IsSpelled known.source items [] "exports.default = " := .word (by decide)
  exact recordThenErase_leads (List.forall_mem_singleton.mpr hopen)
    (subtreesOf_child_subset hn hchildren)

/-- Assignments are put off that use no made name. -/
theorem putOff_leads {text : String} :
    Lower.Leads known helpers (fun s => s.IsAccounted known.source items helpers none ∧
        IsSpelled known.source items [] text)
      (modify fun s => { s with deferred := s.deferred ++ text })
      fun _ => Lowering.IsAccounted known.source items helpers none :=
  .same (fun _ => rfl) fun _ ⟨hs, htext⟩ => ⟨hs.entries, hs.deferred.append htext, hs.helpers⟩

theorem lowerExportList_leads {list : ExportList} (hform : known.options.form = .commonJs)
    (hn : n ∈ items) (hkind : n.kind = .exportList list) :
    Lower.KeepsAccount known items helpers (lowerExportList n list) := by
  have hwords {entry : ExportItem} {isLocal : Bool}
      (hentry : entry ∈ list.items.filter (keepsExport known.typeNames isLocal)) :
      entry.words ⊆ namesIn items :=
    words_subset_of_exportList hn hkind (List.mem_of_mem_filter hentry)
  unfold lowerExportList
  refine .bindRead ?_
  dsimp only
  split
  · exact blankSpan_leads n.span
  · refine .bindCommonJs hform ?_
    rw [Bool.not_true, if_neg (by decide)]
    refine .bind markExports_leads fun _ => ?_
    cases hsource : list.source with
    | none =>
      refine .bind (.mapM fun entry hentry => localExport_spells (hwords hentry)) fun texts => ?_
      refine .bind (putOff_leads.of_imp fun s hs => ⟨hs.1, .join hs.2⟩) fun _ => ?_
      exact record_leads (List.forall_mem_singleton.mpr .empty)
    | some span =>
      refine bindTemporary fun count => .bindText ?_
      refine .bind (.mapM fun entry hentry => foreignExport_spells
        (helpers_subset_availableTo (some count) helpers)
        (temporaryName_spelled known.source items count helpers) (hwords hentry)) fun texts => ?_
      exact (replace_leads hn _).of_imp fun s hs =>
        .declaring hs.1 (requireCall_spelled span) (.join hs.2)

theorem lowerExportAll_leads {span : Span} {typeOnly : Bool}
    (hform : known.options.form = .commonJs) (hn : n ∈ items) :
    Lower.KeepsAccount known items helpers (lowerExportAll n span typeOnly) := by
  unfold lowerExportAll
  split
  · exact blankSpan_leads n.span
  · refine .bindCommonJs hform (.bind markExports_leads fun _ => .bindText ?_)
    have harguments : IsSpelled known.source items (availableTo none helpers)
        ("require(" ++ textAt known.source span ++ "), exports") :=
      ((IsSpelled.word (by decide)).append (.copied span)).append (.word (by decide))
    refine .bind (callHelper_spells (helpers_subset_availableTo none helpers) harguments)
      fun call => ?_
    exact (replace_leads hn _).of_imp fun s hs => .plain hs.1 (hs.2.append (.word (by decide)))

/-- **An item keeps the account of what is made up.**  The step. -/
theorem lowerItem_leads (hform : known.options.form = .commonJs) (hn : n ∈ items) :
    Lower.KeepsAccount known items helpers (lowerItem n) := by
  unfold lowerItem
  split
  · next hkind => exact lowerImport_leads hform hn hkind
  · next hkind => exact lowerImportEquals_leads hform hn hkind
  · next hchildren => exact lowerExport_leads hform hn hchildren
  · next hchildren => exact lowerDefault_leads hform hn hchildren
  · next hchildren => exact lowerDefaultExpression_leads hform hn hchildren
  · next hkind => exact lowerExportList_leads hform hn hkind
  · exact lowerExportAll_leads hform hn
  · next hchildren =>
    have hopen : IsSpelled known.source items [] "module.exports = " := .word (by decide)
    exact recordThenErase_leads (List.forall_mem_singleton.mpr hopen)
      (subtreesOf_child_subset hn hchildren)
  · exact blankSpan_leads n.span
  · exact eraseTypes_leads (subtreesOf_singleton_subset (mem_subtreesOf_of_mem hn))

/-! ## §2. Modules -/

/-- **All items keep the account.**  The run. -/
theorem lowerEach_leads (hform : known.options.form = .commonJs) {nodes : List Node}
    (hnodes : nodes ⊆ items) : Lower.KeepsAccount known items helpers (lowerEach nodes) := by
  unfold lowerEach
  induction nodes with
  | nil => exact .pure fun _ hs => hs
  | cons n nodes ih =>
    obtain ⟨hn, hnodes⟩ := List.cons_subset.mp hnodes
    rw [List.forIn_cons]
    have hitem : Lower.KeepsAccount known items helpers (lowerItem n) := lowerItem_leads hform hn
    have hboth := hitem.bind fun _ => ih hnodes
    exact fun s => hboth s

theorem closing_spelled {source : List Char} {deferred : String} {a : Action}
    (hdeferred : IsSpelled source items [] deferred) (ha : a ∈ closing items deferred) :
    IsSpelled source items [] a.text := by
  unfold closing at ha
  split at ha
  · obtain rfl := List.mem_singleton.mp ha
    exact (IsSpelled.word (by decide)).append hdeferred
  · exact absurd ha List.not_mem_nil

variable {options : RewriteOptions}

/-- **The account of a lowered module**, kept for the helpers that it asks for. -/
theorem lowered_isAccounted (hform : options.form = .commonJs) (source : List Char)
    (items : List Node) :
    (lowered options source items).IsAccounted source items
      (lowered options source items).helpers none := by
  have hlowered : lowered options source items
      = (((lowerItems items).run (knownOf options source items)).run Lowering.start).2 := rfl
  have hstart (helpers : List Helper) : Lowering.start.IsAccounted source items helpers none :=
    ⟨⟨[], rfl, rfl, List.forall_mem_nil _⟩, .empty, List.nodup_nil⟩
  obtain ⟨done, hdone⟩ : ∃ done,
      (((lowerEach items).run (knownOf options source items)).run Lowering.start).2 = done :=
    ⟨_, rfl⟩
  have haccount : done.IsAccounted source items done.helpers none := by
    have hkeeps : Lower.KeepsAccount (knownOf options source items) items done.helpers
        (lowerEach items) := lowerEach_leads hform (List.Subset.refl items)
    have hrun := (hkeeps Lowering.start).2
    rw [hdone] at hrun
    exact hrun (List.Subset.refl _) (hstart _)
  rw [hlowered, lowerItems_eq _ items Lowering.start hdone]
  split
  · exact haccount
  · obtain ⟨new, hnew, hcount, hmade⟩ := exists_entries done.helpers
      fun a ha => closing_spelled haccount.deferred ha
    rw [← hnew]
    exact haccount.record hcount hmade

/-- What stands in front of the helpers in a prologue has no made name in it. -/
theorem modulePrologue_eq (options : RewriteOptions) (items : List Node) (l : Lowering) :
    ∃ front, IsFree front ∧ modulePrologue options items l
      = front ++ String.join (l.helpers.map Helper.declaration) := by
  unfold modulePrologue
  refine ⟨_, ?_, rfl⟩
  split
  · split <;> decide +kernel
  · decide

/-- **What a plan is made of.**  Its actions are told apart, the variables they declare are counted
from one, and the helpers that they use are declared in the prologue. -/
theorem planOf_entries (hform : options.form = .commonJs) (source : List Char)
    (program : Program) :
    ∃ (entries : List Entry) (helpers : List Helper) (front : String) (count : Nat),
      (planOf options source program).actions = entries.map Entry.action ∧
      (planOf options source program).prologue
        = front ++ String.join (helpers.map Helper.declaration) ∧
      entries.filterMap Entry.temporary? = List.range' 1 count ∧ helpers.Nodup ∧ IsFree front ∧
      ∀ e ∈ entries, e.IsMade source program.items helpers := by
  unfold planOf
  split
  · have haccount := lowered_isAccounted hform source program.items
    obtain ⟨entries, hactions, hcounted, hmade⟩ := haccount.entries
    obtain ⟨front, hfree, hprologue⟩ :=
      modulePrologue_eq options program.items (lowered options source program.items)
    rw [Option.toList_none, List.append_nil] at hcounted
    exact ⟨entries, _, front, _, hactions, hprologue, hcounted, haccount.helpers, hfree, hmade⟩
  · -- What is no module only has types taken out of it.
    obtain ⟨entries, hactions, hcounted, hmade⟩ := exists_entries []
      fun a (ha : a ∈ eraseAll source program.items) => eraseAll_spelled ha (List.Subset.refl _)
    exact ⟨entries, [], "", 0, hactions.symm, rfl, hcounted, List.nodup_nil, by decide, hmade⟩

end SingleFile.Script
