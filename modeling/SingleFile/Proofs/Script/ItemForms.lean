/-
  SingleFile.Proofs.Script.ItemForms — WHAT BECOMES OF AN ITEM
  ────────────────────────────────────────────────────────────
  For an item of a module there are few things that can be done: it stays, it
  is blanked, it is replaced as a whole, or something is put around what it
  exports.  Only in the last case, and for all items that neither import nor
  export anything, are the types taken out of its parts.  To find the words
  in front of what it exports, the text is looked at.

  Main results:
    * `Node.walkedParts` — the trees that the types are taken out of.
    * `Node.exported?` — what an item exports, and where the words in front of
      it end.
    * `lowerItem_turns` — what is done for an item, in either module form.
-/
import SingleFile.Proofs.Script.Exports

namespace SingleFile.Script

open SingleFile.Text

variable {source : List Char} {n : Node} {known : Module}

/-! ## §1. Parts of an item -/

/-- The trees that the types are taken out of for an item of a module. -/
def Node.walkedParts (n : Node) : List Node :=
  match n.kind, n.children with
  | .importDecl _, _ => []
  | .importEquals .., _ => []
  | .exportDecl, [d] => if isTypeOnly d then [] else [d]
  | .exportDefaultDecl, [d] => if isDefaultType d then [] else [d]
  | .exportDefaultExpr, [value] => [value]
  | .exportList _, _ => []
  | .exportAll .., _ => []
  | .exportAssignment, [value] => [value]
  | .namespaceExport, _ => []
  | _, _ => [n]

/-- An item that imports and exports nothing is walked itself. -/
theorem walkedParts_eq_self (himport : ∀ decl, n.kind ≠ .importDecl decl)
    (halias : ∀ name isExport typeOnly isExternal value,
      n.kind ≠ .importEquals name isExport typeOnly isExternal value)
    (hexport : ∀ d, n.kind = .exportDecl → n.children ≠ [d])
    (hdefault : ∀ d, n.kind = .exportDefaultDecl → n.children ≠ [d])
    (hexpression : ∀ value, n.kind = .exportDefaultExpr → n.children ≠ [value])
    (hlist : ∀ list, n.kind ≠ .exportList list)
    (hall : ∀ source typeOnly, n.kind ≠ .exportAll source typeOnly)
    (hassignment : ∀ value, n.kind = .exportAssignment → n.children ≠ [value])
    (hnamespace : n.kind ≠ .namespaceExport) : n.walkedParts = [n] := by
  unfold Node.walkedParts
  split
  · next hkind => exact absurd hkind (himport _)
  · next hkind => exact absurd hkind (halias _ _ _ _ _)
  · next hkind hchildren => exact absurd hchildren (hexport _ hkind)
  · next hkind hchildren => exact absurd hchildren (hdefault _ hkind)
  · next hkind hchildren => exact absurd hchildren (hexpression _ hkind)
  · next hkind => exact absurd hkind (hlist _)
  · next hkind => exact absurd hkind (hall _ _)
  · next hkind hchildren => exact absurd hchildren (hassignment _ hkind)
  · next hkind => exact absurd hkind hnamespace
  · rfl

/-- What an item exports that has a tree, and where the words in front of it end. -/
def Node.exported? (source : List Char) (n : Node) : Option (Node × Nat) :=
  match n.kind, n.children with
  | .exportDecl, [d] => some (d, behindKeyword source n.start "export")
  | .exportDefaultDecl, [d] =>
    some (d, behindKeyword source (behindKeyword source n.start "export") "default")
  | .exportDefaultExpr, [value] => some (value, value.start)
  | .exportAssignment, [value] => some (value, value.start)
  | _, _ => none

/-- **What can be done for an item**, with the trees that the types are taken out of. -/
inductive ItemTurns (source : List Char) (n : Node) : List Node → List Action → Prop where
  | stays : ItemTurns source n [] []
  | dropped : ItemTurns source n [] [blankSpan n.span]
  | replaced (text : String) : ItemTurns source n [] [.replace n.start n.stop text]
  /-- The words in front of what is exported may be replaced, and something may be put behind it. -/
  | around {d : Node} {front : Nat} (h : n.exported? source = some (d, front))
    (before after : List String) (hfew : before.length ≤ 1) :
    ItemTurns source n [d]
      (before.map (.replace n.start front) ++ after.map (.insert n.stop) ++ erase source d)
  | walked : ItemTurns source n [n] (erase source n)
  /-- The text may be looked at first. -/
  | looked (offset : Nat) {walked : List Node} {actions : List Action}
    (h : ItemTurns source n walked actions) : ItemTurns source n walked (.look offset :: actions)

/-! ## §2. Items -/

/-- An import stays, or it is blanked or replaced as a whole. -/
theorem ImportBecomes.turns {options : RewriteOptions} {used : String → Bool}
    {actions : List Action} (h : ImportBecomes options source used n actions) :
    ItemTurns source n [] actions := by
  cases h with
  | dropped => exact .dropped
  | required => exact .replaced _
  | whole => exact .stays
  | restated => exact .replaced _
  | aliasDropped => exact .dropped
  | aliasKept => exact .replaced _

theorem stays_turns :
    Lower.Does known (pure ()) fun _ xs _ => ItemTurns known.source n [] xs :=
  fun _ => ⟨[], "", rfl, String.append_empty.symm, .stays⟩

theorem drop_turns (n : Node) :
    Lower.Does known (Lower.record [blankSpan n.span]) fun _ xs _ =>
      ItemTurns known.source n [] xs := by
  refine (Lower.Does.record _).mono ?_
  rintro _ _ _ ⟨rfl, -⟩
  exact .dropped

theorem replace_turns (n : Node) (text : String) :
    Lower.Does known (Lower.record [.replace n.start n.stop text]) fun _ xs _ =>
      ItemTurns known.source n [] xs := by
  refine (Lower.Does.record _).mono ?_
  rintro _ _ _ ⟨rfl, -⟩
  exact .replaced text

/-- What is exported stays where it is. -/
theorem eraseTypes_turns {d : Node} {front : Nat} (h : n.exported? known.source = some (d, front)) :
    Lower.Does known (Lower.eraseTypes d) fun _ xs _ => ItemTurns known.source n [d] xs := by
  refine (Lower.Does.eraseTypes d).mono ?_
  rintro _ _ _ ⟨rfl, -⟩
  exact .around h [] [] (Nat.zero_le _)

/-- Something is put around what is exported. -/
theorem recordThenErase_turns {d : Node} {front : Nat} {text : String} (after : List String)
    (h : n.exported? known.source = some (d, front)) :
    Lower.Does known (do
      Lower.record (.replace n.start front text :: after.map (.insert n.stop))
      Lower.eraseTypes d) fun _ xs _ => ItemTurns known.source n [d] xs := by
  refine (recordThenErase_does _ d).mono ?_
  rintro _ _ _ ⟨rfl, -⟩
  exact .around h [text] after (Nat.le_refl _)

theorem look_turns (offset : Nat) {walked : List Node} {step : Lower Unit}
    (h : Lower.Does known step fun _ xs _ => ItemTurns known.source n walked xs) :
    Lower.Does known (Lower.look offset >>= fun _ => step)
      fun _ xs _ => ItemTurns known.source n walked xs :=
  .look offset (h.mono fun _ _ _ hturns => hturns.looked offset)

/-- The word `export` is replaced, and something may be put behind the declaration. -/
theorem exportActions_turn (source : List Char) {n d : Node} (hkind : n.kind = .exportDecl)
    (hchildren : n.children = [d]) :
    ItemTurns source n [d] (exportActions source n d ++ erase source d) := by
  have hexported : n.exported? source = some (d, behindKeyword source n.start "export") := by
    rw [Node.exported?, hkind, hchildren]
  unfold exportActions
  dsimp only
  cases (exportedNames d).isEmpty with
  | true => exact .around hexported [_] [] (Nat.le_refl _)
  | false =>
    cases isEnumDecl d with
    | true => exact .around hexported [_] [_] (Nat.le_refl _)
    | false => exact .looked n.stop (.around hexported [_] [_] (Nat.le_refl _))

theorem lowerExport_turns {d : Node} (hkind : n.kind = .exportDecl) (hchildren : n.children = [d]) :
    Lower.Does known (lowerExport n d) fun _ xs _ =>
      ItemTurns known.source n (if isTypeOnly d then [] else [d]) xs := by
  have hexported : n.exported? known.source
      = some (d, behindKeyword known.source n.start "export") := by
    rw [Node.exported?, hkind, hchildren]
  unfold lowerExport
  split
  · exact drop_turns n
  · refine look_turns _ (ifCommonJs_does_either (fun _ => ?_) fun _ => eraseTypes_turns hexported)
    refine .after markExports_gives fun _ _ => .bindRead ?_
    refine (recordThenErase_does _ d).mono ?_
    rintro _ _ _ ⟨rfl, -⟩
    exact exportActions_turn known.source hkind hchildren

theorem lowerDefault_turns {d : Node} (hkind : n.kind = .exportDefaultDecl)
    (hchildren : n.children = [d]) :
    Lower.Does known (lowerDefault n d) fun _ xs _ =>
      ItemTurns known.source n (if isDefaultType d then [] else [d]) xs := by
  have hexported : n.exported? known.source = some (d, behindKeyword known.source
      (behindKeyword known.source n.start "export") "default") := by
    rw [Node.exported?, hkind, hchildren]
  unfold lowerDefault
  dsimp only
  split
  · next hd =>
    rw [isDefaultType, hd]
    exact drop_turns n
  · next hinterface =>
    split
    · next hoverload =>
      obtain ⟨hd, hbody⟩ : d.kind = .functionExpr ∧ d.children.any hasBody = false := by
        simpa using hoverload
      rw [isDefaultType, hd]
      dsimp only
      rw [hbody]
      exact drop_turns n
    · next hoverload =>
      have htype : isDefaultType d = false := by
        unfold isDefaultType
        split <;> simp_all
      rw [htype]
      refine ifCommonJs_does_either (fun _ => ?_) fun _ => eraseTypes_turns hexported
      refine .after markExports_gives fun _ _ => .bindRead (look_turns _ (look_turns _ ?_))
      split
      · exact recordThenErase_turns [] hexported
      · exact recordThenErase_turns [_] hexported
      · exact recordThenErase_turns [_] hexported

theorem lowerDefaultExpression_turns {value : Node} (hkind : n.kind = .exportDefaultExpr)
    (hchildren : n.children = [value]) :
    Lower.Does known (lowerDefaultExpression n value) fun _ xs _ =>
      ItemTurns known.source n [value] xs := by
  have hexported : n.exported? known.source = some (value, value.start) := by
    rw [Node.exported?, hkind, hchildren]
  unfold lowerDefaultExpression
  refine ifCommonJs_does_either (fun _ => ?_) fun _ => eraseTypes_turns hexported
  exact .after markExports_gives fun _ _ => recordThenErase_turns [] hexported

theorem exportText_gives (items : List ExportItem) (source : Option Span) :
    Lower.Gives known (exportText items source) fun _ => True := by
  unfold exportText
  refine .bind (.mapM_eq _ fun item _ => text_gives item.span) fun _ _ => ?_
  split
  · exact .bind (text_gives _) fun _ _ => .pure trivial
  · exact .pure trivial

theorem lowerExportList_turns (n : Node) (list : ExportList) :
    Lower.Does known (lowerExportList n list) fun _ xs _ => ItemTurns known.source n [] xs := by
  have hform : Lower.Gives known Lower.isCommonJs fun _ => True := fun _ => ⟨rfl, rfl, trivial⟩
  unfold lowerExportList
  refine .bindRead ?_
  dsimp only
  split
  · exact drop_turns n
  · refine .after hform fun _ _ => ?_
    split
    · split
      · refine .after (exportText_gives _ _) fun _ _ => ?_
        rw [bind_pure_unit]
        exact replace_turns n _
      · exact stays_turns
    · refine .after markExports_gives fun _ _ => ?_
      split
      · refine .after (.mapM_eq _ fun entry _ => localExport_gives entry) fun _ _ => ?_
        refine (Lower.Does.bind (putOff_does _) fun _ => replace_turns n "").mono ?_
        rintro _ _ _ ⟨_, _, _, _, _, ⟨rfl, -⟩, hturns, rfl, -⟩
        exact hturns
      · refine .after temporary_gives fun module _ => .after (text_gives _) fun _ _ => ?_
        refine .after (.mapM_eq _ fun entry _ => foreignExport_gives module entry) fun _ _ => ?_
        exact replace_turns n _

theorem lowerExportAll_turns (n : Node) (span : Span) (typeOnly : Bool) :
    Lower.Does known (lowerExportAll n span typeOnly) fun _ xs _ =>
      ItemTurns known.source n [] xs := by
  unfold lowerExportAll
  split
  · exact drop_turns n
  · refine ifCommonJs_does_either (fun _ => ?_) fun _ => stays_turns
    refine .after markExports_gives fun _ _ => .after (text_gives _) fun _ _ => ?_
    exact .after (callHelper_gives _ _) fun _ _ => replace_turns n _

/-- **What is done for an item**, in either module form. -/
theorem lowerItem_turns (known : Module) (n : Node) :
    Lower.Does known (lowerItem n) fun _ xs _ => ItemTurns known.source n n.walkedParts xs := by
  unfold lowerItem
  split
  · next hkind =>
    rw [Node.walkedParts, hkind]
    exact (lowerImport_becomes hkind).mono fun _ _ _ h => h.1.turns
  · next hkind =>
    rw [Node.walkedParts, hkind]
    exact (lowerImportEquals_becomes hkind).mono fun _ _ _ h => h.1.turns
  · next hkind hchildren =>
    rw [Node.walkedParts, hkind, hchildren]
    exact lowerExport_turns hkind hchildren
  · next hkind hchildren =>
    rw [Node.walkedParts, hkind, hchildren]
    exact lowerDefault_turns hkind hchildren
  · next hkind hchildren =>
    rw [Node.walkedParts, hkind, hchildren]
    exact lowerDefaultExpression_turns hkind hchildren
  · next hkind =>
    rw [Node.walkedParts, hkind]
    exact lowerExportList_turns n _
  · next hkind =>
    rw [Node.walkedParts, hkind]
    exact lowerExportAll_turns n _ _
  · next value hkind hchildren =>
    rw [Node.walkedParts, hkind, hchildren]
    have hexported : n.exported? known.source = some (value, value.start) := by
      rw [Node.exported?, hkind, hchildren]
    exact recordThenErase_turns [] hexported
  · next hkind =>
    rw [Node.walkedParts, hkind]
    exact drop_turns n
  · next himport halias hlist hall hnamespace hexport hdefault hexpression hassignment =>
    rw [walkedParts_eq_self himport halias hexport hdefault hexpression hlist hall hassignment
      hnamespace]
    refine (Lower.Does.eraseTypes n).mono ?_
    rintro _ _ _ ⟨rfl, -⟩
    exact .walked

end SingleFile.Script
