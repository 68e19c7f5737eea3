/-
  SingleFile.Proofs.Script.ModuleFrame — WHAT A LOWERING LEAVES ALONE
  ───────────────────────────────────────────────────────────────────
  A plain module has nothing to be taken out of it, so a rewrite touches its
  imports and exports only: it replaces whole statements and the keywords in
  front of what is exported, and inserts.  All other text is kept, in order.

  The keywords are looked for over white space.  A comment between them stays
  where it is, and the keyword behind it too.

  Main results:
    * `rewrite_plain_done` — what a rewrite leaves alone, piece by piece.
    * `rewrite_commentedDefault` — a keyword that is left behind.
-/
import SingleFile.Proofs.Script.Evaluation
import SingleFile.Proofs.Script.ModuleForms

namespace SingleFile.Script

open SingleFile.Text Grammar

variable {options : RewriteOptions} {source out : List Char} {program : Program}

/-! ## §1. Where actions stand -/

theorem isModuleItem_of_isListing {n : Node} (h : n.kind.isListing = true) :
    isModuleItem n = true := by
  unfold Kind.isListing at h
  unfold isModuleItem
  split at h
  · next hkind => rw [hkind]
  · next hkind => rw [hkind]
  · next hkind => rw [hkind]
  · next hkind => rw [hkind]
  · simp at h

theorem isModuleItem_of_exportFront? {n : Node} {offset : Nat}
    (h : exportFront? source n = some offset) : isModuleItem n = true := by
  unfold exportFront? at h
  unfold isModuleItem
  split at h
  · next hkind _ => rw [hkind]
  · next hkind _ => rw [hkind]
  · next hkind _ => rw [hkind]
  · next hkind _ => rw [hkind]
  · simp at h

/-- Whether a range is empty, a whole item that imports or exports, or the front of something
exported. -/
def IsModuleRange (source : List Char) (items : List Node) (start stop : Nat) : Prop :=
  start = stop ∨ ∃ n ∈ items, isModuleItem n = true ∧ start = n.start ∧
    (stop = n.stop ∨ exportFront? source n = some stop)

/-- Whether nothing is to be taken out of some items, whose text is only looked at. -/
def TakesNothing (source : List Char) (items : List Node) : Prop :=
  ∀ a ∈ eraseAll source items, ∃ offset, a = .look offset

/-- The edits of a module with nothing to be taken out stand at its imports and exports. -/
theorem Lowers.isModuleRange {items : List Node} {a : Action} (h : Lowers options source items a)
    (hplain : TakesNothing source items) {edits : List Edit}
    (hedits : a.edits? source = some edits) :
    ∀ e ∈ edits, IsModuleRange source items e.start e.stop := by
  intro e he
  -- The edit of a replacement has the range of the replacement.
  have hreplace {start stop : Nat} {text : String}
      (hown : (Action.replace start stop text).edits? source = some edits) :
      e.start = start ∧ e.stop = stop := by
    obtain ⟨old, -, rfl⟩ := Option.map_eq_some_iff.mp hown
    obtain rfl := List.mem_singleton.mp he
    exact ⟨rfl, rfl⟩
  have hinsert {offset : Nat} {text : String}
      (hown : (Action.insert offset text).edits? source = some edits) : e.start = e.stop := by
    obtain rfl := Option.some.inj hown
    obtain rfl := List.mem_singleton.mp he
    rfl
  cases h with
  | erases ha =>
    obtain ⟨offset, rfl⟩ := hplain _ ha
    obtain rfl := Action.eq_nil_of_look hedits
    simp at he
  | looks offset =>
    obtain rfl := Action.eq_nil_of_look hedits
    simp at he
  | drops hn hitem =>
    rw [blankSpan, Action.edits?] at hedits
    split at hedits
    · obtain rfl := Option.some.inj hedits
      simp at he
    · obtain ⟨old, -, rfl⟩ := Option.map_eq_some_iff.mp hedits
      obtain rfl := List.mem_singleton.mp he
      exact Or.inr ⟨_, hn, hitem, rfl, Or.inl rfl⟩
  | replaces hn hkind htext =>
    obtain ⟨hstart, hstop⟩ := hreplace hedits
    exact Or.inr ⟨_, hn, isModuleItem_of_isListing hkind, hstart, Or.inl hstop⟩
  | reexports hn hlist hsource hform =>
    obtain ⟨hstart, hstop⟩ := hreplace hedits
    exact Or.inr ⟨_, hn, by rw [isModuleItem, hlist], hstart, Or.inl hstop⟩
  | opens hn hfront hform htext =>
    obtain ⟨hstart, rfl⟩ := hreplace hedits
    exact Or.inr ⟨_, hn, isModuleItem_of_exportFront? hfront, hstart, Or.inr hfront⟩
  | closes hn hform htext => exact Or.inl (hinsert hedits)
  | defers hlast hform => exact Or.inl (hinsert hedits)

/-! ## §2. Plain modules -/

/-- **What a rewrite leaves alone.**  In a module with nothing to be taken out of it, all that is
done is to insert, and to replace imports, exports and the fronts of what is exported. -/
theorem rewrite_plain_done (hparse : parse ⟨options.typed, true⟩ source = .ok program)
    (hplain : TakesNothing source program.items) (h : rewrite options source = .ok out) :
    ∃ edits, Done source edits source out ∧
      ∀ e ∈ edits, IsModuleRange source program.items e.start e.stop := by
  refine ⟨_, Plan.carryOut_done (carryOut_of_rewrite hparse h), fun e he => ?_⟩
  rcases Plan.mem_edits (mem_of_mem_carriedOut he) with ⟨a, ha, own, hown, he⟩ | he
  · exact (planOf_lowers ha).isModuleRange hplain hown e he
  -- The prologue is inserted at the start.
  · left
    rw [Plan.front] at he
    split at he
    · simp at he
    · obtain rfl := List.mem_singleton.mp he
      rfl

/-- A default export with a comment between its keywords. -/
def commentedDefault : List Char := "export /*c*/ default function f() \x7b\x7d\n".toList

/-- **A keyword is left behind**: behind a comment, `default` is not found. -/
theorem rewrite_commentedDefault :
    (parse ⟨false, true⟩ commentedDefault).toOption.isSome = true ∧
      ∃ out, rewrite ⟨false, .commonJs, .shared, .helper, false⟩ commentedDefault = .ok out ∧
        (parse ⟨false, true⟩ out).toOption.isNone = true :=
  ⟨by decide +kernel, exists_rewrite_of_any (by decide +kernel)⟩

end SingleFile.Script
