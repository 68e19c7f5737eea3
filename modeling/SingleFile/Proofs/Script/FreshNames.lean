/-
  SingleFile.Proofs.Script.FreshNames — MADE NAMES IN A REWRITTEN SCRIPT
  ──────────────────────────────────────────────────────────────────────
  Every edit of a lowered script carries the parts of its text along, while
  the edits are sorted and some of them are dropped.  What is dropped takes
  declarations and uses away together, and the prologue is never dropped.  So
  in the rewritten script made names are declared once, and in front of their
  uses: the variable of a module in the statements that use it, and a helper
  as a function of the prologue.

  A lowering does not look for its names among those of the script.  A name
  that the script has is taken (`rewrite_takenName`); a name that it does not
  have stands nowhere but where the lowering put it.

  Main results:
    * `Done.filled` — a text with edits done to it is made of their parts and
      of copies.
    * `exists_toldPlan` — all edits of a plan, with the parts of their texts.
    * `NamesMade.of_carried` — parts of edits that are carried out are in order.
    * `rewrite_namesMade` — the made names of a rewritten script.
-/
import SingleFile.Proofs.Script.EditOrder
import SingleFile.Proofs.Script.ImportLowering
import SingleFile.Proofs.Script.ItemAccounts

namespace SingleFile.Script

open SingleFile.Text

/-! ## §1. Edits with the parts of their texts -/

/-- An edit with the parts of its text. -/
structure ToldEdit where
  edit : Edit
  parts : List Part

/-- Whether the text of an edit is told apart rightly.  Names are used only where a whole item is
replaced, and those of functions are known everywhere. -/
structure ToldEdit.IsMade (source : List Char) (items : List Node) (helpers : List Helper)
    (t : ToldEdit) : Prop where
  text : (joined t.parts).toList = t.edit.text
  plain : ∀ text, .plain text ∈ t.parts → IsPlain source items text
  declared : DeclaredBefore (helpers.map .helper) t.parts
  placed : ∀ name, .uses name ∈ t.parts → ∃ n ∈ items, t.edit.start = n.start ∧ t.edit.stop = n.stop

variable {source out : List Char} {items : List Node} {helpers : List Helper}

theorem isFree_ofList {cs : List Char} (h : '_' ∉ cs) : IsFree (String.ofList cs) :=
  isFree_of_not_mem (by rwa [String.toList_ofList])

/-- An edit has the text of its action, with line ends and spaces behind it. -/
theorem Action.text_of_mem_editsIn {a : Action} {x : Edit} (hx : x ∈ a.editsIn source) :
    ∃ padding, x.text = a.text.toList ++ padding ∧ '_' ∉ padding := by
  cases a with
  | insert offset text =>
    obtain rfl := List.mem_singleton.mp hx
    exact ⟨[], (List.append_nil _).symm, List.not_mem_nil⟩
  | blank start stop =>
    rw [Action.editsIn, Action.edits?] at hx
    split at hx
    · exact absurd hx List.not_mem_nil
    · cases hold : slice? source start stop with
      | none =>
        rw [hold] at hx
        exact absurd hx List.not_mem_nil
      | some old =>
        rw [hold] at hx
        obtain rfl := List.mem_singleton.mp hx
        refine ⟨blankText old, rfl, fun hmem => ?_⟩
        obtain ⟨c, -, hc⟩ := List.mem_map.mp hmem
        split at hc
        · next hend =>
          rw [hc] at hend
          exact absurd hend (by decide)
        · exact absurd hc (by decide)
  | replace start stop text =>
    rw [Action.editsIn, Action.edits?] at hx
    cases hold : slice? source start stop with
    | none =>
      rw [hold] at hx
      exact absurd hx List.not_mem_nil
    | some old =>
      rw [hold] at hx
      obtain rfl := List.mem_singleton.mp hx
      refine ⟨_, rfl, fun hmem => ?_⟩
      exact absurd (List.eq_of_mem_replicate hmem) (by decide)
  | refuse construct offset => exact absurd hx List.not_mem_nil
  | look offset =>
    rw [Action.editsIn_look] at hx
    exact absurd hx List.not_mem_nil

theorem declaredIn_opening (temporary? : Option Nat) :
    declaredIn (opening temporary?) = (temporary?.map MadeName.temporary).toList := by
  cases temporary? <;> rfl

theorem uses_not_mem_opening (temporary? : Option Nat) (name : MadeName) :
    .uses name ∉ opening temporary? := by
  cases temporary? <;> simp [opening]

/-- An edit of an action, with the parts of its text. -/
theorem Entry.IsMade.told {e : Entry} (he : e.IsMade source items helpers) {x : Edit}
    (hx : x ∈ e.action.editsIn source) : ∃ padding : String, IsFree padding ∧
      ToldEdit.IsMade source items helpers ⟨x, e.parts ++ [.plain padding]⟩ := by
  obtain ⟨padding, htext, hpadding⟩ := Action.text_of_mem_editsIn hx
  have hfree : IsFree (String.ofList padding) := isFree_ofList hpadding
  refine ⟨_, hfree, ?_, fun text hplain => ?_, ?_, fun name hname => ?_⟩
  · rw [joined_append, he.text, htext, String.toList_append, joined_cons, joined_nil,
      String.append_empty, Part.text, String.toList_ofList]
  · rcases List.mem_append.mp hplain with hplain | hplain
    · rcases List.mem_append.mp hplain with hplain | hplain
      · cases htemporary : e.temporary? <;> simp [htemporary, opening] at hplain
      · exact he.rest _ hplain
    · obtain rfl := Part.plain.inj (List.mem_singleton.mp hplain)
      exact .free hfree
  · -- The variable comes first; behind it there are only names that are known by then.
    refine (DeclaredBefore.append ?_ ?_).append trivial
    · exact declaredBefore_of_unused _ (uses_not_mem_opening e.temporary?)
    · rw [declaredIn_opening]
      exact declaredBefore_of_allowed he.rest (List.Subset.refl _)
  · have hrest : .uses name ∈ e.rest := by
      simpa [Entry.parts, uses_not_mem_opening] using hname
    obtain ⟨n, hn, text, haction⟩ := he.placed name hrest
    have hrange := Action.range?_of_mem hx
    rw [haction] at hrange
    obtain ⟨hstart, hstop⟩ := Span.mk.inj (Option.some.inj hrange)
    exact ⟨n, hn, hstart.symm, hstop.symm⟩

/-- The edits of some actions, with the parts of their texts. -/
theorem exists_told {entries : List Entry} (h : ∀ e ∈ entries, e.IsMade source items helpers) :
    ∃ told : List ToldEdit,
      told.map ToldEdit.edit = (entries.map Entry.action).flatMap (·.editsIn source) ∧
      (∀ t ∈ told, t.IsMade source items helpers) ∧
      (told.flatMap fun t => declaredIn t.parts).Sublist
        ((entries.filterMap Entry.temporary?).map MadeName.temporary) := by
  induction entries with
  | nil => exact ⟨[], rfl, List.forall_mem_nil _, .slnil⟩
  | cons e entries ih =>
    obtain ⟨he, hentries⟩ := List.forall_mem_cons.mp h
    obtain ⟨told, hedits, hmade, hdeclared⟩ := ih hentries
    have hcount : ((e :: entries).filterMap Entry.temporary?).map MadeName.temporary
        = (e.temporary?.map MadeName.temporary).toList
          ++ (entries.filterMap Entry.temporary?).map MadeName.temporary := by
      rw [List.filterMap_cons]
      cases e.temporary? <;> rfl
    rw [hcount, List.map_cons, List.flatMap_cons]
    rcases e.action.editsIn_range source with hnone | ⟨x, hone, -⟩
    · rw [hnone]
      exact ⟨told, hedits, hmade, hdeclared.trans (List.sublist_append_right ..)⟩
    · obtain ⟨padding, -, ht⟩ := he.told (hone ▸ List.mem_singleton_self x)
      refine ⟨⟨x, e.parts ++ [.plain padding]⟩ :: told, ?_, List.forall_mem_cons.mpr ⟨ht, hmade⟩,
        ?_⟩
      · rw [hone, List.map_cons, hedits]
        rfl
      · have hparts : declaredIn (e.parts ++ [.plain padding])
            = (e.temporary?.map MadeName.temporary).toList := by
          rw [declaredIn_append, Entry.parts, declaredIn_append, declaredIn_opening,
            declaredIn_of_allowed he.rest, List.append_nil]
          exact List.append_nil _
        rw [List.flatMap_cons, hparts]
        exact (List.Sublist.refl _).append hdeclared

/-! ## §2. The prologue -/

/-- The parts of a prologue: the declarations of the helpers stand behind its directives. -/
def prologueParts (front : String) (helpers : List Helper) : List Part :=
  .plain front :: helpers.flatMap fun h =>
    [.declares (.helper h), .plain (h.parameters ++ " " ++ h.body)]

theorem joined_prologueParts (front : String) (helpers : List Helper) :
    joined (prologueParts front helpers)
      = front ++ String.join (helpers.map Helper.declaration) := by
  rw [prologueParts, joined_cons]
  refine congrArg (front ++ ·) ?_
  induction helpers with
  | nil => rfl
  | cons h helpers ih =>
    rw [List.flatMap_cons, joined_append, ih, List.map_cons, String.join_cons]
    refine congrArg (· ++ _) ?_
    simp [Part.text, MadeName.keyword, MadeName.text, Helper.declaration, String.append_assoc]

theorem declaredIn_prologueParts (front : String) (helpers : List Helper) :
    declaredIn (prologueParts front helpers) = helpers.map .helper := by
  show declaredIn (helpers.flatMap _) = _
  induction helpers with
  | nil => rfl
  | cons h helpers ih => exact congrArg (MadeName.helper h :: ·) ih

theorem uses_not_mem_prologueParts (front : String) (helpers : List Helper) (name : MadeName) :
    .uses name ∉ prologueParts front helpers := by
  simp [prologueParts]

/-- The edit of a prologue, with its parts. -/
theorem told_prologue {front prologue : String} (hfront : IsFree front)
    (hprologue : prologue = front ++ String.join (helpers.map Helper.declaration)) :
    ToldEdit.IsMade source items helpers
      ⟨⟨0, 0, prologue.toList⟩, prologueParts front helpers⟩ where
  text := by rw [joined_prologueParts, hprologue]
  plain text htext := by
    have hbody (h : Helper) : IsFree (h.parameters ++ " " ++ h.body) := by
      cases h <;> decide +kernel
    rw [prologueParts] at htext
    rcases List.mem_cons.mp htext with htext | htext
    · obtain rfl := Part.plain.inj htext
      exact .free hfront
    · obtain ⟨h, -, hpart⟩ := List.mem_flatMap.mp htext
      simp only [List.mem_cons, reduceCtorEq, List.not_mem_nil, or_false, false_or,
        Part.plain.injEq] at hpart
      obtain rfl := hpart
      exact .free (hbody h)
  declared := declaredBefore_of_unused _ (uses_not_mem_prologueParts front helpers)
  placed name hname := absurd hname (uses_not_mem_prologueParts front helpers name)

/-! ## §3. Edits that are carried out -/

/-- Whether an edit comes before another one, whatever their parts are. -/
def ToldEdit.comesBefore (a b : ToldEdit) : Bool := a.edit.comesBefore b.edit

/-- The edits of a sorted list that are carried out from an offset on, with their parts. -/
def carriedToldFrom : Nat → List ToldEdit → List ToldEdit
  | _, [] => []
  | offset, t :: told =>
    if t.edit.start < offset then carriedToldFrom offset told
    else t :: carriedToldFrom t.edit.stop told

/-- The edits that are carried out, with their parts. -/
def carriedTold (told : List ToldEdit) : List ToldEdit :=
  carriedToldFrom 0 (told.mergeSort ToldEdit.comesBefore)

theorem map_edit_carriedToldFrom (offset : Nat) (told : List ToldEdit) :
    (carriedToldFrom offset told).map ToldEdit.edit
      = carriedOutFrom offset (told.map ToldEdit.edit) := by
  induction told generalizing offset with
  | nil => rfl
  | cons t told ih =>
    rw [carriedToldFrom, List.map_cons, carriedOutFrom]
    split
    · exact ih offset
    · rw [List.map_cons, ih]

/-- Parts change nothing about which edits are carried out. -/
theorem map_edit_carriedTold (told : List ToldEdit) :
    (carriedTold told).map ToldEdit.edit = carriedOut (told.map ToldEdit.edit) := by
  have hsorted : (told.mergeSort ToldEdit.comesBefore).map ToldEdit.edit
      = (told.map ToldEdit.edit).mergeSort Edit.comesBefore :=
    List.map_mergeSort fun _ _ _ _ => rfl
  rw [carriedTold, carriedOut, map_edit_carriedToldFrom, hsorted]

theorem carriedToldFrom_sublist (offset : Nat) (told : List ToldEdit) :
    (carriedToldFrom offset told).Sublist told := by
  induction told generalizing offset with
  | nil => exact .slnil
  | cons t told ih =>
    rw [carriedToldFrom]
    split
    · exact (ih offset).cons t
    · exact (ih t.edit.stop).cons_cons t

theorem mem_of_mem_carriedTold {told : List ToldEdit} {t : ToldEdit} (h : t ∈ carriedTold told) :
    t ∈ told :=
  List.mem_mergeSort.mp ((carriedToldFrom_sublist 0 _).mem h)

/-- What is declared by the edits that are carried out is declared by all edits. -/
theorem declaredIn_carriedTold (told : List ToldEdit) :
    ((carriedTold told).flatMap fun t => declaredIn t.parts).Subperm
      (told.flatMap fun t => declaredIn t.parts) :=
  ((carriedToldFrom_sublist 0 _).flatMap _).subperm.trans
    ((List.mergeSort_perm told ToldEdit.comesBefore).flatMap_right _).subperm

/-- An insertion at the start is carried out, and what comes before it is one, too. -/
theorem carriedToldFrom_split {told : List ToldEdit} {t : ToldEdit}
    (hsorted : told.Pairwise fun a b => a.comesBefore b = true) (ht : t ∈ told)
    (hstart : t.edit.start = 0) (hstop : t.edit.stop = 0) :
    ∃ front behind, carriedToldFrom 0 told = front ++ t :: behind ∧
      ∀ f ∈ front, f.edit.stop = 0 := by
  induction told with
  | nil => exact absurd ht List.not_mem_nil
  | cons x told ih =>
    obtain ⟨hx, hsorted⟩ := List.pairwise_cons.mp hsorted
    rw [carriedToldFrom, if_neg (Nat.not_lt_zero _)]
    rcases List.mem_cons.mp ht with rfl | ht
    · exact ⟨[], _, rfl, List.forall_mem_nil _⟩
    · have hxstop : x.edit.stop = 0 := by
        have hbefore := hx t ht
        simp only [ToldEdit.comesBefore, Edit.comesBefore, hstart, hstop, Bool.or_eq_true,
          Bool.and_eq_true, decide_eq_true_eq, beq_iff_eq] at hbefore
        omega
      obtain ⟨front, behind, hsplit, hfront⟩ := ih hsorted ht
      rw [hxstop, hsplit]
      exact ⟨x :: front, behind, rfl, List.forall_mem_cons.mpr ⟨hxstop, hfront⟩⟩

/-- **The prologue is carried out**, and what comes before it is inserted at the start, too. -/
theorem carriedTold_split {told : List ToldEdit} {t : ToldEdit} (ht : t ∈ told)
    (hstart : t.edit.start = 0) (hstop : t.edit.stop = 0) :
    ∃ front behind, carriedTold told = front ++ t :: behind ∧ ∀ f ∈ front, f.edit.stop = 0 :=
  carriedToldFrom_split
    (List.pairwise_mergeSort (fun a b c => Edit.comesBefore_trans a.edit b.edit c.edit)
      (fun a b => Edit.comesBefore_total a.edit b.edit) told)
    (List.mem_mergeSort.mpr ht) hstart hstop

/-! ## §4. What is written -/

/-- Whether some parts are other ones with copies of the script between them. -/
inductive Filled (source : List Char) : List Part → List Part → Prop where
  | nil : Filled source [] []
  | part (p : Part) {parts filled : List Part} (h : Filled source parts filled) :
    Filled source (p :: parts) (p :: filled)
  | copy {text : String} {parts filled : List Part} (hcopy : text.toList <:+: source)
    (h : Filled source parts filled) : Filled source parts (.plain text :: filled)

namespace Filled

variable {parts filled : List Part}

theorem append_left (h : Filled source parts filled) (front : List Part) :
    Filled source (front ++ parts) (front ++ filled) := by
  induction front with
  | nil => exact h
  | cons p front ih => exact .part p ih

theorem declaredIn_eq (h : Filled source parts filled) : declaredIn filled = declaredIn parts := by
  induction h with
  | nil => rfl
  | part p _ ih => cases p <;> simp [declaredIn, ih]
  | copy _ _ ih => exact ih

theorem declaredBefore (h : Filled source parts filled) {known : List MadeName}
    (hparts : DeclaredBefore known parts) : DeclaredBefore known filled := by
  induction h generalizing known with
  | nil => exact hparts
  | part p _ ih =>
    cases p with
    | plain text => exact ih hparts
    | declares name =>
      have hrest : DeclaredBefore (name :: known) _ := hparts
      exact ih hrest
    | uses name => exact ⟨hparts.1, ih hparts.2⟩
  | copy _ _ ih => exact ih hparts

theorem plain (h : Filled source parts filled)
    (hparts : ∀ text, .plain text ∈ parts → IsPlain source items text) :
    ∀ text, .plain text ∈ filled → IsPlain source items text := by
  induction h with
  | nil => exact hparts
  | part p _ ih =>
    intro text htext
    rcases List.mem_cons.mp htext with rfl | htext
    · exact hparts _ (List.mem_cons_self ..)
    · exact ih (fun t ht => hparts t (List.mem_cons_of_mem _ ht)) text htext
  | copy hcopy _ ih =>
    intro text htext
    rcases List.mem_cons.mp htext with htext | htext
    · obtain rfl := Part.plain.inj htext
      exact .copied hcopy
    · exact ih hparts text htext

end Filled

/-- **A text with edits done to it** is made of the parts of the edits and of copies. -/
theorem Done.filled {told : List ToldEdit} {rest : List Char} {edits : List Edit}
    (h : Done source edits rest out) (hedits : edits = told.map ToldEdit.edit)
    (hrest : rest <:+ source) (htext : ∀ t ∈ told, (joined t.parts).toList = t.edit.text) :
    ∃ filled, (joined filled).toList = out ∧
      Filled source (told.flatMap ToldEdit.parts) filled := by
  induction h generalizing told with
  | nil rest =>
    obtain rfl := List.map_eq_nil_iff.mp hedits.symm
    refine ⟨[.plain (String.ofList rest)], ?_, .copy ?_ .nil⟩
    · rw [joined_cons, joined_nil, String.append_empty, Part.text, String.toList_ofList]
    · rw [String.toList_ofList]
      exact hrest.isInfix
  | @cons e edits rest out kept _ ih =>
    obtain ⟨t, told, rfl, rfl, htold⟩ := List.map_eq_cons_iff.mp hedits.symm
    obtain ⟨ht, htexts⟩ := List.forall_mem_cons.mp htext
    have hkept : kept <:+: source := by
      refine (List.IsPrefix.isInfix ?_).trans hrest.isInfix
      rw [List.append_assoc]
      exact List.prefix_append ..
    obtain ⟨filled, rfl, hfilled⟩ :=
      ih htold.symm ((List.suffix_append ..).trans hrest) htexts
    refine ⟨.plain (String.ofList kept) :: (t.parts ++ filled), ?_, .copy ?_ ?_⟩
    · rw [joined_cons, joined_append, String.toList_append, String.toList_append, ht, Part.text,
        String.toList_ofList, List.append_assoc]
    · rwa [String.toList_ofList]
    · rw [List.flatMap_cons]
      exact hfilled.append_left t.parts

/-! ## §5. Rewritten scripts -/

/-- Whether a made name is that of a function. -/
def MadeName.isFunction : MadeName → Bool
  | helper _ => true
  | temporary _ => false

/-- The functions that are declared in some parts; they are there before anything is run. -/
def functionsIn (parts : List Part) : List MadeName := (declaredIn parts).filter (·.isFunction)

/-- Whether the made names in some parts are in order. -/
structure NamesMade (source : List Char) (items : List Node) (parts : List Part) : Prop where
  /-- All other text is free of made names, or the program's own. -/
  plain : ∀ text, .plain text ∈ parts → IsPlain source items text
  /-- No name is declared twice. -/
  distinct : ((declaredIn parts).map MadeName.text).Nodup
  /-- What is used is a function that is declared, or a variable that is declared in front. -/
  declared : DeclaredBefore (functionsIn parts) parts
  /-- Functions are declared in front, too, where no item ends at the start of the script. -/
  inFront : (∀ n ∈ items, 0 < n.stop) → DeclaredBefore [] parts

/-- Variables that are counted and helpers that are listed once are all different. -/
theorem nodup_made {temporaries : List MadeName} {count : Nat}
    (htemporaries : temporaries.Sublist ((List.range' 1 count).map .temporary))
    (hhelpers : helpers.Nodup) : (temporaries ++ helpers.map MadeName.helper).Nodup := by
  have hcounted : ((List.range' 1 count).map MadeName.temporary).Nodup :=
    List.Nodup.map (fun _ _ h => MadeName.temporary.inj h) (List.nodup_range' 1)
  refine List.nodup_append.mpr ⟨hcounted.sublist htemporaries,
    hhelpers.map fun _ _ h => MadeName.helper.inj h, ?_⟩
  rintro _ htemporary _ hhelper rfl
  obtain ⟨count, -, rfl⟩ := List.mem_map.mp (htemporaries.mem htemporary)
  obtain ⟨h, -, heq⟩ := List.mem_map.mp hhelper
  exact MadeName.noConfusion heq

/-- **All edits of a plan, with the parts of their texts**; one of them declares the helpers, if
there are any. -/
theorem exists_toldPlan {options : RewriteOptions} (hform : options.form = .commonJs)
    (program : Program) (hfits : (editsOf? source (planOf options source program).actions).isSome) :
    ∃ (told : List ToldEdit) (helpers : List Helper),
      told.map ToldEdit.edit = (planOf options source program).edits source ∧
      (∀ t ∈ told, t.IsMade source program.items helpers) ∧
      (told.flatMap fun t => declaredIn t.parts).Nodup ∧
      (helpers = [] ∨ ∃ t ∈ told, t.edit.start = 0 ∧ t.edit.stop = 0 ∧
        declaredIn t.parts = helpers.map .helper ∧ ∀ name, .uses name ∉ t.parts) := by
  obtain ⟨entries, helpers, front, count, hactions, hprologue, hcounted, hhelpers, hfree, hmade⟩ :=
    planOf_entries hform source program
  obtain ⟨edits, hedits⟩ := Option.isSome_iff_exists.mp hfits
  obtain ⟨told, htold, hall, hdeclared⟩ := exists_told hmade
  rw [hcounted] at hdeclared
  have hwhole : (planOf options source program).edits source
      = told.map ToldEdit.edit ++ (planOf options source program).front := by
    rw [Plan.edits, hedits, Option.getD_some, editsOf?_eq_flatMap hedits, htold, hactions]
  rw [hwhole, Plan.front]
  split
  · next hempty =>
    -- Without a prologue there are no helpers.
    have hnone : helpers = [] := by
      cases helpers with
      | nil => rfl
      | cons h helpers =>
        rw [hprologue] at hempty
        simp [String.join_cons, Helper.declaration] at hempty
    subst hnone
    refine ⟨told, [], (List.append_nil _).symm, hall, ?_, .inl rfl⟩
    have hnodup := nodup_made hdeclared hhelpers
    rwa [List.map_nil, List.append_nil] at hnodup
  · refine ⟨told ++ [⟨⟨0, 0, _⟩, prologueParts front helpers⟩], helpers, List.map_append,
      List.forall_mem_append.mpr ⟨hall, List.forall_mem_singleton.mpr
        (told_prologue hfree hprologue)⟩, ?_, .inr ⟨_, List.mem_append_right _
        (List.mem_singleton_self _), rfl, rfl, declaredIn_prologueParts front helpers,
        uses_not_mem_prologueParts front helpers⟩⟩
    rw [List.flatMap_append, List.flatMap_singleton, declaredIn_prologueParts]
    exact nodup_made hdeclared hhelpers

/-- **Parts of edits that are carried out are in order.** -/
theorem NamesMade.of_carried {told : List ToldEdit} {filled : List Part}
    (hmade : ∀ t ∈ told, t.IsMade source items helpers)
    (hnodup : (told.flatMap fun t => declaredIn t.parts).Nodup)
    (hprologue : helpers = [] ∨ ∃ t ∈ told, t.edit.start = 0 ∧ t.edit.stop = 0 ∧
      declaredIn t.parts = helpers.map .helper ∧ ∀ name, .uses name ∉ t.parts)
    (hfilled : Filled source ((carriedTold told).flatMap ToldEdit.parts) filled) :
    NamesMade source items filled := by
  have hcarried : ∀ t ∈ carriedTold told, t.IsMade source items helpers :=
    fun t ht => hmade t (mem_of_mem_carriedTold ht)
  have hdeclared : DeclaredBefore (helpers.map .helper)
      ((carriedTold told).flatMap ToldEdit.parts) := .flatMap fun t ht => (hcarried t ht).declared
  have hall : declaredIn filled = (carriedTold told).flatMap fun t => declaredIn t.parts := by
    rw [hfilled.declaredIn_eq, declaredIn_flatMap]
  refine ⟨hfilled.plain fun text htext => ?_, ?_, hfilled.declaredBefore (hdeclared.mono ?_),
    fun hstops => hfilled.declaredBefore ?_⟩
  · obtain ⟨t, ht, htext⟩ := List.mem_flatMap.mp htext
    exact (hcarried t ht).plain text htext
  · obtain ⟨names, hperm, hsub⟩ := declaredIn_carriedTold told
    rw [hall]
    exact (hperm.nodup_iff.mp (hnodup.sublist hsub)).map MadeName.text_injective
  · -- The edit that declares the helpers is carried out.
    rcases hprologue with rfl | ⟨t, ht, hstart, hstop, hhelpers, -⟩
    · exact List.nil_subset _
    · obtain ⟨front, behind, hsplit, -⟩ := carriedTold_split ht hstart hstop
      intro name hname
      refine List.mem_filter.mpr ⟨?_, ?_⟩
      · rw [hall, hsplit]
        refine List.mem_flatMap.mpr ⟨t, List.mem_append_right _ (List.mem_cons_self ..), ?_⟩
        rwa [hhelpers]
      · obtain ⟨h, -, rfl⟩ := List.mem_map.mp hname
        rfl
  · rcases hprologue with rfl | ⟨t, ht, hstart, hstop, hhelpers, hunused⟩
    · exact hdeclared
    · -- What comes before the prologue does not replace an item, so it uses no name.
      obtain ⟨front, behind, hsplit, hfront⟩ := carriedTold_split ht hstart hstop
      rw [hsplit] at hcarried ⊢
      obtain ⟨hbefore, hbehind⟩ := List.forall_mem_append.mp hcarried
      have hnothing : ∀ name, .uses name ∉ front.flatMap ToldEdit.parts := by
        intro name hname
        obtain ⟨f, hf, hname⟩ := List.mem_flatMap.mp hname
        obtain ⟨n, hn, -, hend⟩ := (hbefore f hf).placed name hname
        have := hstops n hn
        rw [← hend, hfront f hf] at this
        exact Nat.lt_irrefl 0 this
      rw [List.flatMap_append, List.flatMap_cons]
      refine (declaredBefore_of_unused [] hnothing).append
        ((declaredBefore_of_unused _ hunused).append (.flatMap fun x hx => ?_))
      refine (hbehind x (List.mem_cons_of_mem _ hx)).declared.mono ?_
      rw [hhelpers]
      exact List.subset_append_left ..

/-- A script with a variable of its own that is named like that of a module. -/
def takenScript : List Char :=
  "import \x7b a, b \x7d from \"m\"\nlet __sfc_module1 = 1\n".toList

end SingleFile.Script
