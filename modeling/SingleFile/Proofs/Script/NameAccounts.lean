/-
  SingleFile.Proofs.Script.NameAccounts — KEEPING ACCOUNT OF MADE NAMES
  ─────────────────────────────────────────────────────────────────────
  A lowering numbers its variables by a counter and keeps a list of the
  helpers it has asked for, while one item after another is rewritten.  The
  account of a state tells the recorded actions apart: the variables declared
  in them are those counted so far, each once, and an action uses only the
  variable it declares itself and helpers on the list.

  Which helpers are declared is known only when the last item is done, so the
  account is kept for a list of helpers that a step may not leave.

  Main results:
    * `Lower.Leads.bind`, `Lower.Leads.mapM` — how accounts pass through a
      lowering.
    * `callHelper_spells` — a helper that is called by its name is on the list.
    * `requireText_leads`, `foreignExport_spells` — statements that use the
      variable of a module.
    * `record_leads`, `replace_leads` — what is recorded is told apart.
-/
import SingleFile.Proofs.Script.ItemActions
import SingleFile.Proofs.Script.SpelledTexts

namespace SingleFile.Script

open SingleFile.Text

/-! ## §1. Accounts -/

/-- The made names that an action may use: the variable that it declares, if it does, and the
helpers. -/
def availableTo (temporary? : Option Nat) (helpers : List Helper) : List MadeName :=
  (temporary?.map .temporary).toList ++ helpers.map .helper

/-- The declaration of the variable of a module, if there is one. -/
def opening (temporary? : Option Nat) : List Part :=
  (temporary?.map fun count => .declares (.temporary count)).toList

/-- An action told apart: its text declares the variable of a module, if it does, and goes on. -/
structure Entry where
  action : Action
  temporary? : Option Nat
  rest : List Part

/-- The parts of the text that an action writes. -/
def Entry.parts (e : Entry) : List Part := opening e.temporary? ++ e.rest

/-- Whether an action is told apart rightly.  Names are used only where a whole item is replaced. -/
structure Entry.IsMade (source : List Char) (items : List Node) (helpers : List Helper)
    (e : Entry) : Prop where
  text : joined e.parts = e.action.text
  rest : ∀ part ∈ e.rest, part.IsAllowed source items (availableTo e.temporary? helpers)
  placed : ∀ name, .uses name ∈ e.rest →
    ∃ n ∈ items, ∃ text, e.action = .replace n.start n.stop text

/-- Whether what has been decided so far is accounted for; a variable may have been counted that
is not declared yet. -/
structure Lowering.IsAccounted (source : List Char) (items : List Node) (helpers : List Helper)
    (pending : Option Nat) (s : Lowering) : Prop where
  entries : ∃ entries : List Entry, s.actions.reverse.flatten = entries.map Entry.action ∧
    entries.filterMap Entry.temporary? ++ pending.toList = List.range' 1 s.temporaries ∧
    ∀ e ∈ entries, e.IsMade source items helpers
  deferred : IsSpelled source items [] s.deferred
  helpers : s.helpers.Nodup

/-! ## §2. Steps -/

/-- Whether a step leads from one property of states to another one, if all helpers that have been
asked for behind it are among some; no step forgets one. -/
def Lower.Leads {α : Type} (known : Module) (helpers : List Helper) (before : Lowering → Prop)
    (step : Lower α) (after : α → Lowering → Prop) : Prop :=
  ∀ s, s.helpers ⊆ ((step.run known).run s).2.helpers ∧
    (((step.run known).run s).2.helpers ⊆ helpers → before s →
      after ((step.run known).run s).1 ((step.run known).run s).2)

namespace Lower.Leads

variable {α β : Type} {known : Module} {helpers : List Helper} {before : Lowering → Prop}

theorem pure {a : α} {after : α → Lowering → Prop} (h : ∀ s, before s → after a s) :
    Lower.Leads known helpers before (Pure.pure a) after :=
  fun s => ⟨List.Subset.refl _, fun _ hs => h s hs⟩

theorem bind {step : Lower α} {next : α → Lower β} {middle : α → Lowering → Prop}
    {after : β → Lowering → Prop} (h : Lower.Leads known helpers before step middle)
    (h' : ∀ a, Lower.Leads known helpers (middle a) (next a) after) :
    Lower.Leads known helpers before (step >>= next) after := by
  intro s
  obtain ⟨hkeeps, hstep⟩ := h s
  obtain ⟨hkeeps', hnext⟩ := h' ((step.run known).run s).1 ((step.run known).run s).2
  exact ⟨List.Subset.trans hkeeps hkeeps', fun hlast hs =>
    hnext hlast (hstep (List.Subset.trans hkeeps' hlast) hs)⟩

theorem bindRead {next : Module → Lower β} {after : β → Lowering → Prop}
    (h : Lower.Leads known helpers before (next known) after) :
    Lower.Leads known helpers before (MonadReader.read >>= next) after :=
  fun s => h s

theorem mono {step : Lower α} {after weaker : α → Lowering → Prop}
    (h : Lower.Leads known helpers before step after) (hle : ∀ a s, after a s → weaker a s) :
    Lower.Leads known helpers before step weaker :=
  fun s => ⟨(h s).1, fun hlast hs => hle _ _ ((h s).2 hlast hs)⟩

theorem of_imp {step : Lower α} {after : α → Lowering → Prop} {stronger : Lowering → Prop}
    (h : Lower.Leads known helpers before step after) (himp : ∀ s, stronger s → before s) :
    Lower.Leads known helpers stronger step after :=
  fun s => ⟨(h s).1, fun hlast hs => (h s).2 hlast (himp s hs)⟩

/-- What is known before a step is known behind it. -/
theorem frame {step : Lower α} {after : α → Lowering → Prop} (fact : Prop)
    (h : Lower.Leads known helpers before step after) :
    Lower.Leads known helpers (fun s => before s ∧ fact) step fun a s => after a s ∧ fact :=
  fun s => ⟨(h s).1, fun hlast hs => ⟨(h s).2 hlast hs.1, hs.2⟩⟩

/-- A map whose steps give results of one kind. -/
theorem mapM {result : α → Prop} {items : List β} {step : β → Lower α}
    (h : ∀ x ∈ items,
      Lower.Leads known helpers before (step x) fun a s => before s ∧ result a) :
    Lower.Leads known helpers before (items.mapM step) fun found s =>
      before s ∧ ∀ a ∈ found, result a := by
  induction items with
  | nil => exact .pure fun s hs => ⟨hs, List.forall_mem_nil _⟩
  | cons x rest ih =>
    obtain ⟨hx, hrest⟩ := List.forall_mem_cons.mp h
    rw [List.mapM_cons]
    refine .bind hx fun a => .bind ((ih hrest).frame (result a)) fun found => .pure ?_
    rintro s ⟨⟨hs, hfound⟩, ha⟩
    exact ⟨hs, List.forall_mem_cons.mpr ⟨ha, hfound⟩⟩

/-- A step that leaves the helpers alone. -/
theorem same {step : Lower α} {after : α → Lowering → Prop}
    (hsame : ∀ s, ((step.run known).run s).2.helpers = s.helpers)
    (h : ∀ s, before s → after ((step.run known).run s).1 ((step.run known).run s).2) :
    Lower.Leads known helpers before step after :=
  fun s => ⟨by rw [hsame s]; exact List.Subset.refl _, fun _ hs => h s hs⟩

end Lower.Leads

/-! ## §3. Steps that build a text -/

section

variable {known : Module} {items : List Node} {helpers : List Helper} {available : List MadeName}
  {pending : Option Nat}

/-- Whether a step builds a text of plain text and available names, and keeps an account. -/
def Lower.Spells (known : Module) (items : List Node) (helpers : List Helper)
    (pending : Option Nat) (available : List MadeName) (step : Lower String) : Prop :=
  Lower.Leads known helpers (Lowering.IsAccounted known.source items helpers pending) step
    fun text s => s.IsAccounted known.source items helpers pending ∧
      IsSpelled known.source items available text

theorem pure_spells {text : String} (h : IsSpelled known.source items available text) :
    Lower.Spells known items helpers pending available (pure text) :=
  .pure fun _ hs => ⟨hs, h⟩

/-- A text is written around what a step builds. -/
theorem Lower.Spells.map {step : Lower String} {f : String → String}
    (h : Lower.Spells known items helpers pending available step)
    (hf : ∀ text, IsSpelled known.source items available text →
      IsSpelled known.source items available (f text)) :
    Lower.Spells known items helpers pending available (do return f (← step)) :=
  .bind h fun text => .pure fun _ hs => ⟨hs.1, hf text hs.2⟩

/-- What stands at a span is read. -/
theorem Lower.Leads.bindText {α : Type} {before : Lowering → Prop} {span : Span}
    {next : String → Lower α} {after : α → Lowering → Prop}
    (h : Lower.Leads known helpers before (next (textAt known.source span)) after) :
    Lower.Leads known helpers before (Lower.text span >>= next) after :=
  fun s => h s

theorem property_spells {object : String} {name : ModuleName}
    (hobject : IsSpelled known.source items available object)
    (hname : ∀ word ∈ name.word?, word ∈ namesIn items) :
    Lower.Spells known items helpers pending available (Lower.property object name) := by
  have htext := propertyText_spelled hobject hname
  cases name with
  | word name => exact pure_spells htext
  | quoted value span => exact .same (fun _ => rfl) fun _ hs => ⟨hs, htext⟩

/-- The same state with a helper on the list. -/
def Lowering.noting (s : Lowering) (h : Helper) : Lowering :=
  if s.helpers.contains h then s else { s with helpers := s.helpers ++ [h] }

theorem Lowering.helpers_subset_noting (s : Lowering) (h : Helper) :
    s.helpers ⊆ (s.noting h).helpers := by
  unfold noting
  split
  · exact List.Subset.refl _
  · exact List.subset_append_left ..

theorem Lowering.mem_helpers_noting (s : Lowering) (h : Helper) : h ∈ (s.noting h).helpers := by
  unfold noting
  split
  · next hcontains => exact List.contains_iff_mem.mp hcontains
  · exact List.mem_append_right _ (List.mem_singleton_self h)

theorem Lowering.IsAccounted.noting {source : List Char} {s : Lowering}
    (hs : s.IsAccounted source items helpers pending) (h : Helper) :
    (s.noting h).IsAccounted source items helpers pending := by
  unfold Lowering.noting
  split
  · exact hs
  · next hcontains =>
    refine ⟨hs.entries, hs.deferred, List.nodup_append.mpr ⟨hs.helpers, by simp, ?_⟩⟩
    rintro a ha b hb rfl
    rw [List.mem_singleton.mp hb] at ha
    exact hcontains (List.contains_iff_mem.mpr ha)

/-- **A helper that is called by its name is on the list.** -/
theorem callHelper_spells {h : Helper} {arguments : String}
    (hhelpers : helpers.map .helper ⊆ available)
    (harguments : IsSpelled known.source items available arguments) :
    Lower.Spells known items helpers pending available (Lower.callHelper h arguments) := by
  unfold Lower.callHelper
  refine .bindRead fun s => ?_
  dsimp only
  by_cases hshared : known.options.helpers = .shared
  · rw [if_pos (by rw [hshared]; rfl)]
    refine ⟨s.helpers_subset_noting h, fun hlast hs => ⟨hs.noting h, ?_⟩⟩
    exact call_spelled (fun _ => hhelpers
      (List.mem_map_of_mem (hlast (s.mem_helpers_noting h)))) harguments
  · rw [if_neg (by simpa using hshared)]
    exact ⟨List.Subset.refl _, fun _ hs =>
      ⟨hs, call_spelled (fun hmode => absurd hmode hshared) harguments⟩⟩

theorem defaultOf_spells {module : String} (hhelpers : helpers.map .helper ⊆ available)
    (hmodule : IsSpelled known.source items available module) :
    Lower.Spells known items helpers pending available (Lower.defaultOf module) := by
  unfold Lower.defaultOf
  refine .bindRead ?_
  cases known.options.interop with
  | helper =>
    exact (callHelper_spells hhelpers hmodule).map fun _ h => h.append (.word (by decide))
  | none => exact pure_spells (hmodule.append (.word (by decide)))

/-! ## §4. Imports and exports -/

theorem ImportItem.binding_mem_words (item : ImportItem) : item.binding.text ∈ item.words := by
  match item with
  | .defaultItem _ => exact List.mem_singleton_self _
  | .wholeModule _ => exact List.mem_singleton_self _
  | .named _ none _ => exact List.mem_singleton_self _
  | .named _ (some (.word _)) _ => exact List.mem_cons_self ..
  | .named _ (some (.quoted _ _)) _ => exact List.mem_singleton_self _

theorem importValue_spells {module : String} {item : ImportItem}
    (hhelpers : helpers.map .helper ⊆ available)
    (hmodule : IsSpelled known.source items available module) (hitem : item.words ⊆ namesIn items) :
    Lower.Spells known items helpers pending available (importValue module item) := by
  cases item with
  | defaultItem binding => exact defaultOf_spells hhelpers hmodule
  | wholeModule binding => exact pure_spells hmodule
  | named binding imported typeOnly =>
    cases imported with
    | none =>
      refine property_spells hmodule fun word hword => ?_
      obtain rfl := Option.some.inj hword
      exact hitem (List.mem_singleton_self _)
    | some name =>
      unfold importValue
      dsimp only
      split
      · exact defaultOf_spells hhelpers hmodule
      · refine property_spells hmodule fun word hword => ?_
        cases name with
        | word name =>
          obtain rfl := Option.some.inj hword
          exact hitem (List.mem_cons_of_mem _ (List.mem_singleton_self _))
        | quoted value span => exact absurd hword (by simp [ModuleName.word?])

theorem bindItem_spells {module : String} {item : ImportItem}
    (hhelpers : helpers.map .helper ⊆ available)
    (hmodule : IsSpelled known.source items available module) (hitem : item.words ⊆ namesIn items) :
    Lower.Spells known items helpers pending available
      (do return varText item.binding.text (← importValue module item)) :=
  (importValue_spells hhelpers hmodule hitem).map fun _ h =>
    varText_spelled (hitem item.binding_mem_words) h

/-- A variable of a module is counted before it is declared. -/
theorem bindTemporary {α : Type} {next : String → Lower α} {after : α → Lowering → Prop}
    (h : ∀ count, Lower.Leads known helpers
      (Lowering.IsAccounted known.source items helpers (some count)) (next (temporaryName count))
      after) :
    Lower.Leads known helpers (Lowering.IsAccounted known.source items helpers none)
      (Lower.temporary >>= next) after := by
  intro s
  obtain ⟨hkeeps, hnext⟩ := h (s.temporaries + 1) { s with temporaries := s.temporaries + 1 }
  refine ⟨hkeeps, fun hlast hs => hnext hlast ?_⟩
  obtain ⟨⟨entries, hactions, hcounted, hmade⟩, hdeferred, hhelpers⟩ := hs
  refine ⟨⟨entries, hactions, ?_, hmade⟩, hdeferred, hhelpers⟩
  have hbefore : entries.filterMap Entry.temporary? = List.range' 1 s.temporaries := by
    simpa using hcounted
  rw [hbefore, List.range'_concat, Nat.one_mul, Nat.add_comm 1]
  rfl

/-- Whether a text is that of an action that is to be recorded, and all else is accounted for: the
text declares the variable that has been counted, if one has, and goes on. -/
def Lowering.Awaits (source : List Char) (items : List Node) (helpers : List Helper)
    (text : String) (s : Lowering) : Prop :=
  ∃ pending body, s.IsAccounted source items helpers pending ∧
    text = joined (opening pending) ++ body ∧
    IsSpelled source items (availableTo pending helpers) body

theorem Lowering.Awaits.plain {s : Lowering} {text : String}
    (hs : s.IsAccounted known.source items helpers none)
    (h : IsSpelled known.source items (availableTo none helpers) text) :
    s.Awaits known.source items helpers text :=
  ⟨none, text, hs, String.empty_append.symm, h⟩

/-- The variable of a module is declared, and statements that use it follow. -/
theorem Lowering.Awaits.declaring {s : Lowering} {count : Nat} {value text : String}
    (hs : s.IsAccounted known.source items helpers (some count))
    (hvalue : IsSpelled known.source items (availableTo (some count) helpers) value)
    (h : IsSpelled known.source items (availableTo (some count) helpers) text) :
    s.Awaits known.source items helpers (varText (temporaryName count) value ++ text) := by
  refine ⟨some count, " = " ++ value ++ ";" ++ text, hs, ?_,
    (((IsSpelled.word (by decide)).append hvalue).append (.word (by decide))).append h⟩
  simp [varText, opening, Part.text, MadeName.keyword, MadeName.text, String.append_assoc]

theorem helpers_subset_availableTo (temporary? : Option Nat) (helpers : List Helper) :
    helpers.map .helper ⊆ availableTo temporary? helpers :=
  List.subset_append_right ..

/-- Inside the statements behind its declaration a variable is available. -/
theorem temporaryName_spelled (source : List Char) (items : List Node) (count : Nat)
    (helpers : List Helper) :
    IsSpelled source items (availableTo (some count) helpers) (temporaryName count) :=
  have havailable : .temporary count ∈ availableTo (some count) helpers := List.mem_cons_self ..
  .uses havailable

/-- **An import declares at most the variable of its module**, and in front of its uses. -/
theorem requireText_leads {list : List ImportItem} {source : String}
    (hsource : ∀ available, IsSpelled known.source items available source)
    (hlist : ∀ item ∈ list, item.words ⊆ namesIn items) :
    Lower.Leads known helpers (Lowering.IsAccounted known.source items helpers none)
      (requireText list source) (Lowering.Awaits known.source items helpers) := by
  have hrequired (available : List MadeName) :
      IsSpelled known.source items available ("require(" ++ source ++ ")") :=
    ((IsSpelled.word (by decide)).append (hsource _)).append (.word (by decide))
  have hlong : Lower.Leads known helpers (Lowering.IsAccounted known.source items helpers none)
      (do
        let module ← Lower.temporary
        let bindings ← list.mapM fun item => do
          return varText item.binding.text (← importValue module item)
        return varText module ("require(" ++ source ++ ")") ++ String.join bindings)
      (Lowering.Awaits known.source items helpers) := by
    refine bindTemporary fun count => ?_
    refine .bind (.mapM fun item hitem => bindItem_spells
      (helpers_subset_availableTo (some count) helpers)
      (temporaryName_spelled known.source items count helpers)
      (hlist item hitem)) fun bindings => ?_
    exact .pure fun s hs => .declaring hs.1 (hrequired _) (.join hs.2)
  unfold requireText
  dsimp only
  match list with
  | [] => exact .pure fun s hs => .plain hs ((hrequired _).append (.word (by decide)))
  | [item] =>
    dsimp only
    split
    · exact (bindItem_spells (helpers_subset_availableTo none helpers) (hrequired _)
        (hlist item (List.mem_singleton_self item))).mono fun _ _ hs => .plain hs.1 hs.2
    · exact hlong
  | first :: second :: rest => exact hlong

/-- The property that a named entry is exported as. -/
theorem exported_spells {span : Span} {entity : ModuleName} {exported : Option ModuleName}
    {typeOnly : Bool}
    (hentry : (ExportItem.named span entity exported typeOnly).words ⊆ namesIn items) :
    Lower.Spells known items helpers pending available
      (Lower.property "exports" (exported.getD entity)) := by
  refine property_spells (.word (by decide)) fun word hword => hentry ?_
  cases exported with
  | none => exact List.mem_append_left _ (Option.mem_toList.mpr hword)
  | some name => exact List.mem_append_right _ (Option.mem_toList.mpr hword)

theorem assignment_spelled {source : List Char} {target value : String}
    (htarget : IsSpelled source items available target)
    (hvalue : IsSpelled source items available value) :
    IsSpelled source items available (target ++ " = " ++ value ++ ";") :=
  ((htarget.append (.word (by decide))).append hvalue).append (.word (by decide))

/-- An entry of a list of the module's own names uses no made name. -/
theorem localExport_spells {entry : ExportItem} (hentry : entry.words ⊆ namesIn items) :
    Lower.Spells known items helpers pending [] (localExport entry) := by
  cases entry with
  | named span entity exported typeOnly =>
    have hexported : Lower.Spells known items helpers pending []
        (Lower.property "exports" (exported.getD entity)) := exported_spells hentry
    exact .bind hexported fun target => .bindText
      (.pure fun s hs => ⟨hs.1, assignment_spelled hs.2 (.copied entity.span)⟩)
  | wholeModule span exported => exact pure_spells .empty

/-- An entry of a list of another module's names uses the variable of that module. -/
theorem foreignExport_spells {module : String} {entry : ExportItem}
    (hhelpers : helpers.map .helper ⊆ available)
    (hmodule : IsSpelled known.source items available module)
    (hentry : entry.words ⊆ namesIn items) :
    Lower.Spells known items helpers pending available (foreignExport module entry) := by
  cases entry with
  | named span entity exported typeOnly =>
    have hexported : Lower.Spells known items helpers pending available
        (Lower.property "exports" (exported.getD entity)) := exported_spells hentry
    have hentity : ∀ word ∈ entity.word?, word ∈ namesIn items :=
      fun word hword => hentry (List.mem_append_left _ (Option.mem_toList.mpr hword))
    have hassign (value : String) :
        Lower.Leads known helpers (fun s => s.IsAccounted known.source items helpers pending ∧
            IsSpelled known.source items available value)
          (do return (← Lower.property "exports" (exported.getD entity)) ++ " = " ++ value ++ ";")
          fun text s => s.IsAccounted known.source items helpers pending ∧
            IsSpelled known.source items available text := by
      refine .bind (hexported.frame _) fun target => ?_
      exact .pure fun s ⟨⟨hs, htarget⟩, hvalue⟩ => ⟨hs, assignment_spelled htarget hvalue⟩
    unfold foreignExport
    dsimp only
    split
    · exact .bind (defaultOf_spells hhelpers hmodule) hassign
    · exact .bind (property_spells hmodule hentity) hassign
  | wholeModule span exported =>
    have hexported : ∀ word ∈ exported.word?, word ∈ namesIn items :=
      fun word hword => hentry (Option.mem_toList.mpr hword)
    exact (property_spells (.word (by decide)) hexported).map fun _ h =>
      assignment_spelled h hmodule

/-! ## §5. Recorded actions -/

/-- What is recorded is told apart; a variable that has been counted is declared. -/
theorem Lowering.IsAccounted.record {s : Lowering} {new : List Entry} {source : List Char}
    (hs : s.IsAccounted source items helpers pending)
    (hcount : new.filterMap Entry.temporary? = pending.toList)
    (hnew : ∀ e ∈ new, e.IsMade source items helpers) :
    Lowering.IsAccounted source items helpers none
      { s with actions := new.map Entry.action :: s.actions } := by
  obtain ⟨⟨entries, hactions, hcounted, hmade⟩, hdeferred, hhelpers⟩ := hs
  refine ⟨⟨entries ++ new, ?_, ?_, List.forall_mem_append.mpr ⟨hmade, hnew⟩⟩, hdeferred, hhelpers⟩
  · rw [List.reverse_cons, List.flatten_append, List.flatten_singleton, hactions, List.map_append]
  · rw [List.filterMap_append, hcount, hcounted]
    exact List.append_nil _

/-- Actions that use no made name. -/
theorem exists_entries {source : List Char} {actions : List Action} (helpers : List Helper)
    (h : ∀ a ∈ actions, IsSpelled source items [] a.text) :
    ∃ new : List Entry, new.map Entry.action = actions ∧ new.filterMap Entry.temporary? = [] ∧
      ∀ e ∈ new, e.IsMade source items helpers := by
  induction actions with
  | nil => exact ⟨[], rfl, rfl, List.forall_mem_nil _⟩
  | cons a actions ih =>
    obtain ⟨⟨parts, htext, hparts⟩, hactions⟩ := List.forall_mem_cons.mp h
    obtain ⟨new, hnew, hcount, hmade⟩ := ih hactions
    refine ⟨⟨a, none, parts⟩ :: new, by rw [List.map_cons, hnew], hcount,
      List.forall_mem_cons.mpr ⟨⟨htext, ?_, ?_⟩, hmade⟩⟩
    · exact fun part hpart => (hparts part hpart).mono (List.nil_subset _)
    · exact fun name hname => absurd (hparts _ hname) List.not_mem_nil

theorem record_leads {actions : List Action}
    (h : ∀ a ∈ actions, IsSpelled known.source items [] a.text) :
    Lower.Leads known helpers (Lowering.IsAccounted known.source items helpers none)
      (Lower.record actions)
      fun _ => Lowering.IsAccounted known.source items helpers none := by
  refine .same (fun _ => rfl) fun s hs => ?_
  obtain ⟨new, rfl, hcount, hmade⟩ := exists_entries helpers h
  exact hs.record hcount hmade

theorem blankSpan_leads (span : Span) :
    Lower.Leads known helpers (Lowering.IsAccounted known.source items helpers none)
      (Lower.record [blankSpan span])
      fun _ => Lowering.IsAccounted known.source items helpers none :=
  record_leads (List.forall_mem_singleton.mpr .empty)

theorem look_leads (offset : Nat) :
    Lower.Leads known helpers (Lowering.IsAccounted known.source items helpers none)
      (Lower.look offset) fun _ => Lowering.IsAccounted known.source items helpers none :=
  record_leads (List.forall_mem_singleton.mpr .empty)

/-- An item is replaced by the text that is awaited. -/
theorem replace_leads {n : Node} (hn : n ∈ items) (text : String) :
    Lower.Leads known helpers (Lowering.Awaits known.source items helpers text)
      (Lower.record [.replace n.start n.stop text])
      fun _ => Lowering.IsAccounted known.source items helpers none := by
  refine .same (fun _ => rfl) fun s hs => ?_
  obtain ⟨pending, body, hs, rfl, parts, rfl, hparts⟩ := hs
  have hmade : Entry.IsMade known.source items helpers
      ⟨.replace n.start n.stop (joined (opening pending) ++ joined parts), pending, parts⟩ :=
    ⟨joined_append .., hparts, fun _ _ => ⟨n, hn, _, rfl⟩⟩
  refine hs.record ?_ (List.forall_mem_singleton.mpr hmade)
  cases pending <;> rfl

theorem eraseTypes_leads {n : Node} (hsub : subtreesOf [n] ⊆ subtreesOf items) :
    Lower.Leads known helpers (Lowering.IsAccounted known.source items helpers none)
      (Lower.eraseTypes n) fun _ => Lowering.IsAccounted known.source items helpers none :=
  .bindRead (record_leads fun a ha =>
    have hall : a ∈ eraseAll known.source [n] := by rwa [eraseAll, eraseAll, List.append_nil]
    eraseAll_spelled hall hsub)

theorem recordThenErase_leads {actions : List Action} {n : Node}
    (h : ∀ a ∈ actions, IsSpelled known.source items [] a.text)
    (hsub : subtreesOf [n] ⊆ subtreesOf items) :
    Lower.Leads known helpers (Lowering.IsAccounted known.source items helpers none)
      (do Lower.record actions; Lower.eraseTypes n)
      fun _ => Lowering.IsAccounted known.source items helpers none :=
  .bind (record_leads h) fun _ => eraseTypes_leads hsub

theorem markExports_leads :
    Lower.Leads known helpers (Lowering.IsAccounted known.source items helpers none)
      Lower.markExports fun _ => Lowering.IsAccounted known.source items helpers none :=
  .same (fun _ => rfl) fun _ hs => ⟨hs.entries, hs.deferred, hs.helpers⟩

/-- Where imports and exports are lowered, a step goes on as it does there. -/
theorem Lower.Leads.bindCommonJs {α : Type} (hform : known.options.form = .commonJs)
    {before : Lowering → Prop} {next : Bool → Lower α} {after : α → Lowering → Prop}
    (h : Lower.Leads known helpers before (next true) after) :
    Lower.Leads known helpers before (Lower.isCommonJs >>= next) after := by
  have hnext : Lower.Leads known helpers before (next (known.options.form == .commonJs)) after := by
    rw [hform]
    exact h
  exact fun s => hnext s

end

end SingleFile.Script
