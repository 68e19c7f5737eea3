/-
  SingleFile.Proofs.Script.MadeNames — NAMES THAT A LOWERING MAKES UP
  ───────────────────────────────────────────────────────────────────
  A lowering makes up names for the variables of the modules it reads, and
  for its shared helpers.  A text that it writes is told apart into the made
  names that are declared in it, those that are used in it, and plain text.
  Plain text is the program's own: it is copied from the script, or is a name
  that its tree spells.  All other plain text has no made name in it.

  Main results:
    * `MadeName.text_injective` — made names are told apart by their texts.
    * `IsPlain.not_mentions` — a made name that the program does not have is
      not in plain text.
    * `DeclaredBefore.append` — declarations before uses, text by text.
-/
import Mathlib.Data.List.Infix
import SingleFile.Proofs.Script.ErasureLines
import SingleFile.Proofs.Script.Literals
import SingleFile.Proofs.Script.LoweringEffects

namespace SingleFile.Script

open SingleFile.Text

/-! ## §1. Made names -/

/-- A name that a lowering makes up. -/
inductive MadeName where
  /-- The variable of a module. -/
  | temporary (count : Nat)
  /-- A shared helper. -/
  | helper (h : Helper)
deriving DecidableEq, Repr

/-- What a made name is spelled like. -/
def MadeName.text : MadeName → String
  | temporary count => temporaryName count
  | helper h => h.name

/-- The word in front of a made name where it is declared. -/
def MadeName.keyword : MadeName → String
  | temporary _ => "var "
  | helper _ => "function "

/-- What every made name begins with. -/
def madePrefix : List Char := "__sfc_".toList

theorem temporaryName_injective : Function.Injective temporaryName := by
  intro a b h
  have htexts := congrArg String.toList h
  rw [temporaryName, temporaryName, String.toList_append, String.toList_append] at htexts
  have hdigits := List.append_cancel_left htexts
  -- The number is read back from its digits.
  have hnumbers := congrArg (fun digits => Nat.ofDigitChars 10 digits 0) hdigits
  simpa [Nat.repr_eq_ofList_toDigits] using hnumbers

/-- **Made names are told apart by their texts.** -/
theorem MadeName.text_injective : Function.Injective MadeName.text := by
  -- A module's variable and a helper differ in the character behind the prefix.
  have happart (count : Nat) (h : Helper) : temporaryName count ≠ h.name := by
    intro heq
    have hchar := congrArg (fun t => t.toList[6]?) heq
    rw [temporaryName, String.toList_append, List.getElem?_append_left (by decide)] at hchar
    cases h <;> exact absurd hchar (by decide)
  rintro (a | h) (b | h') heq
  · exact congrArg temporary (temporaryName_injective heq)
  · exact absurd heq (happart a h')
  · exact absurd heq.symm (happart b h)
  · cases h <;> cases h' <;> first | rfl | exact absurd heq (by decide)

theorem MadeName.begins (name : MadeName) : madePrefix <+: name.text.toList := by
  cases name with
  | temporary count =>
    rw [text, temporaryName, String.toList_append]
    exact (show madePrefix <+: "__sfc_module".toList by decide).trans (List.prefix_append ..)
  | helper h => cases h <;> decide

/-! ## §2. Plain text -/

/-- The names that a kind of node spells. -/
def Kind.spelled : Kind → List String
  | .enumMember (.word name) => [name]
  | kind => kind.names

/-- The names that some trees spell. -/
def namesIn (nodes : List Node) : List String := (subtreesOf nodes).flatMap (·.kind.spelled)

theorem mem_namesIn {nodes : List Node} {n : Node} {name : String} (hn : n ∈ subtreesOf nodes)
    (hname : name ∈ n.kind.spelled) : name ∈ namesIn nodes :=
  List.mem_flatMap.mpr ⟨n, hn, hname⟩

theorem namesIn_subset {nodes more : List Node} (h : subtreesOf nodes ⊆ subtreesOf more) :
    namesIn nodes ⊆ namesIn more := by
  intro name hname
  obtain ⟨n, hn, hname⟩ := List.mem_flatMap.mp hname
  exact mem_namesIn (h hn) hname

/-- Whether a text has no beginning of a made name in it. -/
def IsFree (text : String) : Prop := ¬madePrefix <:+: text.toList

instance (text : String) : Decidable (IsFree text) :=
  inferInstanceAs (Decidable (¬madePrefix <:+: text.toList))

theorem isFree_of_not_mem {text : String} (h : '_' ∉ text.toList) : IsFree text :=
  fun hin => h (hin.subset (by decide))

/-- Whether a text is plain: it has no made name in it, or it is the program's own, which may be
a name in quotes too. -/
inductive IsPlain (source : List Char) (items : List Node) : String → Prop where
  | free {text : String} (h : IsFree text) : IsPlain source items text
  | copied {text : String} (h : text.toList <:+: source) : IsPlain source items text
  | name {name : String} (h : name ∈ namesIn items) : IsPlain source items name
  | key {name : String} (h : name ∈ namesIn items) : IsPlain source items (quoted name)

/-- What stands at a span of a script is plain. -/
theorem IsPlain.textAt {source : List Char} {items : List Node} (span : Span) :
    IsPlain source items (textAt source span) := by
  unfold Script.textAt
  cases hslice : span.text? source with
  | none => exact .free (by decide)
  | some text =>
    obtain ⟨front, behind, rfl, -⟩ := slice?_eq_some hslice
    exact .copied ⟨front, behind, by rw [Option.getD_some, String.toList_ofList]⟩

/-- Whether a character is escaped in quotes. -/
def IsEscaped (c : Char) : Prop := c = '\\' ∨ c = '"'

instance : DecidablePred IsEscaped := fun _ => inferInstanceAs (Decidable (_ ∨ _))

/-- Whether nothing in a text is escaped. -/
def IsUnescaped (cs : List Char) : Prop := ∀ c ∈ cs, ¬IsEscaped c

instance (cs : List Char) : Decidable (IsUnescaped cs) :=
  List.decidableBAll (fun c => ¬IsEscaped c) cs

theorem escaped_eq (c : Char) : escaped c = if IsEscaped c then ['\\', c] else [c] := by
  unfold escaped
  by_cases h : IsEscaped c
  · rw [if_pos h, if_pos (by simpa [IsEscaped] using h)]
  · rw [if_neg h, if_neg (by simpa [IsEscaped] using h)]

theorem infix_of_infix_cons {part text : List Char} {c : Char} (hc : c ∉ part)
    (h : part <:+: c :: text) : part <:+: text := by
  rcases List.infix_cons_iff.mp h with h | h
  · cases part with
    | nil => exact List.nil_infix
    | cons d part =>
      obtain ⟨rfl, -⟩ := List.cons_prefix_cons.mp h
      exact absurd (List.mem_cons_self ..) hc
  · exact h

theorem infix_of_infix_concat {part text : List Char} {c : Char} (hc : c ∉ part)
    (h : part <:+: text ++ [c]) : part <:+: text := by
  have hreverse : part.reverse <:+: c :: text.reverse := by
    simpa using List.reverse_infix.mpr h
  exact List.reverse_infix.mp (infix_of_infix_cons (by simpa using hc) hreverse)

theorem prefix_of_prefix_flatMap_escaped {part text : List Char}
    (hpart : IsUnescaped part) (h : part <+: text.flatMap escaped) : part <+: text := by
  induction part generalizing text with
  | nil => exact List.nil_prefix
  | cons d part ih =>
    obtain ⟨hd, hpart⟩ := List.forall_mem_cons.mp hpart
    cases text with
    | nil => exact h
    | cons c text =>
      rw [List.flatMap_cons, escaped_eq] at h
      split at h
      · -- What is escaped has a backslash in front, which the part does not have.
        obtain ⟨rfl, -⟩ := List.cons_prefix_cons.mp h
        exact absurd (.inl rfl) hd
      · obtain ⟨rfl, hrest⟩ := List.cons_prefix_cons.mp h
        exact List.cons_prefix_cons.mpr ⟨rfl, ih hpart hrest⟩

theorem infix_of_infix_flatMap_escaped {part text : List Char}
    (hpart : IsUnescaped part) (h : part <:+: text.flatMap escaped) : part <:+: text := by
  induction text with
  | nil => exact h
  | cons c text ih =>
    have hwhole := h
    rw [List.flatMap_cons, escaped_eq] at h
    split at h
    · next hc =>
      have hinner := infix_of_infix_cons (fun hmem => hpart _ hmem (.inl rfl)) h
      have hlater := infix_of_infix_cons (fun hmem => hpart _ hmem hc) hinner
      exact (ih hlater).trans (List.suffix_cons ..).isInfix
    · next hc =>
      rcases List.infix_cons_iff.mp h with h | h
      · have hfront : part <+: (c :: text).flatMap escaped := by
          rwa [List.flatMap_cons, escaped_eq, if_neg hc]
        exact (prefix_of_prefix_flatMap_escaped hpart hfront).isInfix
      · exact (ih h).trans (List.suffix_cons ..).isInfix

/-- What has nothing that is escaped stands in quotes only if it stands in the name. -/
theorem infix_of_infix_quoted {part : List Char} {name : String}
    (hpart : IsUnescaped part) (h : part <:+: (quoted name).toList) :
    part <:+: name.toList := by
  have hquote : '"' ∉ part := fun hmem => hpart _ hmem (.inr rfl)
  rw [toList_quoted] at h
  exact infix_of_infix_flatMap_escaped hpart
    (infix_of_infix_concat hquote (infix_of_infix_cons hquote h))

theorem MadeName.isUnescaped (name : MadeName) : IsUnescaped name.text.toList := by
  cases name with
  | temporary count =>
    have hword : IsUnescaped "__sfc_module".toList := by decide
    intro c hc
    rw [text, temporaryName, String.toList_append, List.mem_append] at hc
    rcases hc with hc | hc
    · exact hword c hc
    · rw [Nat.repr_eq_ofList_toDigits, String.toList_ofList] at hc
      have hdigit := areDigits_toDigits count c hc
      rintro (rfl | rfl) <;> exact absurd hdigit (by decide)
  | helper h => cases h <;> decide

/-- **A made name that the program does not have is not in plain text.** -/
theorem IsPlain.not_mentions {source : List Char} {items : List Node} {text : String}
    (h : IsPlain source items text) {made : MadeName} (hsource : ¬made.text.toList <:+: source)
    (hnames : ∀ name ∈ namesIn items, ¬made.text.toList <:+: name.toList) :
    ¬made.text.toList <:+: text.toList := by
  cases h with
  | free hfree => exact fun hin => hfree (made.begins.isInfix.trans hin)
  | copied hcopied => exact fun hin => hsource (hin.trans hcopied)
  | name hname => exact hnames _ hname
  | key hname =>
    exact fun hin => hnames _ hname (infix_of_infix_quoted made.isUnescaped hin)

/-! ## §3. Texts told apart -/

/-- A part of a text that a lowering writes. -/
inductive Part where
  | plain (text : String)
  | declares (name : MadeName)
  | uses (name : MadeName)
deriving DecidableEq, Repr

/-- The text of a part. -/
def Part.text : Part → String
  | plain text => text
  | declares name => name.keyword ++ name.text
  | uses name => name.text

/-- The text that some parts are. -/
def joined (parts : List Part) : String := String.join (parts.map Part.text)

@[simp] theorem joined_nil : joined [] = "" := rfl

@[simp] theorem joined_cons (part : Part) (parts : List Part) :
    joined (part :: parts) = part.text ++ joined parts := by
  rw [joined, List.map_cons, String.join_cons]
  rfl

@[simp] theorem joined_append (parts more : List Part) :
    joined (parts ++ more) = joined parts ++ joined more := by
  induction parts with
  | nil => rw [List.nil_append, joined_nil, String.empty_append]
  | cons part parts ih => rw [List.cons_append, joined_cons, joined_cons, ih, String.append_assoc]

/-- The made names that are declared in some parts. -/
def declaredIn : List Part → List MadeName
  | [] => []
  | .declares name :: rest => name :: declaredIn rest
  | _ :: rest => declaredIn rest

@[simp] theorem declaredIn_append (parts more : List Part) :
    declaredIn (parts ++ more) = declaredIn parts ++ declaredIn more := by
  induction parts with
  | nil => rfl
  | cons part parts ih =>
    cases part with
    | declares name => exact congrArg (name :: ·) ih
    | plain text => exact ih
    | uses name => exact ih

theorem declaredIn_flatMap {α : Type} (xs : List α) (f : α → List Part) :
    declaredIn (xs.flatMap f) = xs.flatMap fun x => declaredIn (f x) := by
  induction xs with
  | nil => rfl
  | cons x xs ih => rw [List.flatMap_cons, declaredIn_append, ih, List.flatMap_cons]

theorem mem_declaredIn {parts : List Part} {name : MadeName} :
    name ∈ declaredIn parts ↔ .declares name ∈ parts := by
  induction parts with
  | nil => simp [declaredIn]
  | cons part parts ih => cases part <;> simp [declaredIn, ih]

/-- Whether every made name that is used in some parts is declared in front of its use, or known
before. -/
def DeclaredBefore : List MadeName → List Part → Prop
  | _, [] => True
  | known, .plain _ :: rest => DeclaredBefore known rest
  | known, .declares name :: rest => DeclaredBefore (name :: known) rest
  | known, .uses name :: rest => name ∈ known ∧ DeclaredBefore known rest

instance decidableDeclaredBefore :
    ∀ (known : List MadeName) (parts : List Part), Decidable (DeclaredBefore known parts)
  | _, [] => isTrue trivial
  | known, .plain _ :: rest => decidableDeclaredBefore known rest
  | known, .declares name :: rest => decidableDeclaredBefore (name :: known) rest
  | known, .uses name :: rest =>
    have := decidableDeclaredBefore known rest
    inferInstanceAs (Decidable (name ∈ known ∧ DeclaredBefore known rest))

theorem DeclaredBefore.mono {parts : List Part} {known more : List MadeName}
    (h : DeclaredBefore known parts) (hsub : known ⊆ more) : DeclaredBefore more parts := by
  induction parts generalizing known more with
  | nil => trivial
  | cons part parts ih =>
    cases part with
    | plain text => exact ih h hsub
    | declares name =>
      have hrest : DeclaredBefore (name :: known) parts := h
      exact ih hrest (List.cons_subset_cons name hsub)
    | uses name => exact ⟨hsub h.1, ih h.2 hsub⟩

/-- **One text behind another one**: the second one may use what the first one declares. -/
theorem DeclaredBefore.append {parts more : List Part} {known : List MadeName}
    (h : DeclaredBefore known parts) (h' : DeclaredBefore (declaredIn parts ++ known) more) :
    DeclaredBefore known (parts ++ more) := by
  induction parts generalizing known with
  | nil => exact h'
  | cons part parts ih =>
    cases part with
    | plain text => exact ih h h'
    | declares name =>
      have hrest : DeclaredBefore (name :: known) parts := h
      refine ih hrest (h'.mono fun n hn => ?_)
      simp only [declaredIn, List.cons_append, List.mem_cons, List.mem_append] at hn ⊢
      tauto
    | uses name => exact ⟨h.1, ih h.2 h'⟩

example : ¬DeclaredBefore [] [.uses (.temporary 1), .declares (.temporary 1)] := by decide

theorem DeclaredBefore.flatMap {α : Type} {xs : List α} {f : α → List Part}
    {known : List MadeName} (h : ∀ x ∈ xs, DeclaredBefore known (f x)) :
    DeclaredBefore known (xs.flatMap f) := by
  induction xs with
  | nil => trivial
  | cons x xs ih =>
    obtain ⟨hx, hxs⟩ := List.forall_mem_cons.mp h
    rw [List.flatMap_cons]
    exact hx.append ((ih hxs).mono (List.subset_append_right ..))

/-- Where nothing is used, nothing has to be declared. -/
theorem declaredBefore_of_unused {parts : List Part} (known : List MadeName)
    (h : ∀ name, .uses name ∉ parts) : DeclaredBefore known parts := by
  induction parts generalizing known with
  | nil => trivial
  | cons part parts ih =>
    have hrest : ∀ name, .uses name ∉ parts := fun name hmem => h name (List.mem_cons_of_mem _ hmem)
    cases part with
    | plain text => exact ih known hrest
    | declares name => exact ih (name :: known) hrest
    | uses name => exact absurd (List.mem_cons_self ..) (h name)

/-! ## §4. Texts that use made names -/

/-- Whether a part is plain, or uses a name that is available. -/
def Part.IsAllowed (source : List Char) (items : List Node) (available : List MadeName) :
    Part → Prop
  | plain text => IsPlain source items text
  | declares _ => False
  | uses name => name ∈ available

/-- Whether a text is made of plain text and of uses of available names. -/
def IsSpelled (source : List Char) (items : List Node) (available : List MadeName)
    (text : String) : Prop :=
  ∃ parts, joined parts = text ∧ ∀ part ∈ parts, part.IsAllowed source items available

section

variable {source : List Char} {items : List Node} {available more : List MadeName}

theorem declaredIn_of_allowed {parts : List Part}
    (h : ∀ part ∈ parts, part.IsAllowed source items available) : declaredIn parts = [] := by
  refine List.eq_nil_iff_forall_not_mem.mpr fun name hname => ?_
  exact h _ (mem_declaredIn.mp hname)

theorem declaredBefore_of_allowed {parts : List Part} {known : List MadeName}
    (h : ∀ part ∈ parts, part.IsAllowed source items available) (hsub : available ⊆ known) :
    DeclaredBefore known parts := by
  induction parts with
  | nil => trivial
  | cons part parts ih =>
    obtain ⟨hpart, hparts⟩ := List.forall_mem_cons.mp h
    cases part with
    | plain text => exact ih hparts
    | declares name => exact hpart.elim
    | uses name => exact ⟨hsub hpart, ih hparts⟩

theorem Part.IsAllowed.mono {part : Part} (h : part.IsAllowed source items available)
    (hsub : available ⊆ more) : part.IsAllowed source items more := by
  cases part with
  | plain text => exact h
  | declares name => exact h
  | uses name => exact hsub h

namespace IsSpelled

variable {text text' : String}

theorem plain (h : IsPlain source items text) : IsSpelled source items available text :=
  ⟨[.plain text], by simp [Part.text], List.forall_mem_singleton.mpr h⟩

theorem empty : IsSpelled source items available "" := ⟨[], rfl, List.forall_mem_nil _⟩

/-- Text of the lowering's own. -/
theorem word (h : IsFree text) : IsSpelled source items available text := .plain (.free h)

theorem name (h : text ∈ namesIn items) : IsSpelled source items available text := .plain (.name h)

/-- What stands at a span of the script. -/
theorem copied (span : Span) : IsSpelled source items available (textAt source span) :=
  .plain (.textAt span)

theorem uses {name : MadeName} (h : name ∈ available) :
    IsSpelled source items available name.text :=
  ⟨[.uses name], by simp [Part.text], List.forall_mem_singleton.mpr h⟩

theorem append (h : IsSpelled source items available text)
    (h' : IsSpelled source items available text') :
    IsSpelled source items available (text ++ text') := by
  obtain ⟨parts, rfl, hparts⟩ := h
  obtain ⟨parts', rfl, hparts'⟩ := h'
  exact ⟨parts ++ parts', joined_append .., List.forall_mem_append.mpr ⟨hparts, hparts'⟩⟩

theorem join {texts : List String} (h : ∀ text ∈ texts, IsSpelled source items available text) :
    IsSpelled source items available (String.join texts) := by
  induction texts with
  | nil => exact empty
  | cons text texts ih =>
    obtain ⟨htext, htexts⟩ := List.forall_mem_cons.mp h
    rw [String.join_cons]
    exact htext.append (ih htexts)

theorem mono (h : IsSpelled source items available text) (hsub : available ⊆ more) :
    IsSpelled source items more text := by
  obtain ⟨parts, htext, hparts⟩ := h
  exact ⟨parts, htext, fun part hpart => (hparts part hpart).mono hsub⟩

end IsSpelled

end

end SingleFile.Script
