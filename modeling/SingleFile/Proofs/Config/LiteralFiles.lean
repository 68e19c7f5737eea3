/-
  SingleFile.Proofs.Config.LiteralFiles — ONE CONFIGURATION IN TWO KINDS OF FILES
  ───────────────────────────────────────────────────────────────────────────────
  A configuration can be written as a script that exports an object, or as
  JSON.  Both are read into terms and decoded by the same decoder, which does
  not look into numbers; so the configurations are the same but for how
  numbers are held, as long as the text of a number is read as the same number
  by both.

  A script that exports something else than literals is no configuration, and
  no part of it becomes one.

  Main results:
    * `agree_decoder` — what the decoder makes of alike terms.
    * `loadTranspiler_unsupported` — a script with something in what it
      exports that would have to be evaluated.
    * `loadTranspiler_literals` — all that is said of literals.
    * `loadTranspiler_roundsApart` — a number that is read as two.
-/
import SingleFile.Config.Discovery
import SingleFile.Proofs.Config.LiteralValues
import SingleFile.Proofs.Config.PlainJson
import SingleFile.Proofs.Json.Alike
import SingleFile.Proofs.Script.Literals

namespace SingleFile.Config

open SingleFile.Json SingleFile.Script SingleFile.Number SingleFile.Files SingleFile.Text List

/-! ## §1. Configurations -/

/-- Whether two entries are the same but for how numbers are held. -/
inductive Entry.Alike : Entry → Entry → Prop where
  | named (name : String) : Alike (.named name) (.named name)
  | configured {parts parts' : List Value} (h : Forall₂ Value.Alike parts parts') :
    Alike (.configured parts) (.configured parts')

/-- **Whether two configurations are the same but for how numbers are held.** -/
inductive Transpiler.Alike : Transpiler → Transpiler → Prop where
  | mk {presets presets' plugins plugins' : List Entry}
    {environments environments' : List (String × Transpiler)}
    (hpresets : Forall₂ Entry.Alike presets presets')
    (hplugins : Forall₂ Entry.Alike plugins plugins')
    (henvironments : Forall₂ (NamedAlike Alike) environments environments') :
    Alike (.mk presets plugins environments) (.mk presets' plugins' environments')

/-! ## §2. The decoder -/

theorem agree_entry (limit : Nat) : Agree limit Entry.decoder Entry.decoder Entry.Alike := by
  intro t t' h hlimit levels levels' hlevels hlevels'
  have hparts := agree_list (agree_value limit) h hlimit hlevels hlevels'
  cases h with
  | string s =>
    cases s with
    | none => exact .none
    | some name => exact .some (.named name)
  | _ => exact rel_map hparts fun _ _ => .configured

/-- The section that is put behind others. -/
theorem replaceSection_alike {sections sections' : List (String × Transpiler)} (name : String)
    {c c' : Transpiler} (h : Forall₂ (NamedAlike Transpiler.Alike) sections sections')
    (hc : c.Alike c') :
    Forall₂ (NamedAlike Transpiler.Alike) (sections.filter (fun s => s.1 != name) ++ [(name, c)])
      (sections'.filter (fun s => s.1 != name) ++ [(name, c')]) :=
  List.rel_append (List.rel_filter (fun _ _ ⟨_, _⟩ => Iff.rfl) h) (.cons (.mk name hc) .nil)

theorem agree_sections {limit : Nat} {d d' : Decoder Transpiler}
    (hd : Agree limit d d' Transpiler.Alike) :
    Agree limit (Transpiler.sections? d) (Transpiler.sections? d')
      (Forall₂ (NamedAlike Transpiler.Alike)) := by
  intro t t' h hlimit levels levels' hlevels hlevels'
  cases h with
  | object h =>
    rw [Term.depth] at hlimit hlevels hlevels'
    obtain ⟨inner, rfl, hinner⟩ := exists_levels_of_succ_le hlevels
    obtain ⟨inner', rfl, hinner'⟩ := exists_levels_of_succ_le hlevels'
    refine rel_foldlM h (fun m hm m' hm' halike sections sections' hsections => ?_) .nil
    have hdepth := depth_le_of_mem_members hm
    have hdepth' := depth_le_of_mem_members hm'
    cases halike with
    | mk key halike =>
      cases key with
      | none => exact .none
      | some name =>
        have hbelow := hdepth.trans_lt (Nat.lt_of_succ_lt hlimit)
        show Option.Rel _ ((d inner _).bind _) ((d' inner' _).bind _)
        refine rel_bind (hd halike hbelow (hdepth.trans hinner) (hdepth'.trans hinner')) ?_
        exact fun c c' hc => .some (replaceSection_alike name hsections hc)
  | _ => cases levels <;> cases levels' <;> exact .none

/-- **The decoder looks into no numbers**, as far as its bound reaches. -/
theorem agree_decoderWithin (limit : Nat) {bound bound' : Nat} (h : limit ≤ bound)
    (h' : limit ≤ bound') :
    Agree limit (Transpiler.decoderWithin bound) (Transpiler.decoderWithin bound')
      Transpiler.Alike := by
  induction limit generalizing bound bound' with
  | zero => exact fun _ _ _ hlimit => absurd hlimit (Nat.not_lt_zero _)
  | succ limit ih =>
    obtain ⟨bound, rfl, hbound⟩ := exists_levels_of_succ_le h
    obtain ⟨bound', rfl, hbound'⟩ := exists_levels_of_succ_le h'
    have hentries := agree_list (agree_entry limit)
    have hsections := agree_sections (ih hbound hbound')
    intro t t' halike hlimit levels levels' hlevels hlevels'
    refine rel_bind (recordFields?_alike _ halike hlimit hlevels hlevels') ?_
    intro fields fields' hf
    -- Only three fields make a configuration.
    match fields, fields', hf with
    | [], [], .nil => exact .none
    | [_], [_], .cons _ .nil => exact .none
    | [_, _], [_, _], .cons _ (.cons _ .nil) => exact .none
    | [_, _, _], [_, _, _], .cons hpresets (.cons hplugins (.cons henvironments .nil)) =>
      refine rel_bind (withDefault_alike hentries .nil hpresets) fun _ _ hpresets => ?_
      refine rel_bind (withDefault_alike hentries .nil hplugins) fun _ _ hplugins => ?_
      refine rel_bind (withDefault_alike hsections .nil henvironments) fun _ _ henvironments => ?_
      exact .some (.mk hpresets hplugins henvironments)
    | _ :: _ :: _ :: _ :: _, _ :: _ :: _ :: _ :: _, .cons _ (.cons _ (.cons _ (.cons _ _))) =>
      exact .none

/-- **What the decoder makes of alike terms.** -/
theorem agree_decoder {t t' : Term} (h : t.Alike t') {levels levels' : Nat}
    (hlevels : t.depth ≤ levels) (hlevels' : t'.depth ≤ levels') :
    Option.Rel Transpiler.Alike (Transpiler.decoder levels t) (Transpiler.decoder levels' t') := by
  have hdepth := Term.Alike.depth_eq t t' h
  exact agree_decoderWithin (t.depth + 1) (by omega) (by omega) h (Nat.lt_succ_self _) hlevels
    hlevels'

/-! ## §3. Files -/

/-- Whether a file is a script that exports an expression. -/
structure Exports (read : Reader) (path : Path) (value : Node) : Prop where
  isScript : path.extension? = some "js"
  exports : ∃ text program, read path = some text ∧
    (readProgram ⟨false, false⟩ true (withoutMark text)).program = .ok program ∧
    program.items.findSome? exported? = some value

/-- Whether a file is no script, and spells a term. -/
structure SpellsTerm (read : Reader) (path : Path) (t : Term) : Prop where
  isNoScript : path.extension? ≠ some "js"
  spells : ∃ text, read path = some text ∧ IsCommentedJson t text

/-- What a script is loaded to. -/
theorem loadTranspiler_of_exports {read : Reader} {path : Path} {value : Node}
    (h : Exports read path value) :
    ∃ items, items.findSome? exported? = some value ∧
      loadTranspiler read path = match exportedValue items with
        | .error cause => .error ⟨path, cause⟩
        | .ok config => orMalformed path (decodeValue? Transpiler.decoder config) := by
  obtain ⟨text, program, hread, hprogram, hexported⟩ := h.exports
  have hscript : (path.extension? == some "js") = true := beq_iff_eq.mpr h.isScript
  have hvalue : scriptValue text = exportedValue program.items := by rw [scriptValue, hprogram]
  refine ⟨program.items, hexported, ?_⟩
  rw [← hvalue, loadTranspiler, readConfig, hread]
  show (if (path.extension? == some "js") = true then _ else _) = _
  refine (if_pos hscript).trans ?_
  cases scriptValue text with
  | error cause => rfl
  | ok config => rfl

/-- What a file that spells a term is loaded to. -/
theorem loadTranspiler_of_spellsTerm {read : Reader} {path : Path} {t : Term}
    (h : SpellsTerm read path t) :
    loadTranspiler read path = orMalformed path (Transpiler.decoder textLevels t) := by
  obtain ⟨text, hread, htext⟩ := h.spells
  have hscript : ¬(path.extension? == some "js") = true := fun hjs =>
    h.isNoScript (beq_iff_eq.mp hjs)
  rw [loadTranspiler, readConfig, hread]
  show (if (path.extension? == some "js") = true then _ else _) = _
  rw [if_neg hscript, decodeText?, ofText?_of_isJson (isJson_plainJson htext)]
  rfl

/-- **A script with something in what it exports that would have to be evaluated** is no
configuration. -/
theorem loadTranspiler_unsupported {read : Reader} {path : Path} {value : Node}
    (h : Exports read path value) (hcomputed : HasComputed value) :
    ∃ r, loadTranspiler read path = .error ⟨path, .unsupported r⟩ := by
  obtain ⟨items, hexported, hload⟩ := loadTranspiler_of_exports h
  have hvalue : ∃ r, exportedValue items = .error (.unsupported r) := by
    rw [exportedValue, hexported]
    dsimp only
    rw [literalValue?_eq_none hcomputed]
    split
    · next heq => cases heq
    · exact ⟨_, rfl⟩
    · exact ⟨_, rfl⟩
  obtain ⟨r, hr⟩ := hvalue
  exact ⟨r, by rw [hload, hr]⟩

/-- **Whether two files are loaded alike**: to alike configurations, or to none as what both hold
is no configuration. -/
def LoadAlike (read read' : Reader) (path path' : Path) : Prop :=
  (∃ c c', loadTranspiler read path = .ok c ∧ loadTranspiler read' path' = .ok c' ∧ c.Alike c') ∨
    (loadTranspiler read path = .error ⟨path, .malformed⟩ ∧
      loadTranspiler read' path' = .error ⟨path', .malformed⟩)

/-- What a script that exports an object is loaded to. -/
theorem loadTranspiler_of_spellsLiteral {read : Reader} {path : Path} {value : Node}
    {members : List (String × Value)} (h : Exports read path value)
    (hvalue : SpellsLiteral value (.object members)) :
    loadTranspiler read path
      = orMalformed path (decodeValue? Transpiler.decoder (.object members)) := by
  obtain ⟨items, hexported, hload⟩ := loadTranspiler_of_exports h
  have hconfig : exportedValue items = .ok (.object members) := by
    rw [exportedValue, hexported]
    dsimp only
    rw [hvalue.unwrapped_kind, literalValue?_of_spells _ _ hvalue]
  rw [hload, hconfig]

/-- **A script and JSON that spell one object are loaded alike.** -/
theorem loadAlike_of_spells {read read' : Reader} {path path' : Path} {value : Node}
    {members : List (String × Value)} {t : Term} (h : Exports read path value)
    (hvalue : SpellsLiteral value (.object members)) (h' : SpellsTerm read' path' t)
    (halike : (Term.ofValue (.object members)).Alike t) (hdepth : t.depth ≤ textLevels) :
    LoadAlike read read' path path' := by
  have hrel := agree_decoder halike le_rfl hdepth
  rw [LoadAlike, loadTranspiler_of_spellsLiteral h hvalue, loadTranspiler_of_spellsTerm h',
    decodeValue?]
  generalize Transpiler.decoder _ (Term.ofValue (.object members)) = x at hrel ⊢
  generalize Transpiler.decoder textLevels t = x' at hrel ⊢
  cases hrel with
  | none => exact .inr ⟨rfl, rfl⟩
  | some hc => exact .inl ⟨_, _, rfl, rfl, hc⟩

/-- **Literals mean what they spell**: the value that an expression spells is read, nothing is read
of an expression with something in it that would have to be evaluated, and a script that exports
one is no configuration; a script and JSON that spell one object, nested no deeper than a text may
be and with the same numbers, are loaded alike. -/
theorem loadTranspiler_literals :
    (∀ n v, SpellsLiteral n v → literalValue? n = some v) ∧
      (∀ n, HasComputed n → literalValue? n = none ∧ ∀ read path, Exports read path n →
        ∃ r, loadTranspiler read path = .error ⟨path, .unsupported r⟩) ∧
      ∀ read read' path path' n members t, Exports read path n →
        SpellsLiteral n (.object members) → SpellsTerm read' path' t →
        (Term.ofValue (.object members)).Alike t → t.depth ≤ textLevels →
          LoadAlike read read' path path' :=
  ⟨fun n v h => literalValue?_of_spells n v h,
    fun _ h => ⟨literalValue?_eq_none h, fun _ _ hexports =>
      loadTranspiler_unsupported hexports h⟩,
    fun _ _ _ _ _ _ _ h hvalue h' halike hdepth => loadAlike_of_spells h hvalue h' halike hdepth⟩

/-! ## §4. A number among the options of a preset -/

/-- A script that exports an expression with a property, found by reading it. -/
theorem exists_exports_of_any (read : Reader) (path : Path) {text : List Char} (p : Node → Bool)
    (hscript : path.extension? = some "js") (hread : read path = some text)
    (h : ((readProgram ⟨false, false⟩ true (withoutMark text)).program.toOption.bind
      fun program => program.items.findSome? exported?).any p = true) :
    ∃ value, Exports read path value ∧ p value = true := by
  obtain ⟨value, hvalue, hp⟩ := (Option.any_eq_true ..).mp h
  obtain ⟨program, hprogram, hexported⟩ := Option.bind_eq_some_iff.mp hvalue
  refine ⟨value, ⟨hscript, text, program, hread, ?_, hexported⟩, hp⟩
  cases hresult : (readProgram ⟨false, false⟩ true (withoutMark text)).program with
  | ok program' =>
    rw [hresult] at hprogram
    exact congrArg Except.ok (Option.some.inj hprogram)
  | error mistake =>
    rw [hresult] at hprogram
    cases hprogram

/-- A configuration with a number among the options of a preset. -/
def presetText (digits : List Char) : List Char :=
  "\x7b\"presets\":[[\"env\",\x7b\"x\":".toList ++ (digits ++ "\x7d]]\x7d".toList)

/-- A script that exports the configuration, and files that hold it. -/
def presetFiles (digits : List Char) : Reader := fun path =>
  some (if path.text = ".babelrc.js" then "module.exports = ".toList ++ presetText digits
    else presetText digits)

/-- The members of the object that the configuration is. -/
def presetMembers (n : Number) : List (String × Value) :=
  [("presets", .array [.array [.string "env", .object [("x", .number n)]]])]

/-- The configuration. -/
def presetConfig (n : Number) : Transpiler :=
  .mk [.configured [.string "env", .object [("x", .number n)]]] [] []

/-- Whether a node is the object with a number in it. -/
def isPreset (x : Binary64) : Node → Bool
  | .mk .object _ [.mk .keyValue _ [.mk (.string (some presets)) _ [],
      .mk .array _ [.mk .array _ [.mk (.string (some env)) _ [],
        .mk .object _ [.mk .keyValue _ [.mk (.string (some name)) _ [],
          .mk (.number y) _ []]]]]]] =>
    presets == "presets" && env == "env" && name == "x" && y == x
  | _ => false

theorem spells_of_isPreset {negative : Bool} {m : Nat} {e : Int} {n : Node}
    (h : isPreset (.finite negative m e) n = true) :
    SpellsLiteral n (.object (presetMembers (.real (.finite negative m e)))) := by
  unfold isPreset at h
  split at h
  · simp only [Bool.and_eq_true, beq_iff_eq] at h
    obtain ⟨⟨⟨rfl, rfl⟩, rfl⟩, rfl⟩ := h
    refine .object _ (List.nodup_singleton _) (.cons (.mk (.inr rfl) ?_) .nil)
    refine .array _ (.cons (.array _ (.cons (.string _ _) (.cons ?_ .nil))) .nil)
    exact .object _ (List.nodup_singleton _) (.cons (.mk (.inr rfl) (.number negative m e _)) .nil)
  · cases h

/-- The script exports the object. -/
theorem exists_exports_presetFiles (digits : List Char) (m : Nat) (e : Int)
    (h : ((readProgram ⟨false, false⟩ true
      (withoutMark ("module.exports = ".toList ++ presetText digits))).program.toOption.bind
        fun program => program.items.findSome? exported?).any (isPreset (.finite false m e))
          = true) :
    ∃ n, Exports (presetFiles digits) ⟨".babelrc.js"⟩ n ∧
      SpellsLiteral n (.object (presetMembers (.real (.finite false m e)))) := by
  obtain ⟨n, hexports, hpreset⟩ := exists_exports_of_any (presetFiles digits) ⟨".babelrc.js"⟩ _
    (by decide) rfl h
  exact ⟨n, hexports, spells_of_isPreset hpreset⟩

/-- A word in quotes. -/
theorem isString_word {word : List Char}
    (h : (word.all fun c => c != '"' && c != '\\' && decide (32 ≤ c.toNat)) = true) :
    IsString (some (String.ofList word)) ('"' :: (word ++ ['"'])) := by
  have hbody : StringBody (word.map Char.toNat) word := by
    induction word with
    | nil => exact .nil
    | cons c word ih =>
      simp only [List.all_cons, Bool.and_eq_true, bne_iff_ne, decide_eq_true_eq] at h
      obtain ⟨⟨⟨hquote, hslash⟩, hcontrol⟩, hword⟩ := h
      exact .plain hquote hslash hcontrol (ih (by simpa using hword))
  refine ⟨_, _, hbody, rfl, ?_⟩
  rw [textOfCodes?_toNat, Option.map_some]

/-- The text spells the object, as JSON too. -/
theorem isCommentedJson_presetText {n : Number} (text : NumberText) (h : text.value? = some n) :
    IsCommentedJson (Term.ofValue (.object (presetMembers n))) (presetText text.text) := by
  have hpresets : IsString (some "presets") ('"' :: ("presets".toList ++ ['"'])) :=
    isString_word (by decide)
  have henv : IsString (some "env") ('"' :: ("env".toList ++ ['"'])) := isString_word (by decide)
  have hx : IsString (some "x") ('"' :: ("x".toList ++ ['"'])) := isString_word (by decide)
  have hnumber : Spells IsCommented true (.term (.number (some n))) text.text :=
    h ▸ .number text
  have hoptions := Spells.object .nil
    (.lastMember (.member hx .nil .nil hnumber) (.plain IsCommented.nil))
  have hentry := Spells.array .nil
    (.moreItems (.string henv) .nil .nil (.lastItem hoptions (.plain IsCommented.nil)))
  have hentries := Spells.array .nil (.lastItem hentry (.plain IsCommented.nil))
  have hobject := Spells.object .nil
    (.lastMember (.member hpresets .nil .nil hentries) (.plain IsCommented.nil))
  refine ⟨[], _, [], .nil, hobject, .inl .nil, ?_⟩
  unfold presetText
  simp only [List.nil_append, List.append_nil, List.cons_append, List.append_assoc]
  rfl

/-- The files hold the object as JSON. -/
theorem spellsTerm_presetFiles {n : Number} (text : NumberText) (h : text.value? = some n) :
    SpellsTerm (presetFiles text.text) ⟨".babelrc"⟩ (Term.ofValue (.object (presetMembers n))) :=
  ⟨by decide, _, rfl, isCommentedJson_presetText text h⟩

theorem presetMembers_alike {a b : Number} (h : a.IsEqual b) :
    (Term.ofValue (.object (presetMembers a))).Alike (Term.ofValue (.object (presetMembers b))) :=
  have hoptions : (Term.object [(some "x", .number (some a))]).Alike
      (.object [(some "x", .number (some b))]) := .object (.cons (.mk _ (.number h)) .nil)
  have hentry := Term.Alike.array (.cons (.string (some "env")) (.cons hoptions .nil))
  .object (.cons (.mk (some "presets") (.array (.cons hentry .nil))) .nil)

/-- Alike configurations have the same number. -/
theorem isEqual_of_presetConfig_alike {a b : Number}
    (h : (presetConfig a).Alike (presetConfig b)) : a.IsEqual b :=
  match h with
  | .mk (.cons (.configured (.cons _ (.cons (.object (.cons (.mk _ (.number h)) .nil)) .nil)))
    .nil) _ _ => h

/-- A number with one digit in front of the power of ten, if there is one. -/
def digitText (digit : Char) (exponent : Option ExponentText) (h : isDigit digit = true) :
    NumberText :=
  ⟨false, [digit], none, exponent, ⟨List.cons_ne_nil _ _, List.forall_mem_singleton.mpr h⟩,
    fun _ heq => (List.cons.inj heq).2.symm, fun _ hfraction => nomatch hfraction⟩

/-- Two. -/
def twoText : NumberText := digitText '2' none (by decide)

/-- Three with 23 zeros. -/
def manyText : NumberText :=
  digitText '3' (some ⟨'e', none, ['2', '3'], .inl rfl, List.cons_ne_nil _ _,
    List.all_eq_true.mp (by decide)⟩) (by decide)

/-- A script with a name inside of what it exports. -/
def nameFiles : Reader := fun _ => some "module.exports = [env]".toList

/-- A preset with a number that is read as the same number, and a script with a name in it. -/
theorem loadTranspiler_literals_preset :
    (∃ n, Exports (presetFiles "2".toList) ⟨".babelrc.js"⟩ n ∧ literalValue? n
      = some (.object (presetMembers (.real (.finite false 4503599627370496 (-51)))))) ∧
      (∃ r, loadTranspiler nameFiles ⟨".babelrc.js"⟩
        = .error ⟨⟨".babelrc.js"⟩, .unsupported r⟩) ∧
      LoadAlike (presetFiles "2".toList) (presetFiles "2".toList) ⟨".babelrc.js"⟩
        ⟨".babelrc"⟩ := by
  obtain ⟨n, hexports, hspells⟩ :=
    exists_exports_presetFiles "2".toList 4503599627370496 (-51) (by decide +kernel)
  obtain ⟨list, hlist, hparts⟩ := exists_exports_of_any nameFiles ⟨".babelrc.js"⟩
    (fun n => hasParts n.kind && n.children.any isComputed) (by decide) rfl (by decide +kernel)
  have hcomputed : HasComputed list := by
    cases list with
    | mk kind span children =>
      obtain ⟨hkind, hchildren⟩ := Bool.and_eq_true_iff.mp hparts
      obtain ⟨c, hc, hname⟩ := List.any_eq_true.mp hchildren
      exact .inside hkind hc (.here hname)
  have hequal : (Number.real (.finite false 4503599627370496 (-51))).IsEqual (.integer 2) :=
    ⟨2, by norm_num [Number.rational?], rfl⟩
  exact ⟨⟨n, hexports, loadTranspiler_literals.1 n _ hspells⟩,
    (loadTranspiler_literals.2.1 list hcomputed).2 _ _ hlist,
    loadTranspiler_literals.2.2 _ _ _ _ n _ _ hexports hspells
      (spellsTerm_presetFiles twoText (by decide +kernel)) (presetMembers_alike hequal)
      (by decide)⟩

/-- The double nearest to three with 23 zeros, which a script has. -/
def nearestNumber : Number := .real (.finite false 8940696716308594 25)

/-- The double below it, which JSON has. -/
def lowerNumber : Number := .real (.finite false 8940696716308593 25)

/-- **A number that is read as two numbers**: the script and the JSON file hold one text. -/
theorem loadTranspiler_roundsApart :
    (∃ n, Exports (presetFiles "3e23".toList) ⟨".babelrc.js"⟩ n ∧
      SpellsLiteral n (.object (presetMembers nearestNumber))) ∧
      SpellsTerm (presetFiles "3e23".toList) ⟨".babelrc"⟩
        (Term.ofValue (.object (presetMembers lowerNumber))) ∧
      loadTranspiler (presetFiles "3e23".toList) ⟨".babelrc.js"⟩
        = .ok (presetConfig nearestNumber) ∧
      loadTranspiler (presetFiles "3e23".toList) ⟨".babelrc"⟩ = .ok (presetConfig lowerNumber) ∧
      ¬(presetConfig nearestNumber).Alike (presetConfig lowerNumber) := by
  obtain ⟨n, hexports, hspells⟩ :=
    exists_exports_presetFiles "3e23".toList 8940696716308594 25 (by decide +kernel)
  have hjson := spellsTerm_presetFiles (n := lowerNumber) manyText (by decide +kernel)
  refine ⟨⟨n, hexports, hspells⟩, hjson, loadTranspiler_of_spellsLiteral hexports hspells,
    loadTranspiler_of_spellsTerm hjson, fun halike => ?_⟩
  obtain ⟨q, hscript, hfile⟩ := isEqual_of_presetConfig_alike halike
  have heq := hscript.trans hfile.symm
  norm_num [Number.rational?, nearestNumber, lowerNumber] at heq

end SingleFile.Config
