/-
  SingleFile.Proofs.Markup.RawText — WHERE A RAW TEXT ENDS
  ────────────────────────────────────────────────────────
  A raw text ends at the first end tag of its name.  A text that holds no such
  end tag is read whole, also where its last characters and the end tag behind
  it would make up the beginning of another one.

  Main results:
    * `findRawTextEnd_next` — the search goes over a place where no end tag
      begins.  The step.
    * `findRawTextEnd_written` — the end tag behind a text is found.  The run.
-/
import SingleFile.Proofs.Markup.WrittenTag

namespace SingleFile.Text

/-- No character but the bracket itself is a bracket in lower case. -/
theorem eq_bracket_of_toLower {c : Char} (h : c.toLower = '<') : c = '<' := by
  unfold Char.toLower at h
  split at h
  · next hupper =>
    -- A letter in lower case comes behind the bracket.
    obtain ⟨hlow, hhigh⟩ := hupper
    have hval : c.val + ('a'.val - 'A'.val) = '<'.val := congrArg Char.val h
    have hnat := congrArg UInt32.toNat hval
    simp only [UInt32.toNat_add, UInt32.le_iff_toNat_le, ge_iff_le] at hnat hlow hhigh
    have hA : 'A'.val.toNat = 65 := rfl
    have hZ : 'Z'.val.toNat = 90 := rfl
    have hshift : ('a'.val - 'A'.val).toNat = 32 := rfl
    have hbracket : '<'.val.toNat = 60 := rfl
    omega
  · exact h

end SingleFile.Text

namespace SingleFile.Markup

open SingleFile.Text Cursor

/-! ## §1. End tags in a text -/

/-- Whether a text begins with the name of an end tag, in any case, and what ends it. -/
def beginsEndName (name text : List Char) : Bool :=
  (text.take name.length).map Char.toLower == name.map Char.toLower
    && (text.drop name.length).head?.any fun c => c == '>' || c == '/' || isAsciiBlank c

/-- Whether a text begins with an end tag of a name. -/
def beginsEndTag (name : List Char) : List Char → Bool
  | '<' :: '/' :: text => beginsEndName name text
  | _ => false

/-- Whether a text holds an end tag of a name. -/
def holdsEndTag (name : List Char) : List Char → Bool
  | [] => false
  | c :: cs => beginsEndTag name (c :: cs) || holdsEndTag name cs

/-! ## §2. The search -/

/-- A name is read where it stands, in any case. -/
theorem afterName?_eq_some {name : List Char} {c behind : Cursor} :
    afterName? name c = some behind ↔
      (c.rest.take name.length).map Char.toLower = name.map Char.toLower ∧
        behind = c.skip name.length := by
  induction name generalizing c with
  | nil => simp [afterName?, skip, eq_comm]
  | cons n ns ih =>
    obtain ⟨offset, text⟩ := c
    cases text with
    | nil => simp [afterName?]
    | cons ch cs =>
      rw [afterName?]
      dsimp only
      split
      · next heq =>
        rw [ih]
        simp [next, skip, (beq_iff_eq.mp heq).symm]
      · next hne =>
        have hne' : ch.toLower ≠ n.toLower := fun he => hne (beq_iff_eq.mpr he.symm)
        simp [hne']

/-- What a search for an end tag does where it has found a bracket and a slash. -/
theorem findRawTextEnd_eq (name : String) (c : Cursor) :
    findRawTextEnd name c =
      match c.find? ['<', '/'] with
      | none => none
      | some found =>
        match (afterName? name.toList (found.skip 2)).filter endsName with
        | some behind => some ⟨found.offset, behind.behindNext ['>']⟩
        | none => findRawTextEnd name (found.skip 2) := by
  rw [findRawTextEnd, rawTextEnd?]
  cases hfind : c.find? ['<', '/'] with
  | none => rfl
  | some found =>
    have hpass : c.Passes (found.skip 2) := (find?_spec hfind).1.passes
      (skip_passes (rest_ne_nil_of_find? hfind (by decide)) (by decide))
    dsimp only
    rw [rawTextEnd?_bound hpass.2 (Nat.lt_succ_self _)]
    rfl

/-- The search goes over a character that no bracket and slash begin with. -/
theorem findRawTextEnd_cons {name : String} {offset : Nat} {ch : Char} {cs : List Char}
    (h : startsWith (ch :: cs) ['<', '/'] = false) :
    findRawTextEnd name ⟨offset, ch :: cs⟩ = findRawTextEnd name ⟨offset + ch.utf8Size, cs⟩ := by
  have hfind : (⟨offset, ch :: cs⟩ : Cursor).find? ['<', '/']
      = (⟨offset + ch.utf8Size, cs⟩ : Cursor).find? ['<', '/'] := by
    simp [Cursor.find?, findFrom?, h]
  rw [findRawTextEnd_eq, findRawTextEnd_eq name ⟨offset + ch.utf8Size, cs⟩, hfind]

/-- The search goes over a bracket and a slash that no name and its end follow. -/
theorem findRawTextEnd_slash {name : String} {offset : Nat} {text : List Char}
    (h : ∀ behind, afterName? name.toList ⟨offset + 2, text⟩ = some behind →
      endsName behind = false) :
    findRawTextEnd name ⟨offset, '<' :: '/' :: text⟩
      = findRawTextEnd name ⟨offset + 1, '/' :: text⟩ := by
  have hfind : (⟨offset, '<' :: '/' :: text⟩ : Cursor).find? ['<', '/']
      = some ⟨offset, '<' :: '/' :: text⟩ := find?_self
  have hskip : (⟨offset, '<' :: '/' :: text⟩ : Cursor).skip 2 = ⟨offset + 2, text⟩ := rfl
  have hnone : (afterName? name.toList ⟨offset + 2, text⟩).filter endsName = none := by
    refine Option.filter_eq_none_iff.mpr fun behind hbehind => ?_
    rw [h behind hbehind]
    decide
  have hlater : findRawTextEnd name ⟨offset + 1, '/' :: text⟩
      = findRawTextEnd name ⟨offset + 2, text⟩ := findRawTextEnd_cons rfl
  rw [findRawTextEnd_eq, hfind, hlater]
  dsimp only
  rw [hskip, hnone]

/-! ## §3. Where it ends -/

theorem rest_skip (n : Nat) (c : Cursor) : (c.skip n).rest = c.rest.drop n := by
  induction n generalizing c with
  | zero => rfl
  | succ n ih =>
    rw [skip, ih]
    obtain ⟨offset, text⟩ := c
    cases text <;> simp [next]

/-- Across the end of a text and a bracket behind it no end tag's name is read. -/
theorem endsName_of_beginsEndName {name text more : List Char} {offset : Nat} {behind : Cursor}
    (hname : '<' ∉ name) (htext : beginsEndName name text = false)
    (hbehind : afterName? name ⟨offset, text ++ '<' :: more⟩ = some behind) :
    endsName behind = false := by
  obtain ⟨htake, rfl⟩ := afterName?_eq_some.mp hbehind
  dsimp only at htake
  unfold endsName
  rw [rest_skip]
  dsimp only
  rcases Nat.lt_trichotomy name.length text.length with hlt | heq | hgt
  · -- The name and what ends it stand in the text.
    rw [List.take_append_of_le_length (Nat.le_of_lt hlt)] at htake
    rw [beginsEndName, htake, beq_self_eq_true, Bool.true_and] at htext
    rw [List.drop_append_of_le_length (Nat.le_of_lt hlt)]
    obtain ⟨c, cs, hdrop⟩ : ∃ c cs, text.drop name.length = c :: cs :=
      List.exists_cons_of_ne_nil (by simpa using hlt)
    rw [hdrop] at htext ⊢
    simpa using htext
  · rw [heq, List.drop_left]
    rfl
  · -- The name would hold the bracket.
    have hbracket : '<' ∈ (text ++ '<' :: more).take name.length := by
      obtain ⟨k, hk⟩ := Nat.exists_eq_add_of_lt hgt
      rw [List.take_append, hk, Nat.add_assoc, Nat.add_sub_cancel_left, List.take_succ_cons]
      exact List.mem_append_right _ (List.mem_cons_self ..)
    have hlower : ('<' : Char) ∈ name.map Char.toLower := by
      rw [← htake]
      exact List.mem_map.mpr ⟨'<', hbracket, rfl⟩
    obtain ⟨n, hn, hbracket⟩ := List.mem_map.mp hlower
    rw [eq_bracket_of_toLower hbracket] at hn
    exact absurd hn hname

/-- **The search goes over a place in a text where no end tag begins.** -/
theorem findRawTextEnd_next {name : String} {ch : Char} {cs more : List Char} {offset : Nat}
    (hname : '<' ∉ name.toList) (h : beginsEndTag name.toList (ch :: cs) = false) :
    findRawTextEnd name ⟨offset, ch :: cs ++ '<' :: more⟩
      = findRawTextEnd name ⟨offset + ch.utf8Size, cs ++ '<' :: more⟩ := by
  cases hstarts : startsWith (ch :: cs ++ '<' :: more) ['<', '/'] with
  | false => exact findRawTextEnd_cons hstarts
  | true =>
    obtain ⟨text, htext⟩ := startsWith_iff.mp hstarts
    cases cs with
    | nil => simp at htext
    | cons d ds =>
      simp only [List.cons_append, List.nil_append, List.cons.injEq] at htext
      obtain ⟨rfl, rfl, -⟩ := htext
      exact findRawTextEnd_slash fun behind hbehind => endsName_of_beginsEndName hname h hbehind

/-- The end tag at a place is found. -/
theorem findRawTextEnd_endTag (n : TagName) (offset : Nat) (rest : List Char) :
    findRawTextEnd (String.ofList n.text) ⟨offset, n.endTag ++ rest⟩ =
      some ⟨offset, ⟨offset + byteLength n.endTag, rest⟩⟩ := by
  have htag : n.endTag ++ rest = ['<', '/'] ++ (n.text ++ ('>' :: rest)) := by
    simp [TagName.endTag]
  have hfind : (⟨offset, n.endTag ++ rest⟩ : Cursor).find? ['<', '/']
      = some ⟨offset, n.endTag ++ rest⟩ := by
    rw [htag]
    exact find?_self
  have hslash : (⟨offset, n.endTag ++ rest⟩ : Cursor).skip 2
      = ⟨offset + byteLength ['<', '/'], n.text ++ '>' :: rest⟩ := by
    rw [htag]
    exact skip_append ['<', '/'] _ offset
  have hname : afterName? n.text ⟨offset + byteLength ['<', '/'], n.text ++ '>' :: rest⟩
      = some ⟨offset + byteLength ['<', '/'] + byteLength n.text, '>' :: rest⟩ :=
    afterName?_eq_some.mpr ⟨by rw [List.take_left], (skip_append n.text _ _).symm⟩
  have hbracket : ∀ o, (⟨o, '>' :: rest⟩ : Cursor).behindNext ['>']
      = ⟨o + byteLength ['>'], rest⟩ := by
    intro o
    have hself : (⟨o, '>' :: rest⟩ : Cursor).find? ['>'] = some ⟨o, '>' :: rest⟩ := find?_self
    rw [behindNext, hself]
    exact skip_append ['>'] rest o
  have hsize : byteLength n.endTag
      = byteLength ['<', '/'] + byteLength n.text + byteLength ['>'] := by
    show byteLength (['<', '/'] ++ n.text ++ ['>']) = _
    rw [byteLength_append, byteLength_append]
  rw [findRawTextEnd_eq, hfind]
  dsimp only
  rw [hslash, String.toList_ofList, hname]
  show some (EndTag.mk offset (Cursor.behindNext _ _)) = _
  rw [hbracket, hsize, ← Nat.add_assoc, ← Nat.add_assoc]

/-- **The end tag behind a text is found.** -/
theorem findRawTextEnd_written (n : TagName) {text : List Char} (hname : '<' ∉ n.text)
    (htext : holdsEndTag n.text text = false) (offset : Nat) (rest : List Char) :
    findRawTextEnd (String.ofList n.text) ⟨offset, text ++ (n.endTag ++ rest)⟩ =
      some ⟨offset + byteLength text,
        ⟨offset + byteLength text + byteLength n.endTag, rest⟩⟩ := by
  induction text generalizing offset with
  | nil => exact findRawTextEnd_endTag n offset rest
  | cons ch cs ih =>
    rw [holdsEndTag, Bool.or_eq_false_iff] at htext
    have hnames : (String.ofList n.text).toList = n.text := String.toList_ofList
    rw [byteLength_cons, ← Nat.add_assoc, ← ih htext.2]
    exact findRawTextEnd_next (by rwa [hnames]) (by rw [hnames]; exact htext.1)

end SingleFile.Markup
