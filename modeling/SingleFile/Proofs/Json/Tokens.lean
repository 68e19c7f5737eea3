/-
  SingleFile.Proofs.Json.Tokens — READING THE TOKENS OF JSON
  ──────────────────────────────────────────────────────────
  Numbers and strings are read part by part.  What a token is read as does
  not depend on what comes behind it, as long as the token is at its end
  there; and what was read was a token.

  Main results:
    * `number?_text`, `spells_of_number?` — numbers, in both directions.
    * `string?_of_isString`, `isString_of_string?` — strings, in both.
-/
import SingleFile.Proofs.Json.Spelling

namespace SingleFile.Json

open SingleFile.Text

/-! ## §1. Runs of characters -/

theorem takeWhile_append_of_head {test : Char → Bool} {cs rest : List Char}
    (hcs : ∀ c ∈ cs, test c = true) (hrest : ∀ c ∈ rest.head?, test c = false) :
    (cs ++ rest).takeWhile test = cs ∧ (cs ++ rest).dropWhile test = rest := by
  rw [List.takeWhile_append_of_pos hcs, List.dropWhile_append_of_pos hcs]
  cases rest with
  | nil => simp
  | cons c rest => simp [hrest c rfl]

/-- Blanks in front of something else are passed over. -/
theorem skipBlanks_append {g : List Char} (hg : IsBlanks g) {c : Char} (hc : isBlank c = false)
    (rest : List Char) : skipBlanks (g ++ c :: rest) = c :: rest :=
  (takeWhile_append_of_head hg (by rintro _ ⟨⟩; exact hc)).2

theorem skipBlanks_of_isBlanks {g : List Char} (hg : IsBlanks g) : skipBlanks g = [] := by
  have h := (@takeWhile_append_of_head _ _ [] hg (by simp)).2
  rwa [List.append_nil] at h

/-- What is passed over is blank. -/
theorem exists_skipped (text : List Char) : ∃ g, IsBlanks g ∧ text = g ++ skipBlanks text := by
  refine ⟨text.takeWhile isBlank, fun c hc => ?_, List.takeWhile_append_dropWhile.symm⟩
  exact List.all_eq_true.mp List.all_takeWhile c hc

theorem isBlank_of_beginsTerm {c : Char} (hc : BeginsTerm c) : isBlank c = false := by
  rcases hc with hc | hc
  · simp only [List.mem_cons, List.not_mem_nil, or_false] at hc
    rcases hc with rfl | rfl | rfl | rfl | rfl | rfl | rfl <;> decide
  · have hne (d : Char) (hd : isDigit d = false) : (c == d) = false :=
      beq_eq_false_iff_ne.mpr (ne_of_isDigit hc hd)
    simp only [isBlank, hne ' ' (by decide), hne '\n' (by decide), hne '\t' (by decide),
      hne '\r' (by decide), Bool.or_false]

/-! ## §2. Numbers -/

/-- Whether a text does not go on as a number. -/
def EndsNumber (rest : List Char) : Prop :=
  ∀ c ∈ rest.head?, isDigit c = false ∧ c ≠ '.' ∧ c ≠ 'e' ∧ c ≠ 'E'

/-- Whether a text does not go on with a digit. -/
def EndsDigits (rest : List Char) : Prop := ∀ c ∈ rest.head?, isDigit c = false

theorem spanDigits_append {digits rest : List Char} (h : IsNumeral digits)
    (hrest : EndsDigits rest) : spanDigits (digits ++ rest) = (digits, rest) := by
  obtain ⟨htake, hdrop⟩ := takeWhile_append_of_head h.areDigits hrest
  rw [spanDigits, htake, hdrop]

/-- The digits in front of a text, if there are any. -/
theorem isNumeral_of_spanDigits {text digits rest : List Char}
    (h : spanDigits text = (digits, rest)) (hne : digits ≠ []) :
    IsNumeral digits ∧ text = digits ++ rest := by
  obtain ⟨rfl, rfl⟩ := Prod.mk.inj h
  exact ⟨⟨hne, List.all_eq_true.mp List.all_takeWhile⟩, List.takeWhile_append_dropWhile.symm⟩

theorem endsDigits_exponent {e : Option ExponentText} {rest : List Char}
    (hrest : EndsNumber rest) : EndsDigits (NumberText.exponentText e ++ rest) := by
  cases e with
  | none => exact fun c hc => (hrest c hc).1
  | some e =>
    rintro c ⟨⟩
    rcases e.isMark with h | h <;> rw [h] <;> decide

theorem endsDigits_fraction {f : Option (List Char)} {e : Option ExponentText} {rest : List Char}
    (hrest : EndsNumber rest) :
    EndsDigits (NumberText.fractionText f ++ (NumberText.exponentText e ++ rest)) := by
  cases f with
  | none => exact endsDigits_exponent hrest
  | some digits =>
    rintro c ⟨⟩
    decide

theorem wholeDigits?_append {whole rest : List Char} (h : IsNumeral whole)
    (hleads : ∀ more, whole = '0' :: more → more = []) (hrest : EndsDigits rest) :
    wholeDigits? (whole ++ rest) = some (whole, rest) := by
  rw [wholeDigits?, spanDigits_append h hrest]
  split
  · next heq => exact absurd (Prod.mk.inj heq).1 h.nonempty
  · next a more heq => exact absurd (hleads _ (Prod.mk.inj heq).1) (List.cons_ne_nil _ _)
  · next heq => rw [← (Prod.mk.inj heq).1, ← (Prod.mk.inj heq).2]

theorem fraction?_append {f : Option (List Char)} {e : Option ExponentText} {rest : List Char}
    (hf : ∀ digits ∈ f, IsNumeral digits) (hrest : EndsNumber rest) :
    fraction? (NumberText.fractionText f ++ (NumberText.exponentText e ++ rest))
      = some (f, NumberText.exponentText e ++ rest) := by
  cases f with
  | none =>
    rw [NumberText.fractionText, List.nil_append]
    unfold fraction?
    split
    · next more heq =>
      exfalso
      cases e with
      | none => exact (hrest '.' (by rw [show rest = '.' :: more from heq]; rfl)).2.1 rfl
      | some e =>
        have hmark : e.mark = '.' := (List.cons.inj heq).1
        rcases e.isMark with h | h <;> exact absurd (h.symm.trans hmark) (by decide)
    · rfl
  | some digits =>
    have hdigits := hf digits rfl
    rw [NumberText.fractionText, List.cons_append, fraction?]
    simp only [spanDigits_append hdigits (endsDigits_exponent hrest), List.isEmpty_iff,
      hdigits.nonempty, if_false]

theorem exponent?_append {e : Option ExponentText} {rest : List Char} (hrest : EndsNumber rest) :
    exponent? (NumberText.exponentText e ++ rest)
      = some (e.map fun e => (e.isDown.getD false, e.digits), rest) := by
  cases e with
  | none =>
    cases rest with
    | nil => rfl
    | cons c rest =>
      obtain ⟨-, -, hsmall, hlarge⟩ := hrest c rfl
      simp [NumberText.exponentText, exponent?, hsmall, hlarge]
  | some e =>
    obtain ⟨mark, isDown, digits, hmark, hdigits⟩ := e
    have hspan := spanDigits_append hdigits fun c hc => (hrest c hc).1
    have hletter : (mark == 'e' || mark == 'E') = true := by
      rcases hmark with rfl | rfl <;> decide
    have hsome : digits.isEmpty = false := by simpa using hdigits.nonempty
    obtain ⟨first, more, hfirst, hdigit⟩ := hdigits.exists_cons
    have hplus := ne_of_isDigit hdigit (show isDigit '+' = false by decide)
    have hminus := ne_of_isDigit hdigit (show isDigit '-' = false by decide)
    match isDown with
    | none =>
      -- Without a sign the digits come at once, so neither sign is next.
      subst hfirst
      simp only [NumberText.exponentText, ExponentText.text, List.nil_append, List.cons_append,
        exponent?, hletter, if_true]
      split
      · next heq => exact absurd (List.cons.inj heq).1 hplus
      · next heq => exact absurd (List.cons.inj heq).1 hminus
      · rw [List.cons_append] at hspan
        simp only [hspan, hsome]
        rfl
    | some false =>
      simp only [NumberText.exponentText, ExponentText.text, List.cons_append, List.nil_append,
        exponent?, hletter, if_true, hspan, hsome]
      rfl
    | some true =>
      simp only [NumberText.exponentText, ExponentText.text, List.cons_append, List.nil_append,
        exponent?, hletter, if_true, hspan, hsome]
      rfl

/-- The parts of a number behind its sign. -/
theorem number?_unsigned {c : Char} (hc : c ≠ '-') (more : List Char) :
    number? (c :: more) = (do
      let (whole, text) ← wholeDigits? (c :: more)
      let (fraction, text) ← fraction? text
      let (exponent, text) ← exponent? text
      return (numberValue? false whole fraction exponent, text)) := by
  unfold number?
  split
  next negative text heq =>
    split at heq
    · next hminus => exact absurd (List.cons.inj hminus).1 hc
    · obtain ⟨rfl, rfl⟩ := Prod.mk.inj heq
      rfl

/-- **What a number is read as.** -/
theorem number?_text (n : NumberText) {rest : List Char} (hrest : EndsNumber rest) :
    number? (n.text ++ rest) = some (n.value?, rest) := by
  have hwhole := wholeDigits?_append n.isWhole n.leads
    (endsDigits_fraction (f := n.fraction) (e := n.exponent) hrest)
  have hfraction := fraction?_append (e := n.exponent) n.isFraction hrest
  have hexponent := exponent?_append (e := n.exponent) hrest
  have hparts (negative : Bool) (hnegative : n.negative = negative) : (do
      let (whole, text) ← wholeDigits? (n.whole ++ (NumberText.fractionText n.fraction
        ++ (NumberText.exponentText n.exponent ++ rest)))
      let (fraction, text) ← fraction? text
      let (exponent, text) ← exponent? text
      return (numberValue? negative whole fraction exponent, text)) = some (n.value?, rest) := by
    rw [hwhole]
    show (fraction? _).bind _ = _
    rw [hfraction]
    show (exponent? _).bind _ = _
    rw [hexponent, NumberText.value?, hnegative]
    rfl
  obtain ⟨first, more, hfirst, hdigit⟩ := n.isWhole.exists_cons
  rw [NumberText.text, List.append_assoc, List.append_assoc, List.append_assoc]
  cases hsign : n.negative with
  | true => exact hparts true hsign
  | false =>
    have hminus := ne_of_isDigit hdigit (show isDigit '-' = false by decide)
    refine Eq.trans ?_ (hparts false hsign)
    rw [hfirst]
    exact number?_unsigned hminus _

/-! ### Which number was read -/

theorem isWhole_of_wholeDigits? {text whole rest : List Char}
    (h : wholeDigits? text = some (whole, rest)) :
    IsNumeral whole ∧ (∀ more, whole = '0' :: more → more = []) ∧ text = whole ++ rest := by
  unfold wholeDigits? at h
  split at h
  · cases h
  · cases h
  · next digits rest' hnil hzero hspan =>
    obtain ⟨rfl, rfl⟩ := Prod.mk.inj (Option.some.inj h)
    obtain ⟨hnumeral, htext⟩ := isNumeral_of_spanDigits hspan hnil
    refine ⟨hnumeral, fun more hmore => ?_, htext⟩
    cases more with
    | nil => rfl
    | cons c more => exact (hzero c more hmore).elim

theorem isFraction_of_fraction? {text rest : List Char} {f : Option (List Char)}
    (h : fraction? text = some (f, rest)) :
    (∀ digits ∈ f, IsNumeral digits) ∧ text = NumberText.fractionText f ++ rest := by
  unfold fraction? at h
  split at h
  · next more =>
    split at h
    next found rest' hspan =>
    split at h
    · cases h
    · next hfound =>
      obtain ⟨rfl, rfl⟩ := Prod.mk.inj (Option.some.inj h)
      obtain ⟨hnumeral, htext⟩ := isNumeral_of_spanDigits hspan (by simpa using hfound)
      refine ⟨fun digits hdigits => ?_, by rw [htext]; rfl⟩
      rwa [← Option.some.inj hdigits]
  · obtain ⟨rfl, rfl⟩ := Prod.mk.inj (Option.some.inj h)
    exact ⟨fun _ h => (by cases h), rfl⟩

/-- The digits of a power of ten behind its letter and sign. -/
theorem exists_exponentText {mark : Char} (hmark : mark = 'e' ∨ mark = 'E') (isDown : Option Bool)
    {negative : Bool} (hdown : isDown.getD false = negative) {text rest : List Char}
    {e : Option (Bool × List Char)}
    (h : (let (found, rest) := spanDigits text
      if found.isEmpty then none else some (some (negative, found), rest)) = some (e, rest)) :
    ∃ x : ExponentText, x.mark = mark ∧ x.isDown = isDown ∧
      e = some (x.isDown.getD false, x.digits) ∧ text = x.digits ++ rest := by
  dsimp only at h
  split at h
  · cases h
  · next hfound =>
    obtain ⟨rfl, rfl⟩ := Prod.mk.inj (Option.some.inj h)
    have hspan : spanDigits text = ((spanDigits text).1, (spanDigits text).2) := rfl
    obtain ⟨hnumeral, htext⟩ := isNumeral_of_spanDigits hspan (by simpa using hfound)
    exact ⟨⟨mark, isDown, _, hmark, hnumeral⟩, rfl, rfl, by rw [hdown], htext⟩

theorem isExponent_of_exponent? {text rest : List Char} {e : Option (Bool × List Char)}
    (h : exponent? text = some (e, rest)) :
    ∃ x : Option ExponentText, e = x.map (fun x => (x.isDown.getD false, x.digits)) ∧
      text = NumberText.exponentText x ++ rest := by
  unfold exponent? at h
  dsimp only at h
  split at h
  · next mark more =>
    split at h
    · next hletter =>
      have hmark : mark = 'e' ∨ mark = 'E' := by simpa using hletter
      -- A sign is read if there is one; the digits come behind it in any case.
      split at h
      · obtain ⟨x, hx, hdown, rfl, rfl⟩ := exists_exponentText hmark (some false) rfl h
        exact ⟨some x, rfl, by simp [NumberText.exponentText, ExponentText.text, hx, hdown]⟩
      · obtain ⟨x, hx, hdown, rfl, rfl⟩ := exists_exponentText hmark (some true) rfl h
        exact ⟨some x, rfl, by simp [NumberText.exponentText, ExponentText.text, hx, hdown]⟩
      · obtain ⟨x, hx, hdown, rfl, rfl⟩ := exists_exponentText hmark none rfl h
        exact ⟨some x, rfl, by simp [NumberText.exponentText, ExponentText.text, hx, hdown]⟩
    · obtain ⟨rfl, rfl⟩ := Prod.mk.inj (Option.some.inj h)
      exact ⟨none, rfl, rfl⟩
  · obtain ⟨rfl, rfl⟩ := Prod.mk.inj (Option.some.inj h)
    exact ⟨none, rfl, rfl⟩

/-- **Which number was read.** -/
theorem spells_of_number? {text rest : List Char} {value : Option Number}
    (h : number? text = some (value, rest)) :
    ∃ n : NumberText, n.value? = value ∧ text = n.text ++ rest := by
  unfold number? at h
  split at h
  next negative unsigned hsign =>
  have htext : text = NumberText.signText negative ++ unsigned := by
    split at hsign <;> obtain ⟨rfl, rfl⟩ := Prod.mk.inj hsign <;> rfl
  obtain ⟨⟨whole, behind⟩, hwhole, h⟩ := Option.bind_eq_some_iff.mp h
  obtain ⟨⟨fraction, behind'⟩, hfraction, h⟩ := Option.bind_eq_some_iff.mp h
  obtain ⟨⟨exponent, rest'⟩, hexponent, h⟩ := Option.bind_eq_some_iff.mp h
  obtain ⟨rfl, rfl⟩ := Prod.mk.inj (Option.some.inj h)
  obtain ⟨hnumeral, hleads, rfl⟩ := isWhole_of_wholeDigits? hwhole
  obtain ⟨hdigits, rfl⟩ := isFraction_of_fraction? hfraction
  obtain ⟨x, rfl, rfl⟩ := isExponent_of_exponent? hexponent
  refine ⟨⟨negative, whole, fraction, x, hnumeral, hleads, hdigits⟩, rfl, ?_⟩
  rw [htext, NumberText.text, List.append_assoc, List.append_assoc, List.append_assoc]

/-! ## §3. Strings -/

/-- The letters of escapes are read as their codes. -/
theorem escapeCode?_short {c : Char} {code : Nat} (h : (c, code) ∈ shortEscapes)
    (rest : List Char) : escapeCode? (c :: rest) = some (code, rest) := by
  simp only [shortEscapes, List.mem_cons, Prod.mk.injEq, List.not_mem_nil, or_false] at h
  rcases h with ⟨rfl, rfl⟩ | ⟨rfl, rfl⟩ | ⟨rfl, rfl⟩ | ⟨rfl, rfl⟩ | ⟨rfl, rfl⟩ | ⟨rfl, rfl⟩
    | ⟨rfl, rfl⟩ | ⟨rfl, rfl⟩ <;> rfl

/-- Which escape was read. -/
theorem cases_of_escapeCode? {text rest : List Char} {code : Nat}
    (h : escapeCode? text = some (code, rest)) :
    (∃ c, (c, code) ∈ shortEscapes ∧ text = c :: rest) ∨
      ∃ a b c d i j k l, hexDigit? a = some i ∧ hexDigit? b = some j ∧ hexDigit? c = some k ∧
        hexDigit? d = some l ∧ code = ((i * 16 + j) * 16 + k) * 16 + l ∧
        text = 'u' :: a :: b :: c :: d :: rest := by
  unfold escapeCode? at h
  split at h
  case h_9 more =>
    right
    unfold hexCode? at h
    split at h
    · next a b c d rest' =>
      obtain ⟨i, hi, h⟩ := Option.bind_eq_some_iff.mp h
      obtain ⟨j, hj, h⟩ := Option.bind_eq_some_iff.mp h
      obtain ⟨k, hk, h⟩ := Option.bind_eq_some_iff.mp h
      obtain ⟨l, hl, h⟩ := Option.bind_eq_some_iff.mp h
      obtain ⟨rfl, rfl⟩ := Prod.mk.inj (Option.some.inj h)
      exact ⟨a, b, c, d, i, j, k, l, hi, hj, hk, hl, rfl, rfl⟩
    · cases h
  case h_10 => cases h
  all_goals
    obtain ⟨rfl, rfl⟩ := Prod.mk.inj (Option.some.inj h)
    exact .inl ⟨_, by decide, rfl⟩

/-- The inside of a string is read up to its closing quote. -/
theorem stringCodes?_of_body {codes : List Nat} {body : List Char} (h : StringBody codes body)
    {bound : Nat} (hbound : body.length < bound) (rest : List Char) :
    stringCodes? bound (body ++ '"' :: rest) = some (codes, rest) := by
  induction h generalizing bound with
  | nil =>
    obtain ⟨bound, rfl⟩ := Nat.exists_eq_add_one_of_ne_zero (Nat.ne_zero_of_lt hbound)
    rfl
  | @plain c codes text hquote hslash hcontrol _ ih =>
    obtain ⟨bound, rfl⟩ := Nat.exists_eq_add_one_of_ne_zero (Nat.ne_zero_of_lt hbound)
    rw [List.cons_append, stringCodes?, if_neg (by omega), ih (by simpa using hbound)]
    · rfl
    · exact hquote
    · exact hslash
  | @short c code codes text hescape _ ih =>
    obtain ⟨bound, rfl⟩ := Nat.exists_eq_add_one_of_ne_zero (Nat.ne_zero_of_lt hbound)
    rw [List.cons_append, List.cons_append, stringCodes?, escapeCode?_short hescape]
    show (stringCodes? bound _).bind _ = _
    rw [ih (by simp at hbound; omega)]
    rfl
  | @long a b c d i j k l codes text ha hb hc hd _ ih =>
    obtain ⟨bound, rfl⟩ := Nat.exists_eq_add_one_of_ne_zero (Nat.ne_zero_of_lt hbound)
    have hcode : escapeCode? ('u' :: a :: b :: c :: d :: (text ++ '"' :: rest))
        = some (((i * 16 + j) * 16 + k) * 16 + l, text ++ '"' :: rest) := by
      simp [escapeCode?, hexCode?, ha, hb, hc, hd]
    simp only [List.cons_append, stringCodes?, hcode]
    show (stringCodes? bound _).bind _ = _
    rw [ih (by simp at hbound; omega)]
    rfl

/-- Which inside of a string was read. -/
theorem body_of_stringCodes? {bound : Nat} {text rest : List Char} {codes : List Nat}
    (h : stringCodes? bound text = some (codes, rest)) :
    ∃ body, StringBody codes body ∧ text = body ++ '"' :: rest := by
  fun_induction stringCodes? bound text generalizing codes with
  | case1 => cases h
  | case2 => cases h
  | case3 =>
    obtain ⟨rfl, rfl⟩ := Prod.mk.inj (Option.some.inj h)
    exact ⟨[], .nil, rfl⟩
  | case4 bound more ih =>
    obtain ⟨⟨code, behind⟩, hcode, h⟩ := Option.bind_eq_some_iff.mp h
    obtain ⟨⟨others, rest'⟩, hothers, h⟩ := Option.bind_eq_some_iff.mp h
    obtain ⟨rfl, rfl⟩ := Prod.mk.inj (Option.some.inj h)
    obtain ⟨body, hbody, rfl⟩ := ih _ hothers
    rcases cases_of_escapeCode? hcode with ⟨c, hescape, rfl⟩ |
      ⟨a, b, c, d, i, j, k, l, ha, hb, hc, hd, rfl, rfl⟩
    · exact ⟨_, .short hescape hbody, rfl⟩
    · exact ⟨_, .long ha hb hc hd hbody, rfl⟩
  | case5 => cases h
  | case6 bound c more hquote hslash hcontrol ih =>
    obtain ⟨⟨others, rest'⟩, hothers, h⟩ := Option.bind_eq_some_iff.mp h
    obtain ⟨rfl, rfl⟩ := Prod.mk.inj (Option.some.inj h)
    obtain ⟨body, hbody, rfl⟩ := ih hothers
    exact ⟨c :: body, .plain hquote hslash (by omega) hbody, rfl⟩

/-- **What a string is read as.** -/
theorem string?_of_isString {value : Option String} {text : List Char} (h : IsString value text)
    (rest : List Char) :
    ∃ inside, text ++ rest = '"' :: inside ∧ string? inside = some (value, rest) := by
  obtain ⟨codes, body, hbody, rfl, rfl⟩ := h
  refine ⟨body ++ '"' :: rest, by simp, ?_⟩
  have hlong : body.length < (body ++ '"' :: rest).length + 1 := by
    rw [List.length_append]
    omega
  rw [string?, stringCodes?_of_body hbody hlong]
  rfl

/-- **Which string was read.** -/
theorem isString_of_string? {inside rest : List Char} {value : Option String}
    (h : string? inside = some (value, rest)) :
    ∃ text, IsString value text ∧ '"' :: inside = text ++ rest := by
  obtain ⟨⟨codes, rest'⟩, hcodes, h⟩ := Option.bind_eq_some_iff.mp h
  obtain ⟨rfl, rfl⟩ := Prod.mk.inj (Option.some.inj h)
  obtain ⟨body, hbody, rfl⟩ := body_of_stringCodes? hcodes
  exact ⟨_, ⟨codes, body, hbody, rfl, rfl⟩, by simp⟩

end SingleFile.Json
