/-
  SingleFile.Proofs.Script.Literals — LITERALS THAT READ BACK
  ───────────────────────────────────────────────────────────
  A rewrite writes numbers and strings of its own.  What it writes for a
  number, the sign apart, is a token with that number as its value, and a
  name in double quotes is a token with the name as its value.

  Main results:
    * `IsWhole.readPiece_eq` — what digits are read as.
    * `readsNumber_numberText` — the text of a number is read as the number.
    * `readsString_quoted` — a quoted name is read as the name.
-/
import Mathlib.Tactic.IntervalCases
import SingleFile.Proofs.Number.Decimal
import SingleFile.Script.Enum
import SingleFile.Script.Token

namespace SingleFile.Script

open SingleFile.Text SingleFile.Number Binary64

/-! ## §1. Runs of digits -/

/-- Whether some characters are decimal digits. -/
def AreDigits (cs : List Char) : Prop := ∀ c ∈ cs, c.isDigit = true

theorem isDigit_iff (c : Char) : c.isDigit = true ↔ 48 ≤ c.toNat ∧ c.toNat ≤ 57 := by
  rw [Char.isDigit, Bool.and_eq_true, decide_eq_true_eq, decide_eq_true_eq]
  exact Iff.rfl

theorem mem_digits_of_isDigit {c : Char} (h : c.isDigit = true) : c ∈ "0123456789".toList := by
  obtain ⟨hlow, hhigh⟩ := (isDigit_iff c).mp h
  have hc : c = Char.ofNat c.toNat := (Char.ofNat_toNat c).symm
  generalize c.toNat = n at hc hlow hhigh
  subst hc
  interval_cases n <;> decide

/-- What holds of the ten digits holds of every digit. -/
theorem of_isDigit {test : Char → Bool} (hall : "0123456789".toList.all test = true) {c : Char}
    (h : c.isDigit = true) : test c = true :=
  List.all_eq_true.mp hall c (mem_digits_of_isDigit h)

theorem digitOf?_of_isDigit {c : Char} (h : c.isDigit = true) :
    digitOf? 10 c = some (c.toNat - '0'.toNat) := by
  have hall : "0123456789".toList.all (fun d => digitOf? 10 d == some (d.toNat - '0'.toNat)) := by
    decide
  exact beq_iff_eq.mp (of_isDigit hall h)

theorem isIdStart_of_isDigit {c : Char} (h : c.isDigit = true) :
    (isIdStart c || c == '\\') = false := by
  have hall : "0123456789".toList.all (fun d => !(isIdStart d || d == '\\')) := by decide
  exact (Bool.not_eq_true' _).mp (of_isDigit hall h)

/-- Whether a text does not go on with a digit or a separator. -/
def EndsDigits (rest : List Char) : Prop :=
  ∀ c ∈ rest.head?, ((digitOf? 10 c).isSome || c == '_') = false

theorem overWhile_eq {test : Char → Bool} {cs rest : List Char} (hcs : ∀ c ∈ cs, test c = true)
    (hrest : ∀ c ∈ rest.head?, test c = false) (offset : Nat) :
    (Cursor.mk offset (cs ++ rest)).overWhile test = (cs, ⟨offset + byteLength cs, rest⟩) := by
  have htake : (cs ++ rest).takeWhile test = cs := by
    rw [List.takeWhile_append_of_pos hcs]
    cases rest with
    | nil => simp
    | cons c rest => simp [hrest c rfl]
  have hdrop : (cs ++ rest).dropWhile test = rest := by
    rw [List.dropWhile_append_of_pos hcs]
    cases rest with
    | nil => rfl
    | cons c rest => simp [hrest c rfl]
  rw [Cursor.overWhile, htake, hdrop]

/-- A run of digits is read to its end. -/
theorem readDigits_eq {digits rest : List Char} (hdigits : AreDigits digits)
    (hrest : EndsDigits rest) (offset : Nat) :
    readDigits 10 ⟨offset, digits ++ rest⟩
      = ⟨digits.map fun c => c.toNat - '0'.toNat, false, [],
          ⟨offset + byteLength digits, rest⟩⟩ := by
  have hunderscore : ∀ c ∈ digits, (c == '_') = false := by
    intro c hc
    have hall : "0123456789".toList.all (fun d => d != '_') := by decide
    exact beq_eq_false_iff_ne.mpr (bne_iff_ne.mp (of_isDigit hall (hdigits c hc)))
  have htest : ∀ c ∈ digits, ((digitOf? 10 c).isSome || c == '_') = true := by
    intro c hc
    rw [digitOf?_of_isDigit (hdigits c hc)]
    rfl
  have htaken := overWhile_eq htest hrest offset
  have hvalues : digits.filterMap (digitOf? 10) = digits.map fun c => c.toNat - '0'.toNat := by
    rw [← List.filterMap_eq_map]
    exact List.filterMap_congr fun c hc => digitOf?_of_isDigit (hdigits c hc)
  have hnone : digits.contains '_' = false := by
    rw [List.contains_eq_mem, decide_eq_false_iff_not]
    exact fun hmem => absurd (hunderscore '_' hmem) (by decide)
  have hdoubled : ((digits.zip digits.tail).any fun p => p.1 == '_' && p.2 == '_') = false := by
    rw [List.any_eq_false]
    intro p hp
    rw [hunderscore p.1 (List.of_mem_zip hp).1]
    simp
  rw [readDigits]
  simp only [htaken, hvalues, hnone, hdoubled]
  cases hhead : digits.head? with
  | none => rfl
  | some a =>
    cases hlast : digits.getLast? with
    | none => rfl
    | some b =>
      simp only [hunderscore a (List.mem_of_mem_head? hhead),
        hunderscore b (List.mem_of_getLast? hlast)]
      rfl

/-- The number that digits spell. -/
theorem ofDigits_eq (digits : List Char) :
    ofDigits 10 (digits.map fun c => c.toNat - '0'.toNat) = Nat.ofDigitChars 10 digits 0 := by
  rw [ofDigits, List.foldl_map, Nat.ofDigitChars_eq_foldl]
  simp only [Nat.mul_comm]

/-! ## §2. Numbers -/

/-- Whether digits are a number's whole part: there is one, and no zero in front of others. -/
structure IsWhole (digits : List Char) : Prop where
  areDigits : AreDigits digits
  nonempty : digits ≠ []
  leads : digits.head? = some '0' → digits.length = 1

/-- Whether a text goes on behind a number's whole part with a point or a bracket. -/
def EndsWhole (rest : List Char) : Prop := ∀ c ∈ rest.head?, c = '.' ∨ c = ']'

theorem endsWhole_point (rest : List Char) : EndsWhole ('.' :: rest) := by
  rintro c ⟨⟩
  exact .inl rfl

theorem endsWhole_bracket (rest : List Char) : EndsWhole (']' :: rest) := by
  rintro c ⟨⟩
  exact .inr rfl

theorem EndsWhole.endsDigits {rest : List Char} (h : EndsWhole rest) : EndsDigits rest := by
  intro c hc
  rcases h c hc with rfl | rfl <;> decide

/-- Behind a digit or in the place of one there is no mark of another base. -/
theorem not_base_mark {digits rest : List Char} (hdigits : AreDigits digits)
    (hrest : EndsWhole rest) {a c : Char} {more : List Char}
    (h : digits ++ rest = a :: c :: more) (hne : digits ≠ []) : c ∉ "xXoObBn".toList := by
  have hdigit : c.isDigit = true ∨ c = '.' ∨ c = ']' := by
    cases digits with
    | nil => exact absurd rfl hne
    | cons d digits =>
      have htail : digits ++ rest = c :: more := (List.cons.inj h).2
      cases digits with
      | nil => exact .inr (hrest c (by rw [show rest = c :: more from htail]; rfl))
      | cons d' digits =>
        obtain rfl := (List.cons.inj htail).1
        exact .inl (hdigits d' (by simp))
  rcases hdigit with hdigit | rfl | rfl
  · have hall : "0123456789".toList.all (fun d => !"xXoObBn".toList.contains d) := by decide
    simpa using of_isDigit hall hdigit
  · decide
  · decide

theorem readNumber_eq {digits rest : List Char} (hwhole : IsWhole digits) (hrest : EndsWhole rest)
    (typed : Bool) (offset : Nat) :
    readNumber typed ⟨offset, digits ++ rest⟩
      = readFraction (digits.map fun c => c.toNat - '0'.toNat) []
          ⟨offset + byteLength digits, rest⟩ := by
  have hdigits := readDigits_eq hwhole.areDigits hrest.endsDigits offset
  have hmark {a c : Char} {more : List Char} (h : digits ++ rest = a :: c :: more) :=
    not_base_mark hwhole.areDigits hrest h hwhole.nonempty
  -- The first six cases are those of the marks of other bases.
  unfold readNumber
  dsimp only
  split
  · next h => exact absurd (hmark h) (by decide)
  · next h => exact absurd (hmark h) (by decide)
  · next h => exact absurd (hmark h) (by decide)
  · next h => exact absurd (hmark h) (by decide)
  · next h => exact absurd (hmark h) (by decide)
  · next h => exact absurd (hmark h) (by decide)
  · next first more _ _ _ _ _ _ hfirst =>
    have hhead : digits.head? = some first := by
      cases digits with
      | nil => exact absurd rfl hwhole.nonempty
      | cons d digits => exact congrArg some (List.cons.inj hfirst).1
    have hzero : (first == '0' && decide (1 < (digits.map fun c => c.toNat - '0'.toNat).length))
        = false := by
      by_cases hfirst : first = '0'
      · have hone := hwhole.leads (hfirst ▸ hhead)
        simp [hone]
      · simp [hfirst]
    have hbig : rest.head? ≠ some 'n' := by
      intro hn
      rcases hrest 'n' hn with h | h <;> exact absurd h (by decide)
    rw [hdigits]
    simp only [hzero, hbig, decide_false, Bool.false_and, Bool.false_eq_true, if_false]
  · next h => exact absurd (List.append_eq_nil_iff.mp h).1 hwhole.nonempty

theorem endNumber_eq (v : Binary64) (offset : Nat) (rest : List Char) :
    endNumber ⟨.number v, [], ⟨offset, ']' :: rest⟩⟩ = ⟨.number v, [], ⟨offset, ']' :: rest⟩⟩ := by
  have hbracket : (isIdStart ']' || ']' == '\\') = false := by decide
  simp only [endNumber, hbracket, Bool.false_eq_true, if_false]

theorem readFraction_bracket (whole : List Nat) (offset : Nat) (rest : List Char) :
    readFraction whole [] ⟨offset, ']' :: rest⟩
      = endNumber ⟨.number (ofDecimal false (ofDigits 10 (whole ++ [])) 0), [],
          ⟨offset, ']' :: rest⟩⟩ := rfl

theorem readFraction_point {fraction rest : List Char} (hfraction : AreDigits fraction)
    (whole : List Nat) (offset : Nat) :
    readFraction whole [] ⟨offset, '.' :: (fraction ++ ']' :: rest)⟩
      = endNumber ⟨.number (ofDecimal false
          (ofDigits 10 (whole ++ fraction.map fun c => c.toNat - '0'.toNat))
          (0 - (fraction.map fun c => c.toNat - '0'.toNat).length)), [],
          ⟨offset + '.'.utf8Size + byteLength fraction, ']' :: rest⟩⟩ := by
  have hdigits := readDigits_eq hfraction (endsWhole_bracket rest).endsDigits
    (offset + '.'.utf8Size)
  unfold readFraction
  simp only [Cursor.next]
  rw [hdigits]
  rfl

/-- **What digits are read as.** -/
theorem readNumber_whole {digits : List Char} (hwhole : IsWhole digits) (typed : Bool)
    (offset : Nat) (rest : List Char) :
    readNumber typed ⟨offset, digits ++ ']' :: rest⟩
      = ⟨.number (ofDecimal false (Nat.ofDigitChars 10 digits 0) 0), [],
          ⟨offset + byteLength digits, ']' :: rest⟩⟩ := by
  rw [readNumber_eq hwhole (endsWhole_bracket rest)]
  rw [readFraction_bracket, List.append_nil, ofDigits_eq]
  exact endNumber_eq _ _ _

/-- **What digits with a point between them are read as.** -/
theorem readNumber_fraction {whole fraction : List Char} (hwhole : IsWhole whole)
    (hfraction : AreDigits fraction) (typed : Bool) (offset : Nat) (rest : List Char) :
    readNumber typed ⟨offset, whole ++ '.' :: (fraction ++ ']' :: rest)⟩
      = ⟨.number (ofDecimal false (Nat.ofDigitChars 10 (whole ++ fraction) 0)
            (-(fraction.length : Int))), [],
          ⟨offset + byteLength (whole ++ '.' :: fraction), ']' :: rest⟩⟩ := by
  rw [readNumber_eq hwhole (endsWhole_point _), readFraction_point hfraction, ← List.map_append,
    ofDigits_eq, List.length_map, Int.zero_sub, byteLength_append, byteLength_cons, Nat.add_assoc,
    Nat.add_assoc]
  exact endNumber_eq _ _ _

/-! ## §3. The text of a number -/

/-- Whether a text in front of a bracket is a token with a number as its value. -/
def ReadsNumber (text : List Char) (v : Binary64) : Prop :=
  ∀ typed offset rest, readPiece typed ⟨offset, text ++ ']' :: rest⟩
    = ⟨.number v, [], ⟨offset + byteLength text, ']' :: rest⟩⟩

theorem readPiece_digit {first : Char} (h : first.isDigit = true) (more : List Char) (typed : Bool)
    (offset : Nat) : readPiece typed ⟨offset, first :: more⟩
      = readNumber typed ⟨offset, first :: more⟩ := by
  simp only [readPiece, isIdStart_of_isDigit h, digitOf?_of_isDigit h, Bool.false_eq_true, if_false,
    Option.isSome_some, if_true]

theorem IsWhole.readPiece_eq {whole : List Char} (h : IsWhole whole) (rest : List Char)
    (typed : Bool) (offset : Nat) : readPiece typed ⟨offset, whole ++ rest⟩
      = readNumber typed ⟨offset, whole ++ rest⟩ := by
  obtain ⟨first, more, rfl⟩ := List.exists_cons_of_ne_nil h.nonempty
  exact readPiece_digit (h.areDigits first (by simp)) _ typed offset

theorem readsNumber_whole {digits : List Char} (h : IsWhole digits) :
    ReadsNumber digits (ofDecimal false (Nat.ofDigitChars 10 digits 0) 0) := by
  intro typed offset rest
  rw [h.readPiece_eq]
  exact readNumber_whole h typed offset rest

theorem readsNumber_fraction {whole fraction : List Char} (h : IsWhole whole)
    (hfraction : AreDigits fraction) : ReadsNumber (whole ++ '.' :: fraction)
      (ofDecimal false (Nat.ofDigitChars 10 (whole ++ fraction) 0) (-(fraction.length : Int))) := by
  intro typed offset rest
  rw [List.append_assoc, List.cons_append, h.readPiece_eq]
  exact readNumber_fraction h hfraction typed offset rest

theorem areDigits_toDigits (n : Nat) : AreDigits (Nat.toDigits 10 n) :=
  fun _ hc => Nat.isDigit_of_mem_toDigits (by norm_num) le_rfl hc

theorem areDigits_replicate (count : Nat) : AreDigits (List.replicate count '0') :=
  fun c hc => by rw [List.eq_of_mem_replicate hc]; decide

theorem AreDigits.append {a b : List Char} (ha : AreDigits a) (hb : AreDigits b) :
    AreDigits (a ++ b) := fun c hc => (List.mem_append.mp hc).elim (ha c) (hb c)

/-- The digits of a positive number begin with no zero. -/
theorem head?_toDigits {n : Nat} (hn : 0 < n) : (Nat.toDigits 10 n).head? ≠ some '0' := by
  induction n using Nat.strongRecOn with
  | ind n ih =>
    rw [Nat.toDigits_eq_if (by norm_num)]
    split
    · next hsmall => interval_cases n <;> decide
    · next hlarge =>
      rw [List.head?_append_of_ne_nil _ Nat.toDigits_ne_nil]
      exact ih (n / 10) (by omega) (by omega)

theorem isWhole_toDigits (n : Nat) : IsWhole (Nat.toDigits 10 n) where
  areDigits := areDigits_toDigits n
  nonempty := Nat.toDigits_ne_nil
  leads hzero := by
    rcases Nat.eq_zero_or_pos n with rfl | hpos
    · rfl
    · exact absurd hzero (head?_toDigits hpos)

/-- The digits of a number, with zeros in front so that there is one in front of some places. -/
def paddedDigits (n places : Nat) : List Char :=
  List.replicate (places + 1 - (Nat.toDigits 10 n).length) '0' ++ Nat.toDigits 10 n

theorem areDigits_padded (n places : Nat) : AreDigits (paddedDigits n places) :=
  (areDigits_replicate _).append (areDigits_toDigits n)

theorem length_padded (n places : Nat) :
    (paddedDigits n places).length = max (places + 1) (Nat.toDigits 10 n).length := by
  rw [paddedDigits, List.length_append, List.length_replicate]
  omega

theorem ofDigitChars_padded (n places : Nat) :
    Nat.ofDigitChars 10 (paddedDigits n places) 0 = n := by
  rw [paddedDigits, Nat.ofDigitChars_append, Nat.ofDigitChars_replicate_zero, Nat.mul_zero,
    Nat.ofDigitChars_ten_toDigits]

/-- What stands in front of the places is a whole part: zeros stand in front of other digits only
where it is one of them. -/
theorem isWhole_padded {n : Nat} (hn : 0 < n) (places : Nat) :
    IsWhole ((paddedDigits n places).take ((paddedDigits n places).length - places)) := by
  have hlength := length_padded n places
  refine ⟨fun c hc => areDigits_padded n places c (List.mem_of_mem_take hc), ?_, fun hzero => ?_⟩
  · intro hnone
    have hshort := congrArg List.length hnone
    rw [List.length_take, List.length_nil] at hshort
    omega
  · by_cases hshort : (Nat.toDigits 10 n).length ≤ places + 1
    · rw [List.length_take]
      omega
    · have hsame : paddedDigits n places = Nat.toDigits 10 n := by
        rw [paddedDigits, show places + 1 - (Nat.toDigits 10 n).length = 0 by omega]
        rfl
      rw [List.head?_take, if_neg (by omega), hsame] at hzero
      exact absurd hzero (head?_toDigits hn)

theorem positional_natCast (n j : Nat) :
    (positional n (j : Int)).toList = Nat.toDigits 10 n ++ List.replicate j '0' := by
  unfold positional
  dsimp only
  rw [if_pos (Int.natCast_nonneg j), Int.toNat_natCast, String.toList_ofList]

theorem positional_neg (n : Nat) {j : Nat} (hj : 0 < j) :
    (positional n (-(j : Int))).toList
      = (paddedDigits n j).take ((paddedDigits n j).length - j)
        ++ '.' :: (paddedDigits n j).drop ((paddedDigits n j).length - j) := by
  unfold positional
  dsimp only
  rw [if_neg (by omega), Int.neg_neg, Int.toNat_natCast, String.toList_ofList]
  rfl

/-- **A decimal without an exponent is read as the number that it is near to.** -/
theorem readsNumber_positional {m n : Nat} {e k : Int} (hm : 0 < m) (hnormal : IsNormal m e)
    (hn : 0 < n) (hnear : IsNear m e (n * 10 ^ k)) :
    ReadsNumber (positional n k).toList (.finite false m e) := by
  by_cases hk : 0 ≤ k
  · obtain ⟨j, rfl⟩ := Int.eq_ofNat_of_zero_le hk
    have hwhole : IsWhole (Nat.toDigits 10 n ++ List.replicate j '0') := by
      refine ⟨(areDigits_toDigits n).append (areDigits_replicate j),
        List.append_ne_nil_of_left_ne_nil Nat.toDigits_ne_nil _, fun hzero => ?_⟩
      rw [List.head?_append_of_ne_nil _ Nat.toDigits_ne_nil] at hzero
      exact absurd hzero (head?_toDigits hn)
    have hvalue := readsNumber_whole hwhole
    rw [Nat.ofDigitChars_append, Nat.ofDigitChars_ten_toDigits, Nat.ofDigitChars_replicate_zero,
      ofDecimal_eq_of_near hm hnormal (by simpa [mul_comm] using hnear)] at hvalue
    rw [positional_natCast]
    exact hvalue
  · obtain ⟨j, rfl⟩ : ∃ j : Nat, k = -j := ⟨(-k).toNat, by omega⟩
    have hfraction : AreDigits ((paddedDigits n j).drop ((paddedDigits n j).length - j)) :=
      fun c hc => areDigits_padded n j c (List.mem_of_mem_drop hc)
    have hplaces : ((paddedDigits n j).drop ((paddedDigits n j).length - j)).length = j := by
      have hlength := length_padded n j
      rw [List.length_drop]
      omega
    have hvalue := readsNumber_fraction (isWhole_padded hn j) hfraction
    rw [List.take_append_drop, hplaces, ofDigitChars_padded, ofDecimal_eq_of_near hm hnormal hnear]
      at hvalue
    rw [positional_neg n (by omega)]
    exact hvalue

/-- The natural number that an integer's magnitude is. -/
theorem truncate_spec {m : Nat} {e : Int} (negative : Bool)
    (h : isInteger (.finite negative m e) = true) :
    ∃ n : Nat, (n : ℚ) = m * 2 ^ e ∧
      truncate (.finite negative m e) = if negative then -(n : Int) else n := by
  unfold isInteger at h
  unfold truncate
  dsimp only at h ⊢
  split at h
  · next he =>
    obtain ⟨j, rfl⟩ := Int.eq_ofNat_of_zero_le he
    exact ⟨m * 2 ^ j, by push_cast; simp, by simp⟩
  · next he =>
    obtain ⟨j, rfl⟩ : ∃ j : Nat, e = -j := ⟨(-e).toNat, by omega⟩
    rw [Int.neg_neg, Int.toNat_natCast, decide_eq_true_eq] at h
    obtain ⟨n, rfl⟩ := Nat.dvd_of_mod_eq_zero h
    refine ⟨n, ?_, ?_⟩
    · rw [zpow_neg, zpow_natCast, Nat.pow_eq]
      push_cast
      field_simp
    · have hpow : 0 < Nat.pow 2 j := Nat.two_pow_pos j
      rw [if_neg he, Int.neg_neg, Int.toNat_natCast, Nat.mul_div_cancel_left n hpow]

/-- The digits of an integer are read as it. -/
theorem readsNumber_integer {m n : Nat} {e : Int} (h : IsNormal m e) (hn : (n : ℚ) = m * 2 ^ e) :
    ReadsNumber (Nat.toDigits 10 n) (.finite false m e) := by
  have hvalue := readsNumber_whole (isWhole_toDigits n)
  rw [Nat.ofDigitChars_ten_toDigits] at hvalue
  rcases Nat.eq_zero_or_pos m with rfl | hm
  · obtain rfl : n = 0 := by simpa using hn
    obtain rfl : e = minExponent := h.places.resolve_left (by norm_num)
    exact hvalue
  · rwa [ofDecimal_eq_of_near hm h (by simpa [hn] using isNear_self m e)] at hvalue

/-- The text of a natural number with a sign, unless it is a zero. -/
theorem toList_signed {negative : Bool} {n : Nat} (hzero : n = 0 → negative = false) :
    (if (if negative then -(n : Int) else n) < 0
        then "-" ++ Nat.repr (if negative then -(n : Int) else n).natAbs
        else Nat.repr (if negative then -(n : Int) else n).natAbs).toList
      = if negative then '-' :: Nat.toDigits 10 n else Nat.toDigits 10 n := by
  have hdigits : (Nat.repr n).toList = Nat.toDigits 10 n := by
    rw [Nat.repr_eq_ofList_toDigits, String.toList_ofList]
  cases negative with
  | false =>
    simp only [Bool.false_eq_true, if_false, Int.natAbs_natCast]
    rwa [if_neg (by omega)]
  | true =>
    have hpos : 0 < n := Nat.pos_of_ne_zero fun h => absurd (hzero h) (by decide)
    rw [if_pos rfl, if_pos (show -(n : Int) < 0 by omega), Int.natAbs_neg, Int.natAbs_natCast,
      String.toList_append, hdigits]
    rfl

/-- **The text of a number is read as the number**, its sign apart. -/
theorem readsNumber_numberText {negative : Bool} {m : Nat} {e : Int} (h : IsNormal m e)
    (hzero : m = 0 → negative = false) :
    ∃ text, ReadsNumber text (.finite false m e) ∧
      (numberText (.finite negative m e)).toList
        = if negative then '-' :: text else text := by
  unfold numberText
  dsimp only
  split
  · next hinteger =>
    rw [Bool.and_eq_true] at hinteger
    obtain ⟨n, hn, htruncate⟩ := truncate_spec negative hinteger.1
    refine ⟨Nat.toDigits 10 n, readsNumber_integer h hn, ?_⟩
    rw [htruncate]
    refine toList_signed fun hnone => hzero ?_
    subst hnone
    rw [Nat.cast_zero, eq_comm, mul_eq_zero, or_iff_left (two_zpow_pos e).ne'] at hn
    exact_mod_cast hn
  · next hinteger =>
    have hm : 0 < m := by
      rcases Nat.eq_zero_or_pos m with rfl | hpos
      · exact absurd (by simp [isInteger, truncate]) hinteger
      · exact hpos
    have hnear := shortestDigits_isNear hm h
    refine ⟨_, readsNumber_positional hm h (pos_of_isNear hm hnear) hnear, ?_⟩
    simp only [toDecimalText, hm.ne', if_false]
    cases negative with
    | false => rfl
    | true =>
      rw [if_pos rfl, if_pos rfl, String.toList_append]
      rfl

theorem underscore_not_mem {cs : List Char} (h : AreDigits cs) : '_' ∉ cs :=
  fun hmem => absurd (h '_' hmem) (by decide)

theorem underscore_not_mem_positional (n : Nat) (k : Int) : '_' ∉ (positional n k).toList := by
  by_cases hk : 0 ≤ k
  · obtain ⟨j, rfl⟩ := Int.eq_ofNat_of_zero_le hk
    rw [positional_natCast]
    exact underscore_not_mem ((areDigits_toDigits n).append (areDigits_replicate j))
  · obtain ⟨j, rfl⟩ : ∃ j : Nat, k = -j := ⟨(-k).toNat, by omega⟩
    have hpadded := underscore_not_mem (areDigits_padded n j)
    rw [positional_neg n (by omega), List.mem_append, List.mem_cons, not_or, not_or]
    exact ⟨fun h => hpadded (List.mem_of_mem_take h), by decide,
      fun h => hpadded (List.mem_of_mem_drop h)⟩

/-- No number has an underscore in its text. -/
theorem underscore_not_mem_numberText (x : Binary64) : '_' ∉ (numberText x).toList := by
  have hrepr (n : Nat) : '_' ∉ (Nat.repr n).toList := by
    rw [Nat.repr_eq_ofList_toDigits, String.toList_ofList]
    exact underscore_not_mem (areDigits_toDigits n)
  have hminus {text : String} (h : '_' ∉ text.toList) : '_' ∉ ("-" ++ text).toList := by
    rw [String.toList_append, List.mem_append, not_or]
    exact ⟨by decide, h⟩
  unfold numberText
  dsimp only
  split_ifs
  · exact hminus (hrepr _)
  · exact hrepr _
  · match x with
    | .finite s m e =>
      have hmagnitude : '_' ∉ (if m = 0 then "0" else
          positional (shortestDigits m e).1 (shortestDigits m e).2).toList := by
        split_ifs
        · decide
        · exact underscore_not_mem_positional _ _
      unfold toDecimalText
      cases s with
      | false => exact hmagnitude
      | true => exact hminus hmagnitude
    | .infinite false => decide
    | .infinite true => decide
    | .nan => decide

/-! ## §4. Strings -/

/-- Whether a text is a token with a string as its value, whatever comes behind it. -/
def ReadsString (text : List Char) (value : String) : Prop :=
  ∀ typed offset rest, readPiece typed ⟨offset, text ++ rest⟩
    = ⟨.string (some value), [], ⟨offset + byteLength text, rest⟩⟩

/-- The codes of characters are a text: no character is half of a pair. -/
theorem textOfCodes?_toNat (cs : List Char) : textOfCodes? (cs.map Char.toNat) = some cs := by
  induction cs with
  | nil => rfl
  | cons c cs ih =>
    have hvalid : c.toNat < 0xD800 ∨ 0xDFFF < c.toNat ∧ c.toNat < 0x110000 := c.valid
    have hhigh : isHighSurrogate c.toNat = false := by
      simp only [isHighSurrogate, Bool.and_eq_false_iff, decide_eq_false_iff_not]
      omega
    have hlow : isLowSurrogate c.toNat = false := by
      simp only [isLowSurrogate, Bool.and_eq_false_iff, decide_eq_false_iff_not]
      omega
    rw [List.map_cons, textOfCodes?.eq_def]
    simp only [hhigh, hlow, Bool.false_eq_true, if_false, ih, Option.map_some, Char.ofNat_toNat]

/-- A character as it stands in double quotes. -/
def escaped (c : Char) : List Char := if c == '\\' || c == '"' then ['\\', c] else [c]

theorem toList_quoted (name : String) :
    (quoted name).toList = '"' :: (name.toList.flatMap escaped ++ ['"']) := by
  rw [quoted, String.toList_ofList]
  rfl

/-- One character in quotes is read as that character. -/
theorem readStringCodes_escaped {c : Char} (hc : c ≠ '\n' ∧ c ≠ '\r') (start steps offset : Nat)
    (rest : List Char) (codes : List Nat) :
    readStringCodes '"' start (steps + 1) ⟨offset, escaped c ++ rest⟩ codes []
      = readStringCodes '"' start steps ⟨offset + byteLength (escaped c), rest⟩
          (c.toNat :: codes) [] := by
  by_cases hspecial : c = '\\' ∨ c = '"'
  · rcases hspecial with rfl | rfl <;> rfl
  · rw [not_or] at hspecial
    have hplain : escaped c = [c] := if_neg (by simp [hspecial.1, hspecial.2])
    rw [hplain, List.singleton_append, readStringCodes]
    simp [Cursor.next, hspecial.1, hspecial.2, hc.1, hc.2]

/-- **Characters in quotes are read as these characters.** -/
theorem readStringCodes_flatMap {cs : List Char} (hcs : ∀ c ∈ cs, c ≠ '\n' ∧ c ≠ '\r')
    (start : Nat) {steps : Nat} (hsteps : cs.length < steps) (offset : Nat) (rest : List Char)
    (codes : List Nat) :
    readStringCodes '"' start steps ⟨offset, cs.flatMap escaped ++ '"' :: rest⟩ codes []
      = ⟨.string ((textOfCodes? (codes.reverse ++ cs.map Char.toNat)).map String.ofList), [],
          ⟨offset + byteLength (cs.flatMap escaped) + '"'.utf8Size, rest⟩⟩ := by
  -- The codes read so far are kept in reverse, and the steps are more than the characters ahead.
  induction cs generalizing steps offset codes with
  | nil =>
    obtain ⟨steps, rfl⟩ : ∃ n, steps = n + 1 := ⟨steps - 1, by simp at hsteps; omega⟩
    rw [List.flatMap_nil, List.nil_append, List.map_nil, List.append_nil, byteLength_nil,
      Nat.add_zero, readStringCodes]
    rfl
  | cons c cs ih =>
    obtain ⟨steps, rfl⟩ : ∃ n, steps = n + 1 := ⟨steps - 1, by simp at hsteps; omega⟩
    obtain ⟨hc, hcs⟩ := List.forall_mem_cons.mp hcs
    rw [List.flatMap_cons, List.append_assoc, readStringCodes_escaped hc,
      ih hcs (by simpa using hsteps), List.reverse_cons, List.append_assoc, byteLength_append,
      ← Nat.add_assoc]
    rfl

theorem length_le_flatMap_escaped (cs : List Char) :
    cs.length ≤ (cs.flatMap escaped).length := by
  induction cs with
  | nil => rfl
  | cons c cs ih =>
    have hone : 1 ≤ (escaped c).length := by
      unfold escaped
      split <;> simp
    rw [List.flatMap_cons, List.length_append, List.length_cons]
    omega

/-- Whether a name is on one line. -/
def IsOneLine (name : String) : Prop := ∀ c ∈ name.toList, c ≠ '\n' ∧ c ≠ '\r'

instance (name : String) : Decidable (IsOneLine name) :=
  List.decidableBAll (fun c => c ≠ '\n' ∧ c ≠ '\r') name.toList

/-- **A name in quotes is read as the name.** -/
theorem readsString_quoted {name : String} (hname : IsOneLine name) :
    ReadsString (quoted name).toList name := by
  intro typed offset rest
  have hsteps : name.toList.length
      < ('"' :: (name.toList.flatMap escaped ++ ['"']) ++ rest).length + 1 := by
    have hlonger := length_le_flatMap_escaped name.toList
    simp only [List.length_append, List.length_cons]
    omega
  have hread := readStringCodes_flatMap hname offset hsteps (offset + '"'.utf8Size) rest []
  rw [List.reverse_nil, List.nil_append, textOfCodes?_toNat, Option.map_some,
    String.ofList_toList] at hread
  rw [toList_quoted, byteLength_cons, byteLength_append, ← Nat.add_assoc, ← Nat.add_assoc]
  refine Eq.trans ?_ hread
  rw [List.cons_append, List.append_assoc]
  rfl

end SingleFile.Script
