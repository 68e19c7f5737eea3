/-
  SingleFile.Proofs.LineMap.Numbers — NUMBERS ONE BEHIND ANOTHER
  ──────────────────────────────────────────────────────────────
  Texts of numbers need nothing between them: the first digit that no other
  follows ends its number.  The reader here goes over the whole text once.  It
  collects the digits of a number in a word of 64 bits, each digit five bits
  above the one before, and leaves no digit over.

  Main results:
    * `readFrom?_digits` — the digits of a word are collected, and the reading
      goes on behind them.  The run over one number.
    * `signedOf_signToLowBit` — a word gives back the number it was made from.
    * `encode_spec` — what the text of a number looks like.
    * `encode_selfDelimiting` — a list of numbers is read off its texts.
-/
import SingleFile.Proofs.LineMap.Vlq

namespace SingleFile.LineMap.Vlq

/-! ## §1. The reader -/

/-- The number whose sign is the lowest bit of a word. -/
def signedOf (word : UInt64) : Int64 :=
  if word &&& 1 = 0 then (word >>> 1).toInt64 else -(word >>> 1).toInt64

/-- Reads numbers up to the end of a text.  The digits read of the number at hand are in `word`,
and the next one belongs `shift` bits above its lowest. -/
def readFrom? (word shift : UInt64) : List Char → Option (List Int64)
  -- A text that ends inside a number is refused.
  | [] => if shift = 0 then some [] else none
  | c :: cs => do
    let digit := UInt64.ofNat (← digitOf? c)
    if 64 ≤ shift then none
    else
      let word := word ||| ((digit &&& 31) <<< shift)
      if digit &&& 32 = 0 then (readFrom? 0 0 cs).map (signedOf word :: ·)
      else readFrom? word (shift + 5) cs

/-- **Reads the numbers of a text**, with nothing left over. -/
def readNumbers? (text : List Char) : Option (List Int64) := readFrom? 0 0 text

/-- Whether the sixth bit of a character's digit is set, which says that another digit follows. -/
def goesOn (c : Char) : Bool := (digitOf? c).any fun digit => digit.testBit 5

/-! ## §2. Digits as bits of words -/

theorem toNat_and_low (w : UInt64) : (w &&& 31).toNat = w.toNat % 32 := by
  rw [UInt64.toNat_and]
  exact Nat.and_two_pow_sub_one_eq_mod w.toNat 5

theorem toNat_shift_digit (w : UInt64) : (w >>> 5).toNat = w.toNat / 32 := by
  rw [UInt64.toNat_shiftRight]
  exact Nat.shiftRight_eq_div_pow w.toNat 5

/-- The sixth bit of a digit is what it has above 32. -/
theorem and_continuation {digit : Nat} (h : digit < 64) :
    UInt64.ofNat digit &&& 32 = 0 ↔ digit < 32 := by
  have all : ∀ d : Fin 64, UInt64.ofNat d.val &&& 32 = 0 ↔ d.val < 32 := by decide +kernel
  exact all ⟨digit, h⟩

theorem goesOn_digitChar {digit : Nat} (h : digit < 64) :
    goesOn (digitChar digit) = decide (32 ≤ digit) := by
  have all : ∀ d : Fin 64, goesOn (digitChar d) = decide (32 ≤ d.val) := by decide +kernel
  exact all ⟨digit, h⟩

theorem digitChar_mem_alphabet {digit : Nat} (h : digit < 64) : digitChar digit ∈ alphabet := by
  have all : ∀ d : Fin 64, digitChar d ∈ alphabet := by decide +kernel
  exact all ⟨digit, h⟩

/-- **Digits come off a word by its bits**: the lowest five are a digit, the rest is shifted down,
and as long as there is a rest the digit has its sixth bit set. -/
theorem digits_word (w : UInt64) :
    digits w.toNat = if w >>> 5 = 0 then [(w &&& 31).toNat]
      else ((w &&& 31) ||| 32).toNat :: digits (w >>> 5).toNat := by
  have hrest : w >>> 5 = 0 ↔ w.toNat / 32 = 0 := by
    rw [← UInt64.toNat_inj, toNat_shift_digit]
    rfl
  have hset : ((w &&& 31) ||| 32).toNat = w.toNat % 32 + 32 := by
    have hor := Nat.two_pow_add_eq_or_of_lt (i := 5) (Nat.mod_lt w.toNat (by decide)) 1
    rw [UInt64.toNat_or, toNat_and_low, Nat.or_comm]
    exact hor.symm.trans (Nat.add_comm _ _)
  rw [digits, hset, toNat_and_low, toNat_shift_digit]
  by_cases h : w.toNat / 32 = 0
  · rw [if_pos h, if_pos (hrest.mpr h)]
  · rw [if_neg h, if_neg (fun hw => h (hrest.mp hw))]

/-- A digit put above the bits of a word is added to it. -/
theorem toNat_or_digit {word : UInt64} {s : Nat} (digit : Nat) (hs : s < 64)
    (hword : word.toNat < 2 ^ s) (hfits : digit % 32 * 2 ^ s < 2 ^ 64) :
    (word ||| ((UInt64.ofNat digit &&& 31) <<< UInt64.ofNat s)).toNat
      = word.toNat + digit % 32 * 2 ^ s := by
  have hdigit : (UInt64.ofNat digit).toNat % 32 = digit % 32 := by
    rw [UInt64.toNat_ofNat']
    omega
  have hshift : (UInt64.ofNat s).toNat % 64 = s := by
    rw [UInt64.toNat_ofNat']
    omega
  rw [UInt64.toNat_or, UInt64.toNat_shiftLeft, toNat_and_low, hdigit, hshift, Nat.shiftLeft_eq,
    Nat.mod_eq_of_lt hfits, Nat.or_comm, Nat.mul_comm, ← Nat.two_pow_add_eq_or_of_lt hword,
    Nat.add_comm]

/-! ## §3. Reading one number -/

/-- One digit is read: it ends its number, or the reading of the number goes on. -/
theorem readFrom?_digitChar {word : UInt64} {digit s : Nat} (hdigit : digit < 64) (hs : s < 64)
    (rest : List Char) :
    readFrom? word (UInt64.ofNat s) (digitChar digit :: rest)
      = if digit < 32 then
          (readFrom? 0 0 rest).map
            (signedOf (word ||| ((UInt64.ofNat digit &&& 31) <<< UInt64.ofNat s)) :: ·)
        else readFrom? (word ||| ((UInt64.ofNat digit &&& 31) <<< UInt64.ofNat s))
          (UInt64.ofNat (s + 5)) rest := by
  have hroom : ¬ (64 : UInt64) ≤ UInt64.ofNat s := by
    rw [UInt64.le_iff_toNat_le, UInt64.toNat_ofNat']
    show ¬ 64 ≤ s % 2 ^ 64
    omega
  rw [readFrom?, digitOf?_digitChar hdigit]
  simp only [Option.bind_eq_bind, Option.bind_some, if_neg hroom, and_continuation hdigit,
    UInt64.ofNat_add]
  rfl

/-- **The digits of a word are collected**: what is read of a number ends up above what has been
read of it, and the reading goes on with the next number. -/
theorem readFrom?_digits {n s : Nat} {word whole : UInt64} (hs : s < 64)
    (hword : word.toNat < 2 ^ s) (hwhole : whole.toNat = word.toNat + n * 2 ^ s)
    (rest : List Char) :
    readFrom? word (UInt64.ofNat s) ((digits n).map digitChar ++ rest)
      = (readFrom? 0 0 rest).map (signedOf whole :: ·) := by
  have hlt := whole.toNat_lt
  -- The induction is on the digits; those read so far are below `2 ^ s`.
  induction n using digits.induct generalizing word s with
  | case1 n h =>
    have hn : n % 32 = n := by omega
    have hcollected := toNat_or_digit n hs hword (by rw [hn]; omega)
    rw [hn, ← hwhole] at hcollected
    rw [digits, if_pos h, hn, List.map_singleton, List.singleton_append,
      readFrom?_digitChar (by omega) hs, if_pos (by omega), UInt64.toNat_inj.mp hcollected]
  | case2 n h ih =>
    have hparts : n * 2 ^ s = n % 32 * 2 ^ s + n / 32 * 2 ^ (s + 5) := by
      rw [Nat.pow_add, Nat.mul_comm (2 ^ s), ← Nat.mul_assoc, ← Nat.add_mul]
      congr 1
      omega
    -- There is a digit left, so the place above this one is still inside the word.
    have hroom : 2 ^ (s + 5) < 2 ^ 64 := by
      have hmore := Nat.mul_le_mul_right (2 ^ (s + 5)) (Nat.one_le_iff_ne_zero.mpr h)
      omega
    have hs' : s + 5 < 64 := (Nat.pow_lt_pow_iff_right (by decide)).mp hroom
    have hlow : (n % 32 + 32) % 32 = n % 32 := by omega
    have hcollected := toNat_or_digit (n % 32 + 32) hs hword (by rw [hlow]; omega)
    rw [hlow] at hcollected
    have hbelow : word.toNat + n % 32 * 2 ^ s < 2 ^ (s + 5) := by
      have hdigit := Nat.mul_le_mul_right (2 ^ s) (show n % 32 ≤ 31 by omega)
      rw [Nat.pow_add]
      omega
    rw [digits, if_neg h, List.map_cons, List.cons_append, readFrom?_digitChar (by omega) hs,
      if_neg (by omega)]
    exact ih hs' (by rw [hcollected]; exact hbelow) (by rw [hcollected, hwhole, hparts]; omega)

/-! ## §4. Signs -/

/-- **A word gives back the number it was made from**, but for the least one. -/
theorem signedOf_signToLowBit {value : Int64} (h : value ≠ Int64.minValue) :
    signedOf (signToLowBit value) = value := by
  have hword := toNat_signToLowBit h
  have hmin : value.toInt ≠ -2 ^ 63 := fun he => h (Int64.toInt_inj.mp he)
  have hbounds := And.intro (Int64.le_toInt value) (Int64.toInt_lt value)
  have hmagnitude : (signToLowBit value >>> 1).toNat = value.toInt.natAbs := by
    rw [UInt64.toNat_shiftRight]
    show (signToLowBit value).toNat >>> 1 = _
    rw [Nat.shiftRight_eq_div_pow, hword]
    split <;> omega
  have hsign : signToLowBit value &&& 1 = 0 ↔ ¬ value.toInt < 0 := by
    rw [← UInt64.toNat_inj, UInt64.toNat_and, hword]
    show _ &&& 1 = 0 ↔ _
    rw [Nat.and_one_is_mod]
    split <;> omega
  have hpositive : (signToLowBit value >>> 1).toInt64.toInt = value.toInt.natAbs := by
    have hbits := toInt_eq_bits (signToLowBit value >>> 1).toInt64
    rw [UInt64.toUInt64_toInt64, hmagnitude] at hbits
    rw [hbits]
    split <;> omega
  apply Int64.toInt_inj.mp
  rw [signedOf]
  by_cases hneg : value.toInt < 0
  · rw [if_neg (fun hzero => hsign.mp hzero hneg), Int64.toInt_neg, hpositive,
      Int.bmod_eq_of_le (by omega) (by omega)]
    omega
  · rw [if_pos (hsign.mpr hneg), hpositive]
    omega

/-- The text of a number is read, whatever follows it. -/
theorem readFrom?_encode {value : Int64} (h : value ≠ Int64.minValue) (rest : List Char) :
    readFrom? 0 0 (encode value ++ rest) = (readFrom? 0 0 rest).map (value :: ·) := by
  have hread := @readFrom?_digits (signToLowBit value).toNat 0 0 (signToLowBit value) (by decide)
    (by decide)
    (by rw [Nat.pow_zero, Nat.mul_one]; exact (Nat.zero_add _).symm) rest
  rw [signedOf_signToLowBit h] at hread
  exact hread

/-! ## §5. Texts -/

/-- What the text of a number looks like: up to thirteen base-64 digits, of which the last one
and no other says that none follows. -/
structure IsNumberText (text : List Char) : Prop where
  ne_nil : text ≠ []
  length_le : text.length ≤ 13
  mem_alphabet : ∀ c ∈ text, c ∈ alphabet
  goesOn_inner : ∀ c ∈ text.dropLast, goesOn c = true
  goesOn_last : ∀ c ∈ text.getLast?, goesOn c = false

theorem digits_ne_nil (n : Nat) : digits n ≠ [] := by
  rw [digits]
  split <;> exact List.cons_ne_nil _ _

/-- Five bits need a digit. -/
theorem length_digits_le {n k : Nat} (h : n < 32 ^ (k + 1)) : (digits n).length ≤ k + 1 := by
  induction k generalizing n with
  | zero =>
    rw [digits, if_pos (by omega)]
    exact Nat.le_refl 1
  | succ k ih =>
    rw [digits]
    split
    · exact Nat.succ_le_succ (Nat.zero_le _)
    · have hrest : n / 32 < 32 ^ (k + 1) :=
        Nat.div_lt_of_lt_mul (by rwa [Nat.mul_comm, ← Nat.pow_succ])
      exact Nat.succ_le_succ (ih hrest)

/-- All digits but the last one are 32 or above. -/
theorem digits_continue (n : Nat) :
    (∀ digit ∈ (digits n).dropLast, 32 ≤ digit) ∧ ∀ digit ∈ (digits n).getLast?, digit < 32 := by
  induction n using digits.induct with
  | case1 n h =>
    rw [digits, if_pos h]
    refine ⟨fun _ hd => absurd hd List.not_mem_nil, fun digit hd => ?_⟩
    obtain rfl : n % 32 = digit := Option.some.inj hd
    omega
  | case2 n h ih =>
    have hne := digits_ne_nil (n / 32)
    rw [digits, if_neg h, List.dropLast_cons_of_ne_nil hne, List.getLast?_cons_of_ne_nil hne]
    exact ⟨List.forall_mem_cons.mpr ⟨by omega, ih.1⟩, ih.2⟩

/-- **The text of a number ends by itself**, and is never longer than 64 bits need. -/
theorem encode_spec (value : Int64) : IsNumberText (encode value) where
  ne_nil := fun h => digits_ne_nil _ (List.map_eq_nil_iff.mp h)
  length_le := by
    have hword : (signToLowBit value).toNat < 32 ^ 13 :=
      Nat.lt_trans (signToLowBit value).toNat_lt (by decide)
    rw [encode, List.length_map]
    exact length_digits_le hword
  mem_alphabet := by
    intro c hc
    obtain ⟨digit, hdigit, rfl⟩ := List.mem_map.mp hc
    exact digitChar_mem_alphabet (digits_lt _ digit hdigit)
  goesOn_inner := by
    intro c hc
    rw [encode, ← List.map_dropLast] at hc
    obtain ⟨digit, hdigit, rfl⟩ := List.mem_map.mp hc
    rw [goesOn_digitChar (digits_lt _ digit (List.dropLast_subset _ hdigit))]
    exact decide_eq_true ((digits_continue _).1 digit hdigit)
  goesOn_last := by
    intro c hc
    rw [encode, List.getLast?_map, Option.mem_def, Option.map_eq_some_iff] at hc
    obtain ⟨digit, hdigit, rfl⟩ := hc
    rw [goesOn_digitChar (digits_lt _ digit (List.mem_of_getLast? hdigit))]
    exact decide_eq_false (Nat.not_le.mpr ((digits_continue _).2 digit hdigit))

/-! ## §6. Lists of numbers -/

/-- **Texts of numbers delimit themselves.**  Any list of numbers but the least one is read off
its texts, put one behind another, in words of 64 bits and with nothing left over; the text of
every number is one to thirteen base-64 digits of which only the last one ends it; and its digits
come off a word of 64 bits by shifts. -/
theorem encode_selfDelimiting :
    (∀ values : List Int64, Int64.minValue ∉ values →
        readNumbers? (values.flatMap encode) = some values) ∧
      (∀ value : Int64, IsNumberText (encode value)) ∧
      ∀ w : UInt64, digits w.toNat = if w >>> 5 = 0 then [(w &&& 31).toNat]
        else ((w &&& 31) ||| 32).toNat :: digits (w >>> 5).toNat := by
  refine ⟨fun values hvalues => ?_, encode_spec, digits_word⟩
  induction values with
  | nil => rfl
  | cons value values ih =>
    rw [List.mem_cons, not_or] at hvalues
    have hvalue : value ≠ Int64.minValue := fun he => hvalues.1 he.symm
    have hlater : readFrom? 0 0 (values.flatMap encode) = some values := ih hvalues.2
    rw [List.flatMap_cons, readNumbers?, readFrom?_encode hvalue, hlater]
    rfl

/-- Both ends of the range, numbers around a change of length, and zero. -/
theorem encode_selfDelimiting_extremes :
    Int64.minValue ∉ [Int64.maxValue, 0, Int64.minValue + 1, -16, 15, 16] ∧
      [Int64.maxValue, 0, Int64.minValue + 1, -16, 15, 16].flatMap encode
        = "+///////////PA////////////PhBegB".toList ∧
      readNumbers? "+///////////PA////////////PhBegB".toList
        = some [Int64.maxValue, 0, Int64.minValue + 1, -16, 15, 16] := by
  have hvalues : Int64.minValue ∉ [Int64.maxValue, 0, Int64.minValue + 1, -16, 15, 16] := by decide
  have htext : [Int64.maxValue, 0, Int64.minValue + 1, -16, 15, 16].flatMap encode
      = "+///////////PA////////////PhBegB".toList := by cbv
  have hread := encode_selfDelimiting.1 _ hvalues
  rw [htext] at hread
  exact ⟨hvalues, htext, hread⟩

end SingleFile.LineMap.Vlq
