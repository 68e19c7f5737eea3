/-
  SingleFile.Proofs.Number.Decimal — DECIMALS THAT READ BACK
  ──────────────────────────────────────────────────────────
  The shortest decimal of a number is searched on grids of powers of ten,
  the coarse ones first.  A point that is found rounds to the number, and one
  is found at the latest where the grid is finer than the way to the number's
  neighbours.

  Main results:
    * `isNear_of_onGrid?` — a point that is found is near.
    * `shortestDigits_isNear` — one is found.
    * `ofDecimal_eq_of_near` — what is near is read as the number.
-/
import SingleFile.Proofs.Number.Rounding

namespace SingleFile.Number.Binary64

/-! ## §1. Intervals -/

/-- A power as a ratio of natural powers. -/
theorem zpow_eq_ratio (b : Nat) (k : Int) :
    ((b ^ k.toNat : ℕ) : ℚ) / ((b ^ (-k).toNat : ℕ) : ℚ) = (b : ℚ) ^ k := by
  rcases Int.le_total 0 k with hk | hk
  · obtain ⟨n, rfl⟩ := Int.eq_ofNat_of_zero_le hk
    simp
  · obtain ⟨n, rfl⟩ : ∃ n : Nat, k = -n := ⟨(-k).toNat, by omega⟩
    simp [zpow_neg]

/-- The ends of an interval and its number, as ratios. -/
theorem interval_spec {m : Nat} (hm : 0 < m) (e : Int) :
    0 < (interval m e).den ∧
    ((interval m e).low : ℚ) / (interval m e).den = (m - halfGap m e) * 2 ^ e ∧
    ((interval m e).value : ℚ) / (interval m e).den = m * 2 ^ e ∧
    ((interval m e).high : ℚ) / (interval m e).den = (m + 1 / 2) * 2 ^ e ∧
    ((interval m e).closed = true ↔ m % 2 = 0) := by
  have hpow := zpow_eq_ratio 2 e
  have hpos : 0 < 2 ^ (-e).toNat := Nat.two_pow_pos _
  have hposq : ((2 ^ (-e).toNat : ℕ) : ℚ) ≠ 0 := by exact_mod_cast hpos.ne'
  -- All three are quarters of the number's last place.
  have hquarters (x : ℕ) : ((x * 2 ^ e.toNat : ℕ) : ℚ) / ((4 * 2 ^ (-e).toNat : ℕ) : ℚ)
      = x / 4 * 2 ^ e := by
    push_cast at hpow ⊢
    rw [← hpow]
    field_simp
  refine ⟨Nat.mul_pos (by norm_num) hpos, ?_, ?_, ?_, by simp [interval]⟩
  · refine (hquarters _).trans ?_
    congr 1
    have hgap : (halfGap m e) * 4
        = ((if m = Nat.pow 2 52 && minExponent < e then 1 else 2 : ℕ) : ℚ) := by
      rw [halfGap]
      by_cases h : m = 2 ^ 52 ∧ minExponent < e
      · rw [if_pos h, if_pos (by simpa using h)]
        norm_num
      · rw [if_neg h, if_neg (by simpa using h)]
        norm_num
    rw [Nat.cast_sub (by split <;> omega), ← hgap]
    push_cast
    ring
  · refine (hquarters _).trans ?_
    push_cast
    ring
  · refine (hquarters _).trans ?_
    push_cast
    ring

section

variable {den : Nat} (hden : 0 < den) (k : Int) (a n : Nat)

include hden

/-- A ratio and a point of a grid over one denominator. -/
theorem grid_ratios : (0 : ℚ) < ((den * 10 ^ (-k).toNat : ℕ) : ℚ) ∧
    ((a * 10 ^ (-k).toNat : ℕ) : ℚ) / ((den * 10 ^ (-k).toNat : ℕ) : ℚ) = a / den ∧
    ((n * (den * 10 ^ k.toNat) : ℕ) : ℚ) / ((den * 10 ^ (-k).toNat : ℕ) : ℚ) = n * 10 ^ k := by
  have hpow := zpow_eq_ratio 10 k
  have hpos : 0 < 10 ^ (-k).toNat := Nat.pow_pos (by norm_num)
  have hposq : ((10 ^ (-k).toNat : ℕ) : ℚ) ≠ 0 := by exact_mod_cast hpos.ne'
  have hdenq : (den : ℚ) ≠ 0 := by exact_mod_cast hden.ne'
  refine ⟨by exact_mod_cast Nat.mul_pos hden hpos, ?_, ?_⟩
  · push_cast at hposq ⊢
    field_simp
  · push_cast at hpow hposq ⊢
    rw [← hpow]
    field_simp

theorem le_grid_iff :
    a * 10 ^ (-k).toNat ≤ n * (den * 10 ^ k.toNat) ↔ (a : ℚ) / den ≤ n * 10 ^ k := by
  obtain ⟨hpos, hratio, hpoint⟩ := grid_ratios hden k a n
  rw [← hratio, ← hpoint, div_le_div_iff_of_pos_right hpos, Nat.cast_le]

theorem grid_le_iff :
    n * (den * 10 ^ k.toNat) ≤ a * 10 ^ (-k).toNat ↔ (n : ℚ) * 10 ^ k ≤ a / den := by
  obtain ⟨hpos, hratio, hpoint⟩ := grid_ratios hden k a n
  rw [← hratio, ← hpoint, div_le_div_iff_of_pos_right hpos, Nat.cast_le]

end

/-! ## §2. Points of grids -/

/-- Whether a point of a grid is in an interval, as it is looked up. -/
def isInside (i : Interval) (k : Int) (n : Nat) : Bool :=
  let up := 10 ^ (-k).toNat
  let grid := i.den * 10 ^ k.toNat
  if i.closed then i.low * up ≤ n * grid && n * grid ≤ i.high * up
  else i.low * up < n * grid && n * grid < i.high * up

/-- A point in the interval of a number is near to it. -/
theorem isInside_iff {m : Nat} (hm : 0 < m) (e k : Int) (n : Nat) :
    isInside (interval m e) k n = true ↔ IsNear m e (n * 10 ^ k) := by
  obtain ⟨hden, hlow, -, hhigh, hclosed⟩ := interval_spec hm e
  have hpow := two_zpow_pos e
  have hle := le_grid_iff hden k (interval m e).low n
  have hge := grid_le_iff hden k (interval m e).high n
  have hlt := (grid_le_iff hden k (interval m e).low n).not
  have hgt := (le_grid_iff hden k (interval m e).high n).not
  rw [hlow, ← le_div_iff₀ hpow] at hle
  rw [hhigh, ← div_le_iff₀ hpow] at hge
  rw [hlow, not_le, not_le, ← lt_div_iff₀ hpow] at hlt
  rw [hhigh, not_le, not_le, ← div_lt_iff₀ hpow] at hgt
  unfold isInside
  by_cases heven : m % 2 = 0
  · rw [if_pos (hclosed.mpr heven), Bool.and_eq_true, decide_eq_true_eq, decide_eq_true_eq, hle,
      hge]
    exact ⟨fun h => ⟨h.1, h.2, .inl heven⟩, fun h => ⟨h.low, h.high⟩⟩
  · rw [if_neg fun h => heven (hclosed.mp h), Bool.and_eq_true, decide_eq_true_eq,
      decide_eq_true_eq, hlt, hgt]
    exact ⟨fun h => ⟨h.1.le, h.2.le, .inr h⟩, fun h => h.tie.resolve_left heven⟩

theorem onGrid?_eq (i : Interval) (k : Int) :
    onGrid? i k
      = (let below := i.value * 10 ^ (-k).toNat / (i.den * 10 ^ k.toNat)
        match isInside i k below, isInside i k (below + 1) with
        | true, true =>
          if i.value * 10 ^ (-k).toNat - below * (i.den * 10 ^ k.toNat)
            ≤ (below + 1) * (i.den * 10 ^ k.toNat) - i.value * 10 ^ (-k).toNat
          then some below else some (below + 1)
        | true, false => some below
        | false, true => some (below + 1)
        | false, false => none) := rfl

/-- **A point that is found is near.** -/
theorem isNear_of_onGrid? {m : Nat} (hm : 0 < m) {e k : Int} {n : Nat}
    (h : onGrid? (interval m e) k = some n) : IsNear m e (n * 10 ^ k) := by
  rw [← isInside_iff hm]
  rw [onGrid?_eq] at h
  dsimp only at h
  split at h
  · next hbelow habove =>
    split at h <;> obtain rfl := Option.some.inj h
    · exact hbelow
    · exact habove
  · next hbelow _ =>
    obtain rfl := Option.some.inj h
    exact hbelow
  · next _ habove =>
    obtain rfl := Option.some.inj h
    exact habove
  · cases h

/-- A point is found on a grid that is finer than the way to the number's neighbours. -/
theorem isSome_onGrid? {m : Nat} (hm : 0 < m) {e k : Int} (hk : (10 : ℚ) ^ k ≤ 2 ^ e / 4) :
    (onGrid? (interval m e) k).isSome := by
  obtain ⟨hden, -, hvalue, -⟩ := interval_spec hm e
  have hpow := two_zpow_pos e
  have hgrid : 0 < (interval m e).den * 10 ^ k.toNat :=
    Nat.mul_pos hden (Nat.pow_pos (by norm_num))
  generalize hbelow : (interval m e).value * 10 ^ (-k).toNat
    / ((interval m e).den * 10 ^ k.toNat) = below
  have hle : (below : ℚ) * 10 ^ k ≤ m * 2 ^ e := by
    rw [← hvalue, ← grid_le_iff hden, ← hbelow]
    exact Nat.div_mul_le_self _ _
  have hlt : (m : ℚ) * 2 ^ e < (below + 1 : ℕ) * 10 ^ k := by
    rw [← hvalue, ← not_le, ← grid_le_iff hden, not_le, ← hbelow]
    rw [← Nat.div_lt_iff_lt_mul hgrid]
    exact Nat.lt_succ_self _
  -- The point below the number is nearer to it than a quarter of the last place.
  have hgap : 1 / 4 ≤ halfGap m e := by
    unfold halfGap
    split <;> norm_num
  have hnear : IsNear m e (below * 10 ^ k) := by
    have hratio : (below : ℚ) * 10 ^ k / 2 ^ e ≤ m := by rwa [div_le_iff₀ hpow]
    have hratio' : (m : ℚ) - 1 / 4 < below * 10 ^ k / 2 ^ e := by
      rw [lt_div_iff₀ hpow]
      push_cast at hlt
      linarith
    exact ⟨by linarith, by linarith, .inr ⟨by linarith, by linarith⟩⟩
  rw [← isInside_iff hm] at hnear
  rw [onGrid?_eq]
  dsimp only
  rw [hbelow, hnear]
  cases isInside (interval m e) k (below + 1) with
  | true => dsimp only; split <;> rfl
  | false => rfl

/-- The search ends at the first grid with a point. -/
theorem coarsest_spec {i : Interval} {steps j : Nat} {k : Int} (hj : j < steps)
    (h : (onGrid? i (k - j)).isSome) :
    onGrid? i (coarsest i steps k).2 = some (coarsest i steps k).1 := by
  induction steps generalizing j k with
  | zero => omega
  | succ steps ih =>
    rw [coarsest]
    cases hgrid : onGrid? i k with
    | some n => exact hgrid
    | none =>
      cases j with
      | zero => simp [hgrid] at h
      | succ j =>
        refine ih (j := j) (by omega) ?_
        rwa [show k - 1 - (j : Int) = k - (j + 1 : ℕ) by push_cast; ring]

/-! ## §3. Shortest digits -/

theorem two_zpow_exponent {e : Int} (hmin : minExponent ≤ e) (hmax : e ≤ maxExponent) :
    (2 : ℚ) ^ minExponent ≤ 2 ^ e ∧ (2 : ℚ) ^ e ≤ 2 ^ maxExponent :=
  ⟨zpow_le_zpow_right₀ (by norm_num) hmin, zpow_le_zpow_right₀ (by norm_num) hmax⟩

/-- Normal numbers lie between two powers of ten. -/
theorem powers_of_ten : (10 : ℚ) ^ (-324 : Int) ≤ 2 ^ minExponent / 4 ∧
    (2 : ℚ) ^ 53 * 2 ^ maxExponent ≤ 10 ^ (309 : Int) := by
  unfold minExponent maxExponent
  constructor
  · rw [zpow_neg, zpow_neg, div_eq_mul_inv, ← mul_inv]
    refine inv_anti₀ (by positivity) ?_
    exact_mod_cast (by decide +kernel : 2 ^ 1074 * 4 ≤ 10 ^ 324)
  · exact_mod_cast (by decide +kernel : 2 ^ 53 * 2 ^ 971 ≤ 10 ^ 309)

theorem ten_zpow_lt {a b : Int} : (10 : ℚ) ^ a < 10 ^ b ↔ a < b :=
  zpow_lt_zpow_iff_right₀ (by norm_num)

theorem decimalWidth_le_iff {n k : Nat} (hk : 0 < k) : decimalWidth n ≤ k ↔ n < 10 ^ k :=
  Nat.length_toDigits_le_iff (by norm_num) hk

theorem decimalWidth_pos (n : Nat) : 0 < decimalWidth n := Nat.length_toDigits_pos

/-- Between which powers of ten a decimal lies. -/
theorem decimalWidth_bounds {n : Nat} (hn : 0 < n) (k : Int) :
    (10 : ℚ) ^ (decimalWidth n - 1 + k : Int) ≤ n * 10 ^ k ∧
      n * 10 ^ k < (10 : ℚ) ^ (decimalWidth n + k : Int) := by
  have hten : (0 : ℚ) < 10 ^ k := zpow_pos (by norm_num) k
  have hwidth := decimalWidth_pos n
  constructor
  · have hdigits : 10 ^ (decimalWidth n - 1) ≤ n := by
      rcases Nat.eq_zero_or_pos (decimalWidth n - 1) with hnarrow | hwide
      · rw [hnarrow, Nat.pow_zero]
        exact hn
      · exact not_lt.mp fun h => by
          have := (decimalWidth_le_iff hwide).mpr h
          omega
    rw [show (decimalWidth n - 1 : Int) = (decimalWidth n - 1 : ℕ) by omega,
      zpow_add₀ (by norm_num), zpow_natCast]
    exact mul_le_mul_of_nonneg_right (by exact_mod_cast hdigits) hten.le
  · have hdigits : n < 10 ^ decimalWidth n := (decimalWidth_le_iff hwidth).mp le_rfl
    rw [zpow_add₀ (by norm_num), zpow_natCast]
    exact mul_lt_mul_of_pos_right (by exact_mod_cast hdigits) hten

/-- What is half a gap above a normal number is not as great as a power of ten. -/
theorem upper_lt {m : Nat} {e : Int} (h : IsNormal m e) :
    ((m : ℚ) + 1 / 2) * 2 ^ e < 10 ^ (310 : Int) := by
  have hsmall : (m : ℚ) + 1 ≤ 2 ^ 53 := by exact_mod_cast h.small
  have hexponent := (two_zpow_exponent h.min_le h.le_max).2
  calc ((m : ℚ) + 1 / 2) * 2 ^ e ≤ 2 ^ 53 * 2 ^ maxExponent :=
        mul_le_mul (by linarith) hexponent (two_zpow_pos e).le (by norm_num)
    _ ≤ 10 ^ (309 : Int) := powers_of_ten.2
    _ < 10 ^ (310 : Int) := ten_zpow_lt.mpr (by norm_num)

/-- **The shortest digits of a number round to it.** -/
theorem shortestDigits_isNear {m : Nat} (hm : 0 < m) {e : Int} (h : IsNormal m e) :
    IsNear m e ((shortestDigits m e).1 * 10 ^ (shortestDigits m e).2) := by
  have hwidth : decimalWidth ((interval m e).high / (interval m e).den) ≤ 310 := by
    rw [decimalWidth_le_iff (by norm_num)]
    obtain ⟨hden, -, -, hhigh, -⟩ := interval_spec hm e
    have hlt : ((interval m e).high : ℚ) / (interval m e).den < 10 ^ (310 : Int) := by
      rw [hhigh]
      exact upper_lt h
    rw [div_lt_iff₀ (by exact_mod_cast hden)] at hlt
    rw [Nat.div_lt_iff_lt_mul hden]
    exact_mod_cast hlt
  refine isNear_of_onGrid? hm ?_
  -- The grid of 10^(-324) is fine enough for every number.
  refine coarsest_spec
    (j := decimalWidth ((interval m e).high / (interval m e).den) + 324) (by omega) ?_
  refine isSome_onGrid? hm ?_
  rw [show ((decimalWidth ((interval m e).high / (interval m e).den) : ℕ) : ℤ)
    - ((decimalWidth ((interval m e).high / (interval m e).den) + 324 : ℕ) : ℤ) = -324 by
      push_cast; ring]
  have hle := (two_zpow_exponent h.min_le h.le_max).1
  have hten := powers_of_ten.1
  linarith

/-! ## §4. Reading -/

/-- What is near to a number is not zero. -/
theorem pos_of_isNear {m : Nat} (hm : 0 < m) {e : Int} {n : Nat} {x : ℚ}
    (hnear : IsNear m e (n * x)) : 0 < n := by
  have hm1 : (1 : ℚ) ≤ m := by exact_mod_cast hm
  rcases Nat.eq_zero_or_pos n with rfl | hpos
  · have hlow := hnear.low
    rw [Nat.cast_zero, zero_mul, zero_div] at hlow
    linarith [halfGap_le m e]
  · exact hpos

/-- What is near to a number lies between the powers of ten between which all numbers are. -/
theorem IsNear.bounds {m : Nat} (hm : 0 < m) {e : Int} (h : IsNormal m e) {x : ℚ}
    (hnear : IsNear m e x) : (10 : ℚ) ^ (-324 : Int) < x ∧ x < 10 ^ (310 : Int) := by
  have hpow := two_zpow_pos e
  have hm1 : (1 : ℚ) ≤ m := by exact_mod_cast hm
  have hgap := halfGap_le m e
  constructor
  · have hhalf : 1 / 2 * 2 ^ e ≤ x := by
      rw [← le_div_iff₀ hpow]
      linarith [hnear.low]
    have hle := (two_zpow_exponent h.min_le h.le_max).1
    have hpowers := powers_of_ten.1
    have hmin := two_zpow_pos minExponent
    linarith
  · exact lt_of_le_of_lt ((div_le_iff₀ hpow).mp hnear.high) (upper_lt h)

/-- **What is near to a number is read as the number.** -/
theorem ofDecimal_eq_of_near {m : Nat} (hm : 0 < m) {e : Int} (h : IsNormal m e) {n : Nat} {k : Int}
    (hnear : IsNear m e (n * 10 ^ k)) (negative : Bool) :
    ofDecimal negative n k = .finite negative m e := by
  have hn := pos_of_isNear hm hnear
  obtain ⟨hlow, hhigh⟩ := hnear.bounds hm h
  obtain ⟨hleast, hgreatest⟩ := decimalWidth_bounds hn k
  have hupper := ten_zpow_lt.mp (lt_of_le_of_lt hleast hhigh)
  have hlower := ten_zpow_lt.mp (lt_trans hlow hgreatest)
  -- Between these powers neither of the shortcuts for decimals far outside is taken.
  rw [ofDecimal, if_neg hn.ne']
  dsimp only
  rw [if_neg (by omega), if_neg (by omega)]
  split
  · next hk =>
    obtain ⟨j, rfl⟩ := Int.eq_ofNat_of_zero_le hk
    refine ofRatio_eq_of_near hm h (by norm_num) ?_ negative
    simpa using hnear
  · next hk =>
    obtain ⟨j, rfl⟩ : ∃ j : Nat, k = -j := ⟨(-k).toNat, by omega⟩
    refine ofRatio_eq_of_near hm h (Nat.pow_pos (by norm_num)) ?_ negative
    simpa [zpow_neg, div_eq_mul_inv] using hnear

end SingleFile.Number.Binary64
