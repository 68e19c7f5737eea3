/-
  SingleFile.Proofs.Number.Rounding — WHAT ROUNDS TO A NUMBER
  ───────────────────────────────────────────────────────────
  A finite number is a significand times a power of two.  Every ratio of
  naturals that is nearer to a number than to its neighbours, or half way to
  one of them and the significand even, is rounded to that number; a number
  itself is rounded to itself.

  Main results:
    * `exponentOf_spec` — at which power of two a ratio is rounded.
    * `ofRatio_eq_of_near` — what rounds to a number.
-/
import Mathlib.Algebra.Order.Field.Power
import Mathlib.Data.Rat.Cast.Order
import Mathlib.Tactic.FieldSimp
import Mathlib.Tactic.Linarith
import Mathlib.Tactic.Positivity
import Mathlib.Tactic.Ring
import SingleFile.Number.Binary64

namespace SingleFile.Number.Binary64

/-! ## §1. Ratios -/

/-- A ratio over a power of two. -/
theorem shifted_spec (num : Nat) {den : Nat} (hden : 0 < den) (e : Int) :
    0 < (shifted num den e).2 ∧
      ((shifted num den e).1 : ℚ) / (shifted num den e).2 = num / den / 2 ^ e := by
  unfold shifted
  split
  · next he =>
    obtain ⟨n, rfl⟩ := Int.eq_ofNat_of_zero_le he
    refine ⟨Nat.mul_pos hden (Nat.two_pow_pos n), ?_⟩
    simp [div_div]
  · next he =>
    obtain ⟨n, rfl⟩ : ∃ n : Nat, e = -n := ⟨(-e).toNat, by omega⟩
    refine ⟨hden, ?_⟩
    simp [zpow_neg]
    ring

/-- **What the nearest natural number is**: one that is at most a half away, and an even one if it
is just a half. -/
theorem roundNearest_eq {a b m : Nat} (hb : 0 < b) (hlow : (m : ℚ) - 1 / 2 ≤ (a : ℚ) / b)
    (hhigh : (a : ℚ) / b ≤ m + 1 / 2)
    (htie : m % 2 = 0 ∨ (m : ℚ) - 1 / 2 < (a : ℚ) / b ∧ (a : ℚ) / b < m + 1 / 2) :
    roundNearest a b = m := by
  have hbq : (0 : ℚ) < b := by exact_mod_cast hb
  have hratio : (a : ℚ) / b = (a / b : ℕ) + ((a % b : ℕ) : ℚ) / b := by
    have hwhole : ((b * (a / b) + a % b : ℕ) : ℚ) = a := by rw [Nat.div_add_mod]
    push_cast at hwhole
    field_simp
    linarith
  have hrest : ((a % b : ℕ) : ℚ) / b < 1 := by
    rw [div_lt_one hbq]
    exact_mod_cast Nat.mod_lt a hb
  have hrest0 : (0 : ℚ) ≤ ((a % b : ℕ) : ℚ) / b := by positivity
  rw [hratio] at hlow hhigh htie
  -- The rest is less than, more than, or just a half, and in that last case the even one counts.
  unfold roundNearest
  dsimp only
  generalize a / b = q at *
  split
  · next hless =>
    have hhalf : ((a % b : ℕ) : ℚ) / b < 1 / 2 := by
      rw [div_lt_div_iff₀ hbq (by norm_num)]
      exact_mod_cast (by omega : a % b * 2 < 1 * b)
    have hle : (q : ℚ) < m + 1 := by linarith
    have hge : (m : ℚ) < q + 1 := by linarith
    norm_cast at hle hge
    omega
  · next hless =>
    split
    · next hmore =>
      have hhalf : 1 / 2 < ((a % b : ℕ) : ℚ) / b := by
        rw [div_lt_div_iff₀ (by norm_num) hbq]
        exact_mod_cast (by omega : 1 * b < a % b * 2)
      have hle : (q : ℚ) < m := by linarith
      have hge : (m : ℚ) < q + 2 := by linarith
      norm_cast at hle hge
      omega
    · next hmore =>
      have hhalf : ((a % b : ℕ) : ℚ) / b = 1 / 2 := by
        rw [div_eq_div_iff hbq.ne' (by norm_num)]
        exact_mod_cast (by omega : a % b * 2 = 1 * b)
      rw [hhalf] at hlow hhigh htie
      have hle : (q : ℚ) ≤ m := by linarith
      have hge : (m : ℚ) ≤ q + 1 := by linarith
      norm_cast at hle hge
      have heven : m % 2 = 0 := by
        refine htie.resolve_right fun ⟨hl, hh⟩ => ?_
        have hl' : (m : ℚ) < q + 1 := by linarith
        have hh' : (q : ℚ) < m := by linarith
        norm_cast at hl' hh'
        omega
      split <;> omega

/-! ## §2. Exponents -/

theorem two_zpow_pos (e : Int) : (0 : ℚ) < 2 ^ e := zpow_pos (by norm_num) e

theorem two_zpow_add (a b : Int) : (2 : ℚ) ^ (a + b) = 2 ^ a * 2 ^ b := zpow_add₀ (by norm_num) a b

/-- A ratio lies between powers of two that the lengths of its terms give. -/
theorem ratio_bounds {num den : Nat} (hnum : 0 < num) (hden : 0 < den) :
    (2 : ℚ) ^ ((num.log2 : Int) - den.log2 - 1) < (num : ℚ) / den ∧
      (num : ℚ) / den < 2 ^ ((num.log2 : Int) - den.log2 + 1) := by
  have hden' : (0 : ℚ) < den := by exact_mod_cast hden
  have hnum_low : (2 : ℚ) ^ (num.log2 : Int) ≤ num := by
    exact_mod_cast Nat.log2_self_le hnum.ne'
  have hnum_high : (num : ℚ) < 2 ^ ((num.log2 : Int) + 1) := by
    exact_mod_cast Nat.lt_log2_self (n := num)
  have hden_low : (2 : ℚ) ^ (den.log2 : Int) ≤ den := by
    exact_mod_cast Nat.log2_self_le hden.ne'
  have hden_high : (den : ℚ) < 2 ^ ((den.log2 : Int) + 1) := by
    exact_mod_cast Nat.lt_log2_self (n := den)
  constructor
  · rw [lt_div_iff₀ hden']
    calc (2 : ℚ) ^ ((num.log2 : Int) - den.log2 - 1) * den
        < 2 ^ ((num.log2 : Int) - den.log2 - 1) * 2 ^ ((den.log2 : Int) + 1) :=
          mul_lt_mul_of_pos_left hden_high (two_zpow_pos _)
      _ = 2 ^ (num.log2 : Int) := by rw [← two_zpow_add]; congr 1; ring
      _ ≤ num := hnum_low
  · rw [div_lt_iff₀ hden']
    calc (num : ℚ) < 2 ^ ((num.log2 : Int) + 1) := hnum_high
      _ = 2 ^ ((num.log2 : Int) - den.log2 + 1) * 2 ^ (den.log2 : Int) := by
        rw [← two_zpow_add]; congr 1; ring
      _ ≤ 2 ^ ((num.log2 : Int) - den.log2 + 1) * den :=
        mul_le_mul_of_nonneg_left hden_low (two_zpow_pos _).le

/-- Whether a ratio has 53 binary places before the point at a power of two. -/
structure HasPlaces (x : ℚ) (e : Int) : Prop where
  low : 2 ^ 52 * 2 ^ e ≤ x
  high : x < 2 ^ 53 * 2 ^ e

/-- **At which power of two a ratio is rounded**: one where it has 53 places, or the least. -/
theorem exponentOf_spec {num den : Nat} (hnum : 0 < num) (hden : 0 < den) :
    ∃ e, HasPlaces ((num : ℚ) / den) e ∧ exponentOf num den = max e minExponent := by
  obtain ⟨hlow, hhigh⟩ := ratio_bounds hnum hden
  -- The guess is right or one too low, and which it is shows in the quotient's number of places.
  unfold exponentOf
  dsimp only
  generalize hguess : (num.log2 : Int) - den.log2 - 53 = guess
  rw [show (num.log2 : Int) - den.log2 - 1 = 52 + guess by omega, two_zpow_add] at hlow
  rw [show (num.log2 : Int) - den.log2 + 1 = 53 + (guess + 1) by omega, two_zpow_add] at hhigh
  obtain ⟨hpos, hratio⟩ := shifted_spec num hden guess
  have hfloor : (shifted num den guess).1 / (shifted num den guess).2 < Nat.pow 2 53 ↔
      (num : ℚ) / den < 2 ^ 53 * 2 ^ guess := by
    rw [Nat.div_lt_iff_lt_mul hpos, ← div_lt_iff₀ (two_zpow_pos guess), ← hratio,
      div_lt_iff₀ (by exact_mod_cast hpos)]
    exact_mod_cast Iff.rfl
  refine ⟨_, ?_, rfl⟩
  split
  · next hless => exact ⟨by exact_mod_cast hlow.le, hfloor.mp hless⟩
  · next hless =>
    have hge := not_lt.mp fun h => hless (hfloor.mpr h)
    refine ⟨?_, by exact_mod_cast hhigh⟩
    rw [two_zpow_add]
    calc (2 : ℚ) ^ 52 * (2 ^ guess * 2 ^ (1 : Int)) = 2 ^ 53 * 2 ^ guess := by norm_num; ring
      _ ≤ _ := hge

/-- A ratio has 53 places at no two powers. -/
theorem HasPlaces.le {x y : ℚ} {e e' : Int} (h : 2 ^ 52 * 2 ^ e ≤ x) (hxy : x ≤ y)
    (h' : y < 2 ^ 53 * 2 ^ e') : e ≤ e' := by
  by_contra hlt
  have hpow : (2 : ℚ) ^ (e' + 1) ≤ 2 ^ e := zpow_le_zpow_right₀ (by norm_num) (by omega)
  rw [two_zpow_add] at hpow
  norm_num at hpow h h'
  linarith

/-- The power at which a ratio is rounded that has 53 places there, or fewer if it is the least. -/
theorem exponentOf_eq {num den : Nat} (hnum : 0 < num) (hden : 0 < den) {e : Int}
    (he : minExponent ≤ e) (hlow : 2 ^ 52 * 2 ^ e ≤ (num : ℚ) / den ∨ e = minExponent)
    (hhigh : (num : ℚ) / den < 2 ^ 53 * 2 ^ e) : exponentOf num den = e := by
  obtain ⟨exact, hplaces, hexponent⟩ := exponentOf_spec hnum hden
  have hle : exact ≤ e := HasPlaces.le hplaces.low le_rfl hhigh
  rw [hexponent]
  rcases hlow with hlow | rfl
  · have hge : e ≤ exact := HasPlaces.le hlow le_rfl hplaces.high
    omega
  · omega

/-! ## §3. What rounds to a number -/

/-- Whether a significand and an exponent are those that rounding yields. -/
structure IsNormal (m : Nat) (e : Int) : Prop where
  small : m < 2 ^ 53
  min_le : minExponent ≤ e
  le_max : e ≤ maxExponent
  places : 2 ^ 52 ≤ m ∨ e = minExponent

/-- How far below a significand the half way to the number before it is. -/
def halfGap (m : Nat) (e : Int) : ℚ := if m = 2 ^ 52 ∧ minExponent < e then 1 / 4 else 1 / 2

theorem halfGap_pos (m : Nat) (e : Int) : 0 < halfGap m e := by
  unfold halfGap
  split <;> norm_num

theorem halfGap_le (m : Nat) (e : Int) : halfGap m e ≤ 1 / 2 := by
  unfold halfGap
  split <;> norm_num

/-- Whether a ratio is at most half way from a number to its neighbours, and nearer if the
significand is odd. -/
structure IsNear (m : Nat) (e : Int) (x : ℚ) : Prop where
  low : m - halfGap m e ≤ x / 2 ^ e
  high : x / 2 ^ e ≤ m + 1 / 2
  tie : m % 2 = 0 ∨ m - halfGap m e < x / 2 ^ e ∧ x / 2 ^ e < m + 1 / 2

/-- A ratio just below a power of two has its places one power lower, and is rounded up to it. -/
theorem ofRatio_of_carry {num den : Nat} (hnum : 0 < num) (hden : 0 < den) {e : Int}
    (hmin : minExponent < e) (hmax : e ≤ maxExponent)
    (hlow : 2 ^ 52 - 1 / 4 ≤ (num : ℚ) / den / 2 ^ e) (hhigh : (num : ℚ) / den / 2 ^ e < 2 ^ 52)
    (negative : Bool) : ofRatio negative num den = .finite negative (2 ^ 52) e := by
  have hdouble : (2 : ℚ) ^ e = 2 * 2 ^ (e - 1) := by
    rw [show e = 1 + (e - 1) by ring, two_zpow_add]
    norm_num
  have hpow := two_zpow_pos (e - 1)
  have hhalf : (num : ℚ) / den / 2 ^ (e - 1) = 2 * ((num : ℚ) / den / 2 ^ e) := by
    rw [hdouble]
    field_simp
  have hplaces : exponentOf num den = e - 1 := by
    refine exponentOf_eq hnum hden (by omega) (.inl ?_) ?_
    · rw [← le_div_iff₀ hpow, hhalf]
      linarith
    · rw [← div_lt_iff₀ hpow, hhalf]
      linarith
  obtain ⟨hpos, hratio⟩ := shifted_spec num hden (e - 1)
  have hround : roundNearest (shifted num den (e - 1)).1 (shifted num den (e - 1)).2 = 2 ^ 53 := by
    refine roundNearest_eq hpos ?_ ?_ (.inl (by norm_num))
    · rw [hratio, hhalf]
      push_cast
      linarith
    · rw [hratio, hhalf]
      push_cast
      linarith
  rw [ofRatio, if_neg hnum.ne']
  dsimp only
  rw [hplaces, hround, if_pos (show (2 ^ 53 : Nat) = Nat.pow 2 53 from rfl), sub_add_cancel]
  exact if_neg (not_lt.mpr hmax)

/-- **What rounds to a number.** -/
theorem ofRatio_eq_of_near {m : Nat} {e : Int} (hm : 0 < m) (hnormal : IsNormal m e) {num den : Nat}
    (hden : 0 < den) (hnear : IsNear m e ((num : ℚ) / den)) (negative : Bool) :
    ofRatio negative num den = .finite negative m e := by
  have hpow := two_zpow_pos e
  have hgap := halfGap_le m e
  have hm1 : (1 : ℚ) ≤ m := by exact_mod_cast hm
  have hm53 : (m : ℚ) + 1 ≤ 2 ^ 53 := by exact_mod_cast hnormal.small
  have hnum : 0 < num := by
    rcases Nat.eq_zero_or_pos num with rfl | hpos
    · have hlow := hnear.low
      simp only [Nat.cast_zero, zero_div] at hlow
      linarith
    · exact hpos
  have hhigh : (num : ℚ) / den < 2 ^ 53 * 2 ^ e := by
    rw [← div_lt_iff₀ hpow]
    linarith [hnear.high]
  by_cases hlow : 2 ^ 52 * 2 ^ e ≤ (num : ℚ) / den ∨ e = minExponent
  · obtain ⟨hpos, hratio⟩ := shifted_spec num hden e
    have hround : roundNearest (shifted num den e).1 (shifted num den e).2 = m := by
      refine roundNearest_eq hpos ?_ ?_ ?_
      · rw [hratio]
        linarith [hnear.low]
      · rw [hratio]
        exact hnear.high
      · rw [hratio]
        exact hnear.tie.imp id fun h => ⟨by linarith [h.1], h.2⟩
    have hsmall : m ≠ Nat.pow 2 53 := hnormal.small.ne
    rw [ofRatio, if_neg hnum.ne']
    dsimp only
    rw [exponentOf_eq hnum hden hnormal.min_le hlow hhigh, hround, if_neg hsmall]
    exact if_neg (not_lt.mpr hnormal.le_max)
  · -- The significand is the least one with 53 places, since half a gap leads below all of them.
    rw [not_or, not_le, ← div_lt_iff₀ hpow] at hlow
    obtain ⟨hbelow, hexponent⟩ := hlow
    have hlowest : minExponent < e := lt_of_le_of_ne hnormal.min_le (Ne.symm hexponent)
    have hm52 : m = 2 ^ 52 := by
      have hge := hnormal.places.resolve_right hexponent
      have hlow := hnear.low
      have hlt : (m : ℚ) < 2 ^ 52 + 1 := by linarith
      norm_cast at hlt
      omega
    subst hm52
    have hquarter : halfGap (2 ^ 52) e = 1 / 4 := if_pos ⟨rfl, hlowest⟩
    have hnearly := hnear.low
    rw [hquarter] at hnearly
    push_cast at hnearly
    exact ofRatio_of_carry hnum hden hlowest hnormal.le_max hnearly hbelow negative

/-- A number is near to itself. -/
theorem isNear_self (m : Nat) (e : Int) : IsNear m e (m * 2 ^ e) := by
  have hratio : (m : ℚ) * 2 ^ e / 2 ^ e = m := mul_div_cancel_right₀ _ (two_zpow_pos e).ne'
  have hgap := halfGap_pos m e
  refine ⟨?_, ?_, .inr ⟨?_, ?_⟩⟩ <;> rw [hratio] <;> linarith

/-! ## §4. What rounding yields -/

theorem le_roundNearest (a b : Nat) : a / b ≤ roundNearest a b := by
  unfold roundNearest
  dsimp only
  split_ifs <;> omega

theorem roundNearest_le (a b : Nat) : roundNearest a b ≤ a / b + 1 := by
  unfold roundNearest
  dsimp only
  split_ifs <;> omega

/-- What is less than half way to a natural number is rounded to a lesser one. -/
theorem roundNearest_lt {a b n : Nat} (hb : 0 < b) (h : 2 * a + b < 2 * n * b) :
    roundNearest a b < n := by
  have hdiv : b * (a / b) + a % b = a := Nat.div_add_mod a b
  have hquotient : a / b < n := by
    rw [Nat.div_lt_iff_lt_mul hb]
    have hexpand : 2 * n * b = 2 * (n * b) := by ring
    omega
  unfold roundNearest
  dsimp only
  generalize a / b = q at *
  by_cases hlast : q + 1 = n
  · have hrest : 2 * (a % b) < b := by
      subst hlast
      have hexpand : 2 * (q + 1) * b = 2 * (b * q) + 2 * b := by ring
      omega
    rw [if_pos hrest]
    exact hquotient
  · split_ifs <;> omega

/-- Whether a quotient of natural numbers is a ratio over a power of two, with 53 binary places or
fewer at the least exponent. -/
structure IsScaled (x : ℚ) (e : Int) (a b : Nat) : Prop where
  pos : 0 < b
  ratio : (a : ℚ) / b = x / 2 ^ e
  min_le : minExponent ≤ e
  high : a / b < 2 ^ 53
  low : 2 ^ 52 ≤ a / b ∨ e = minExponent

/-- What is rounded is a ratio at the power at which it is rounded. -/
theorem shifted_isScaled {num den : Nat} (hnum : 0 < num) (hden : 0 < den) :
    IsScaled ((num : ℚ) / den) (exponentOf num den) (shifted num den (exponentOf num den)).1
      (shifted num den (exponentOf num den)).2 := by
  obtain ⟨exact, hplaces, hexponent⟩ := exponentOf_spec hnum hden
  have hmin : minExponent ≤ exponentOf num den := by omega
  have hexact : exact ≤ exponentOf num den := by omega
  have hsame : exponentOf num den = exact ∨ exponentOf num den = minExponent := by omega
  generalize exponentOf num den = e at *
  obtain ⟨hpos, hratio⟩ := shifted_spec num hden e
  have hposq : (0 : ℚ) < (shifted num den e).2 := by exact_mod_cast hpos
  refine ⟨hpos, hratio, hmin, ?_, ?_⟩
  · have hmono : (2 : ℚ) ^ exact ≤ 2 ^ e := zpow_le_zpow_right₀ (by norm_num) hexact
    have hlt : ((shifted num den e).1 : ℚ) / (shifted num den e).2 < 2 ^ 53 := by
      rw [hratio, div_lt_iff₀ (two_zpow_pos e)]
      linarith [hplaces.high]
    rw [div_lt_iff₀ hposq] at hlt
    rw [Nat.div_lt_iff_lt_mul hpos]
    exact_mod_cast hlt
  · rcases hsame with rfl | hleast
    · have hle : (2 : ℚ) ^ 52 ≤ ((shifted num den e).1 : ℚ) / (shifted num den e).2 := by
        rw [hratio, le_div_iff₀ (two_zpow_pos e)]
        exact hplaces.low
      rw [le_div_iff₀ hposq] at hle
      exact .inl ((Nat.le_div_iff_mul_le hpos).mpr (by exact_mod_cast hle))
    · exact .inr hleast

/-- A ratio that is not less than the least number is not rounded to zero. -/
theorem IsScaled.quotient_pos {x : ℚ} {e : Int} {a b : Nat} (h : IsScaled x e a b)
    (hlow : (2 : ℚ) ^ minExponent ≤ x) : 0 < a / b := by
  rcases h.low with hplaces | rfl
  · omega
  · have hle : (1 : ℚ) ≤ (a : ℚ) / b := by
      rw [h.ratio, le_div_iff₀ (two_zpow_pos _)]
      linarith
    rw [le_div_iff₀ (by exact_mod_cast h.pos)] at hle
    exact (Nat.le_div_iff_mul_le h.pos).mpr (by exact_mod_cast hle)

/-- A ratio that is not half way beyond the greatest number is not rounded to a greater one. -/
theorem IsScaled.roundNearest_lt {x : ℚ} {a b : Nat} (h : IsScaled x maxExponent a b)
    (hhigh : x < (2 ^ 53 - 1 / 2) * 2 ^ maxExponent) : roundNearest a b < 2 ^ 53 := by
  have hlt : (a : ℚ) / b < 2 ^ 53 - 1 / 2 := by
    rw [h.ratio, div_lt_iff₀ (two_zpow_pos _)]
    exact hhigh
  rw [div_lt_iff₀ (by exact_mod_cast h.pos)] at hlt
  have hnat : (2 * a + b : ℚ) < 2 * 2 ^ 53 * b := by linarith
  exact Binary64.roundNearest_lt h.pos (by exact_mod_cast hnat)

/-- No ratio that is less than the greatest numbers is rounded at a greater power than theirs. -/
theorem exponentOf_le {num den : Nat} (hnum : 0 < num) (hden : 0 < den)
    (hhigh : (num : ℚ) / den < (2 ^ 53 - 1 / 2) * 2 ^ maxExponent) :
    exponentOf num den ≤ maxExponent := by
  obtain ⟨exact, hplaces, hexponent⟩ := exponentOf_spec hnum hden
  have hle : exact ≤ maxExponent := by
    refine HasPlaces.le hplaces.low le_rfl (lt_of_lt_of_le hhigh ?_)
    exact mul_le_mul_of_nonneg_right (by norm_num) (two_zpow_pos _).le
  have hbounds : minExponent ≤ maxExponent := by decide
  omega

/-- **What rounding yields**: a normal number, unless the ratio is too great or too small. -/
theorem ofRatio_normal {num den : Nat} (hden : 0 < den)
    (hlow : (2 : ℚ) ^ minExponent ≤ (num : ℚ) / den)
    (hhigh : (num : ℚ) / den < (2 ^ 53 - 1 / 2) * 2 ^ maxExponent) (negative : Bool) :
    ∃ m e, 0 < m ∧ IsNormal m e ∧ ofRatio negative num den = .finite negative m e := by
  have hnum : 0 < num := by
    rcases Nat.eq_zero_or_pos num with rfl | hpos
    · rw [Nat.cast_zero, zero_div] at hlow
      exact absurd hlow (not_le.mpr (two_zpow_pos _))
    · exact hpos
  have hscaled := shifted_isScaled hnum hden
  have hle := exponentOf_le hnum hden hhigh
  rw [ofRatio, if_neg hnum.ne']
  dsimp only
  generalize exponentOf num den = e at *
  generalize (shifted num den e).1 = a at *
  generalize (shifted num den e).2 = b at *
  have hpos := hscaled.quotient_pos hlow
  have hlowest := le_roundNearest a b
  have hhighest := roundNearest_le a b
  have hbelow := hscaled.high
  split
  · next hcarry =>
    -- A carry at the greatest power would take a ratio half way beyond the greatest number.
    have hlt : e ≠ maxExponent := by
      rintro rfl
      exact (hscaled.roundNearest_lt hhigh).ne hcarry
    have hnext : e + 1 ≤ maxExponent := by omega
    have hmin := hscaled.min_le
    exact ⟨2 ^ 52, e + 1, by norm_num, ⟨by norm_num, by omega, hnext, .inl le_rfl⟩,
      if_neg (not_lt.mpr hnext)⟩
  · next hcarry =>
    have hne : roundNearest a b ≠ 2 ^ 53 := hcarry
    exact ⟨_, e, by omega, ⟨by omega, hscaled.min_le, hle, hscaled.low.imp (fun h => by omega) id⟩,
      if_neg (not_lt.mpr hle)⟩

/-! ## §5. Counting on -/

/-- Whether a number is finite and is not the negative zero. -/
inductive IsPlain : Binary64 → Prop where
  | finite {negative : Bool} {m : Nat} {e : Int} (h : IsNormal m e)
    (hzero : m = 0 → negative = false) : IsPlain (.finite negative m e)

theorem isPlain_zero : IsPlain (zero false) :=
  .finite ⟨by norm_num, le_rfl, by decide, .inr rfl⟩ fun _ => rfl

theorem ofNat_one : ofNat 1 = .finite false (2 ^ 52) (-52) := by decide

/-- The integer that a number is at a common exponent. -/
theorem abs_scaledTo {common e : Int} (h : common ≤ e) (negative : Bool) (m : Nat) :
    |((scaledTo common negative m e : Int) : ℚ)| * 2 ^ common = m * 2 ^ e := by
  obtain ⟨j, rfl⟩ : ∃ j : Nat, e = common + j := ⟨(e - common).toNat, by omega⟩
  have habs : |((scaledTo common negative m (common + j) : Int) : ℚ)| = m * 2 ^ j := by
    unfold scaledTo
    rw [add_sub_cancel_left, Int.toNat_natCast, Nat.pow_eq]
    cases negative <;> simp [abs_mul]
  rw [habs, two_zpow_add, zpow_natCast]
  ring

/-- A sum with one is neither too small nor too great for a number: the greatest ones are too far
apart for one more to lead beyond them. -/
theorem sum_bounds {m : Nat} {e common a b : Int} (hnormal : IsNormal m e)
    (hcommon : minExponent ≤ common) (ha : |(a : ℚ)| * 2 ^ common = m * 2 ^ e)
    (hb : |(b : ℚ)| * 2 ^ common = 1) (hsum : a + b ≠ 0) :
    (2 : ℚ) ^ minExponent ≤ |((a + b : Int) : ℚ)| * 2 ^ common ∧
      |((a + b : Int) : ℚ)| * 2 ^ common < (2 ^ 53 - 1 / 2) * 2 ^ maxExponent := by
  have hpow := two_zpow_pos common
  constructor
  · have hone : (1 : ℚ) ≤ |((a + b : Int) : ℚ)| := by exact_mod_cast Int.one_le_abs hsum
    calc (2 : ℚ) ^ minExponent ≤ 1 * 2 ^ common := by
          rw [one_mul]
          exact zpow_le_zpow_right₀ (by norm_num) hcommon
      _ ≤ |((a + b : Int) : ℚ)| * 2 ^ common := mul_le_mul_of_nonneg_right hone hpow.le
  · have hgreatest : (2 : ℚ) ^ e ≤ 2 ^ maxExponent :=
      zpow_le_zpow_right₀ (by norm_num) hnormal.le_max
    have hlarge : (2 : ℚ) ^ (1 : Int) < 2 ^ maxExponent :=
      zpow_lt_zpow_right₀ (by norm_num) (by decide)
    rw [zpow_one] at hlarge
    have hm : (m : ℚ) ≤ 2 ^ 53 - 1 := by
      rw [le_sub_iff_add_le]
      exact_mod_cast hnormal.small
    rw [Int.cast_add]
    calc |(a : ℚ) + b| * 2 ^ common ≤ (|(a : ℚ)| + |(b : ℚ)|) * 2 ^ common :=
          mul_le_mul_of_nonneg_right (abs_add_le _ _) hpow.le
      _ = m * 2 ^ e + 1 := by rw [add_mul, ha, hb]
      _ ≤ (2 ^ 53 - 1) * 2 ^ maxExponent + 1 :=
          add_le_add_left (mul_le_mul hm hgreatest (two_zpow_pos e).le (by norm_num)) 1
      _ < (2 ^ 53 - 1 / 2) * 2 ^ maxExponent := by
          generalize (2 : ℚ) ^ maxExponent = top at hlarge ⊢
          linarith only [hlarge]

/-- **One more than a number** is a number again. -/
theorem IsPlain.add_one {x : Binary64} (h : IsPlain x) : IsPlain (x.add (ofNat 1)) := by
  obtain @⟨negative, m, e, hnormal, hzero⟩ := h
  rw [ofNat_one, add]
  have hcommon : min e (-52) ≤ -52 := min_le_right _ _
  have hleast : minExponent ≤ min e (-52) := le_min hnormal.min_le (by decide)
  have hvalue := abs_scaledTo (min_le_left e (-52)) negative m
  have hone := abs_scaledTo (min_le_right e (-52)) false (2 ^ 52)
  rw [show ((2 ^ 52 : ℕ) : ℚ) * 2 ^ (-52 : Int) = 1 by norm_num] at hone
  generalize min e (-52) = common at *
  generalize scaledTo common negative m e = a at *
  generalize scaledTo common false (2 ^ 52) (-52) = b at *
  split
  · -- One and its negative add up to the positive zero.
    rw [Bool.and_false, Bool.false_and, Bool.false_and]
    exact isPlain_zero
  · next hsum =>
    obtain ⟨hlow, hhigh⟩ := sum_bounds hnormal hleast hvalue hone hsum
    obtain ⟨j, rfl⟩ : ∃ j : Nat, common = -j := ⟨(-common).toNat, by omega⟩
    have hratio : (((a + b).natAbs : ℕ) : ℚ) / ((2 ^ j : ℕ) : ℚ)
        = |((a + b : Int) : ℚ)| * 2 ^ (-(j : Int)) := by
      rw [Nat.cast_natAbs, zpow_neg, zpow_natCast]
      push_cast
      rfl
    rw [← hratio] at hlow hhigh
    obtain ⟨m', e', hpos, hnormal', heq⟩ :=
      ofRatio_normal (Nat.two_pow_pos j) hlow hhigh (decide (a + b < 0))
    rw [ofScaled, if_neg (by omega), Int.neg_neg, Int.toNat_natCast, Nat.pow_eq, heq]
    exact .finite hnormal' fun hm => absurd hm hpos.ne'

end SingleFile.Number.Binary64
