import Montage.Proofs.Exact

/-!
# Overflow

Rounding leaves the format from half a spacing beyond the largest number on, which is a tie and goes away
from it. A product or a quotient of finite numbers overflows just if the exact result is as large as that.

* `Binary64.overflow`: the least magnitude that is rounded to an infinity.

Results:
* `Magnitude.nearest_lt_iff`: which ratios are rounded below a power of two.
* `Binary64.isFinite_ofRatio_iff`: which ratios are rounded to a finite number.
* `Binary64.isFinite_mul_iff`, `Binary64.isFinite_div_iff`: which operations overflow.
-/

namespace Montage

/-! ## Rounding below a power of two -/

/-- A half below an even number is rounded up to it. -/
theorem roundDiv_lt_iff {num den n : Nat} (hden : 0 < den) (heven : n % 2 = 0) :
    roundDiv num den < n ↔ 2 * num < (2 * n - 1) * den := by
  have hdiv : num / den * den + num % den = num := Nat.div_add_mod' num den
  have hmod : num % den < den := Nat.mod_lt num hden
  have hle := le_roundDiv num den
  have hle' := roundDiv_le num den
  rcases Nat.lt_trichotomy (num / den + 1) n with hlt | heq | hgt
  · refine iff_of_true (by omega) ?_
    have hmul : 2 * (num / den + 1) * den ≤ (2 * n - 1) * den := Nat.mul_le_mul_right den (by omega)
    rw [Nat.mul_assoc, Nat.add_mul] at hmul
    omega
  · -- The quotient is odd, so that a tie is rounded up.
    have hodd : ¬ num / den % 2 = 0 := by omega
    have hround : roundDiv num den < n ↔ 2 * (num % den) < den := by
      simp only [roundDiv, hodd, and_false, or_false]
      split <;> omega
    have hcount : 2 * n - 1 = 2 * (num / den) + 1 := by omega
    rw [hround, hcount, Nat.add_mul, Nat.mul_assoc]
    omega
  · refine iff_of_false (by omega) ?_
    have hmul : (2 * n - 1) * den ≤ 2 * (num / den) * den := Nat.mul_le_mul_right den (by omega)
    rw [Nat.mul_assoc] at hmul
    omega

namespace Magnitude

variable {num den : Nat}

/-- What is below a power of two is not rounded above it. -/
theorem nearest_le_two_pow {k : Nat} (h : num / den < 2 ^ (k + 53)) : nearest num den ≤ 2 ^ (k + 53) := by
  have hspacing : spacing (num / den) ≤ 2 ^ k := by
    rw [spacing_eq]
    refine Nat.pow_le_pow_right (by decide) ?_
    rcases Nat.eq_zero_or_pos (num / den) with hzero | hpos
    · rw [hzero]
      exact Nat.zero_le _
    · have hlog := (Nat.log2_lt hpos.ne').mpr h
      omega
  have hround : roundDiv num (den * spacing (num / den)) ≤ 2 ^ 53 := roundDiv_spacing_le num den
  rw [Nat.pow_add, Nat.mul_comm]
  exact Nat.mul_le_mul hround hspacing

/-- What is not below a power of two is not rounded below it. -/
theorem two_pow_le_nearest {j : Nat} (hj : 52 ≤ j) (h : 2 ^ j ≤ num / den) : 2 ^ j ≤ nearest num den := by
  have hne : num / den ≠ 0 := (Nat.lt_of_lt_of_le (Nat.two_pow_pos j) h).ne'
  have hlog : j ≤ (num / den).log2 := (Nat.le_log2 hne).mpr h
  have hself := Nat.log2_self_le hne
  unfold nearest
  dsimp only
  rw [spacing_eq]
  generalize (num / den).log2 = l at *
  have hsplit : 2 ^ 52 * 2 ^ (l - 52) = 2 ^ l := by
    rw [← Nat.pow_add]
    congr 1
    omega
  have hround : 2 ^ 52 ≤ roundDiv num (den * 2 ^ (l - 52)) := by
    refine le_trans ?_ (le_roundDiv _ _)
    rw [← Nat.div_div_eq_div_mul, Nat.le_div_iff_mul_le (Nat.two_pow_pos _), hsplit]
    exact hself
  calc 2 ^ j ≤ 2 ^ l := Nat.pow_le_pow_right (by decide) hlog
    _ = 2 ^ 52 * 2 ^ (l - 52) := hsplit.symm
    _ ≤ _ := Nat.mul_le_mul_right _ hround

/-- Rounding stays below a power of two up to half a spacing below it. -/
theorem nearest_lt_iff (k : Nat) (hden : 0 < den) :
    nearest num den < 2 ^ 54 * 2 ^ k ↔ num < (2 ^ 54 - 1) * 2 ^ k * den := by
  have hquot : num / den * den ≤ num := Nat.div_mul_le_self num den
  have hquot' : num < (num / den + 1) * den := Nat.lt_mul_of_div_lt (Nat.lt_succ_self _) hden
  have hhalf : 2 ^ (k + 53) = 2 ^ 53 * 2 ^ k := by rw [Nat.pow_add, Nat.mul_comm]
  have hwhole : 2 ^ (k + 54) = 2 ^ 54 * 2 ^ k := by rw [Nat.pow_add, Nat.mul_comm]
  have hpos : 0 < 2 ^ k := Nat.two_pow_pos k
  rcases Nat.lt_or_ge (num / den) (2 ^ (k + 53)) with hlow | hlow
  · have hnearest := nearest_le_two_pow hlow
    rw [hhalf] at hlow hnearest
    generalize 2 ^ k = g at *
    refine iff_of_true (by omega) (Nat.lt_of_lt_of_le hquot' (Nat.mul_le_mul_right den ?_))
    omega
  rcases Nat.lt_or_ge (num / den) (2 ^ (k + 54)) with hhigh | hhigh
  · have hspacing : spacing (num / den) = 2 * 2 ^ k := by
      have hne : num / den ≠ 0 := (Nat.lt_of_lt_of_le (Nat.two_pow_pos _) hlow).ne'
      have hplace : k + 53 - 52 = k + 1 := by omega
      rw [spacing_eq, (Nat.log2_eq_iff hne).mpr ⟨hlow, hhigh⟩, hplace, Nat.pow_succ']
    have hgap : 0 < 2 * 2 ^ k := Nat.mul_pos two_pos hpos
    have hpower : 2 ^ 54 * 2 ^ k = 2 ^ 53 * (2 * 2 ^ k) := by ring
    have hcount : (2 * 2 ^ 53 - 1) * (den * (2 * 2 ^ k)) = 2 * ((2 ^ 54 - 1) * 2 ^ k * den) := by ring
    unfold nearest
    dsimp only
    rw [hspacing, hpower, Nat.mul_lt_mul_right hgap, roundDiv_lt_iff (Nat.mul_pos hden hgap) (by norm_num),
      hcount, Nat.mul_lt_mul_left two_pos]
  · have hnearest := two_pow_le_nearest (by omega) hhigh
    rw [hwhole] at hhigh hnearest
    have hbelow : (2 ^ 54 - 1) * 2 ^ k ≤ num / den :=
      Nat.le_trans (Nat.mul_le_mul_right _ (Nat.sub_le _ _)) hhigh
    exact iff_of_false (Nat.not_lt.mpr hnearest)
      (Nat.not_lt.mpr (Nat.le_trans (Nat.mul_le_mul_right den hbelow) hquot))

theorem unitLimit_eq_spacing : unitLimit = 2 ^ 2045 * 2 ^ 53 := by decide +kernel

/-- The largest magnitude is a whole spacing below the limit. -/
theorem units_le (m : Magnitude) : m.units ≤ 2 ^ 2045 * (2 ^ 53 - 1) := by
  have hlimit := m.lt_limit
  rw [unitLimit_eq_spacing] at hlimit
  by_cases hlarge : 2 ^ 2045 * 2 ^ 52 ≤ m.units
  · obtain ⟨k, hk⟩ := m.two_pow_dvd hlarge
    rw [hk] at hlimit ⊢
    exact Nat.mul_le_mul_left _ (Nat.le_sub_one_of_lt (Nat.lt_of_mul_lt_mul_left hlimit))
  · exact Nat.le_trans (Nat.le_of_lt (Nat.not_le.mp hlarge)) (Nat.mul_le_mul_left _ (by norm_num))

end Magnitude

namespace Binary64

/-- The least magnitude that is rounded to an infinity. -/
def overflow : ℚ := 2 ^ 1024 - 2 ^ 970

theorem overflow_eq : overflow = (2 ^ 54 - 1) * 2 ^ 970 := by
  have hsplit : (2 ^ 1024 : ℚ) = 2 ^ 54 * 2 ^ 970 := by rw [← pow_add]
  rw [overflow, hsplit, sub_mul, one_mul]

theorem unitLimit_eq : unitLimit = 2 ^ 54 * 2 ^ 2044 := by decide +kernel

/-- The same in units. -/
theorem overflow_mul : overflow * unitsInOne = (2 ^ 54 - 1) * 2 ^ 2044 := by
  have hsplit : (2 ^ 2044 : ℚ) = 2 ^ 970 * 2 ^ 1074 := by rw [← pow_add]
  rw [overflow_eq, unitsInOne_eq_pow, Nat.cast_pow, Nat.cast_ofNat, mul_assoc, hsplit]

variable {x y : Binary64}

theorem isFinite_ofRatio_iff_nearest (negative : Bool) (num den : Nat) :
    (ofRatio negative num den).isFinite = true ↔ Magnitude.nearest num den < unitLimit := by
  unfold ofRatio Magnitude.ofRatio?
  by_cases hlimit : Magnitude.nearest num den < unitLimit
  · rw [dif_pos hlimit]
    exact iff_of_true rfl hlimit
  · rw [dif_neg hlimit]
    exact iff_of_false Bool.false_ne_true hlimit

theorem abs_signedRatio (negative : Bool) (num den : Nat) :
    |signedRatio negative num den| = (num : ℚ) / den / unitsInOne := by
  have hratio : (0 : ℚ) ≤ (num : ℚ) / den / unitsInOne := by positivity
  cases negative
  · rw [signedRatio, if_neg Bool.false_ne_true, one_mul, abs_of_nonneg hratio]
  · rw [signedRatio, if_pos rfl, neg_one_mul, abs_neg, abs_of_nonneg hratio]

theorem isFinite_ofRatio_iff (negative : Bool) {num den : Nat} (hden : 0 < den) :
    (ofRatio negative num den).isFinite = true ↔ |signedRatio negative num den| < overflow := by
  have hden' : (0 : ℚ) < den := by exact_mod_cast hden
  have hone : (0 : ℚ) < unitsInOne := by exact_mod_cast unitsInOne_pos
  have hcast : ((2 ^ 54 - 1 : Nat) : ℚ) = 2 ^ 54 - 1 := by norm_num
  have hunits : num < (2 ^ 54 - 1) * 2 ^ 2044 * den ↔ (num : ℚ) < (2 ^ 54 - 1) * 2 ^ 2044 * den := by
    rw [← hcast]
    exact_mod_cast Iff.rfl
  rw [isFinite_ofRatio_iff_nearest, unitLimit_eq, Magnitude.nearest_lt_iff _ hden, abs_signedRatio,
    div_lt_iff₀ hone, overflow_mul, div_lt_iff₀ hden', hunits]

theorem isFinite_mul_iff (hx : x.isFinite = true) (hy : y.isFinite = true) :
    (x * y).isFinite = true ↔ |x.value * y.value| < overflow := by
  obtain ⟨negative, num, hvalue, heq⟩ := mul_eq hx hy
  rw [heq, isFinite_ofRatio_iff _ unitsInOne_pos, hvalue]

theorem isFinite_div_iff (hx : x.isFinite = true) (hy : y.isFinite = true) (hne : y.value ≠ 0) :
    (x / y).isFinite = true ↔ |x.value / y.value| < overflow := by
  obtain ⟨negative, num, den, hden, hvalue, heq⟩ := div_eq hx hy hne
  rw [heq, isFinite_ofRatio_iff _ hden, hvalue]

/-! ## Finite numbers -/

theorem abs_value_le (hx : x.isFinite = true) : |x.value| ≤ 2 ^ 1024 - 2 ^ 971 := by
  obtain ⟨negative, m, rfl⟩ := isFinite_iff.mp hx
  have hone : (0 : ℚ) < unitsInOne := by exact_mod_cast unitsInOne_pos
  have hcast : ((2 ^ 53 - 1 : Nat) : ℚ) = 2 ^ 53 - 1 := by norm_num
  have hunits : (m.units : ℚ) ≤ 2 ^ 2045 * (2 ^ 53 - 1) := by
    have hle : (m.units : ℚ) ≤ (2 ^ 2045 * (2 ^ 53 - 1) : Nat) := Nat.cast_le.mpr m.units_le
    rwa [Nat.cast_mul, Nat.cast_pow, Nat.cast_ofNat, hcast] at hle
  have hsplit : (2 ^ 2045 : ℚ) = 2 ^ 971 * 2 ^ 1074 := by rw [← pow_add]
  have hsplit' : (2 ^ 1024 : ℚ) = 2 ^ 53 * 2 ^ 971 := by rw [← pow_add]
  rw [value_finite, abs_signedRatio, Nat.cast_one, div_one, div_le_iff₀ hone, unitsInOne_eq_pow,
    Nat.cast_pow, Nat.cast_ofNat, hsplit']
  rw [hsplit] at hunits
  generalize (2 ^ 971 : ℚ) = a at *
  generalize (2 ^ 1074 : ℚ) = b at *
  linarith

theorem abs_value_lt_overflow (hx : x.isFinite = true) : |x.value| < overflow := by
  have hlt : (2 ^ 970 : ℚ) < 2 ^ 971 := pow_lt_pow_right₀ (by norm_num) (by norm_num)
  exact (abs_value_le hx).trans_lt (sub_lt_sub_left hlt _)

/-- No finite number is made by dividing one that is not. -/
theorem isFinite_of_div (hy : y.isFinite = true) (h : (x / y).isFinite = true) : x.isFinite = true := by
  obtain ⟨negative, m, rfl⟩ := isFinite_iff.mp hy
  cases x with
  | nan => exact h
  | infinity sign => exact h
  | finite sign n => rfl

/-- Infinity is not below a finite number, nor is any such number below its opposite. -/
theorem not_infinity_le (hx : x.isFinite = true) : ¬ infinity false ≤ x ∧ ¬ x ≤ infinity true := by
  obtain ⟨negative, m, rfl⟩ := isFinite_iff.mp hx
  have hlimit := m.lt_limit
  constructor
  · intro h
    have hle : (unitLimit : Int) ≤ signedUnits negative m := of_decide_eq_true h
    unfold signedUnits at hle
    split at hle <;> omega
  · intro h
    have hle : signedUnits negative m ≤ -(unitLimit : Int) := of_decide_eq_true h
    unfold signedUnits at hle
    split at hle <;> omega

/-- Only infinity lies above a finite number without being one. -/
theorem eq_infinity_of_lt (hx : x.isFinite = true) (h : x < y) (hy : y.isFinite = false) :
    y = infinity false := by
  obtain ⟨negative, m, rfl⟩ := isFinite_iff.mp hx
  cases y with
  | nan => cases h
  | infinity sign =>
    cases sign with
    | false => rfl
    | true =>
      have hlimit := m.lt_limit
      have hlt : signedUnits negative m < -(unitLimit : Int) := of_decide_eq_true h
      unfold signedUnits at hlt
      split at hlt <;> omega
  | finite sign k => cases hy

/-- Only finite numbers lie between finite numbers. -/
theorem isFinite_of_bounds {low high : Binary64} (hlow : low.isFinite = true) (hhigh : high.isFinite = true)
    (h : low ≤ x) (h' : x ≤ high) : x.isFinite = true := by
  cases x with
  | nan =>
    obtain ⟨negative, m, rfl⟩ := isFinite_iff.mp hlow
    cases h
  | infinity sign =>
    cases sign with
    | false => exact absurd h' (not_infinity_le hhigh).1
    | true => exact absurd h (not_infinity_le hlow).2
  | finite sign m => rfl

end Binary64

end Montage
