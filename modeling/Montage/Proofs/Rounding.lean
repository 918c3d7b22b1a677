import Mathlib.Algebra.Order.Field.Basic
import Mathlib.Algebra.Order.Ring.Abs
import Mathlib.Data.Nat.Cast.Order.Field
import Mathlib.Data.Rat.Cast.Order
import Mathlib.Tactic.FieldSimp
import Mathlib.Tactic.Linarith
import Mathlib.Tactic.NormNum
import Mathlib.Tactic.Positivity
import Mathlib.Tactic.Ring
import Montage.Number.Reader

/-!
# Rounding to binary64

Numbers of the format as rationals. Every operation rounds its exact result: what it gives differs from
it by at most one part in `2 ^ 53`, and very near zero by half a unit.

* `Binary64.value`: the rational that a finite number denotes.
* `Binary64.Rounds`: a number without a sign is near to a rational.

Results:
* `Magnitude.nearest_near`: how far rounding moves a ratio.
* `Magnitude.nearest_mul_right`, `Magnitude.nearest_self`: equal ratios are rounded alike, and a
  number of the format is not moved.
* `Binary64.add_near`, `Binary64.mul_near`, `Binary64.Rounds.add`, `Binary64.Rounds.mul`: sums and
  products.
* `Binary64.roundAway_near`: the nearest integer.
-/

namespace Montage

/-! ## Division -/

theorem roundDiv_bounds (num : Nat) {den : Nat} (h : 0 < den) :
    2 * num ≤ 2 * (roundDiv num den * den) + den ∧ 2 * (roundDiv num den * den) ≤ 2 * num + den := by
  have hdiv : num / den * den + num % den = num := Nat.div_add_mod' num den
  have hmod : num % den < den := Nat.mod_lt num h
  unfold roundDiv
  dsimp only
  split
  · omega
  · rw [Nat.add_mul, Nat.one_mul]
    omega

/-- The rounded quotient is at most a half away from the ratio. -/
theorem roundDiv_near (num : Nat) {den : Nat} (h : 0 < den) :
    |(roundDiv num den : ℚ) - num / den| ≤ 1 / 2 := by
  obtain ⟨hlow, hhigh⟩ := roundDiv_bounds num h
  have hden : (0 : ℚ) < den := by exact_mod_cast h
  have hlow' : 2 * (num : ℚ) ≤ 2 * (roundDiv num den * den) + den := by exact_mod_cast hlow
  have hhigh' : 2 * ((roundDiv num den : ℚ) * den) ≤ 2 * num + den := by exact_mod_cast hhigh
  have hmul : ((roundDiv num den : ℚ) - num / den) * den = roundDiv num den * den - num := by
    field_simp
  rw [← mul_le_mul_iff_of_pos_right hden, ← abs_of_pos hden, ← abs_mul, abs_of_pos hden, hmul,
    abs_le]
  constructor <;> linarith

/-- A ratio less than a half away from an integer is rounded to it. -/
theorem roundDiv_eq_of_near {num den n : Nat} (h : 0 < den)
    (hn : |(num : ℚ) / den - n| < 1 / 2) : roundDiv num den = n := by
  have hround := roundDiv_near num h
  rw [abs_le] at hround
  rw [abs_lt] at hn
  have hlow : (n : ℚ) < roundDiv num den + 1 := by linarith
  have hhigh : (roundDiv num den : ℚ) < n + 1 := by linarith
  have hlow' : n < roundDiv num den + 1 := by exact_mod_cast hlow
  have hhigh' : roundDiv num den < n + 1 := by exact_mod_cast hhigh
  omega

theorem roundDiv_mul_right (num den : Nat) {k : Nat} (h : 0 < k) :
    roundDiv (num * k) (den * k) = roundDiv num den := by
  have hlt : 2 * (num % den * k) < den * k ↔ 2 * (num % den) < den := by
    rw [← Nat.mul_assoc]
    exact Nat.mul_lt_mul_right h
  have heq : 2 * (num % den * k) = den * k ↔ 2 * (num % den) = den := by
    rw [← Nat.mul_assoc]
    exact Nat.mul_right_cancel_iff h
  simp only [roundDiv, Nat.mul_div_mul_right num den h, Nat.mul_mod_mul_right, hlt, heq]

/-! ## Spacing -/

theorem spacing_eq (n : Nat) : spacing n = 2 ^ (n.log2 - 52) := rfl

theorem spacing_of_lt {n : Nat} (h : n < 2 ^ 53) : spacing n = 1 := by
  have hlog : n.log2 ≤ 52 := by
    rcases Nat.eq_zero_or_pos n with rfl | hpos
    · decide
    · have := (Nat.log2_lt (Nat.ne_of_gt hpos)).mpr h
      omega
  rw [spacing_eq, Nat.sub_eq_zero_of_le hlog, Nat.pow_zero]

/-- Above `2 ^ 52` the spacing is less than one part in `2 ^ 52`. -/
theorem spacing_mul_le {n : Nat} (h : 2 ^ 52 ≤ n) : spacing n * 2 ^ 52 ≤ n := by
  have hne : n ≠ 0 := by
    rintro rfl
    exact absurd h (by decide)
  have hlog : 52 ≤ n.log2 := (Nat.le_log2 hne).mpr h
  rw [spacing_eq, ← Nat.pow_add, Nat.sub_add_cancel hlog]
  exact Nat.log2_self_le hne

theorem lt_spacing_mul (n : Nat) : n < spacing n * 2 ^ 53 := by
  refine Nat.lt_of_lt_of_le (Nat.lt_log2_self (n := n)) ?_
  rw [spacing_eq, ← Nat.pow_add]
  exact Nat.pow_le_pow_right (by decide) (by omega)

/-- Above `2 ^ 53` the spacing is twice the power of two that the number is above. -/
theorem exists_spacing {n : Nat} (h : 2 ^ 53 ≤ n) :
    ∃ j, spacing n = 2 ^ (j + 1) ∧ 2 ^ j * 2 ^ 53 ≤ n := by
  have hne : n ≠ 0 := Nat.ne_of_gt (Nat.lt_of_lt_of_le (Nat.two_pow_pos _) h)
  obtain ⟨j, hj⟩ := Nat.exists_eq_add_of_le' ((Nat.le_log2 hne).mpr h)
  refine ⟨j, ?_, ?_⟩
  · rw [spacing_eq, hj]
    rfl
  · rw [← Nat.pow_add, ← hj]
    exact Nat.log2_self_le hne

/-! ## Magnitudes -/

namespace Magnitude

/-- Half a spacing is half a unit, or less than one part in `2 ^ 53` of a large number. -/
theorem half_spacing_le (num den : Nat) :
    (spacing (num / den) : ℚ) / 2 ≤ max (1 / 2) ((num : ℚ) / den / 2 ^ 53) := by
  have hfloor : ((num / den : Nat) : ℚ) ≤ (num : ℚ) / den := Nat.cast_div_le
  rcases Nat.lt_or_ge (num / den) (2 ^ 53) with hsmall | hlarge
  · rw [spacing_of_lt hsmall]
    exact le_max_of_le_left (by norm_num)
  · have hle := spacing_mul_le (Nat.le_trans (by decide) hlarge)
    have hle' : (spacing (num / den) : ℚ) * 2 ^ 52 ≤ ((num / den : Nat) : ℚ) := by exact_mod_cast hle
    refine le_max_of_le_right ?_
    rw [le_div_iff₀ (by positivity)]
    linarith

/-- Rounding moves a ratio by at most half a unit, or one part in `2 ^ 53` if it is large. -/
theorem nearest_near (num : Nat) {den : Nat} (h : 0 < den) :
    |(nearest num den : ℚ) - (num : ℚ) / den| ≤ max (1 / 2) ((num : ℚ) / den / 2 ^ 53) := by
  have hgap := spacing_pos (num / den)
  have hround := roundDiv_near num (Nat.mul_pos h hgap)
  have hhalf := half_spacing_le num den
  unfold nearest
  dsimp only
  generalize hg : spacing (num / den) = gap at *
  have hgap' : (0 : ℚ) < gap := by exact_mod_cast hgap
  have hden : (0 : ℚ) < den := by exact_mod_cast h
  have hscale : ((roundDiv num (den * gap) * gap : Nat) : ℚ) - (num : ℚ) / den =
      ((roundDiv num (den * gap) : ℚ) - num / ((den * gap : Nat) : ℚ)) * gap := by
    push_cast
    field_simp
  rw [hscale, abs_mul, abs_of_pos hgap']
  refine le_trans ?_ hhalf
  have := mul_le_mul_of_nonneg_right hround hgap'.le
  linarith

theorem nearest_mul_right (num den : Nat) {k : Nat} (h : 0 < k) :
    nearest (num * k) (den * k) = nearest num den := by
  unfold nearest
  dsimp only
  rw [Nat.mul_div_mul_right num den h, Nat.mul_right_comm, roundDiv_mul_right _ _ h]

/-- A ratio that is nearer to a number of the format than half the spacing at the ratio is rounded
    to it. -/
theorem nearest_eq_of_near {num den units : Nat} (h : 0 < den)
    (hdvd : spacing (num / den) ∣ units)
    (hnear : |(num : ℚ) / den - units| < (spacing (num / den) : ℚ) / 2) : nearest num den = units := by
  have hgap := spacing_pos (num / den)
  unfold nearest
  dsimp only
  generalize spacing (num / den) = gap at *
  obtain ⟨k, rfl⟩ := hdvd
  have hgap' : (0 : ℚ) < gap := by exact_mod_cast hgap
  have hden : (0 : ℚ) < den := by exact_mod_cast h
  have hk : |(num : ℚ) / ((den * gap : Nat) : ℚ) - k| < 1 / 2 := by
    have hscale : ((num : ℚ) / ((den * gap : Nat) : ℚ) - k) * gap =
        (num : ℚ) / den - ((gap * k : Nat) : ℚ) := by
      push_cast
      field_simp
    rw [← mul_lt_mul_iff_of_pos_right hgap', ← abs_of_pos hgap', ← abs_mul, abs_of_pos hgap', hscale]
    linarith
  rw [roundDiv_eq_of_near (Nat.mul_pos h hgap) hk, Nat.mul_comm]

/-- A number of the format is not moved. -/
theorem nearest_self {units den : Nat} (hdvd : spacing units ∣ units) (h : 0 < den) :
    nearest (units * den) den = units := by
  have hdiv : units * den / den = units := Nat.mul_div_cancel _ h
  have hden : (den : ℚ) ≠ 0 := by exact_mod_cast h.ne'
  have hgap : (0 : ℚ) < spacing units := by exact_mod_cast spacing_pos units
  refine nearest_eq_of_near h (by rwa [hdiv]) ?_
  rw [hdiv]
  push_cast
  rw [mul_div_cancel_right₀ _ hden, sub_self, abs_zero]
  linarith

/-- A large number of the format is a multiple of a large power of two. -/
theorem two_pow_dvd (m : Magnitude) {j : Nat} (h : 2 ^ j * 2 ^ 52 ≤ m.units) : 2 ^ j ∣ m.units := by
  rw [← Nat.pow_add] at h
  have hne : m.units ≠ 0 := Nat.ne_of_gt (Nat.lt_of_lt_of_le (Nat.two_pow_pos _) h)
  have hlog : j + 52 ≤ m.units.log2 := (Nat.le_log2 hne).mpr h
  refine Nat.dvd_trans ?_ m.spacing_dvd
  rw [spacing_eq]
  exact Nat.pow_dvd_pow 2 (by omega)

/-- A large ratio that is close to a number of the format: the spacing at the ratio, twice `p`, divides
    the number. -/
theorem two_mul_dvd_of_close (m : Magnitude) {r : ℚ} {j : Nat} (hr : (2 ^ j * 2 ^ 53 : ℚ) ≤ r)
    (hclose : |r - m.units| * (2 * 10 ^ 16) ≤ m.units) : 2 ^ (j + 1) ∣ m.units := by
  have hp : (1 : ℚ) ≤ 2 ^ j := one_le_pow₀ (by norm_num)
  have hbound : (r - m.units) * (2 * 10 ^ 16) ≤ m.units :=
    le_trans (mul_le_mul_of_nonneg_right (le_abs_self _) (by norm_num)) hclose
  have hhalf : (2 ^ j * 2 ^ 52 : ℚ) ≤ m.units := by linarith
  have hhalf' : 2 ^ j * 2 ^ 52 ≤ m.units := by exact_mod_cast hhalf
  obtain ⟨c, hc⟩ := m.two_pow_dvd hhalf'
  have hc' : (m.units : ℚ) = 2 ^ j * c := by exact_mod_cast hc
  -- The number below the power of two would be a whole spacing away.
  have hfull : 2 ^ 53 ≤ c := by
    by_contra hlt
    have hpred : (c : ℚ) ≤ 2 ^ 53 - 1 := by
      have : c + 1 ≤ 2 ^ 53 := by omega
      have : (c : ℚ) + 1 ≤ 2 ^ 53 := by exact_mod_cast this
      linarith
    have hunits : (m.units : ℚ) ≤ 2 ^ j * 2 ^ 53 - 2 ^ j := by
      rw [hc']
      calc (2 ^ j * c : ℚ) ≤ 2 ^ j * (2 ^ 53 - 1) := mul_le_mul_of_nonneg_left hpred (by positivity)
        _ = 2 ^ j * 2 ^ 53 - 2 ^ j := by ring
    linarith
  refine m.two_pow_dvd ?_
  have hsplit : 2 ^ (j + 1) * 2 ^ 52 = 2 ^ j * 2 ^ 53 := by ring
  rw [hsplit, hc]
  exact Nat.mul_le_mul_left _ hfull

/-- A ratio that differs from a number of the format by at most half a part in `10 ^ 16` is rounded
    to it. -/
theorem nearest_eq_of_close (m : Magnitude) {num den : Nat} (h : 0 < den)
    (hclose : |(num : ℚ) / den - m.units| * (2 * 10 ^ 16) ≤ m.units) : nearest num den = m.units := by
  have hden : (0 : ℚ) < den := by exact_mod_cast h
  have hfloor : ((num / den : Nat) : ℚ) ≤ (num : ℚ) / den := Nat.cast_div_le
  have hceil : (num : ℚ) / den < ((num / den : Nat) : ℚ) + 1 := by
    rw [div_lt_iff₀ hden]
    have hmod : num < (num / den + 1) * den := by
      rw [Nat.mul_comm]
      exact Nat.lt_mul_div_succ num h
    exact_mod_cast hmod
  have habs : (m.units - (num : ℚ) / den) * (2 * 10 ^ 16) ≤ m.units := by
    refine le_trans (mul_le_mul_of_nonneg_right ?_ (by norm_num)) hclose
    rw [abs_sub_comm]
    exact le_abs_self _
  rcases Nat.lt_or_ge (num / den) (2 ^ 53) with hsmall | hlarge
  · refine nearest_eq_of_near h ?_ ?_
    · rw [spacing_of_lt hsmall]
      exact Nat.one_dvd _
    · have hlt : ((num / den : Nat) : ℚ) + 1 ≤ 2 ^ 53 := by exact_mod_cast hsmall
      rw [spacing_of_lt hsmall, Nat.cast_one]
      linarith
  · obtain ⟨j, hspacing, hlow⟩ := exists_spacing hlarge
    have hlow' : (2 ^ j * 2 ^ 53 : ℚ) ≤ ((num / den : Nat) : ℚ) := by exact_mod_cast hlow
    have hhigh := lt_spacing_mul (num / den)
    rw [hspacing, Nat.pow_succ] at hhigh
    have hhigh' : ((num / den : Nat) : ℚ) + 1 ≤ 2 ^ j * 2 * 2 ^ 53 := by exact_mod_cast hhigh
    refine nearest_eq_of_near h ?_ ?_
    · rw [hspacing]
      exact m.two_mul_dvd_of_close (hlow'.trans hfloor) hclose
    · rw [hspacing]
      push_cast
      rw [pow_succ]
      linarith

end Magnitude

/-! ## Numbers -/

theorem unitsInOne_pos : 0 < unitsInOne := by
  unfold unitsInOne
  apply Nat.pow_pos
  decide

theorem unitsInOne_eq_two_pow : ∃ e, unitsInOne = Nat.pow 2 e := by
  unfold unitsInOne
  exact ⟨_, rfl⟩

theorem two_pow_le_unitsInOne : 2 ^ 99 ≤ unitsInOne := by decide +kernel

theorem moderate_le_unitLimit : 2 * (10 ^ 200 * unitsInOne) ≤ unitLimit := by decide +kernel

namespace Binary64

/-- The rational that a finite number denotes. -/
def value : Binary64 → ℚ
  | finite negative m => (signedUnits negative m : ℚ) / unitsInOne
  | _ => 0

theorem isFinite_iff {x : Binary64} : x.isFinite = true ↔ ∃ negative m, x = finite negative m := by
  cases x <;> simp [isFinite]

/-- Finite numbers are compared by their values. -/
theorem lt_iff {x y : Binary64} (hx : x.isFinite = true) (hy : y.isFinite = true) :
    x < y ↔ x.value < y.value := by
  obtain ⟨a, m, rfl⟩ := isFinite_iff.mp hx
  obtain ⟨b, n, rfl⟩ := isFinite_iff.mp hy
  have hone : (0 : ℚ) < unitsInOne := by exact_mod_cast unitsInOne_pos
  have hunits : finite a m < finite b n ↔ signedUnits a m < signedUnits b n := by
    change lt _ _ = true ↔ _
    simp [lt, compareBy, order, signedUnits]
  rw [hunits, value, value, div_lt_div_iff_of_pos_right hone]
  exact_mod_cast Iff.rfl

theorem le_iff {x y : Binary64} (hx : x.isFinite = true) (hy : y.isFinite = true) :
    x ≤ y ↔ x.value ≤ y.value := by
  obtain ⟨a, m, rfl⟩ := isFinite_iff.mp hx
  obtain ⟨b, n, rfl⟩ := isFinite_iff.mp hy
  have hone : (0 : ℚ) < unitsInOne := by exact_mod_cast unitsInOne_pos
  have hunits : finite a m ≤ finite b n ↔ signedUnits a m ≤ signedUnits b n := by
    change le _ _ = true ↔ _
    simp [le, compareBy, order, signedUnits]
  rw [hunits, value, value, div_le_div_iff_of_pos_right hone]
  exact_mod_cast Iff.rfl

theorem same_iff {x y : Binary64} (hx : x.isFinite = true) (hy : y.isFinite = true) :
    x.same y = true ↔ x.value = y.value := by
  obtain ⟨a, m, rfl⟩ := isFinite_iff.mp hx
  obtain ⟨b, n, rfl⟩ := isFinite_iff.mp hy
  have hone : (unitsInOne : ℚ) ≠ 0 := by exact_mod_cast unitsInOne_pos.ne'
  have hunits : (finite a m).same (finite b n) = true ↔ signedUnits a m = signedUnits b n := by
    simp [same, compareBy, order, signedUnits]
  rw [hunits, value, value, div_left_inj' hone]
  exact_mod_cast Iff.rfl

/-- Infinity is beyond the finite numbers. -/
theorem lt_infinity {x : Binary64} (hx : x.isFinite = true) : x < infinity false := by
  obtain ⟨a, m, rfl⟩ := isFinite_iff.mp hx
  have hunits : finite a m < infinity false ↔ signedUnits a m < (unitLimit : Int) := by
    change lt _ _ = true ↔ _
    simp [lt, compareBy, order, signedUnits]
  have hlimit : (m.units : Int) < unitLimit := by exact_mod_cast m.lt_limit
  rw [hunits]
  refine lt_of_le_of_lt ?_ hlimit
  cases a
  · exact le_rfl
  · exact (Int.neg_nonpos_of_nonneg (Int.natCast_nonneg _)).trans (Int.natCast_nonneg _)

/-! ## Rounding -/

/-- How far rounding moves a number at most: one part in `2 ^ 53`, and near zero a little more. -/
def slip (r : ℚ) : ℚ := |r| / 2 ^ 53 + 1 / 2 ^ 100

theorem slip_of_nonneg {r : ℚ} (h : 0 ≤ r) : slip r = r / 2 ^ 53 + 1 / 2 ^ 100 := by
  rw [slip, abs_of_nonneg h]

/-- The ratio of a number of units, with a sign. -/
def signedRatio (negative : Bool) (num den : Nat) : ℚ :=
  (if negative then -1 else 1) * (num / den / unitsInOne)

theorem value_finite (negative : Bool) (m : Magnitude) :
    (finite negative m).value = signedRatio negative m.units 1 := by
  cases negative <;> simp [value, signedUnits, signedRatio, neg_div]

/-- What rounding gives, if the format holds it. -/
theorem ofRatio_eq {negative : Bool} {num den : Nat} (h : (ofRatio negative num den).isFinite = true) :
    ∃ m : Magnitude, m.units = Magnitude.nearest num den ∧
      ofRatio negative num den = finite negative m := by
  unfold ofRatio Magnitude.ofRatio? at *
  by_cases hlimit : Magnitude.nearest num den < unitLimit
  · exact ⟨⟨_, Magnitude.spacing_dvd_nearest num den, hlimit⟩, rfl, by simp [hlimit]⟩
  · simp [hlimit, isFinite] at h

theorem ofRatio_near {negative : Bool} {num den : Nat} (hden : 0 < den)
    (h : (ofRatio negative num den).isFinite = true) :
    |(ofRatio negative num den).value - signedRatio negative num den| ≤
      slip (signedRatio negative num den) := by
  obtain ⟨m, hunits, heq⟩ := ofRatio_eq h
  have hnear := Magnitude.nearest_near num hden
  have hone : (2 ^ 99 : ℚ) ≤ unitsInOne := by exact_mod_cast two_pow_le_unitsInOne
  have hpos : (0 : ℚ) < unitsInOne := lt_of_lt_of_le (by norm_num) hone
  have hsign : |(if negative then -1 else 1 : ℚ)| = 1 := by cases negative <;> simp
  have hratio : (0 : ℚ) ≤ (num : ℚ) / den := div_nonneg (Nat.cast_nonneg _) (Nat.cast_nonneg _)
  rw [heq, value_finite, hunits]
  unfold signedRatio slip
  rw [← mul_sub, abs_mul, abs_mul, hsign, one_mul, one_mul, Nat.cast_one, div_one, ← sub_div, abs_div,
    abs_of_pos hpos, abs_of_nonneg (div_nonneg hratio hpos.le)]
  generalize (num : ℚ) / den = r at *
  have hhalf : (1 / 2 : ℚ) / unitsInOne ≤ 1 / 2 ^ 100 := by
    rw [div_le_iff₀ hpos]
    linarith
  calc |(Magnitude.nearest num den : ℚ) - r| / unitsInOne
      ≤ (1 / 2 + r / 2 ^ 53) / unitsInOne := by
        refine div_le_div_of_nonneg_right (hnear.trans (max_le ?_ ?_)) hpos.le
        · linarith [div_nonneg hratio (by norm_num : (0 : ℚ) ≤ 2 ^ 53)]
        · linarith
    _ = r / unitsInOne / 2 ^ 53 + 1 / 2 / unitsInOne := by ring
    _ ≤ r / unitsInOne / 2 ^ 53 + 1 / 2 ^ 100 := by linarith

/-- Rounding stays in the format if the ratio is moderate. -/
theorem isFinite_ofRatio (negative : Bool) {num den : Nat} (hden : 0 < den)
    (h : (num : ℚ) / den / unitsInOne ≤ 10 ^ 200) : (ofRatio negative num den).isFinite = true := by
  have hnear := (abs_le.mp (Magnitude.nearest_near num hden)).2
  have hpos : (0 : ℚ) < unitsInOne := by exact_mod_cast unitsInOne_pos
  have hone : (1 : ℚ) ≤ unitsInOne := by exact_mod_cast unitsInOne_pos
  have hratio : (0 : ℚ) ≤ (num : ℚ) / den := div_nonneg (Nat.cast_nonneg _) (Nat.cast_nonneg _)
  have hlimit : 2 * (10 ^ 200 * (unitsInOne : ℚ)) ≤ unitLimit := by exact_mod_cast moderate_le_unitLimit
  rw [div_le_iff₀ hpos] at h
  have hlt : Magnitude.nearest num den < unitLimit := by
    generalize (num : ℚ) / den = r at *
    have hmax : max (1 / 2) (r / 2 ^ 53) ≤ 1 / 2 + r / 2 ^ 53 :=
      max_le (by linarith [div_nonneg hratio (by norm_num : (0 : ℚ) ≤ 2 ^ 53)]) (by linarith)
    have : (Magnitude.nearest num den : ℚ) < unitLimit := by linarith
    exact_mod_cast this
  unfold ofRatio Magnitude.ofRatio?
  rw [dif_pos hlt]
  rfl

/-! ## Operations -/

variable {x y : Binary64}

theorem signedRatio_of_int (n : Int) :
    signedRatio (decide (n < 0)) n.natAbs 1 = (n : ℚ) / unitsInOne := by
  have habs : ((n.natAbs : Nat) : ℚ) = |(n : ℚ)| := by rw [Nat.cast_natAbs, Int.cast_abs]
  unfold signedRatio
  rw [habs, Nat.cast_one, div_one]
  by_cases hn : n < 0
  · have hneg : (n : ℚ) < 0 := by exact_mod_cast hn
    simp only [hn, decide_true, if_true, abs_of_neg hneg]
    ring
  · have hnonneg : (0 : ℚ) ≤ n := by exact_mod_cast not_lt.mp hn
    simp only [hn, decide_false, Bool.false_eq_true, if_false, abs_of_nonneg hnonneg, one_mul]

/-- A sum is the exact one, rounded; an exact sum of zero is zero. -/
theorem add_eq (hx : x.isFinite = true) (hy : y.isFinite = true) :
    (x.value + y.value = 0 ∧ (x + y).isFinite = true ∧ (x + y).value = 0) ∨
      ∃ n : Int, x.value + y.value = (n : ℚ) / unitsInOne ∧
        x + y = ofRatio (decide (n < 0)) n.natAbs 1 := by
  obtain ⟨a, m, rfl⟩ := isFinite_iff.mp hx
  obtain ⟨b, k, rfl⟩ := isFinite_iff.mp hy
  have hvalue : (finite a m).value + (finite b k).value =
      ((signedUnits a m + signedUnits b k : Int) : ℚ) / unitsInOne := by
    rw [value, value, ← add_div]
    push_cast
    rfl
  have hadd : finite a m + finite b k = if signedUnits a m + signedUnits b k = 0 then
      finite (a && b) .zero else ofRatio (decide (signedUnits a m + signedUnits b k < 0))
        (signedUnits a m + signedUnits b k).natAbs 1 := rfl
  rw [hvalue, hadd]
  by_cases hzero : signedUnits a m + signedUnits b k = 0
  · rw [if_pos hzero, hzero]
    refine .inl ⟨by simp, rfl, ?_⟩
    cases a <;> cases b <;> simp [value, signedUnits, Magnitude.zero]
  · rw [if_neg hzero]
    exact .inr ⟨_, rfl, rfl⟩

theorem add_near (hx : x.isFinite = true) (hy : y.isFinite = true) (h : (x + y).isFinite = true) :
    |(x + y).value - (x.value + y.value)| ≤ slip (x.value + y.value) := by
  rcases add_eq hx hy with ⟨hzero, -, hvalue⟩ | ⟨n, hvalue, heq⟩
  · rw [hzero, hvalue, sub_self, abs_zero, slip_of_nonneg le_rfl]
    norm_num
  · rw [heq] at h ⊢
    rw [hvalue, ← signedRatio_of_int]
    exact ofRatio_near Nat.one_pos h

theorem isFinite_add (hx : x.isFinite = true) (hy : y.isFinite = true)
    (hle : |x.value + y.value| ≤ 10 ^ 200) : (x + y).isFinite = true := by
  rcases add_eq hx hy with ⟨-, hfinite, -⟩ | ⟨n, hvalue, heq⟩
  · exact hfinite
  · rw [heq]
    refine isFinite_ofRatio _ Nat.one_pos ?_
    have hpos : (0 : ℚ) < unitsInOne := by exact_mod_cast unitsInOne_pos
    have hratio : ((n.natAbs : Nat) : ℚ) / (1 : Nat) / unitsInOne = |x.value + y.value| := by
      rw [hvalue, Nat.cast_one, div_one, Nat.cast_natAbs, Int.cast_abs, abs_div, abs_of_pos hpos]
    exact hratio.trans_le hle

/-- A product is the exact one, rounded. -/
theorem mul_eq (hx : x.isFinite = true) (hy : y.isFinite = true) :
    ∃ negative num, signedRatio negative num unitsInOne = x.value * y.value ∧
      x * y = ofRatio negative num unitsInOne := by
  obtain ⟨a, m, rfl⟩ := isFinite_iff.mp hx
  obtain ⟨b, k, rfl⟩ := isFinite_iff.mp hy
  refine ⟨a ^^ b, m.units * k.units, ?_, rfl⟩
  rw [value_finite, value_finite, signedRatio, signedRatio, signedRatio, Nat.cast_one, Nat.cast_mul]
  cases a <;> cases b <;> norm_num <;> ring

theorem mul_near (hx : x.isFinite = true) (hy : y.isFinite = true) (h : (x * y).isFinite = true) :
    |(x * y).value - x.value * y.value| ≤ slip (x.value * y.value) := by
  obtain ⟨negative, num, hvalue, heq⟩ := mul_eq hx hy
  rw [heq] at h ⊢
  rw [← hvalue]
  exact ofRatio_near unitsInOne_pos h

/-! ### Operations without rounding -/

theorem value_neg (x : Binary64) : (-x).value = -x.value := by
  cases x with
  | nan | infinity => exact neg_zero.symm
  | finite negative m =>
    have hneg : -finite negative m = finite (!negative) m := rfl
    rw [hneg, value, value, ← neg_div]
    cases negative <;> simp [signedUnits]

theorem isFinite_neg (x : Binary64) : (-x).isFinite = x.isFinite := by cases x <;> rfl

theorem value_abs (x : Binary64) : x.abs.value = |x.value| := by
  cases x with
  | nan | infinity => exact abs_zero.symm
  | finite negative m =>
    have hpos : (0 : ℚ) < unitsInOne := by exact_mod_cast unitsInOne_pos
    rw [abs, value, value, abs_div, abs_of_pos hpos]
    cases negative <;> simp [signedUnits]

theorem isFinite_abs (x : Binary64) : x.abs.isFinite = x.isFinite := by cases x <;> rfl

/-- A sum is finite only if both numbers are. -/
theorem isFinite_of_add (h : (x + y).isFinite = true) : x.isFinite = true ∧ y.isFinite = true := by
  cases x with
  | nan => cases h
  | infinity a =>
    cases y with
    | nan => cases h
    | finite => cases h
    | infinity b =>
      have hadd : infinity a + infinity b = if a = b then infinity a else nan := rfl
      rw [hadd] at h
      split at h <;> cases h
  | finite a m =>
    cases y with
    | nan | infinity => cases h
    | finite => exact ⟨rfl, rfl⟩

theorem ofRatio_ne_nan (negative : Bool) (num den : Nat) : ofRatio negative num den ≠ nan := by
  unfold ofRatio
  cases Magnitude.ofRatio? num den <;> exact Binary64.noConfusion

/-- A finite number has a sum with every number. -/
theorem add_ne_nan (hx : x ≠ nan) (hy : y ≠ nan) (h : x.isFinite = true ∨ y.isFinite = true) :
    x + y ≠ nan := by
  cases x with
  | nan => exact absurd rfl hx
  | infinity a =>
    cases y with
    | nan => exact absurd rfl hy
    | infinity b => rcases h with h | h <;> cases h
    | finite b k => exact Binary64.noConfusion
  | finite a m =>
    cases y with
    | nan => exact absurd rfl hy
    | infinity b => exact Binary64.noConfusion
    | finite b k =>
      rcases add_eq (x := finite a m) (y := finite b k) rfl rfl with ⟨-, hfinite, -⟩ | ⟨n, -, heq⟩
      · intro hnan
        rw [hnan] at hfinite
        cases hfinite
      · rw [heq]
        exact ofRatio_ne_nan _ _ _

/-- The nearest integer is at most a half away. -/
theorem roundAway_near (hx : x.isFinite = true) : |(x.roundAway : ℚ) - x.value| ≤ 1 / 2 := by
  obtain ⟨a, m, rfl⟩ := isFinite_iff.mp hx
  have hwhole := Nat.div_add_mod (2 * m.units + unitsInOne) (2 * unitsInOne)
  have hrest := Nat.mod_lt (2 * m.units + unitsInOne) (Nat.mul_pos Nat.two_pos unitsInOne_pos)
  rw [roundAway, value_finite, signedRatio, Nat.cast_one, div_one]
  generalize (2 * m.units + unitsInOne) / (2 * unitsInOne) = whole at *
  generalize (2 * m.units + unitsInOne) % (2 * unitsInOne) = rest at *
  have hpos : (0 : ℚ) < unitsInOne := by exact_mod_cast unitsInOne_pos
  have hwhole' : 2 * (unitsInOne : ℚ) * whole + rest = 2 * m.units + unitsInOne := by
    exact_mod_cast hwhole
  have hrest' : (rest : ℚ) < 2 * unitsInOne := by exact_mod_cast hrest
  have hrest0 : (0 : ℚ) ≤ rest := Nat.cast_nonneg _
  generalize (unitsInOne : ℚ) = one at *
  have hnear : |(whole : ℚ) - m.units / one| ≤ 1 / 2 := by
    have hratio : (m.units : ℚ) / one = whole + (rest - one) / (2 * one) := by
      field_simp
      linarith
    rw [hratio, abs_le, sub_add_cancel_left, neg_le_neg_iff, div_le_iff₀ (by linarith), neg_le,
      le_div_iff₀ (by linarith)]
    constructor <;> linarith
  cases a with
  | false => simpa using hnear
  | true =>
    rw [← abs_neg] at hnear
    have hneg : -((whole : ℚ) - m.units / one) = -whole - -1 * (m.units / one) := by ring
    rw [hneg] at hnear
    simpa using hnear

/-! ## Numbers without a sign -/

/-- A finite number without a sign. -/
def IsUnsigned (x : Binary64) : Prop := ∃ m, x = finite false m

theorem IsUnsigned.isFinite (h : x.IsUnsigned) : x.isFinite = true := by
  obtain ⟨m, rfl⟩ := h
  rfl

theorem value_unsigned (m : Magnitude) : (finite false m).value = (m.units : ℚ) / unitsInOne := by
  simp [value, signedUnits]

theorem IsUnsigned.value_nonneg (h : x.IsUnsigned) : 0 ≤ x.value := by
  obtain ⟨m, rfl⟩ := h
  rw [value_unsigned]
  exact div_nonneg (Nat.cast_nonneg _) (Nat.cast_nonneg _)

/-- A finite number without a sign that a rational is rounded to. -/
structure Rounds (r : ℚ) (x : Binary64) : Prop where
  isUnsigned : x.IsUnsigned
  near : |x.value - r| ≤ slip r

theorem isUnsigned_ofRatio {num den : Nat} (h : (ofRatio false num den).isFinite = true) :
    (ofRatio false num den).IsUnsigned := by
  obtain ⟨m, -, heq⟩ := ofRatio_eq h
  exact ⟨m, heq⟩

theorem rounds_ofRatio {num den : Nat} (hden : 0 < den) (h : (num : ℚ) / den / unitsInOne ≤ 10 ^ 200) :
    Rounds ((num : ℚ) / den / unitsInOne) (ofRatio false num den) := by
  have hfinite := isFinite_ofRatio false hden h
  have hratio : signedRatio false num den = (num : ℚ) / den / unitsInOne := by simp [signedRatio]
  exact ⟨isUnsigned_ofRatio hfinite, hratio ▸ ofRatio_near hden hfinite⟩

theorem Rounds.add (hx : x.IsUnsigned) (hy : y.IsUnsigned) (h : x.value + y.value ≤ 10 ^ 200) :
    Rounds (x.value + y.value) (x + y) := by
  have hsum : 0 ≤ x.value + y.value := add_nonneg hx.value_nonneg hy.value_nonneg
  have hfinite := isFinite_add hx.isFinite hy.isFinite (by rwa [abs_of_nonneg hsum])
  refine ⟨?_, add_near hx.isFinite hy.isFinite hfinite⟩
  obtain ⟨m, rfl⟩ := hx
  obtain ⟨k, rfl⟩ := hy
  have hadd : finite false m + finite false k = if signedUnits false m + signedUnits false k = 0 then
      finite false .zero else ofRatio (decide (signedUnits false m + signedUnits false k < 0))
        (signedUnits false m + signedUnits false k).natAbs 1 := rfl
  have hnonneg : ¬ signedUnits false m + signedUnits false k < 0 := by
    simp only [signedUnits, Bool.false_eq_true, if_false]
    omega
  rw [hadd] at hfinite ⊢
  split at hfinite
  · next hzero =>
    rw [if_pos hzero]
    exact ⟨_, rfl⟩
  · next hzero =>
    rw [decide_eq_false hnonneg] at hfinite
    rw [if_neg hzero, decide_eq_false hnonneg]
    exact isUnsigned_ofRatio hfinite

theorem Rounds.mul (hx : x.IsUnsigned) (hy : y.IsUnsigned) (h : x.value * y.value ≤ 10 ^ 200) :
    Rounds (x.value * y.value) (x * y) := by
  obtain ⟨m, rfl⟩ := hx
  obtain ⟨k, rfl⟩ := hy
  have hmul : finite false m * finite false k = mul (finite false m) (finite false k) := rfl
  have hratio : (finite false m).value * (finite false k).value =
      ((m.units * k.units : Nat) : ℚ) / unitsInOne / unitsInOne := by
    rw [value_unsigned, value_unsigned]
    push_cast
    ring
  rw [hratio] at h ⊢
  rw [hmul, mul, Bool.false_xor]
  exact rounds_ofRatio unitsInOne_pos h

/-- Integers of at most 53 bits are held exactly. -/
theorem value_ofInt {n : Nat} (h : n ≤ 2 ^ 53) :
    (ofInt n).IsUnsigned ∧ (ofInt n).value = n := by
  have hone : (unitsInOne : ℚ) ≠ 0 := by exact_mod_cast unitsInOne_pos.ne'
  have hof : ofInt n = ofRatio false (n * unitsInOne) 1 := by
    have hsign : decide ((n : Int) < 0) = false := by simp
    rw [ofInt, hsign, Int.natAbs_natCast]
  have hratio : ((n * unitsInOne : Nat) : ℚ) / (1 : Nat) / unitsInOne = n := by
    push_cast
    rw [div_one, mul_div_cancel_right₀ _ hone]
  have hmoderate : (n : ℚ) ≤ 10 ^ 200 := by
    have : (n : ℚ) ≤ 2 ^ 53 := by exact_mod_cast h
    exact this.trans (by norm_num)
  have hfinite := isFinite_ofRatio false Nat.one_pos (hratio.trans_le hmoderate)
  have hdvd : spacing (n * unitsInOne) ∣ n * unitsInOne := by
    obtain ⟨e, he⟩ := unitsInOne_eq_two_pow
    rw [he]
    exact spacing_dvd_mul_two_pow e h
  have hself := Magnitude.nearest_self hdvd Nat.one_pos
  rw [Nat.mul_one] at hself
  obtain ⟨m, hunits, heq⟩ := ofRatio_eq hfinite
  rw [hof, heq, value_unsigned, hunits, hself]
  push_cast
  exact ⟨⟨m, rfl⟩, mul_div_cancel_right₀ _ hone⟩

theorem isUnsigned_zero : (0 : Binary64).IsUnsigned := (value_ofInt (n := 0) (Nat.zero_le _)).1

theorem value_zero : (0 : Binary64).value = 0 := by
  have hzero := (value_ofInt (n := 0) (Nat.zero_le _)).2
  exact_mod_cast hzero

end Binary64

end Montage
