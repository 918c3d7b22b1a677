import Montage.Proofs.Rounding

/-!
# Operations without rounding

Rounding does not move a rational that the format holds, so that an operation is exact whenever the format
holds its result. Half a large number, the double of a small one and the distance from one of a number
between a half and two are held.

* `Binary64.Holds`: a rational that is a number of the format.

Results:
* `Binary64.div_exact`, `Binary64.add_exact`, `Binary64.sub_exact`: results that the format holds.
* `Binary64.ofInt_exact`: whole numbers of up to 53 bits.
* `Binary64.Holds.half`, `Binary64.Holds.double`, `Binary64.Holds.sub_one`: what it holds.
-/

namespace Montage

/-- A magnitude is a significand of at most 53 bits, or the first that has 54, and a power of two. -/
theorem Magnitude.exists_significand (m : Magnitude) : ∃ k e, k ≤ 2 ^ 53 ∧ m.units = k * 2 ^ e := by
  obtain ⟨k, hk⟩ := m.spacing_dvd
  have hlt : spacing m.units * k < spacing m.units * 2 ^ 53 := hk.symm.trans_lt (lt_spacing_mul m.units)
  refine ⟨k, m.units.log2 - 52, (lt_of_mul_lt_mul_left hlt (Nat.zero_le _)).le, ?_⟩
  rw [Nat.mul_comm, ← spacing_eq]
  exact hk

theorem exists_unitsInOne_eq : ∃ e, unitsInOne = 2 ^ 53 * 2 ^ e := ⟨1021, by decide +kernel⟩

theorem unitsInOne_eq_pow : unitsInOne = 2 ^ 1074 := by decide +kernel

theorem two_mul_unitsInOne_lt : 2 * unitsInOne < unitLimit := by decide +kernel

namespace Binary64

/-! ## What the format holds -/

/-- The format holds a rational, which may have either sign. -/
def Holds (r : ℚ) : Prop := ∃ m : Magnitude, |r| * unitsInOne = m.units

variable {r : ℚ} {x y : Binary64}

theorem holds_value (hx : x.isFinite = true) : Holds x.value := by
  obtain ⟨negative, m, rfl⟩ := isFinite_iff.mp hx
  have hone : (unitsInOne : ℚ) ≠ 0 := by exact_mod_cast unitsInOne_pos.ne'
  refine ⟨m, ?_⟩
  rw [← value_abs, abs, value_unsigned, div_mul_cancel₀ _ hone]

theorem holds_of_significand {k e : Nat} (hk : k ≤ 2 ^ 53) (hlimit : k * 2 ^ e < unitLimit)
    (hr : |r| * unitsInOne = k * 2 ^ e) : Holds r :=
  ⟨⟨k * 2 ^ e, spacing_dvd_mul_two_pow e hk, hlimit⟩, by exact_mod_cast hr⟩

/-- Half a large number. -/
theorem Holds.half (h : Holds r) (hr : 2 ≤ |r|) : Holds (r / 2) := by
  obtain ⟨m, hm⟩ := h
  obtain ⟨k, e, hk, hunits⟩ := m.exists_significand
  have hlarge : 2 ^ 53 < m.units := by
    have hone : (2 ^ 99 : ℚ) ≤ unitsInOne := by exact_mod_cast two_pow_le_unitsInOne
    have hlt : (2 ^ 53 : ℚ) < |r| * unitsInOne := by nlinarith
    rw [hm] at hlt
    exact_mod_cast hlt
  cases e with
  | zero => omega
  | succ e =>
    rw [Nat.pow_succ, ← Nat.mul_assoc] at hunits
    refine holds_of_significand (k := k) (e := e) hk ?_ ?_
    · exact lt_of_le_of_lt (by omega) m.lt_limit
    · rw [abs_div, Nat.abs_ofNat, div_mul_eq_mul_div, hm, hunits]
      push_cast
      ring

/-- The double of a small number. -/
theorem Holds.double (h : Holds r) (hr : |r| ≤ 1) : Holds (r * 2) := by
  obtain ⟨m, hm⟩ := h
  obtain ⟨k, e, hk, hunits⟩ := m.exists_significand
  have hsmall : m.units ≤ unitsInOne := by
    have hle : |r| * unitsInOne ≤ 1 * unitsInOne := mul_le_mul_of_nonneg_right hr (Nat.cast_nonneg _)
    rw [hm, one_mul] at hle
    exact_mod_cast hle
  have hdouble : k * 2 ^ (e + 1) = 2 * m.units := by
    rw [hunits]
    ring
  refine holds_of_significand (e := e + 1) hk ?_ ?_
  · rw [hdouble]
    exact (Nat.mul_le_mul_left 2 hsmall).trans_lt two_mul_unitsInOne_lt
  · have hdouble' : (k : ℚ) * 2 ^ (e + 1) = 2 * m.units := by exact_mod_cast hdouble
    rw [abs_mul, Nat.abs_ofNat, mul_right_comm, hm, hdouble', mul_comm]

/-- The distance from one of a number between a half and two: both are multiples of the spacing below
    one, and there are few multiples between them. -/
theorem Holds.sub_one (h : Holds r) (hlow : 1 / 2 ≤ r) (hhigh : r ≤ 2) : Holds (r - 1) := by
  obtain ⟨m, hm⟩ := h
  obtain ⟨e, hone⟩ := exists_unitsInOne_eq
  have hone' : (unitsInOne : ℚ) = 2 ^ 53 * 2 ^ e := by exact_mod_cast hone
  have hpow : (0 : ℚ) < 2 ^ e := by positivity
  rw [abs_of_nonneg (by linarith)] at hm
  have hlarge : 2 ^ e * 2 ^ 52 ≤ m.units := by
    have hle : (2 ^ e * 2 ^ 52 : ℚ) ≤ m.units := by
      rw [← hm, hone']
      nlinarith
    exact_mod_cast hle
  obtain ⟨k, hk⟩ := m.two_pow_dvd hlarge
  have hk' : r = k / 2 ^ 53 := by
    rw [hk, hone'] at hm
    push_cast at hm
    field_simp
    nlinarith
  have hupper : k ≤ 2 ^ 54 := by
    have hle : (k : ℚ) ≤ 2 ^ 54 := by
      rw [hk', div_le_iff₀ (by norm_num)] at hhigh
      linarith
    exact_mod_cast hle
  have hoffset : r - 1 = (((k : Int) - 2 ^ 53 : Int) : ℚ) / 2 ^ 53 := by
    rw [hk']
    push_cast
    ring
  have hdistance : |r - 1| * unitsInOne = ((k : Int) - 2 ^ 53).natAbs * 2 ^ e := by
    rw [hone', Nat.cast_natAbs, Int.cast_abs, hoffset, abs_div, abs_of_pos (by norm_num : (0 : ℚ) < 2 ^ 53)]
    ring
  refine holds_of_significand (by omega) ?_ hdistance
  have hle : ((k : Int) - 2 ^ 53).natAbs * 2 ^ e ≤ unitsInOne := by
    rw [hone]
    exact Nat.mul_le_mul_right _ (by omega)
  exact hle.trans_lt (by have := two_mul_unitsInOne_lt; omega)

/-- Whole numbers of up to 53 bits. -/
theorem holds_intCast {n : Int} (h : n.natAbs ≤ 2 ^ 53) : Holds n := by
  have hlimit : 2 ^ 53 * 2 ^ 1074 < unitLimit := by decide +kernel
  refine holds_of_significand (e := 1074) h
    (Nat.lt_of_le_of_lt (Nat.mul_le_mul_right _ h) hlimit) ?_
  rw [unitsInOne_eq_pow, Nat.cast_natAbs, Int.cast_abs, Nat.cast_pow, Nat.cast_ofNat]

/-! ## Exact operations -/

/-- Rounding does not move what the format holds. -/
theorem ofRatio_exact {negative : Bool} {num den : Nat} (hden : 0 < den)
    (h : Holds (signedRatio negative num den)) : (ofRatio negative num den).isFinite = true ∧
      (ofRatio negative num den).value = signedRatio negative num den := by
  obtain ⟨m, hm⟩ := h
  have hone : (0 : ℚ) < unitsInOne := by exact_mod_cast unitsInOne_pos
  have hden' : (0 : ℚ) < den := by exact_mod_cast hden
  have hsign : |(if negative then -1 else 1 : ℚ)| = 1 := by cases negative <;> simp
  have hnum : num = m.units * den := by
    have hratio : (num : ℚ) / den / unitsInOne * unitsInOne = m.units := by
      rw [← hm, signedRatio, abs_mul, hsign, one_mul, abs_of_nonneg (by positivity)]
    rw [div_mul_cancel₀ _ hone.ne', div_eq_iff hden'.ne'] at hratio
    exact_mod_cast hratio
  have hself := Magnitude.nearest_self m.spacing_dvd hden
  have hof : ofRatio negative num den = finite negative m := by
    unfold ofRatio Magnitude.ofRatio?
    rw [dif_pos (by rw [hnum, hself]; exact m.lt_limit)]
    simp [hnum, hself]
  rw [hof, value_finite, signedRatio, signedRatio, hnum]
  refine ⟨rfl, ?_⟩
  push_cast
  rw [div_one, mul_div_cancel_right₀ _ hden'.ne']

/-- Whole numbers of up to 53 bits are not rounded. -/
theorem ofInt_exact {n : Int} (h : n.natAbs ≤ 2 ^ 53) :
    (ofInt n).isFinite = true ∧ (ofInt n).value = n := by
  have hone : (unitsInOne : ℚ) ≠ 0 := by exact_mod_cast unitsInOne_pos.ne'
  have hscale : signedRatio (decide (n < 0)) (n.natAbs * unitsInOne) 1 =
      signedRatio (decide (n < 0)) n.natAbs 1 * unitsInOne := by
    rw [signedRatio, signedRatio, Nat.cast_mul]
    ring
  have hratio : signedRatio (decide (n < 0)) (n.natAbs * unitsInOne) 1 = n := by
    rw [hscale, signedRatio_of_int, div_mul_cancel₀ _ hone]
  have hholds : Holds (signedRatio (decide (n < 0)) (n.natAbs * unitsInOne) 1) := by
    rw [hratio]
    exact holds_intCast h
  have hexact := ofRatio_exact Nat.one_pos hholds
  rwa [hratio] at hexact

/-- A quotient is the exact one, rounded. -/
theorem div_eq (hx : x.isFinite = true) (hy : y.isFinite = true) (hne : y.value ≠ 0) :
    ∃ negative num den, 0 < den ∧ signedRatio negative num den = x.value / y.value ∧
      x / y = ofRatio negative num den := by
  obtain ⟨a, m, rfl⟩ := isFinite_iff.mp hx
  obtain ⟨b, k, rfl⟩ := isFinite_iff.mp hy
  have hone : (unitsInOne : ℚ) ≠ 0 := by exact_mod_cast unitsInOne_pos.ne'
  have hk : k.units ≠ 0 := by
    intro hzero
    rw [value_finite, signedRatio, hzero] at hne
    simp at hne
  have hk' : (k.units : ℚ) ≠ 0 := by exact_mod_cast hk
  refine ⟨a ^^ b, m.units * unitsInOne, k.units, Nat.pos_of_ne_zero hk, ?_, if_neg hk⟩
  rw [value_finite, value_finite, signedRatio, signedRatio, signedRatio, Nat.cast_one, Nat.cast_mul]
  cases a <;> cases b <;> field_simp <;> simp

/-- A quotient that the format holds. -/
theorem div_exact (hx : x.isFinite = true) (hy : y.isFinite = true) (hne : y.value ≠ 0)
    (h : Holds (x.value / y.value)) : (x / y).isFinite = true ∧ (x / y).value = x.value / y.value := by
  obtain ⟨negative, num, den, hden, hvalue, heq⟩ := div_eq hx hy hne
  rw [← hvalue] at h
  rw [heq, ← hvalue]
  exact ofRatio_exact hden h

/-- A sum that the format holds. -/
theorem add_exact (hx : x.isFinite = true) (hy : y.isFinite = true) (h : Holds (x.value + y.value)) :
    (x + y).isFinite = true ∧ (x + y).value = x.value + y.value := by
  rcases add_eq hx hy with ⟨hzero, hfinite, hvalue⟩ | ⟨n, hvalue, heq⟩
  · exact ⟨hfinite, hvalue.trans hzero.symm⟩
  · rw [hvalue, ← signedRatio_of_int] at h
    rw [hvalue, ← signedRatio_of_int, heq]
    exact ofRatio_exact Nat.one_pos h

/-- A difference that the format holds. -/
theorem sub_exact (hx : x.isFinite = true) (hy : y.isFinite = true) (h : Holds (x.value - y.value)) :
    (x - y).isFinite = true ∧ (x - y).value = x.value - y.value := by
  have hsum := add_exact hx ((isFinite_neg y).trans hy) (by rwa [value_neg, ← sub_eq_add_neg])
  rwa [value_neg, ← sub_eq_add_neg] at hsum

end Binary64

end Montage
