import Montage.Proofs.Spelling

/-!
# Numbers, read back from their texts

The text of a number is read to its end and as the number: not-a-number and the infinities are words, and
a finite number has digits with a point or an exponent, which denote a decimal number that is rounded to
it.

* `Number.ReadsAs`: a text is read to its end as a number.

Results:
* `Number.value_ofDecimal`: a decimal number of any size that the format spans is a ratio, rounded.
* `Binary64.exists_numeral`: the digits of a finite number and what they denote.
* `Binary64.readsAs_text`: every number is read back from its text.
-/

namespace Montage

theorem unitsInOne_lt_pow : unitsInOne < 10 ^ 330 := by decide +kernel

theorem unitLimit_le_pow : unitLimit ≤ 10 ^ 330 * unitsInOne := by decide +kernel

/-- The format spans fewer than 400 powers of ten on either side of one. -/
theorem Magnitude.leadingExponent_bounds (m : Magnitude) :
    -330 ≤ leadingExponent m.units ∧ leadingExponent m.units < 330 := by
  unfold leadingExponent
  by_cases hone : unitsInOne ≤ m.units
  · have hlt : m.units / unitsInOne < 10 ^ 330 :=
      (Nat.div_lt_iff_lt_mul unitsInOne_pos).mpr (m.lt_limit.trans_le unitLimit_le_pow)
    have hsize := (Decimal.size_le_iff (by decide)).mpr hlt
    have hpos := Decimal.size_pos (m.units / unitsInOne)
    rw [if_pos hone]
    omega
  · have hlt : (unitsInOne - 1) / m.units < 10 ^ 330 :=
      (Nat.div_le_self _ _).trans_lt ((Nat.sub_le _ _).trans_lt unitsInOne_lt_pow)
    have hsize := (Decimal.size_le_iff (by decide)).mpr hlt
    have hpos := Decimal.size_pos ((unitsInOne - 1) / m.units)
    rw [if_neg hone]
    omega

namespace Number

/-- A text is read to its end as a number. -/
def ReadsAs (text : String) (x : Binary64) : Prop :=
  ∃ r, read text.toList = some (r, []) ∧ r.value = x

/-- A decimal number of a size that the format spans is a ratio that is rounded once. -/
theorem value_ofDecimal {negative : Bool} {n : Nat} {e : Int} (hn : 0 < n)
    (hlow : -400 ≤ e + Decimal.size n) (hhigh : e + Decimal.size n ≤ 400) :
    (ofDecimal negative n e).value =
      .ofRatio negative (Magnitude.decimalRatio n e).1 (Magnitude.decimalRatio n e).2 := by
  unfold ofDecimal ofScientific Magnitude.decimalRatio
  rw [if_neg hn.ne', if_neg (by omega), if_neg (by omega)]
  split <;> rfl

/-- Digits with an exponent lie between the powers of ten that the digits lie between, moved by it. -/
theorem scaled_bounds {n a b : Nat} (hlow : 10 ^ a ≤ n) (hhigh : n ≤ 10 ^ b) (e : Int) :
    (10 : ℚ) ^ (a + e : Int) ≤ n * 10 ^ e ∧ (n : ℚ) * 10 ^ e ≤ 10 ^ (b + e : Int) := by
  have hten : (0 : ℚ) ≤ 10 ^ e := by positivity
  have hlow' : (10 : ℚ) ^ a ≤ n := by exact_mod_cast hlow
  have hhigh' : (n : ℚ) ≤ 10 ^ b := by exact_mod_cast hhigh
  rw [zpow_add₀ (by norm_num), zpow_add₀ (by norm_num), zpow_natCast, zpow_natCast]
  exact ⟨mul_le_mul_of_nonneg_right hlow' hten, mul_le_mul_of_nonneg_right hhigh' hten⟩

/-- Digits that denote what the shortest digits of a number denote are read as the number. -/
theorem value_of_isShort {negative : Bool} {m : Magnitude} {n k : Nat} {e f : Int}
    (hshort : Magnitude.IsShort m.units n e) (heq : (k : ℚ) * 10 ^ f = n * 10 ^ e) :
    (ofDecimal negative k f).value = .finite negative m := by
  obtain ⟨hreads, count, hcount, hexp, hfirst, hlast⟩ := hshort
  rw [Magnitude.readsBack_iff] at hreads
  have hbounds := m.leadingExponent_bounds
  generalize Magnitude.leadingExponent m.units = leading at *
  obtain ⟨hlow, hhigh⟩ := scaled_bounds hfirst hlast e
  have hk : 0 < k := by
    have hpos : (0 : ℚ) < k * 10 ^ f := by
      rw [heq]
      exact lt_of_lt_of_le (by positivity) hlow
    have hk' : (0 : ℚ) < k := pos_of_mul_pos_left hpos (by positivity)
    exact_mod_cast hk'
  obtain ⟨j, hsize, hfirst', hlast'⟩ := Decimal.exists_size hk
  obtain ⟨hlow', hhigh'⟩ := scaled_bounds hfirst' hlast'.le f
  rw [heq] at hlow' hhigh'
  -- Both kinds of digits lie between neighbouring powers of ten.
  have hupper := (zpow_le_zpow_iff_right₀ (by norm_num : (1 : ℚ) < 10)).mp (hlow'.trans hhigh)
  have hlower := (zpow_le_zpow_iff_right₀ (by norm_num : (1 : ℚ) < 10)).mp (hlow.trans hhigh')
  rw [value_ofDecimal hk (by omega) (by omega)]
  refine Binary64.ofRatio_of_nearest ?_
  obtain ⟨hden, hratio⟩ := Magnitude.decimalRatio_eq n e
  obtain ⟨hden', hratio'⟩ := Magnitude.decimalRatio_eq k f
  rw [← hreads]
  refine Magnitude.nearest_congr hden' hden ?_
  rw [hratio, hratio', heq]

end Number

namespace Binary64

open Number (plain exponentText ReadsAs)

/-! ## Texts -/

/-- Digits with an exponent have the point behind the first of them. -/
theorem withExponent_cons (first : Char) (rest : List Char) (e : Int) :
    withExponent (first :: rest) e = plain [first] rest ++ exponentText (some e) := by
  cases rest <;> simp [withExponent, plain, exponentText, Decimal.size]

/-- What the digits of a finite number denote: the number when they are read with either sign. -/
structure Numeral (m : Magnitude) (whole fraction : List Char) (e : Option Int) : Prop where
  ne_nil : whole ≠ []
  whole_digits : ∀ c ∈ whole, c.isDigit = true
  fraction_digits : ∀ c ∈ fraction, c.isDigit = true
  text : (finite false m).text.toList = plain whole fraction ++ exponentText e
  value (negative : Bool) : (Number.ofDecimal negative (Decimal.ofDigits (whole ++ fraction))
    (e.getD 0 - fraction.length)).value = finite negative m

theorem exists_numeral (m : Magnitude) : ∃ whole fraction e, Numeral m whole fraction e := by
  by_cases hpos : 0 < m.units
  · have hshort := Magnitude.isShort_shortest m hpos
    have htext := text_toList hpos
    unfold leading at htext
    generalize Magnitude.shortest m.units = short at *
    obtain ⟨n, e⟩ := short
    dsimp only at hshort htext
    have hn : 0 < n := by
      obtain ⟨-, count, -, -, hfirst, -⟩ := hshort
      exact Nat.lt_of_lt_of_le (Nat.pow_pos (by decide)) hfirst
    obtain ⟨hne, hdigits, z, hlength, hvalue⟩ := shownDigits_spec hn
    have hzeros := shownDigits_mul_pow hvalue e
    split at htext
    · obtain ⟨whole, fraction, hplaced⟩ := exists_placed hne hdigits (e + Decimal.size n - 1 + 1)
      refine ⟨whole, fraction, none, hplaced.ne_nil, hplaced.whole_digits, hplaced.fraction_digits, ?_,
        fun negative => Number.value_of_isShort hshort ?_⟩
      · rw [htext, hplaced.text, exponentText, List.append_nil]
      · rw [Option.getD_none, Int.zero_sub, zpow_neg, zpow_natCast, ← div_eq_mul_inv, hplaced.number hn]
    · generalize shownDigits n = digits at *
      obtain ⟨first, rest, rfl⟩ := List.exists_cons_of_ne_nil hne
      refine ⟨[first], rest, some (e + Decimal.size n - 1), List.cons_ne_nil _ _, ?_, ?_, ?_,
        fun negative => Number.value_of_isShort hshort ?_⟩
      · exact fun c hc => hdigits c (List.mem_singleton.mp hc ▸ List.mem_cons_self)
      · exact fun c hc => hdigits c (List.mem_cons_of_mem _ hc)
      · rw [htext, withExponent_cons]
      · rw [List.length_cons] at hlength
        have hexp : e + (Decimal.size n : Int) - 1 - rest.length = e + z := by omega
        rw [Option.getD_some, hexp, ← hzeros]
        rfl
  · have hzero : m.units = 0 := Nat.eq_zero_of_not_pos hpos
    have hm : m = .zero := by
      obtain ⟨units, hdvd, hlt⟩ := m
      subst hzero
      rfl
    subst hm
    exact ⟨['0'], [], none, List.cons_ne_nil _ _, fun _ => Decimal.isDigit_of_mem_zeros (k := 1), by simp, rfl,
      fun _ => rfl⟩

theorem text_signed (negative : Bool) (m : Magnitude) :
    (finite negative m).text.toList = signText negative ++ (finite false m).text.toList := by
  simp [text, signText]

/-- Every number is read back from its text. -/
theorem readsAs_text (x : Binary64) : ReadsAs x.text x := by
  cases x with
  | nan => exact ⟨_, rfl, rfl⟩
  | infinity negative => cases negative <;> exact ⟨_, rfl, rfl⟩
  | finite negative m =>
    obtain ⟨whole, fraction, e, hnumeral⟩ := exists_numeral m
    refine ⟨_, ?_, hnumeral.value negative⟩
    rw [text_signed, hnumeral.text]
    exact Number.read_numeral negative hnumeral.ne_nil hnumeral.whole_digits hnumeral.fraction_digits e

end Binary64

end Montage
