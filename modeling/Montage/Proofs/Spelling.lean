import Montage.Proofs.Shortest

/-!
# Numbers and their texts

A text of digits with an optional fraction spells a number if the number is what it is rounded to. Such
a text is read back, and zeros in front of it change nothing. A number is written in this way if it is
zero, or neither very small nor very large; any other number has a sign, a letter or an exponent in
its text.

* `Number.Spells`: digits that spell a number.
* `Binary64.IsPlain`: the numbers that are written without sign and exponent.

Results:
* `Number.Spells.read`: digits that spell a number are read as it.
* `Binary64.spells_text`: the text of a plain number spells it.
* `Binary64.isPlain_of_text`: a text of digits and a point is that of a plain number.
-/

namespace Montage

namespace Number

/-! ## Spelling -/

/-- Digits before and behind a point spell a number: they are of moderate size and rounded to it. -/
structure Spells (whole fraction : List Char) (x : Binary64) : Prop where
  ne_nil : whole ≠ []
  whole_digits : ∀ c ∈ whole, c.isDigit = true
  fraction_digits : ∀ c ∈ fraction, c.isDigit = true
  length_le : fraction.length ≤ 250
  moderate : Decimal.ofDigits (whole ++ fraction) < 10 ^ (fraction.length + 200)
  rounded : Binary64.ofRatio false (Decimal.ofDigits (whole ++ fraction) * unitsInOne)
    (10 ^ fraction.length) = x

namespace Spells

variable {whole fraction : List Char} {x : Binary64}

theorem read (h : Spells whole fraction x) :
    Number.read (plain whole fraction) = some (⟨x, false⟩, []) := by
  rw [read_plain h.ne_nil h.whole_digits h.fraction_digits, ofDecimal_eq h.length_le h.moderate,
    h.rounded]

theorem rounds (h : Spells whole fraction x) :
    x.Rounds ((Decimal.ofDigits (whole ++ fraction) : ℚ) / 10 ^ fraction.length) := by
  have hrounds := rounds_decimal h.moderate
  rwa [h.rounded] at hrounds

/-- Zeros in front change nothing. -/
theorem zeros (h : Spells whole fraction x) (k : Nat) :
    Spells (List.replicate k '0' ++ whole) fraction x := by
  have hsame : Decimal.ofDigits (List.replicate k '0' ++ whole ++ fraction) =
      Decimal.ofDigits (whole ++ fraction) := by
    rw [List.append_assoc, Decimal.ofDigits_append, Decimal.ofDigits_zeros, Nat.mul_zero, Nat.zero_add]
  refine ⟨fun hnil => h.ne_nil (List.append_eq_nil_iff.mp hnil).2, fun c hc => ?_, h.fraction_digits,
    h.length_le, hsame ▸ h.moderate, hsame ▸ h.rounded⟩
  exact (List.mem_append.mp hc).elim Decimal.isDigit_of_mem_zeros (h.whole_digits c)

end Spells

/-- The digits of an integer spell it. -/
theorem spells_digits {n : Nat} (h : n < 10 ^ 200) : Spells (Decimal.digits n) [] (.ofInt n) where
  ne_nil := Nat.toDigits_ne_nil
  whole_digits := fun c hc => Decimal.isDigit_of_mem_digits hc
  fraction_digits := by simp
  length_le := by simp
  moderate := by simpa [Decimal.ofDigits_digits] using h
  rounded := by
    have hsign : decide ((n : Int) < 0) = false := by simp
    rw [List.append_nil, Decimal.ofDigits_digits, List.length_nil, Nat.pow_zero, Binary64.ofInt, hsign,
      Int.natAbs_natCast]

end Number

namespace Binary64

open Number (plain Spells)

/-! ## Placing the point -/

/-- Digits with their point placed are a text of digits with an optional fraction, of the same value. -/
structure Placed (digits : List Char) (place : Int) (whole fraction : List Char) : Prop where
  text : placePoint digits place = plain whole fraction
  ne_nil : whole ≠ []
  whole_digits : ∀ c ∈ whole, c.isDigit = true
  fraction_digits : ∀ c ∈ fraction, c.isDigit = true
  length_eq : fraction.length = (digits.length - place).toNat
  value_eq : (Decimal.ofDigits (whole ++ fraction) : ℚ) / 10 ^ fraction.length =
    Decimal.ofDigits digits * 10 ^ (place - digits.length)

section Placed

variable {digits : List Char} {place : Int}

theorem placed_before (hne : digits ≠ []) (hd : ∀ c ∈ digits, c.isDigit = true) (hplace : place ≤ 0) :
    Placed digits place ['0'] (List.replicate (-place).toNat '0' ++ digits) := by
  have hlength : (List.replicate (-place).toNat '0' ++ digits).length =
      (digits.length - place).toNat := by
    rw [List.length_append, List.length_replicate]
    omega
  refine ⟨?_, List.cons_ne_nil _ _, fun c => Decimal.isDigit_of_mem_zeros (k := 1), fun c hc => ?_,
    hlength, ?_⟩
  · rw [placePoint, if_pos hplace, Number.plain_of_ne_nil _ (by simp [hne])]
    rfl
  · exact (List.mem_append.mp hc).elim Decimal.isDigit_of_mem_zeros (hd c)
  · have hvalue : Decimal.ofDigits (['0'] ++ (List.replicate (-place).toNat '0' ++ digits)) =
        Decimal.ofDigits digits := by
      rw [Decimal.ofDigits_append, Decimal.ofDigits_append, Decimal.ofDigits_zeros]
      simp [Decimal.ofDigits, Decimal.digitValue]
    have hexp : place - digits.length = -((digits.length - place).toNat : Int) := by omega
    rw [hvalue, hlength, hexp, zpow_neg, zpow_natCast, div_eq_mul_inv]

theorem placed_behind (hne : digits ≠ []) (hd : ∀ c ∈ digits, c.isDigit = true) (hplace : 0 < place)
    (hlong : digits.length ≤ place.toNat) :
    Placed digits place (digits ++ List.replicate (place.toNat - digits.length) '0') [] := by
  refine ⟨?_, by simp [hne], fun c hc => ?_, by simp, ?_, ?_⟩
  · rw [placePoint, if_neg (not_le.mpr hplace), if_pos hlong, Number.plain_nil]
  · exact (List.mem_append.mp hc).elim (hd c) Decimal.isDigit_of_mem_zeros
  · rw [List.length_nil]
    omega
  · have hexp : place - digits.length = ((place.toNat - digits.length : Nat) : Int) := by omega
    rw [List.append_nil, Decimal.ofDigits_append, Decimal.ofDigits_zeros, List.length_replicate,
      hexp, zpow_natCast]
    push_cast
    simp [mul_comm]

theorem placed_between (hne : digits ≠ []) (hd : ∀ c ∈ digits, c.isDigit = true) (hplace : 0 < place)
    (hshort : ¬ digits.length ≤ place.toNat) :
    Placed digits place (digits.take place.toNat) (digits.drop place.toNat) := by
  have hdrop : digits.drop place.toNat ≠ [] := by
    rw [Ne, List.drop_eq_nil_iff]
    exact hshort
  refine ⟨?_, ?_, fun c hc => hd c (List.mem_of_mem_take hc), fun c hc => hd c (List.mem_of_mem_drop hc),
    ?_, ?_⟩
  · rw [placePoint, if_neg (not_le.mpr hplace), if_neg hshort, Number.plain_of_ne_nil _ hdrop]
  · rw [Ne, List.take_eq_nil_iff]
    rintro (hzero | hnil)
    · omega
    · exact hne hnil
  · rw [List.length_drop]
    omega
  · have hexp : place - digits.length = -((digits.length - place.toNat : Nat) : Int) := by omega
    rw [List.take_append_drop, List.length_drop, hexp, zpow_neg, zpow_natCast, div_eq_mul_inv]

/-- The point stands before the digits, behind them or between two of them. -/
theorem exists_placed (hne : digits ≠ []) (hd : ∀ c ∈ digits, c.isDigit = true) (place : Int) :
    ∃ whole fraction, Placed digits place whole fraction := by
  rcases le_or_gt place 0 with hplace | hplace
  · exact ⟨_, _, placed_before hne hd hplace⟩
  · by_cases hlong : digits.length ≤ place.toNat
    · exact ⟨_, _, placed_behind hne hd hplace hlong⟩
    · exact ⟨_, _, placed_between hne hd hplace hlong⟩

end Placed

/-- The digits of a number, without the zeros at their end. -/
def shownDigits (n : Nat) : List Char := ((Decimal.digits n).reverse.dropWhile (· = '0')).reverse

/-- The digits of a number are those that are shown, and zeros. -/
theorem exists_zeros (n : Nat) : ∃ z, Decimal.digits n = shownDigits n ++ List.replicate z '0' := by
  generalize hdigits : Decimal.digits n = digits
  refine ⟨(digits.reverse.takeWhile (· = '0')).length, ?_⟩
  have hzeros : (digits.reverse.takeWhile (· = '0')).reverse =
      List.replicate (digits.reverse.takeWhile (· = '0')).length '0' := by
    rw [List.eq_replicate_iff]
    refine ⟨List.length_reverse, fun c hc => ?_⟩
    have := List.all_eq_true.mp List.all_takeWhile c (List.mem_reverse.mp hc)
    simpa using this
  calc digits = (digits.reverse.takeWhile (· = '0') ++ digits.reverse.dropWhile (· = '0')).reverse := by
        rw [List.takeWhile_append_dropWhile, List.reverse_reverse]
    _ = (digits.reverse.dropWhile (· = '0')).reverse ++
        (digits.reverse.takeWhile (· = '0')).reverse := List.reverse_append
    _ = shownDigits n ++ List.replicate _ '0' := by rw [hzeros, shownDigits, hdigits]

/-- The shown digits of a positive number have its value, less the zeros. -/
theorem shownDigits_spec {n : Nat} (h : 0 < n) : shownDigits n ≠ [] ∧
    (∀ c ∈ shownDigits n, c.isDigit = true) ∧ ∃ z, Decimal.size n = (shownDigits n).length + z ∧
      n = 10 ^ z * Decimal.ofDigits (shownDigits n) := by
  obtain ⟨z, hz⟩ := exists_zeros n
  have hvalue : n = 10 ^ z * Decimal.ofDigits (shownDigits n) := by
    have hread := Decimal.ofDigits_digits n
    rwa [hz, Decimal.ofDigits_append, Decimal.ofDigits_zeros, List.length_replicate, Nat.add_zero,
      eq_comm] at hread
  refine ⟨fun hnil => ?_, fun c hc => ?_, z, ?_, hvalue⟩
  · rw [hnil] at hvalue
    exact absurd hvalue h.ne'
  · exact Decimal.isDigit_of_mem_digits (n := n) (by rw [hz]; exact List.mem_append_left _ hc)
  · rw [Decimal.size, hz, List.length_append, List.length_replicate]

/-! ## Plain numbers -/

theorem ofRatio_of_nearest {negative : Bool} {num den : Nat} {m : Magnitude}
    (h : Magnitude.nearest num den = m.units) :
    ofRatio negative num den = finite negative m := by
  have hlimit : Magnitude.nearest num den < unitLimit := h ▸ m.lt_limit
  unfold ofRatio Magnitude.ofRatio?
  rw [dif_pos hlimit]
  cases m
  simp only [finite.injEq, true_and, Magnitude.mk.injEq]
  exact h

/-- A number whose first digit stands in the plain range is moderate. -/
theorem moderate_of_leading {n : Nat} {e : Int} (h : e + Decimal.size n - 1 < plainLimit) :
    (n : ℚ) * 10 ^ e < 10 ^ 200 := by
  have hlt : (n : ℚ) < 10 ^ Decimal.size n := by exact_mod_cast Decimal.lt_pow_size n
  calc (n : ℚ) * 10 ^ e < 10 ^ Decimal.size n * 10 ^ e :=
        mul_lt_mul_of_pos_right hlt (by positivity)
    _ = 10 ^ (Decimal.size n + e : Int) := by rw [zpow_add₀ (by norm_num), zpow_natCast]
    _ ≤ 10 ^ (200 : Int) := by
        simp only [plainLimit] at h
        exact zpow_le_zpow_right₀ (by norm_num) (by omega)
    _ = 10 ^ 200 := zpow_natCast 10 200

/-- The shown digits, moved by the zeros that are not shown, denote the number. -/
theorem shownDigits_mul_pow {n z : Nat} (h : n = 10 ^ z * Decimal.ofDigits (shownDigits n)) (e : Int) :
    (Decimal.ofDigits (shownDigits n) : ℚ) * 10 ^ (e + z) = n * 10 ^ e := by
  have hcast : (n : ℚ) = 10 ^ z * Decimal.ofDigits (shownDigits n) := by exact_mod_cast h
  rw [hcast, zpow_add₀ (by norm_num), zpow_natCast]
  ring

/-- With the point placed behind the exponent of the first digit, the shown digits denote the number. -/
theorem Placed.number {n : Nat} {e : Int} {whole fraction : List Char} (h : 0 < n)
    (hplaced : Placed (shownDigits n) (e + Decimal.size n - 1 + 1) whole fraction) :
    (Decimal.ofDigits (whole ++ fraction) : ℚ) / 10 ^ fraction.length = n * 10 ^ e := by
  obtain ⟨-, -, z, hlength, hn⟩ := shownDigits_spec h
  have hplace : e + (Decimal.size n : Int) - 1 + 1 - (shownDigits n).length = e + z := by omega
  rw [hplaced.value_eq, hplace, shownDigits_mul_pow hn]

/-- Digits that read back spell the number, wherever their point stands in the plain range. -/
theorem spells_placePoint (m : Magnitude) {n : Nat} {e : Int} (h : Magnitude.IsShort m.units n e)
    (hlow : leastPlain ≤ e + Decimal.size n - 1) (hhigh : e + Decimal.size n - 1 < plainLimit) :
    ∃ whole fraction, placePoint (shownDigits n) (e + Decimal.size n - 1 + 1) = plain whole fraction ∧
      Spells whole fraction (finite false m) := by
  obtain ⟨hreads, count, hcount, -, hfirst, hlast⟩ := h
  rw [Magnitude.readsBack_iff] at hreads
  obtain ⟨hden, hratio⟩ := Magnitude.decimalRatio_eq n e
  have hsize : Decimal.size n ≤ 18 := by
    rw [Decimal.size_le_iff (by decide)]
    calc n ≤ 10 ^ (count + 1) := hlast
      _ < 10 ^ 18 := Nat.pow_lt_pow_right (by decide) (by omega)
  have hpos : 0 < n := Nat.lt_of_lt_of_le (Nat.pow_pos (by decide)) hfirst
  obtain ⟨hne, hdigits, z, hlength, -⟩ := shownDigits_spec hpos
  obtain ⟨whole, fraction, hplaced⟩ := exists_placed hne hdigits (e + Decimal.size n - 1 + 1)
  have hnumber := hplaced.number hpos
  have hk : fraction.length ≤ 250 := by
    have := hplaced.length_eq
    simp only [leastPlain] at hlow
    omega
  refine ⟨whole, fraction, hplaced.text, hplaced.ne_nil, hplaced.whole_digits, hplaced.fraction_digits,
    hk, ?_, ?_⟩
  · have hsmall := moderate_of_leading hhigh
    rw [← hnumber, div_lt_iff₀ (by positivity), ← pow_add, Nat.add_comm] at hsmall
    exact_mod_cast hsmall
  · refine ofRatio_of_nearest ?_
    rw [← hreads]
    refine Magnitude.nearest_congr (Nat.pow_pos (by decide)) hden ?_
    rw [hratio, ← hnumber]
    push_cast
    ring

/-- The exponent of the first of the shortest digits. -/
def leading (units : Nat) : Int :=
  (Magnitude.shortest units).2 + Decimal.size (Magnitude.shortest units).1 - 1

/-- The numbers that are written without sign and exponent. -/
def IsPlain (x : Binary64) : Prop :=
  x.IsUnsigned ∧ (x.value = 0 ∨ 1 / 10 ^ 4 ≤ x.value ∧ x.value < 10 ^ 16)

/-- The first of the shortest digits stands at the leading exponent of the number, unless they are a
    power of ten above it. -/
theorem leading_cases (m : Magnitude) (h : 0 < m.units) :
    leading m.units = Magnitude.leadingExponent m.units ∨
      leading m.units = Magnitude.leadingExponent m.units + 1 ∧
        ∀ {num den : Nat}, 0 < den →
          (num : ℚ) / den = 10 ^ (Magnitude.leadingExponent m.units + 1) * unitsInOne →
          Magnitude.nearest num den = m.units := by
  obtain ⟨hreads, count, -, hexp, hfirst, hlast⟩ := Magnitude.isShort_shortest m h
  rw [Magnitude.readsBack_iff] at hreads
  unfold leading
  generalize Magnitude.shortest m.units = short at *
  obtain ⟨n, e⟩ := short
  dsimp only at *
  obtain ⟨hden, hratio⟩ := Magnitude.decimalRatio_eq n e
  rcases Nat.lt_or_eq_of_le hlast with hlt | heq
  · left
    rw [Decimal.size_eq_of_bounds hfirst hlt, hexp]
    push_cast
    ring
  · right
    have hsize : Decimal.size n = count + 1 + 1 := by
      rw [heq]
      exact Decimal.size_eq_of_bounds Nat.le.refl (Nat.pow_lt_pow_right (by decide) (Nat.lt_succ_self _))
    refine ⟨?_, fun hden' hratio' => ?_⟩
    · rw [hsize, hexp]
      push_cast
      ring
    · rw [← hreads]
      refine Magnitude.nearest_congr hden' hden ?_
      have hplace : ((count + 1 : Nat) : Int) + e = Magnitude.leadingExponent m.units + 1 := by
        rw [hexp]
        push_cast
        ring
      have hten : (n : ℚ) * 10 ^ e = 10 ^ (Magnitude.leadingExponent m.units + 1) := by
        rw [heq, Nat.cast_pow, ← zpow_natCast, ← hplace, zpow_add₀ (by norm_num)]
        rfl
      rw [hratio, hratio', hten]

theorem least_le_nearest : unitsInOne ≤ Magnitude.nearest unitsInOne (10 ^ 4) * 10 ^ 4 := by
  decide +kernel

theorem nearest_limit : Magnitude.nearest (10 ^ 16 * unitsInOne) 1 = 10 ^ 16 * unitsInOne := by
  decide +kernel

/-- The bounds of the plain range are no numbers that are only rounded up to: a number below one of
    them does not have it as its shortest digits. -/
theorem leading_ne (m : Magnitude) (h : 0 < m.units)
    (hup : leading m.units = Magnitude.leadingExponent m.units + 1) :
    Magnitude.leadingExponent m.units ≠ -5 ∧ Magnitude.leadingExponent m.units ≠ 15 := by
  obtain ⟨-, hhigh⟩ := Magnitude.leading_bounds h
  have hpos : (0 : ℚ) < unitsInOne := by exact_mod_cast unitsInOne_pos
  have hrounded : ∀ {num den : Nat}, 0 < den →
      (num : ℚ) / den = 10 ^ (Magnitude.leadingExponent m.units + 1) * unitsInOne →
      Magnitude.nearest num den = m.units := by
    rcases leading_cases m h with hsame | ⟨-, hrounded⟩
    · rw [hsame] at hup
      exact absurd hup (by omega)
    · exact hrounded
  rw [div_lt_iff₀ hpos] at hhigh
  generalize Magnitude.leadingExponent m.units = exponent at *
  constructor
  · rintro rfl
    have hratio : (unitsInOne : ℚ) / ((10 ^ 4 : Nat) : ℚ) = 10 ^ (-5 + 1 : Int) * unitsInOne := by
      have hten : (10 : ℚ) ^ (-5 + 1 : Int) = 1 / 10 ^ 4 := by norm_num
      rw [hten]
      push_cast
      ring
    have hleast := least_le_nearest
    rw [hrounded (by decide) hratio] at hleast
    have hleast' : (unitsInOne : ℚ) ≤ m.units * 10 ^ 4 := by exact_mod_cast hleast
    rw [← hratio, lt_div_iff₀ (by norm_num)] at hhigh
    push_cast at hhigh
    exact absurd hhigh (not_lt.mpr hleast')
  · rintro rfl
    have hratio : ((10 ^ 16 * unitsInOne : Nat) : ℚ) / ((1 : Nat) : ℚ) =
        10 ^ (15 + 1 : Int) * unitsInOne := by
      have hten : (10 : ℚ) ^ (15 + 1 : Int) = 10 ^ 16 := by norm_num
      rw [hten]
      push_cast
      ring
    have hlimit := nearest_limit
    rw [hrounded Nat.one_pos hratio] at hlimit
    rw [← hratio, hlimit, Nat.cast_one, div_one] at hhigh
    exact absurd hhigh (lt_irrefl _)

/-- The first digit stands in the plain range just if the number is in it. -/
theorem leading_plain_iff (m : Magnitude) (h : 0 < m.units) :
    leastPlain ≤ leading m.units ∧ leading m.units < plainLimit ↔
      1 / 10 ^ 4 ≤ (finite false m).value ∧ (finite false m).value < 10 ^ 16 := by
  obtain ⟨hlow, hhigh⟩ := Magnitude.leading_bounds h
  have hcases : leading m.units = Magnitude.leadingExponent m.units ∨
      leading m.units = Magnitude.leadingExponent m.units + 1 ∧
        Magnitude.leadingExponent m.units ≠ -5 ∧ Magnitude.leadingExponent m.units ≠ 15 :=
    (leading_cases m h).imp_right fun hup => ⟨hup.1, leading_ne m h hup.1⟩
  rw [value_unsigned]
  generalize (m.units : ℚ) / unitsInOne = r at *
  generalize Magnitude.leadingExponent m.units = exponent at *
  generalize leading m.units = first at *
  have hleast : 1 / 10 ^ 4 ≤ r ↔ -4 ≤ exponent := by
    have hten : (1 / 10 ^ 4 : ℚ) = 10 ^ (-4 : Int) := by norm_num
    rw [hten]
    constructor
    · intro hr
      have := (zpow_lt_zpow_iff_right₀ (by norm_num : (1 : ℚ) < 10)).mp (hr.trans_lt hhigh)
      omega
    · exact fun he => (zpow_le_zpow_right₀ (by norm_num) he).trans hlow
  have hlimit : r < 10 ^ 16 ↔ exponent < 16 := by
    have hten : (10 ^ 16 : ℚ) = 10 ^ (16 : Int) := by norm_num
    rw [hten]
    constructor
    · intro hr
      exact (zpow_lt_zpow_iff_right₀ (by norm_num : (1 : ℚ) < 10)).mp (hlow.trans_lt hr)
    · exact fun he => hhigh.trans_le (zpow_le_zpow_right₀ (by norm_num) (by omega))
  rw [hleast, hlimit, leastPlain, plainLimit]
  omega

/-! ## Texts -/

theorem eq_zero_of_units {m : Magnitude} (h : m.units = 0) : finite false m = ofInt 0 := by
  have hof : ofInt 0 = ofRatio false 0 1 := by
    rw [ofInt, Int.natAbs_zero, Nat.zero_mul]
    rfl
  have hm : m = .zero := by
    obtain ⟨units, hdvd, hlt⟩ := m
    subst h
    rfl
  rw [hof, Number.ofRatio_zero Nat.one_pos, hm]

theorem units_pos_iff {m : Magnitude} : 0 < m.units ↔ (finite false m).value ≠ 0 := by
  have hone : (unitsInOne : ℚ) ≠ 0 := by exact_mod_cast unitsInOne_pos.ne'
  rw [value_unsigned, ne_eq, div_eq_zero_iff, or_iff_left hone, Nat.cast_eq_zero, Nat.pos_iff_ne_zero]

/-- The text of a positive number without a sign. -/
theorem text_toList {m : Magnitude} (h : 0 < m.units) : (finite false m).text.toList =
    if leastPlain ≤ leading m.units ∧ leading m.units < plainLimit then
      placePoint (shownDigits (Magnitude.shortest m.units).1) (leading m.units + 1)
    else withExponent (shownDigits (Magnitude.shortest m.units).1) (leading m.units) := by
  have htext : (finite false m).text.toList = magnitudeText m.units := by
    simp [text, signText, h.ne']
  rw [htext]
  unfold magnitudeText leading
  generalize Magnitude.shortest m.units = short
  obtain ⟨n, e⟩ := short
  rfl

/-- The text of a plain number spells it. -/
theorem spells_text {x : Binary64} (h : x.IsPlain) :
    ∃ whole fraction, x.text.toList = plain whole fraction ∧ Spells whole fraction x := by
  obtain ⟨⟨m, rfl⟩, hrange⟩ := h
  by_cases hpos : 0 < m.units
  · have hplain := (leading_plain_iff m hpos).mpr (hrange.resolve_left (units_pos_iff.mp hpos))
    rw [text_toList hpos, if_pos hplain]
    exact spells_placePoint m (Magnitude.isShort_shortest m hpos) hplain.1 hplain.2
  · have hzero : m.units = 0 := Nat.eq_zero_of_not_pos hpos
    refine ⟨['0'], [], ?_, ?_⟩
    · rw [text, if_pos hzero]
      rfl
    · rw [eq_zero_of_units hzero]
      exact Number.spells_digits (n := 0) (Nat.pow_pos (by decide))

/-- A text of digits and a point is that of a plain number. -/
theorem isPlain_of_text {x : Binary64} (h : ∀ c ∈ x.text.toList, c.isDigit = true ∨ c = '.') :
    x.IsPlain := by
  have absent {c : Char} (hc : c.isDigit = false ∧ c ≠ '.') : c ∉ x.text.toList := fun hmem =>
    (h c hmem).elim (fun hd => by rw [hc.1] at hd; cases hd) hc.2
  cases x with
  | nan => exact absurd (by decide) (absent (c := 'n') (by decide))
  | infinity negative => exact absurd (by cases negative <;> decide) (absent (c := 'i') (by decide))
  | finite negative m =>
    cases negative with
    | true =>
      refine absurd ?_ (absent (c := '-') (by decide))
      simp [text, signText]
    | false =>
      refine ⟨⟨m, rfl⟩, ?_⟩
      by_cases hpos : 0 < m.units
      · right
        rw [← leading_plain_iff m hpos]
        by_contra hnot
        refine absent (c := 'e') (by decide) ?_
        rw [text_toList hpos, if_neg hnot]
        simp [withExponent]
      · left
        exact not_not.mp (units_pos_iff.not.mp hpos)

end Binary64

end Montage
