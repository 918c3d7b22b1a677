import Mathlib.Algebra.Order.Field.Power
import Montage.Number.Printer
import Montage.Proofs.Reading

/-!
# The shortest digits

The text of a number has the fewest digits that read back. There always are such digits: seventeen are
enough, since the nearest number with seventeen digits is closer than half the distance to any other
number of the format.

* `Magnitude.IsShort`: digits that read back and stand on the grid of a count of digits.

Results:
* `Magnitude.leading_bounds`: the exponent of the first digit.
* `Magnitude.readsBack_of_seventeen`: the nearest number with seventeen digits reads back.
* `Magnitude.isShort_shortest`: the shortest digits read back.
-/

namespace Montage

namespace Magnitude

/-! ## Decimal numbers in units -/

theorem decimalRatio_eq (d : Nat) (e : Int) : 0 < (decimalRatio d e).2 ∧
    ((decimalRatio d e).1 : ℚ) / (decimalRatio d e).2 = (d : ℚ) * 10 ^ e * unitsInOne := by
  unfold decimalRatio
  by_cases he : 0 ≤ e
  · obtain ⟨k, rfl⟩ := Int.eq_ofNat_of_zero_le he
    rw [if_pos he]
    refine ⟨Nat.one_pos, ?_⟩
    rw [Int.toNat_natCast, zpow_natCast, Nat.cast_one, div_one, Nat.pow_eq]
    push_cast
    rfl
  · obtain ⟨k, hk⟩ := Int.eq_ofNat_of_zero_le (show 0 ≤ -e by omega)
    obtain rfl : e = -(k : Int) := by omega
    rw [if_neg he, neg_neg, Int.toNat_natCast]
    refine ⟨Nat.pow_pos (by decide), ?_⟩
    rw [zpow_neg, zpow_natCast, Nat.pow_eq]
    push_cast
    field_simp

/-- Equal ratios are rounded alike. -/
theorem nearest_congr {num den num' den' : Nat} (h : 0 < den) (h' : 0 < den')
    (heq : (num : ℚ) / den = num' / den') : nearest num den = nearest num' den' := by
  have hden : (den : ℚ) ≠ 0 := by exact_mod_cast h.ne'
  have hden' : (den' : ℚ) ≠ 0 := by exact_mod_cast h'.ne'
  rw [div_eq_div_iff hden hden'] at heq
  have hcross : num * den' = num' * den := by exact_mod_cast heq
  rw [← nearest_mul_right num den h', ← nearest_mul_right num' den' h, hcross, Nat.mul_comm den]

/-- The exponent of the first digit says how large the number is. -/
theorem leading_bounds {units : Nat} (h : 0 < units) :
    (10 : ℚ) ^ leadingExponent units ≤ (units : ℚ) / unitsInOne ∧
      (units : ℚ) / unitsInOne < 10 ^ (leadingExponent units + 1) := by
  have hpos : (0 : ℚ) < unitsInOne := by exact_mod_cast unitsInOne_pos
  unfold leadingExponent
  by_cases hone : unitsInOne ≤ units
  · obtain ⟨s, hs, hlow, hhigh⟩ := Decimal.exists_size (Nat.div_pos hone unitsInOne_pos)
    rw [if_pos hone, hs]
    have hexp : ((s + 1 : Nat) : Int) - 1 = s := by omega
    rw [hexp, zpow_natCast, le_div_iff₀ hpos, div_lt_iff₀ hpos]
    constructor
    · have := (Nat.le_div_iff_mul_le unitsInOne_pos).mp hlow
      exact_mod_cast this
    · have := (Nat.div_lt_iff_lt_mul unitsInOne_pos).mp hhigh
      exact_mod_cast this
  · have hquot : 0 < (unitsInOne - 1) / units := Nat.div_pos (by omega) h
    obtain ⟨s, hs, hlow, hhigh⟩ := Decimal.exists_size hquot
    rw [if_neg hone, hs]
    have hexp : -((s + 1 : Nat) : Int) + 1 = -(s : Int) := by omega
    rw [hexp, zpow_neg, zpow_neg, zpow_natCast, zpow_natCast, le_div_iff₀ hpos, div_lt_iff₀ hpos,
      inv_mul_le_iff₀ (by positivity), lt_inv_mul_iff₀ (by positivity)]
    constructor
    · have := (Nat.div_lt_iff_lt_mul h).mp hhigh
      have hle : unitsInOne ≤ 10 ^ (s + 1) * units := by omega
      exact_mod_cast hle
    · have := (Nat.le_div_iff_mul_le h).mp hlow
      have hlt : 10 ^ s * units < unitsInOne := by
        have := unitsInOne_pos
        omega
      exact_mod_cast hlt

/-! ## The grid -/

/-- The place of a count of units on a decimal grid. -/
def gridPlace (units : Nat) (e : Int) : ℚ := (units : ℚ) / unitsInOne / 10 ^ e

/-- The decimal numbers next to a count of units: the nearer one comes first. -/
theorem onGrid_eq (units : Nat) (e : Int) : ∃ low : Nat, (low : ℚ) ≤ gridPlace units e ∧
    gridPlace units e < low + 1 ∧
    (onGrid units e = [low, low + 1] ∨ onGrid units e = [low + 1, low]) ∧
    ∃ first ∈ onGrid units e, |(first : ℚ) - gridPlace units e| ≤ 1 / 2 := by
  obtain ⟨hden, hstep⟩ := decimalRatio_eq 1 e
  unfold onGrid
  dsimp only
  generalize decimalRatio 1 e = step at *
  obtain ⟨stepNum, stepDen⟩ := step
  dsimp only at *
  have hden' : (0 : ℚ) < stepDen := by exact_mod_cast hden
  have hone : (0 : ℚ) < unitsInOne := by exact_mod_cast unitsInOne_pos
  have hten : (0 : ℚ) < 10 ^ e := by positivity
  rw [Nat.cast_one, one_mul, div_eq_iff hden'.ne'] at hstep
  have hnum' : (0 : ℚ) < stepNum := by
    rw [hstep]
    exact mul_pos (mul_pos hten hone) hden'
  have hnum : 0 < stepNum := by exact_mod_cast hnum'
  have hplace : gridPlace units e = ((units * stepDen : Nat) : ℚ) / stepNum := by
    rw [gridPlace, hstep]
    push_cast
    field_simp
  have hnear := roundDiv_near (units * stepDen) hnum
  have hlow := le_roundDiv (units * stepDen) stepNum
  have hhigh := roundDiv_le (units * stepDen) stepNum
  rw [← hplace] at hnear
  refine ⟨units * stepDen / stepNum, hplace ▸ Nat.cast_div_le, ?_, ?_, ?_⟩
  · rw [hplace, div_lt_iff₀ hnum']
    have := Nat.lt_mul_div_succ (units * stepDen) hnum
    rw [Nat.mul_comm stepNum] at this
    exact_mod_cast this
  · split
    · exact .inl rfl
    · exact .inr rfl
  · refine ⟨roundDiv (units * stepDen) stepNum, ?_, hnear⟩
    by_cases heq : roundDiv (units * stepDen) stepNum = units * stepDen / stepNum
    · rw [if_pos heq, heq]
      exact List.mem_cons_self
    · rw [if_neg heq]
      have : roundDiv (units * stepDen) stepNum = units * stepDen / stepNum + 1 := by omega
      rw [this]
      exact List.mem_cons_self

theorem readsBack_iff {units d : Nat} {e : Int} : readsBack units d e = true ↔
    nearest (decimalRatio d e).1 (decimalRatio d e).2 = units := by
  unfold readsBack
  exact beq_iff_eq

/-- A number with seventeen digits that is nearest reads back. -/
theorem readsBack_of_seventeen (m : Magnitude) (h : 0 < m.units) {d : Nat}
    (hd : |(d : ℚ) - gridPlace m.units (leadingExponent m.units - 16)| ≤ 1 / 2) :
    readsBack m.units d (leadingExponent m.units - 16) = true := by
  obtain ⟨hlow, -⟩ := leading_bounds h
  generalize leadingExponent m.units = leading at *
  obtain ⟨hden, hratio⟩ := decimalRatio_eq d (leading - 16)
  have hone : (0 : ℚ) < unitsInOne := by exact_mod_cast unitsInOne_pos
  have hten : (0 : ℚ) < 10 ^ (leading - 16) := by positivity
  rw [readsBack_iff]
  refine m.nearest_eq_of_close hden ?_
  rw [hratio]
  have hdist : (d : ℚ) * 10 ^ (leading - 16) * unitsInOne - m.units =
      (d - gridPlace m.units (leading - 16)) * (10 ^ (leading - 16) * unitsInOne) := by
    rw [gridPlace, div_div, mul_comm (unitsInOne : ℚ), sub_mul,
      div_mul_cancel₀ _ (mul_pos hten hone).ne', mul_assoc]
  have hsplit : (10 : ℚ) ^ leading = 10 ^ (leading - 16) * 10 ^ 16 := by
    have hexp : leading = leading - 16 + ((16 : Nat) : Int) := by clear * -; omega
    rw [← zpow_natCast, ← zpow_add₀ (by norm_num), ← hexp]
  rw [le_div_iff₀ hone, hsplit] at hlow
  rw [hdist, abs_mul, abs_of_pos (mul_pos hten hone)]
  have hscaled := mul_le_mul_of_nonneg_right hd (mul_pos hten hone).le
  rw [mul_right_comm] at hlow
  generalize |(d : ℚ) - gridPlace m.units (leading - 16)| * (10 ^ (leading - 16) * unitsInOne) =
    distance at *
  linarith

/-! ## The shortest digits -/

/-- Digits that read back: at most seventeen of them, the first at the leading exponent. They stand
    next to the number, so that they may be a power of ten with one more digit. -/
structure IsShort (units d : Nat) (e : Int) : Prop where
  readsBack : readsBack units d e = true
  exists_count : ∃ count : Nat, count < 17 ∧ e = leadingExponent units - count ∧
    10 ^ count ≤ d ∧ d ≤ 10 ^ (count + 1)

theorem mem_onGrid_bounds {units d count : Nat} (h : 0 < units)
    (hd : d ∈ onGrid units (leadingExponent units - count)) :
    10 ^ count ≤ d ∧ d ≤ 10 ^ (count + 1) := by
  obtain ⟨hlow, hhigh⟩ := leading_bounds h
  obtain ⟨low, hle, hlt, hgrid, -⟩ := onGrid_eq units (leadingExponent units - count)
  generalize leadingExponent units = leading at *
  have hten : (0 : ℚ) < 10 ^ (leading - count : Int) := by positivity
  have hplace : gridPlace units (leading - count) * 10 ^ (leading - count : Int) =
      (units : ℚ) / unitsInOne := by
    rw [gridPlace, div_mul_cancel₀ _ hten.ne']
  have hfirst : (10 : ℚ) ^ count ≤ gridPlace units (leading - count) := by
    rw [← mul_le_mul_iff_of_pos_right hten, hplace, ← zpow_natCast, ← zpow_add₀ (by norm_num)]
    simpa using hlow
  have hlast : gridPlace units (leading - count) < (10 : ℚ) ^ (count + 1) := by
    rw [← mul_lt_mul_iff_of_pos_right hten, hplace, ← zpow_natCast, ← zpow_add₀ (by norm_num)]
    have hexp : ((count + 1 : Nat) : Int) + (leading - count) = leading + 1 := by omega
    rw [hexp]
    exact hhigh
  have hlow' : 10 ^ count < low + 1 := by
    have : (10 : ℚ) ^ count < low + 1 := hfirst.trans_lt hlt
    exact_mod_cast this
  have hhigh' : low < 10 ^ (count + 1) := by
    have : (low : ℚ) < 10 ^ (count + 1) := hle.trans_lt hlast
    exact_mod_cast this
  rcases hgrid with hgrid | hgrid
  all_goals
    rw [hgrid] at hd
    simp only [List.mem_cons, List.not_mem_nil, or_false] at hd
    omega

theorem isShort_of_withDigits? {units count d : Nat} {e : Int} (h : 0 < units) (hcount : count < 17)
    (hd : withDigits? units (count + 1) = some (d, e)) : IsShort units d e := by
  have hexp : leadingExponent units - (((count + 1 : Nat) : Int) - 1) = leadingExponent units - count := by
    omega
  unfold withDigits? at hd
  dsimp only at hd
  rw [hexp, Option.map_eq_some_iff] at hd
  obtain ⟨d', hfind, heq⟩ := hd
  cases heq
  have hreads := List.find?_some hfind
  exact ⟨hreads, count, hcount, rfl,
    mem_onGrid_bounds h (List.mem_of_find?_eq_some hfind)⟩

/-- The shortest digits read back. -/
theorem isShort_shortest (m : Magnitude) (h : 0 < m.units) :
    IsShort m.units (shortest m.units).1 (shortest m.units).2 := by
  have hsome : ((List.range 17).findSome? fun n => withDigits? m.units (n + 1)).isSome = true := by
    rw [List.findSome?_isSome_iff]
    refine ⟨16, by simp, ?_⟩
    obtain ⟨-, -, -, -, first, hfirst, hnear⟩ :=
      onGrid_eq m.units (leadingExponent m.units - 16)
    have hreads := readsBack_of_seventeen m h hnear
    unfold withDigits?
    dsimp only
    rw [Option.isSome_map, List.find?_isSome]
    exact ⟨first, hfirst, hreads⟩
  obtain ⟨⟨d, e⟩, hfind⟩ := Option.isSome_iff_exists.mp hsome
  have hshortest : shortest m.units = (d, e) := by rw [shortest, hfind, Option.getD_some]
  obtain ⟨n, hn, hd⟩ := List.exists_of_findSome?_eq_some hfind
  rw [hshortest]
  exact isShort_of_withDigits? h (List.mem_range.mp hn) hd

end Magnitude

end Montage
