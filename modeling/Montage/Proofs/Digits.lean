import Mathlib.Algebra.Group.Nat.Defs
import Montage.Number.Digits

/-!
# Decimal digits, both ways

The digits of a number are read back, with any zeros in front of them. Their count says how large the
number is.

* `Decimal.ofDigits_digits`, `Decimal.ofDigits_append`: reading digits.
* `Decimal.size_le_iff`, `Decimal.pow_le_of_pos`: counting them.
* `Decimal.padded_toList`, `Decimal.padded_cases`, `Decimal.length_padded`: a number that is filled up
  with zeros.
-/

namespace Montage.Decimal

/-! ## The digits of a number -/

theorem digits_inj {m n : Nat} (h : digits m = digits n) : m = n := by
  have := congrArg (Nat.ofDigitChars 10 · 0) h
  simpa [digits, Nat.ofDigitChars_ten_toDigits] using this

theorem isDigit_of_mem_digits {n : Nat} {c : Char} (h : c ∈ digits n) : c.isDigit = true :=
  Nat.isDigit_of_mem_toDigits (by decide) (by decide) h

theorem isDigit_of_mem_zeros {k : Nat} {c : Char} (h : c ∈ List.replicate k '0') :
    c.isDigit = true := by
  rw [List.eq_of_mem_replicate h]
  rfl

/-- A number begins with a digit. -/
theorem digits_eq_cons (n : Nat) : ∃ c rest, digits n = c :: rest ∧ c.isDigit = true := by
  rcases h : digits n with _ | ⟨c, rest⟩
  · exact absurd h Nat.toDigits_ne_nil
  · exact ⟨c, rest, rfl, isDigit_of_mem_digits (by rw [h]; exact List.mem_cons_self)⟩

theorem ofInt_natCast (n : Nat) : ofInt n = String.ofList (digits n) := by
  rw [ofInt, if_neg (by omega)]; rfl

/-! ## Their count -/

theorem size_pos (n : Nat) : 0 < size n := Nat.length_toDigits_pos

theorem size_le_iff {n k : Nat} (h : 0 < k) : size n ≤ k ↔ n < 10 ^ k :=
  Nat.length_toDigits_le_iff (by decide) h

theorem lt_pow_size (n : Nat) : n < 10 ^ size n := (size_le_iff (size_pos n)).mp Nat.le.refl

theorem pow_le_of_pos {n : Nat} (h : 0 < n) : 10 ^ (size n - 1) ≤ n := by
  rcases Nat.eq_or_lt_of_le (size_pos n) with hone | hmore
  · rw [← hone]
    exact h
  · have hlt := (not_congr (size_le_iff (n := n) (Nat.sub_pos_of_lt hmore))).mp (by omega)
    exact Nat.le_of_not_lt hlt

/-- A positive number is between two neighbouring powers of ten. -/
theorem exists_size {n : Nat} (h : 0 < n) :
    ∃ k, size n = k + 1 ∧ 10 ^ k ≤ n ∧ n < 10 ^ (k + 1) := by
  have hsize : size n - 1 + 1 = size n := Nat.sub_add_cancel (size_pos n)
  exact ⟨size n - 1, hsize.symm, pow_le_of_pos h, hsize.symm ▸ lt_pow_size n⟩

theorem size_eq_of_bounds {n k : Nat} (hlow : 10 ^ k ≤ n) (hhigh : n < 10 ^ (k + 1)) :
    size n = k + 1 := by
  refine Nat.le_antisymm ((size_le_iff (Nat.succ_pos k)).mpr hhigh) (Nat.lt_of_not_le fun hle => ?_)
  have hpow : 10 ^ size n ≤ 10 ^ k := Nat.pow_le_pow_right (by decide) hle
  exact absurd (lt_pow_size n) (Nat.not_lt.mpr (Nat.le_trans hpow hlow))

theorem length_digits_mono {m n : Nat} (h : m ≤ n) : (digits m).length ≤ (digits n).length :=
  (size_le_iff (size_pos n)).mpr (Nat.lt_of_le_of_lt h (lt_pow_size n))

/-! ## Reading digits -/

theorem ofDigits_append (cs ds : List Char) :
    ofDigits (cs ++ ds) = 10 ^ ds.length * ofDigits cs + ofDigits ds := by
  have happend : ofDigits (cs ++ ds) = Nat.ofDigitChars 10 ds (Nat.ofDigitChars 10 cs 0) :=
    Nat.ofDigitChars_append 0
  rw [happend, Nat.ofDigitChars_eq_ofDigitChars_zero]
  rfl

theorem ofDigits_digits (n : Nat) : ofDigits (digits n) = n := Nat.ofDigitChars_ten_toDigits

theorem ofDigits_zeros (k : Nat) : ofDigits (List.replicate k '0') = 0 := by
  induction k with
  | zero => rfl
  | succ k ih =>
    rw [List.replicate_succ', ofDigits_append, ih]
    rfl

/-! ## Filling up -/

/-- A natural number filled up with zeros. -/
theorem padded_toList (width n : Nat) :
    (padded width n).toList = List.replicate (width - size n) '0' ++ digits n := by
  have hsign : ¬ ((n : Int) < 0) := by omega
  simp [padded, hsign, size]

theorem ofDigits_padded (width n : Nat) : ofDigits (padded width n).toList = n := by
  rw [padded_toList, ofDigits_append, ofDigits_zeros, Nat.mul_zero, Nat.zero_add, ofDigits_digits]

/-- A number that fits the width is filled up to it. -/
theorem length_padded {width n : Nat} (hwidth : 0 < width) (h : n < 10 ^ width) :
    (padded width n).toList.length = width := by
  rw [padded_toList, List.length_append, List.length_replicate]
  exact Nat.sub_add_cancel ((size_le_iff hwidth).mpr h)

/-- A number has at least as many characters as it is filled up to. -/
theorem le_length_padded (width n : Nat) : width ≤ (padded width n).toList.length := by
  have hsize : (digits n).length = size n := rfl
  rw [padded_toList, List.length_append, List.length_replicate, hsize]
  omega

theorem isDigit_of_mem_padded {width n : Nat} {c : Char} (hc : c ∈ (padded width n).toList) :
    c.isDigit = true := by
  rw [padded_toList] at hc
  exact (List.mem_append.mp hc).elim isDigit_of_mem_zeros isDigit_of_mem_digits

/-- What is filled up is of digits, unless it begins with a sign. -/
theorem padded_cases (width : Nat) (n : Int) :
    (0 ≤ n ∧ (padded width n).toList ≠ [] ∧ ∀ c ∈ (padded width n).toList, c.isDigit = true) ∨
      (n < 0 ∧ ∃ rest, (padded width n).toList = '-' :: rest) := by
  rcases Int.lt_or_le n 0 with hn | hn
  · refine .inr ⟨hn, List.replicate (width - 1 - size n.natAbs) '0' ++ digits n.natAbs, ?_⟩
    simp [padded, hn, size]
  · obtain ⟨k, rfl⟩ := Int.eq_ofNat_of_zero_le hn
    rw [padded_toList]
    refine .inl ⟨hn, fun hnil => Nat.toDigits_ne_nil (List.append_eq_nil_iff.mp hnil).2, fun c hc => ?_⟩
    exact (List.mem_append.mp hc).elim isDigit_of_mem_zeros isDigit_of_mem_digits

end Montage.Decimal
