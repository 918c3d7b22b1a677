import Mathlib.Tactic.IntervalCases
import Montage.Number.Printer
import Montage.Proofs.Digits
import Montage.Proofs.Rounding

/-!
# Reading decimal numbers

Digits with an optional sign, fraction and exponent are read to their end, and what is read is the decimal
number that they denote, rounded once.

* `Number.plain`: the digits before the point and those behind it, as one text.
* `Number.exponentText`: an exponent, if there is one.

Results:
* `Number.read_numeral`, `Number.read_plain`: such a text is read to its end.
* `Number.ofDecimal_eq`: a decimal number of moderate size is a ratio that is rounded once.
* `Number.rounds_decimal`: how far rounding moves it.
-/

namespace Montage

namespace Number

/-! ## The grammar -/

/-- Digits with an optional fraction. -/
def plain (whole fraction : List Char) : List Char :=
  whole ++ if fraction.isEmpty then [] else '.' :: fraction

variable {whole fraction : List Char}

theorem plain_nil (whole : List Char) : plain whole [] = whole := List.append_nil whole

theorem plain_of_ne_nil (whole : List Char) (h : fraction ≠ []) :
    plain whole fraction = whole ++ '.' :: fraction := by
  rw [plain, List.isEmpty_eq_false_iff.mpr h]
  rfl

theorem span_of_all {p : Char → Bool} {cs rest : List Char} (h : ∀ c ∈ cs, p c = true)
    (hrest : ∀ c ∈ rest.head?, p c = false) :
    (cs ++ rest).takeWhile p = cs ∧ (cs ++ rest).dropWhile p = rest := by
  rw [List.takeWhile_append_of_pos h, List.dropWhile_append_of_pos h]
  cases rest with
  | nil => simp
  | cons c rest =>
    have hc := hrest c rfl
    simp [hc]

theorem span_all {p : Char → Bool} {cs : List Char} (h : ∀ c ∈ cs, p c = true) :
    cs.takeWhile p = cs ∧ cs.dropWhile p = [] := by
  have hnone : ∀ c ∈ ([] : List Char).head?, p c = false := by simp
  have hspan := span_of_all h hnone
  rwa [List.append_nil] at hspan

/-- The digits before the point and those behind it, whatever follows them. -/
theorem readMantissa_plain (rest : List Char) (hne : whole ≠ []) (hw : ∀ c ∈ whole, c.isDigit = true)
    (hf : ∀ c ∈ fraction, c.isDigit = true) (hrest : ∀ c ∈ rest.head?, c.isDigit = false ∧ c ≠ '.') :
    readMantissa Char.isDigit (plain whole fraction ++ rest) = some (whole, fraction, rest) := by
  obtain ⟨first, others, rfl⟩ := List.exists_cons_of_ne_nil hne
  have hdigit : ∀ c ∈ rest.head?, c.isDigit = false := fun c hc => (hrest c hc).1
  unfold readMantissa
  by_cases hnil : fraction = []
  · obtain ⟨htake, hdrop⟩ := span_of_all hw hdigit
    rw [hnil, plain_nil, htake, hdrop]
    cases rest with
    | nil => rfl
    | cons c rest =>
      have hc := (hrest c rfl).2
      split
      · next heq => exact absurd (List.cons.inj heq).1 hc
      · next heq _ => cases heq
      · rfl
  · have hpoint : ∀ c ∈ ('.' :: (fraction ++ rest)).head?, c.isDigit = false := by
      rintro c ⟨⟩
      rfl
    obtain ⟨htake, hdrop⟩ := span_of_all hw hpoint
    obtain ⟨htake', hdrop'⟩ := span_of_all hf hdigit
    have hsplit : plain (first :: others) fraction ++ rest =
        first :: others ++ '.' :: (fraction ++ rest) := by
      rw [plain_of_ne_nil _ hnil, List.append_assoc]
      rfl
    rw [hsplit, htake, hdrop]
    simp [htake', hdrop']

/-- An exponent with its letter and its sign, in two digits or more, if there is one. -/
def exponentText : Option Int → List Char
  | none => []
  | some e => 'e' :: (if e < 0 then '-' else '+') ::
      (List.replicate (2 - Decimal.size e.natAbs) '0' ++ Decimal.digits e.natAbs)

theorem eq_of_mem_head_exponentText {e : Option Int} {c : Char} (h : c ∈ (exponentText e).head?) :
    c = 'e' := by
  cases e with
  | none => cases h
  | some e => cases h; rfl

theorem readExponent_digits (negative : Bool) {digits : List Char} (hne : digits ≠ [])
    (hd : ∀ c ∈ digits, c.isDigit = true) :
    readExponent 'e' ('e' :: (if negative then '-' else '+') :: digits) =
      (if negative then -(Decimal.ofDigits digits : Int) else Decimal.ofDigits digits, []) := by
  obtain ⟨first, others, rfl⟩ := List.exists_cons_of_ne_nil hne
  obtain ⟨htake, hdrop⟩ := span_all hd
  have hsign : Integer.readSign ((if negative then '-' else '+') :: first :: others) =
      (negative, first :: others) := by
    cases negative <;> rfl
  have hspan : Text.spanDigits (first :: others) = (first :: others, []) := by
    rw [Text.spanDigits, htake, hdrop]
  rw [readExponent, if_pos (by decide), hsign]
  dsimp only
  rw [hspan]

theorem readExponent_exponentText (e : Option Int) :
    readExponent 'e' (exponentText e) = (e.getD 0, []) := by
  cases e with
  | none => rfl
  | some e =>
    have hvalue : Decimal.ofDigits (List.replicate (2 - Decimal.size e.natAbs) '0' ++
        Decimal.digits e.natAbs) = e.natAbs := by
      rw [Decimal.ofDigits_append, Decimal.ofDigits_zeros, Nat.mul_zero, Nat.zero_add,
        Decimal.ofDigits_digits]
    have hne : List.replicate (2 - Decimal.size e.natAbs) '0' ++ Decimal.digits e.natAbs ≠ [] :=
      fun hnil => Nat.toDigits_ne_nil (List.append_eq_nil_iff.mp hnil).2
    have hread := readExponent_digits (decide (e < 0)) hne fun c hc =>
      (List.mem_append.mp hc).elim Decimal.isDigit_of_mem_zeros Decimal.isDigit_of_mem_digits
    simp only [decide_eq_true_eq, hvalue] at hread
    rw [exponentText, hread, Option.getD_some]
    congr 1
    split <;> omega

theorem mem_of_isDigit {c : Char} (h : c.isDigit = true) : c ∈ "0123456789".toList := by
  have hbounds : 48 ≤ c.toNat ∧ c.toNat ≤ 57 := by
    simp only [Char.isDigit, Bool.and_eq_true, decide_eq_true_eq] at h
    exact h
  obtain ⟨hlow, hhigh⟩ := hbounds
  rw [← Char.ofNat_toNat c]
  interval_cases c.toNat <;> decide

/-- A digit is no blank, no sign and no letter that a word begins with. -/
theorem facts_of_isDigit {c : Char} (h : c.isDigit = true) :
    Text.isBlank c = false ∧ c ≠ '-' ∧ c ≠ '+' ∧ c.toLower ≠ 'i' ∧ c.toLower ≠ 'n' ∧
      c.toLower ≠ 'x' := by
  have hall : ("0123456789".toList.all fun c => decide (Text.isBlank c = false ∧ c ≠ '-' ∧ c ≠ '+' ∧
      c.toLower ≠ 'i' ∧ c.toLower ≠ 'n' ∧ c.toLower ≠ 'x')) = true := by decide
  exact of_decide_eq_true (List.all_eq_true.mp hall c (mem_of_isDigit h))

theorem afterWord?_of_ne {word : String} {w c : Char} {ws cs : List Char}
    (hword : word.toList = w :: ws) (h : c.toLower ≠ w) : afterWord? word (c :: cs) = none := by
  have hne : ¬ w = c.toLower := fun heq => h heq.symm
  simp [afterWord?, hword, Text.lower, List.isPrefixOf, hne]

theorem afterWord?_second {word : String} {w v c : Char} {ws cs : List Char}
    (hword : word.toList = w :: v :: ws) (h : ∀ d ∈ cs.head?, d.toLower ≠ v) :
    afterWord? word (c :: cs) = none := by
  cases cs with
  | nil => simp [afterWord?, hword, Text.lower, List.isPrefixOf]
  | cons d cs =>
    have hne : ¬ v = d.toLower := fun heq => h d rfl heq.symm
    simp [afterWord?, hword, Text.lower, List.isPrefixOf, hne]

/-- A text that begins with a digit, behind a sign or not, is a decimal number: no word begins at the
    digit, and no hexadecimal number unless its letter follows. -/
theorem read_of_digit (negative : Bool) {first : Char} {body : List Char} (hfirst : first.isDigit = true)
    (hsecond : ∀ d ∈ body.head?, d.toLower ≠ 'x') :
    read (Binary64.signText negative ++ first :: body) = readDecimal negative (first :: body) := by
  obtain ⟨hblank, hminus, hplus, hi, hn, -⟩ := facts_of_isDigit hfirst
  have hdrop : (Binary64.signText negative ++ first :: body).dropWhile Text.isBlank =
      Binary64.signText negative ++ first :: body := by
    cases negative
    · simp [Binary64.signText, hblank]
    · rfl
  have hsign : Integer.readSign (Binary64.signText negative ++ first :: body) =
      (negative, first :: body) := by
    cases negative
    · unfold Binary64.signText Integer.readSign
      split
      · next heq => exact absurd (List.cons.inj heq).1 hminus
      · next heq => exact absurd (List.cons.inj heq).1 hplus
      · rfl
    · rfl
  have hinfinity : afterWord? "infinity" (first :: body) = none := afterWord?_of_ne rfl hi
  have hinf : afterWord? "inf" (first :: body) = none := afterWord?_of_ne rfl hi
  have hnan : afterWord? "nan" (first :: body) = none := afterWord?_of_ne rfl hn
  have hhex : afterWord? "0x" (first :: body) = none := afterWord?_second rfl hsecond
  rw [read, hdrop, hsign]
  simp only [hinfinity, hinf, hnan, hhex, Option.bind_none]

/-- Digits with an optional sign, fraction and exponent are read to their end. -/
theorem read_numeral (negative : Bool) (hne : whole ≠ []) (hw : ∀ c ∈ whole, c.isDigit = true)
    (hf : ∀ c ∈ fraction, c.isDigit = true) (e : Option Int) :
    read (Binary64.signText negative ++ (plain whole fraction ++ exponentText e)) =
      some (ofDecimal negative (Decimal.ofDigits (whole ++ fraction)) (e.getD 0 - fraction.length),
        []) := by
  have hmantissa := readMantissa_plain (exponentText e) hne hw hf fun c hc => by
    rw [eq_of_mem_head_exponentText hc]
    decide
  have hexponent := readExponent_exponentText e
  obtain ⟨first, rest, rfl⟩ := List.exists_cons_of_ne_nil hne
  -- What follows the first digit is a digit, a point or the letter of the exponent.
  have hsecond : ∀ d ∈ (plain rest fraction ++ exponentText e).head?, d.toLower ≠ 'x' := by
    intro d hd
    cases rest with
    | cons second rest =>
      cases hd
      exact (facts_of_isDigit (hw d (by simp))).2.2.2.2.2
    | nil =>
      unfold plain at hd
      cases fraction with
      | nil =>
        rw [eq_of_mem_head_exponentText hd]
        decide
      | cons f fraction => cases hd; decide
  have hcons : plain (first :: rest) fraction ++ exponentText e =
      first :: (plain rest fraction ++ exponentText e) := rfl
  rw [hcons, read_of_digit negative (hw first List.mem_cons_self) hsecond, ← hcons, readDecimal, hmantissa]
  simp [hexponent]

theorem read_plain (hne : whole ≠ []) (hw : ∀ c ∈ whole, c.isDigit = true)
    (hf : ∀ c ∈ fraction, c.isDigit = true) :
    read (plain whole fraction) =
      some (ofDecimal false (Decimal.ofDigits (whole ++ fraction)) (-(fraction.length : Int)), []) := by
  have hread := read_numeral false hne hw hf none
  rwa [exponentText, List.append_nil, Option.getD_none, Int.zero_sub] at hread

/-! ## Values -/

theorem ofRatio_zero {den : Nat} (h : 0 < den) :
    Binary64.ofRatio false 0 den = .finite false .zero := by
  have hnearest : Magnitude.nearest 0 den = 0 := by
    have := Magnitude.nearest_self (Nat.dvd_zero (spacing 0)) h
    rwa [Nat.zero_mul] at this
  have hlimit : Magnitude.nearest 0 den < unitLimit := by
    rw [hnearest]
    exact unitLimit_pos
  unfold Binary64.ofRatio Magnitude.ofRatio?
  rw [dif_pos hlimit]
  simp [hnearest, Magnitude.zero]

theorem pow_le_unitsInOne : 2 ^ 54 * 10 ^ 250 ≤ 4 * unitsInOne := by decide +kernel

/-- A decimal number in units, as a rational. -/
theorem ratio_eq (n k : Nat) :
    ((n * unitsInOne : Nat) : ℚ) / ((10 ^ k : Nat) : ℚ) / unitsInOne = (n : ℚ) / 10 ^ k := by
  have hone : (unitsInOne : ℚ) ≠ 0 := by exact_mod_cast unitsInOne_pos.ne'
  push_cast
  field_simp

theorem ratio_le {n k : Nat} (hn : n < 10 ^ (k + 200)) : (n : ℚ) / 10 ^ k ≤ 10 ^ 200 := by
  rw [div_le_iff₀ (by positivity), ← pow_add, Nat.add_comm]
  exact_mod_cast hn.le

/-- A decimal number of moderate size with at most 250 digits behind the point is a ratio that is
    rounded once. -/
theorem ofDecimal_eq {n k : Nat} (hk : k ≤ 250) (hn : n < 10 ^ (k + 200)) :
    ofDecimal false n (-(k : Int)) = ⟨.ofRatio false (n * unitsInOne) (10 ^ k), false⟩ := by
  have hden : 0 < 10 ^ k := Nat.pow_pos (by decide)
  have hsize : Decimal.size n ≤ k + 200 := (Decimal.size_le_iff (by omega)).mpr hn
  unfold ofDecimal ofScientific
  by_cases hzero : n = 0
  · rw [if_pos hzero, hzero, Nat.zero_mul, ofRatio_zero hden]
  have hunit : ofUnitRatio false ⟨n * unitsInOne, 10 ^ k⟩ =
      ⟨.ofRatio false (n * unitsInOne) (10 ^ k), false⟩ := by
    have hfinite := Binary64.isFinite_ofRatio false hden ((ratio_eq n k).trans_le (ratio_le hn))
    have hnormal : (Nat.pow 2 54 - 1) * 10 ^ k ≤ 4 * (n * unitsInOne) :=
      calc (Nat.pow 2 54 - 1) * 10 ^ k
          ≤ 2 ^ 54 * 10 ^ 250 := Nat.mul_le_mul (Nat.sub_le _ _) (Nat.pow_le_pow_right (by decide) hk)
        _ ≤ 4 * unitsInOne := pow_le_unitsInOne
        _ ≤ 4 * (n * unitsInOne) :=
          Nat.mul_le_mul_left 4 (Nat.le_mul_of_pos_left _ (Nat.pos_of_ne_zero hzero))
    have hunder : UnitRatio.underflows ⟨n * unitsInOne, 10 ^ k⟩ = false := by
      rw [UnitRatio.underflows, decide_eq_false_iff_not]
      exact fun h => Nat.not_lt.mpr hnormal h.1
    rw [ofUnitRatio, hunder, hfinite]
    rfl
  rw [if_neg hzero, if_neg (by omega), if_neg (by omega)]
  by_cases hint : k = 0
  · subst hint
    simpa using hunit
  · rw [if_neg (by omega), neg_neg, Int.toNat_natCast]
    exact hunit

theorem rounds_decimal {n k : Nat} (hn : n < 10 ^ (k + 200)) :
    Binary64.Rounds ((n : ℚ) / 10 ^ k) (.ofRatio false (n * unitsInOne) (10 ^ k)) := by
  have hden : 0 < 10 ^ k := Nat.pow_pos (by decide)
  have hrounds := Binary64.rounds_ofRatio hden ((ratio_eq n k).trans_le (ratio_le hn))
  rwa [ratio_eq] at hrounds

end Number

end Montage
