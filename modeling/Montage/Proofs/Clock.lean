import Montage.Proofs.Check
import Montage.Proofs.Path
import Montage.Proofs.Spelling

/-!
# Clock texts, read back

A time is written as hours, minutes and seconds with colons between them. Fields that are filled up
with zeros make a clock text if they have no sign and a seconds field follows. A text whose fields spell
numbers is read as the sum of these numbers, which is near the sum without rounding.

* `Time.fields`: three fields and the colons between them.
* `Time.IsRun`: one or more digits.
* `Binary64.Near`: a number that a few roundings leave near a rational.
* `Time.Reads`: a text is read as a number of seconds that is near a rational.

Results:
* `Time.isSecondsField_iff`: the last field of a clock text.
* `Time.isClock_fields_iff`: when padded fields make a clock text.
* `Time.toSeconds_fields`: fields that spell numbers are read as their sum.
* `Binary64.near_partsSeconds`, `Binary64.near_fieldSum`: sums of fields, in either order.
* `Time.reads_fields`: what padded hours and minutes with a seconds field are read as.
-/

namespace Montage

open Number (plain Spells)

namespace Time

/-! ## The grammar -/

/-- Three fields and the colons between them. -/
def fields (hours minutes seconds : List Char) : List Char :=
  hours ++ ':' :: (minutes ++ ':' :: seconds)

/-- One or more digits. -/
def IsRun (cs : List Char) : Prop := cs ≠ [] ∧ ∀ c ∈ cs, c.isDigit = true

/-- A text is the digits at its start and the rest. -/
theorem spanDigits_spec (cs : List Char) : cs = (Text.spanDigits cs).1 ++ (Text.spanDigits cs).2 ∧
    ∀ c ∈ (Text.spanDigits cs).1, c.isDigit = true :=
  ⟨List.takeWhile_append_dropWhile.symm, List.all_eq_true.mp List.all_takeWhile⟩

theorem dropField_digits {field rest : List Char} (hne : field ≠ [])
    (hd : ∀ c ∈ field, c.isDigit = true) : dropField (field ++ ':' :: rest) = rest := by
  have hcolon : ∀ c ∈ (':' :: rest).head?, c.isDigit = false := by
    rintro c ⟨⟩
    rfl
  obtain ⟨htake, hdrop⟩ := Number.span_of_all hd hcolon
  obtain ⟨first, others, rfl⟩ := List.exists_cons_of_ne_nil hne
  rw [dropField, Text.spanDigits, htake, hdrop]
  rfl

theorem dropField_sign {c : Char} (hc : c.isDigit = false) (rest : List Char) :
    dropField (c :: rest) = c :: rest := by
  simp [dropField, Text.spanDigits, hc]

theorem isSecondsField_plain {whole fraction : List Char} (hne : whole ≠ [])
    (hw : ∀ c ∈ whole, c.isDigit = true) (hf : ∀ c ∈ fraction, c.isDigit = true) :
    isSecondsField (plain whole fraction) = true := by
  obtain ⟨first, rest, rfl⟩ := List.exists_cons_of_ne_nil hne
  by_cases hnil : fraction = []
  · obtain ⟨htake, hdrop⟩ := Number.span_all hw
    rw [hnil, Number.plain_nil, isSecondsField, Text.spanDigits, htake, hdrop]
  · have hpoint : ∀ c ∈ ('.' :: fraction).head?, c.isDigit = false := by
      rintro c ⟨⟩
      rfl
    obtain ⟨htake, hdrop⟩ := Number.span_of_all hw hpoint
    rw [Number.plain_of_ne_nil _ hnil, isSecondsField, Text.spanDigits, htake, hdrop]
    simp only [List.isEmpty_eq_false_iff.mpr hnil, Bool.not_false, Bool.true_and, List.all_eq_true]
    exact hf

/-- A seconds field is digits with an optional fraction. -/
theorem isSecondsField_iff {cs : List Char} : isSecondsField cs = true ↔
    ∃ whole fraction, IsRun whole ∧ (∀ c ∈ fraction, c.isDigit = true) ∧ cs = plain whole fraction := by
  constructor
  · intro h
    obtain ⟨hsplit, hdigits⟩ := spanDigits_spec cs
    rw [isSecondsField] at h
    generalize Text.spanDigits cs = span at *
    obtain ⟨whole, rest⟩ := span
    split at h
    · next heq =>
      cases heq
      refine ⟨_, [], ⟨List.cons_ne_nil _ _, hdigits⟩, by simp, ?_⟩
      rw [hsplit, List.append_nil, Number.plain_nil]
    · next fraction heq =>
      cases heq
      rw [Bool.and_eq_true, Bool.not_eq_true', List.isEmpty_eq_false_iff, List.all_eq_true] at h
      refine ⟨_, fraction, ⟨List.cons_ne_nil _ _, hdigits⟩, h.2, ?_⟩
      rw [hsplit, Number.plain_of_ne_nil _ h.1]
    · cases h
  · rintro ⟨whole, fraction, ⟨hne, hw⟩, hf, rfl⟩
    exact isSecondsField_plain hne hw hf

/-- A seconds field has digits and a point only. -/
theorem mem_of_isSecondsField {cs : List Char} (h : isSecondsField cs = true) {c : Char} (hc : c ∈ cs) :
    c.isDigit = true ∨ c = '.' := by
  obtain ⟨whole, fraction, ⟨-, hw⟩, hf, rfl⟩ := isSecondsField_iff.mp h
  rcases List.mem_append.mp hc with hc | hc
  · exact .inl (hw c hc)
  · by_cases hnil : fraction = []
    · rw [hnil] at hc
      cases hc
    · rw [List.isEmpty_eq_false_iff.mpr hnil] at hc
      exact (List.mem_cons.mp hc).symm.imp_left (hf c)

/-- Padded fields make a clock text if they have no sign and what follows is a seconds field. -/
theorem isClock_fields_iff (hours minutes : Int) (seconds : List Char) :
    isClock (fields (Decimal.padded 2 hours).toList (Decimal.padded 2 minutes).toList seconds) = true ↔
      0 ≤ hours ∧ 0 ≤ minutes ∧ isSecondsField seconds = true := by
  have hcolon {cs : List Char} (hmem : ':' ∈ cs) : isSecondsField cs ≠ true := fun h =>
    absurd (mem_of_isSecondsField h hmem) (by decide)
  have hminus : Char.isDigit '-' = false := rfl
  unfold isClock fields
  rcases Decimal.padded_cases 2 hours with ⟨hh, hne, hd⟩ | ⟨hh, rest, htext⟩
  · rw [dropField_digits hne hd]
    rcases Decimal.padded_cases 2 minutes with ⟨hm, hne', hd'⟩ | ⟨hm, rest, htext⟩
    · rw [dropField_digits hne' hd']
      exact ⟨fun h => ⟨hh, hm, h⟩, fun h => h.2.2⟩
    · rw [htext, List.cons_append, dropField_sign hminus]
      exact ⟨fun h => absurd h (hcolon (by simp)), fun h => absurd h.2.1 (by omega)⟩
  · rw [htext, List.cons_append, dropField_sign hminus, dropField_sign hminus]
    exact ⟨fun h => absurd h (hcolon (by simp)), fun h => absurd h.1 (by omega)⟩

/-! ## Reading -/

theorem splitOn_fields {hours minutes seconds : List Char} (hh : ':' ∉ hours) (hm : ':' ∉ minutes)
    (hs : ':' ∉ seconds) :
    Text.splitOn ':' (fields hours minutes seconds) = [hours, minutes, seconds] := by
  rw [fields, Text.splitOn_append, Text.splitOn_append, Text.splitOn_of_notMem hh,
    Text.splitOn_of_notMem hm, Text.splitOn_of_notMem hs]
  rfl

theorem fieldNumber_plain (text : String) {whole fraction : List Char} {x : Binary64}
    (h : Spells whole fraction x) : fieldNumber text (plain whole fraction) = .ok x := by
  rw [fieldNumber, h.read]
  rfl

theorem checkNumber_eq_ok_iff {x : Binary64} :
    checkNumber x = .ok () ↔ x.isFinite = true ∧ 0 ≤ x.value := by
  rw [checkNumber, demand_eq_ok, Bool.and_eq_true, Bool.not_eq_true', decide_eq_false_iff_not]
  refine (and_iff_left rfl).trans (and_congr_right fun hfinite => ?_)
  rw [Binary64.lt_iff hfinite (y := 0) Binary64.isUnsigned_zero.isFinite, Binary64.value_zero, not_lt]

theorem checkNumber_of_isUnsigned {x : Binary64} (h : x.IsUnsigned) : checkNumber x = .ok () :=
  checkNumber_eq_ok_iff.mpr ⟨h.isFinite, h.value_nonneg⟩

/-- Fields that spell numbers are read as the sum of these numbers. -/
theorem toSeconds_fields {text : String} {hours minutes whole fraction : List Char} {x y z : Binary64}
    (htext : text.toList = fields hours minutes (plain whole fraction)) (hx : Spells hours [] x)
    (hy : Spells minutes [] y) (hz : Spells whole fraction z)
    (hsum : (z + y * 60 + x * 3600).IsUnsigned) :
    (Time.clock text).toSeconds = .ok (z + y * 60 + x * 3600) := by
  have hcolon {cs : List Char} (hd : ∀ c ∈ cs, c.isDigit = true) : ':' ∉ cs := fun hmem =>
    absurd (hd ':' hmem) (by decide)
  have hseconds := isSecondsField_plain hz.ne_nil hz.whole_digits hz.fraction_digits
  have hclock : checkClock text = .ok () := by
    rw [checkClock, htext, isClock, fields, dropField_digits hx.ne_nil hx.whole_digits,
      dropField_digits hy.ne_nil hy.whole_digits, hseconds, if_pos rfl]
  have hsplit : Text.splitOn ':' text.toList = [hours, minutes, plain whole fraction] := by
    rw [htext]
    refine splitOn_fields (hcolon hx.whole_digits) (hcolon hy.whole_digits) fun hmem => ?_
    exact absurd (mem_of_isSecondsField hseconds hmem) (by decide)
  have hfields : fieldSum text [plain whole fraction, minutes, hours] = .ok (z + y * 60 + x * 3600) := by
    have hfirst := fieldNumber_plain text hx
    have hmiddle := fieldNumber_plain text hy
    rw [Number.plain_nil] at hfirst hmiddle
    rw [fieldSum, fieldNumber_plain text hz, hmiddle, hfirst]
    rfl
  rw [toSeconds, hclock, ok_bind, clockSeconds, hsplit]
  simp only [List.reverse_cons, List.reverse_nil, List.nil_append, List.cons_append]
  rw [hfields, ok_bind, checkNumber_of_isUnsigned hsum]
  rfl

end Time

/-! ## Sums of fields -/

namespace Binary64

/-- A number without a sign that is as near to a rational as a few roundings leave it. -/
structure Near (r : ℚ) (x : Binary64) : Prop where
  isUnsigned : x.IsUnsigned
  near : |x.value - r| ≤ (r + 1) / 2 ^ 50

variable {x y z : Binary64}

theorem Rounds.self (h : x.IsUnsigned) : Rounds x.value x := by
  refine ⟨h, ?_⟩
  rw [sub_self, abs_zero, slip_of_nonneg h.value_nonneg]
  linarith [h.value_nonneg]

/-- A count in a unit of at most an hour, in seconds. -/
theorem rounds_units {n k : Nat} (hn : n ≤ 2 ^ 53) (hk : k ≤ 2 ^ 12) :
    Rounds ((n : ℚ) * k) (ofInt n * ofInt k) := by
  obtain ⟨hunsigned, hvalue⟩ := value_ofInt hn
  obtain ⟨hunsigned', hvalue'⟩ := value_ofInt (hk.trans (by norm_num))
  have hmoderate : (n : ℚ) * k ≤ 10 ^ 200 := by
    have hle : (n : ℚ) * k ≤ 2 ^ 53 * 2 ^ 12 := by exact_mod_cast Nat.mul_le_mul hn hk
    exact hle.trans (by norm_num)
  have hrounds := Rounds.mul hunsigned hunsigned' (by rwa [hvalue, hvalue'])
  rwa [hvalue, hvalue'] at hrounds

theorem rounds_hours {n : Nat} (h : n ≤ 2 ^ 53) : Rounds ((n : ℚ) * 3600) (ofInt n * 3600) :=
  rounds_units (k := 3600) h (by norm_num)

theorem rounds_minutes {n : Nat} (h : n ≤ 2 ^ 53) : Rounds ((n : ℚ) * 60) (ofInt n * 60) :=
  rounds_units (k := 60) h (by norm_num)

/-- A sum of three rounded numbers, itself rounded twice. -/
theorem Rounds.near_sum {p q r : ℚ} (hx : Rounds p x) (hy : Rounds q y) (hz : Rounds r z)
    (hp : 0 ≤ p) (hq : 0 ≤ q) (hr : 0 ≤ r) (h : p + q + r ≤ 2 ^ 70) : Near (p + q + r) (x + y + z) := by
  have hnearx := hx.near
  have hneary := hy.near
  have hnearz := hz.near
  rw [slip_of_nonneg hp, abs_le] at hnearx
  rw [slip_of_nonneg hq, abs_le] at hneary
  rw [slip_of_nonneg hr, abs_le] at hnearz
  have hx0 := hx.isUnsigned.value_nonneg
  have hy0 := hy.isUnsigned.value_nonneg
  have hz0 := hz.isUnsigned.value_nonneg
  have hfirst := Rounds.add hx.isUnsigned hy.isUnsigned (by linarith)
  have hfirst0 := hfirst.isUnsigned.value_nonneg
  have hnear := hfirst.near
  rw [slip_of_nonneg (add_nonneg hx0 hy0), abs_le] at hnear
  have hsecond := Rounds.add hfirst.isUnsigned hz.isUnsigned (by linarith)
  have hnear' := hsecond.near
  rw [slip_of_nonneg (add_nonneg hfirst0 hz0), abs_le] at hnear'
  refine ⟨hsecond.isUnsigned, abs_le.mpr ⟨?_, ?_⟩⟩
  · linarith
  · linarith

/-- Hours, minutes and seconds make a moderate sum. -/
theorem fields_le {hours minutes : Nat} {r : ℚ} (hh : hours ≤ 2 ^ 53) (hm : minutes ≤ 2 ^ 53)
    (hr : r ≤ 2 ^ 60) : (hours : ℚ) * 3600 + minutes * 60 + r ≤ 2 ^ 70 := by
  have hhours : (hours : ℚ) ≤ 2 ^ 53 := by exact_mod_cast hh
  have hminutes : (minutes : ℚ) ≤ 2 ^ 53 := by exact_mod_cast hm
  linarith

/-- Hours, minutes and seconds, added from the first to the last. -/
theorem near_partsSeconds {p : TimeParts} {hours minutes : Nat} (hh : p.hours = hours)
    (hm : p.minutes = minutes) (hh' : hours ≤ 2 ^ 53) (hm' : minutes ≤ 2 ^ 53)
    (hs : p.seconds.IsUnsigned) (hle : p.seconds.value ≤ 2 ^ 60) :
    Near ((hours : ℚ) * 3600 + minutes * 60 + p.seconds.value) (Time.partsSeconds p) := by
  rw [Time.partsSeconds, hh, hm]
  exact (rounds_hours hh').near_sum (rounds_minutes hm') (.self hs) (by positivity) (by positivity)
    hs.value_nonneg (fields_le hh' hm' hle)

/-- Hours, minutes and seconds, added from the last to the first. -/
theorem near_fieldSum {hours minutes : Nat} {r : ℚ} {seconds : Binary64} (hh : hours ≤ 2 ^ 53)
    (hm : minutes ≤ 2 ^ 53) (hs : Rounds r seconds) (hr : 0 ≤ r) (hle : r ≤ 2 ^ 60) :
    Near ((hours : ℚ) * 3600 + minutes * 60 + r)
      (seconds + ofInt minutes * 60 + ofInt hours * 3600) := by
  have hsum : (hours : ℚ) * 3600 + minutes * 60 + r = r + minutes * 60 + hours * 3600 := by ring
  have hmoderate := fields_le hh hm hle
  rw [hsum] at hmoderate ⊢
  exact hs.near_sum (rounds_minutes hm) (rounds_hours hh) hr (by positivity) (by positivity) hmoderate

end Binary64

namespace Time

/-! ## Near a rational -/

/-- A clock text is read as a number of seconds that is near a rational. -/
def Reads (text : String) (r : ℚ) : Prop := ∃ x, (Time.clock text).toSeconds = .ok x ∧ x.Near r

theorem spells_padded (width : Nat) {n : Nat} (h : n ≤ 2 ^ 53) :
    Spells (Decimal.padded width n).toList [] (.ofInt n) := by
  have hmoderate : n < 10 ^ 200 := h.trans_lt (by norm_num)
  rw [Decimal.padded_toList]
  exact (Number.spells_digits hmoderate).zeros _

theorem reads_fields {text : String} {hours minutes : Nat} {whole fraction : List Char} {z : Binary64}
    {r : ℚ} (htext : text.toList = fields (Decimal.padded 2 hours).toList
      (Decimal.padded 2 minutes).toList (plain whole fraction))
    (hh : hours ≤ 2 ^ 53) (hm : minutes ≤ 2 ^ 53) (hz : Spells whole fraction z) (hr : z.Rounds r)
    (hr0 : 0 ≤ r) (hle : r ≤ 2 ^ 60) : Reads text ((hours : ℚ) * 3600 + minutes * 60 + r) := by
  have hsum := Binary64.near_fieldSum hh hm hr hr0 hle
  exact ⟨_, toSeconds_fields htext (spells_padded 2 hh) (spells_padded 2 hm) hz hsum.isUnsigned, hsum⟩

end Time

end Montage
