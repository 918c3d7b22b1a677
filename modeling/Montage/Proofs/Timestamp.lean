import Montage.Proofs.Clock

/-!
# Timestamps, read back

A time is written as a timestamp and the timestamp is read again. A number is written in milliseconds,
a clock text as it is, and parts field by field. A timestamp of parts is a clock text only if no part
has a sign, the seconds have no exponent, and there are no frames; the other two always are. What is read
differs from the time by the rounding to milliseconds and a few slips of the format.

* `TimeParts.IsPlain`, `Time.IsPlain`: times that are written as clock texts.
* `Time.Fits`: times that the machine can count.
* `Time.drift`: how far a time moves at most.

Results:
* `Time.isClock_partsToken_iff`: when parts are written as a clock text.
* `Time.reads_partsToken`, `Time.reads_ofMilliseconds`: what the texts are read as.
* `Time.toSeconds_token`: a plain time is read back within its drift.
* `Time.drift_le`: the drift of a moderate time.
-/

namespace Montage

open Number (plain Spells)

/-! ## Parts -/

/-- The parts that are written in digits. -/
structure TimeParts.IsPlain (p : TimeParts) : Prop where
  hours : 0 ≤ p.hours
  minutes : 0 ≤ p.minutes
  seconds : p.seconds.IsPlain
  frames : p.frames = 0

theorem TimeParts.IsPlain.seconds_le {p : TimeParts} (h : p.IsPlain) : p.seconds.value ≤ 2 ^ 60 := by
  rcases h.seconds.2 with hzero | ⟨-, hlt⟩
  · rw [hzero]
    norm_num
  · exact hlt.le.trans (by norm_num)

namespace Time

theorem partsToken_toList (p : TimeParts) : (partsToken p).toList =
    fields (Decimal.padded 2 p.hours).toList (Decimal.padded 2 p.minutes).toList
      (Text.padLeft '0' 2 p.seconds.text.toList ++
        if p.frames = 0 then [] else ':' :: (Decimal.ofInt p.frames).toList) := by
  by_cases hframes : p.frames = 0 <;> simp [partsToken, fields, hframes, toString]

/-- Digits with an optional fraction are filled up with zeros in front of them. -/
theorem padLeft_plain (whole fraction : List Char) :
    ∃ k, Text.padLeft '0' 2 (plain whole fraction) = plain (List.replicate k '0' ++ whole) fraction :=
  ⟨2 - (plain whole fraction).length, by simp [Text.padLeft, plain]⟩

/-- Parts are written as a clock text just if they are plain. -/
theorem isClock_partsToken_iff (p : TimeParts) : isClock (partsToken p).toList = true ↔ p.IsPlain := by
  rw [partsToken_toList, isClock_fields_iff]
  constructor
  · rintro ⟨hh, hm, hs⟩
    have hmem {c : Char} (hc : c ∈ Text.padLeft '0' 2 p.seconds.text.toList) :
        c.isDigit = true ∨ c = '.' :=
      mem_of_isSecondsField hs (List.mem_append_left _ hc)
    refine ⟨hh, hm, Binary64.isPlain_of_text fun c hc => hmem (List.mem_append_right _ hc), ?_⟩
    by_contra hframes
    rw [if_neg hframes] at hs
    exact absurd (mem_of_isSecondsField (c := ':') hs (by simp)) (by decide)
  · rintro ⟨hh, hm, hs, hframes⟩
    obtain ⟨whole, fraction, htext, hspells⟩ := Binary64.spells_text hs
    obtain ⟨k, hpad⟩ := padLeft_plain whole fraction
    have hzeros := hspells.zeros k
    rw [if_pos hframes, List.append_nil, htext, hpad]
    exact ⟨hh, hm, isSecondsField_plain hzeros.ne_nil hzeros.whole_digits hzeros.fraction_digits⟩

theorem reads_partsToken {p : TimeParts} (h : p.IsPlain) (hh : p.hours ≤ 2 ^ 53)
    (hm : p.minutes ≤ 2 ^ 53) :
    Reads (partsToken p) (p.hours * 3600 + p.minutes * 60 + p.seconds.value) := by
  have hvalue := h.seconds_le
  obtain ⟨hh0, hm0, hs, hframes⟩ := h
  obtain ⟨whole, fraction, htext, hspells⟩ := Binary64.spells_text hs
  obtain ⟨k, hpad⟩ := padLeft_plain whole fraction
  have htoken := partsToken_toList p
  rw [if_pos hframes, List.append_nil, htext, hpad] at htoken
  obtain ⟨hours, hhours⟩ := Int.eq_ofNat_of_zero_le hh0
  obtain ⟨minutes, hminutes⟩ := Int.eq_ofNat_of_zero_le hm0
  rw [hhours] at hh htoken
  rw [hminutes] at hm htoken
  have hreads := reads_fields htoken (by exact_mod_cast hh) (by exact_mod_cast hm) (hspells.zeros k)
    (.self hs.1) hs.1.value_nonneg hvalue
  rw [hhours, hminutes]
  exact_mod_cast hreads

/-! ## Milliseconds -/

/-- Seconds and milliseconds, filled up with zeros, spell their ratio. -/
theorem rounds_milliseconds {seconds milliseconds : Nat} (hs : seconds < 60) (hm : milliseconds < 1000) :
    ∃ z, Spells (Decimal.padded 2 seconds).toList (Decimal.padded 3 milliseconds).toList z ∧
      z.Rounds (seconds + milliseconds / 1000) := by
  have hlength : (Decimal.padded 3 milliseconds).toList.length = 3 :=
    Decimal.length_padded (by decide) hm
  have hvalue : Decimal.ofDigits ((Decimal.padded 2 seconds).toList ++
      (Decimal.padded 3 milliseconds).toList) = 10 ^ 3 * seconds + milliseconds := by
    rw [Decimal.ofDigits_append, hlength, Decimal.ofDigits_padded, Decimal.ofDigits_padded]
  have hseconds := spells_padded 2 (n := seconds) (by omega)
  have hmilliseconds := spells_padded 3 (n := milliseconds) (by omega)
  have hspells : Spells (Decimal.padded 2 seconds).toList (Decimal.padded 3 milliseconds).toList
      (.ofRatio false ((10 ^ 3 * seconds + milliseconds) * unitsInOne) (10 ^ 3)) := by
    refine ⟨hseconds.ne_nil, hseconds.whole_digits, hmilliseconds.whole_digits, ?_, ?_, ?_⟩
    · rw [hlength]
      decide
    · rw [hvalue, hlength]
      exact lt_of_lt_of_le (b := 10 ^ 5) (by omega) (by norm_num)
    · rw [hvalue, hlength]
  refine ⟨_, hspells, ?_⟩
  have hrounds := hspells.rounds
  rw [hvalue, hlength] at hrounds
  have hratio : ((10 ^ 3 * seconds + milliseconds : Nat) : ℚ) / 10 ^ 3 =
      seconds + milliseconds / 1000 := by
    push_cast
    ring
  rwa [hratio] at hrounds

theorem ofMilliseconds_toList (total : Nat) : (ofMilliseconds total).toList =
    fields (Decimal.padded 2 (total / 3600000 : Nat)).toList
      (Decimal.padded 2 (total / 60000 % 60 : Nat)).toList
      (plain (Decimal.padded 2 (total / 1000 % 60 : Nat)).toList
        (Decimal.padded 3 (total % 1000 : Nat)).toList) := by
  have hne : (Decimal.padded 3 (total % 1000 : Nat)).toList ≠ [] :=
    (spells_padded 3 (by omega)).ne_nil
  rw [Number.plain_of_ne_nil _ hne]
  simp [ofMilliseconds, fields, toString]

/-- A count of milliseconds is read as what it counts. -/
theorem reads_ofMilliseconds {total : Nat} (h : total < 2 ^ 63) :
    Reads (ofMilliseconds total) (total / 1000) := by
  obtain ⟨z, hspells, hrounds⟩ := rounds_milliseconds (Nat.mod_lt (total / 1000) (by decide : 0 < 60))
    (Nat.mod_lt total (by decide : 0 < 1000))
  have hseconds : (((total / 1000 % 60 : Nat) : ℚ) + ((total % 1000 : Nat) : ℚ) / 1000) ≤ 2 ^ 60 := by
    have hs : ((total / 1000 % 60 : Nat) : ℚ) ≤ 60 := by exact_mod_cast (by omega)
    have hm : ((total % 1000 : Nat) : ℚ) ≤ 1000 := by exact_mod_cast (by omega)
    linarith
  have hreads := reads_fields (ofMilliseconds_toList total) (by omega) (by omega) hspells hrounds
    (by positivity) hseconds
  have htotal : ((total / 3600000 : Nat) : ℚ) * 3600 + (total / 60000 % 60 : Nat) * 60 +
      ((total / 1000 % 60 : Nat) + ((total % 1000 : Nat) : ℚ) / 1000) = total / 1000 := by
    have hsum : total = total / 3600000 * 3600000 + total / 60000 % 60 * 60000 +
        total / 1000 % 60 * 1000 + total % 1000 := by omega
    have hcast : (total : ℚ) = (total / 3600000 : Nat) * 3600000 + (total / 60000 % 60 : Nat) * 60000 +
        (total / 1000 % 60 : Nat) * 1000 + (total % 1000 : Nat) := by exact_mod_cast hsum
    rw [hcast]
    ring
  rwa [htotal] at hreads

/-! ## Times -/

/-- The times that are written as clock texts. -/
def IsPlain : Time → Prop
  | parts p => p.IsPlain
  | seconds _ | clock _ => True

/-- The times that the machine can count: the milliseconds of a number in 64 bits, the hours and the
    minutes of parts in 32. What is written for a number beyond (`llround`) is left open by the
    machine. -/
def Fits : Time → Prop
  | seconds n => (n * 1000).isFinite = true ∧ (n * 1000).roundAway < 2 ^ 63
  | clock _ => True
  | parts p => Integer.fits p.hours = true ∧ Integer.fits p.minutes = true

instance : DecidablePred Fits
  | seconds n => inferInstanceAs (Decidable ((n * 1000).isFinite = true ∧ (n * 1000).roundAway < 2 ^ 63))
  | clock _ => inferInstanceAs (Decidable True)
  | parts p => inferInstanceAs (Decidable (Integer.fits p.hours = true ∧ Integer.fits p.minutes = true))

/-- How far a time moves at most when it is written and read: half a millisecond for a number, and for
    all but a clock text the slips of the format. -/
def drift : Time → ℚ
  | seconds n => 1 / 2000 + (n.value + 1) / 2 ^ 48
  | clock _ => 0
  | parts p => ((partsSeconds p).value + 1) / 2 ^ 48

/-- Only a plain time can be read back. -/
theorem isPlain_of_token {b : Time} {y : Binary64} (h : (Time.clock b.token).toSeconds = .ok y) :
    b.IsPlain := by
  cases b with
  | seconds n => trivial
  | clock text => trivial
  | parts p =>
    rw [IsPlain, ← isClock_partsToken_iff]
    obtain ⟨_, hcheck, -⟩ := bind_eq_ok.mp h
    exact (demand_eq_ok.mp hcheck).1

/-- The value of a time and what its timestamp is read as: neither is below zero, and they are near. -/
structure ReadsBack (b : Time) (x y : Binary64) : Prop where
  isFinite : x.isFinite = true
  value_nonneg : 0 ≤ x.value
  nonneg : 0 ≤ y.value
  near : |y.value - x.value| ≤ b.drift

/-- The milliseconds of a number that is not negative are a count. -/
theorem exists_count {n : Binary64} (hfinite : n.isFinite = true) (hnonneg : 0 ≤ n.value)
    (hfit : (seconds n).Fits) : ∃ count : Nat, (n * 1000).roundAway = count ∧ count < 2 ^ 63 ∧
      |(count : ℚ) - n.value * 1000| ≤ 1 / 2 + (n.value * 1000 / 2 ^ 53 + 1 / 2 ^ 100) := by
  obtain ⟨hfinite', hlimit⟩ := hfit
  have hthousand := Binary64.value_ofInt (n := 1000) (by norm_num)
  have hvalue : (1000 : Binary64).value = 1000 := by exact_mod_cast hthousand.2
  have hproduct := Binary64.mul_near hfinite (y := 1000) hthousand.1.isFinite hfinite'
  have hround := Binary64.roundAway_near hfinite'
  rw [hvalue, Binary64.slip_of_nonneg (by linarith), abs_le] at hproduct
  rw [abs_le] at hround
  generalize (n * 1000).roundAway = total at *
  -- The rounded count is an integer and more than -1.
  have htotal : 0 ≤ total := by
    have hgreater : (-1 : ℚ) < total := by linarith
    have : -1 < total := by exact_mod_cast hgreater
    omega
  obtain ⟨count, rfl⟩ := Int.eq_ofNat_of_zero_le htotal
  rw [Int.cast_natCast] at hround
  refine ⟨count, rfl, by omega, abs_le.mpr ?_⟩
  constructor <;> linarith

/-- A number is rounded to milliseconds. -/
theorem readsBack_seconds {n : Binary64} (hcheck : checkNumber n = .ok ()) (hfit : (seconds n).Fits) :
    ∃ y, (Time.clock (ofMilliseconds (n * 1000).roundAway)).toSeconds = .ok y ∧
      (seconds n).ReadsBack n y := by
  obtain ⟨hfinite, hnonneg⟩ := checkNumber_eq_ok_iff.mp hcheck
  obtain ⟨count, hcount, hlimit, hround⟩ := exists_count hfinite hnonneg hfit
  obtain ⟨y, hy, hnear⟩ := reads_ofMilliseconds hlimit
  have hclose := hnear.near
  rw [abs_le] at hround hclose
  rw [hcount]
  refine ⟨y, hy, hfinite, hnonneg, hnear.isUnsigned.value_nonneg, ?_⟩
  rw [drift, abs_le]
  constructor <;> linarith

/-- Parts are written in full. -/
theorem readsBack_parts {p : TimeParts} (hplain : p.IsPlain) (hfit : (parts p).Fits) :
    ∃ y, (Time.clock (partsToken p)).toSeconds = .ok y ∧ (parts p).ReadsBack (partsSeconds p) y := by
  obtain ⟨hh, hm⟩ := hfit
  rw [Integer.fits, decide_eq_true_eq] at hh hm
  obtain ⟨y, hy, hread⟩ := reads_partsToken hplain (by omega) (by omega)
  obtain ⟨hours, hhours⟩ := Int.eq_ofNat_of_zero_le hplain.hours
  obtain ⟨minutes, hminutes⟩ := Int.eq_ofNat_of_zero_le hplain.minutes
  have hsum := Binary64.near_partsSeconds hhours hminutes (by omega) (by omega) hplain.seconds.1
    hplain.seconds_le
  have hnear := hsum.near
  have hclose := hread.near
  rw [hhours, hminutes] at hclose
  push_cast at hclose
  rw [abs_le] at hnear hclose
  refine ⟨y, hy, hsum.isUnsigned.isFinite, hsum.isUnsigned.value_nonneg, hread.isUnsigned.value_nonneg, ?_⟩
  rw [drift, abs_le]
  constructor <;> linarith

/-- A clock text is written as it is. -/
theorem readsBack_clock {text : String} {x : Binary64} (hx : (Time.clock text).toSeconds = .ok x) :
    (Time.clock text).ReadsBack x x := by
  have hcheck : checkNumber x = .ok () := by
    obtain ⟨_, -, hclock⟩ := bind_eq_ok.mp hx
    obtain ⟨sum, -, hsum⟩ := bind_eq_ok.mp hclock
    obtain ⟨_, hcheck, hpure⟩ := bind_eq_ok.mp hsum
    rwa [pure_eq_ok.mp hpure] at hcheck
  obtain ⟨hfinite, hnonneg⟩ := checkNumber_eq_ok_iff.mp hcheck
  exact ⟨hfinite, hnonneg, hnonneg, by simp [drift]⟩

/-- A plain time that passes the check is read back within its drift. -/
theorem toSeconds_token {b : Time} {x : Binary64} (hcheck : b.check = .ok ())
    (hx : b.toSeconds = .ok x) (hfit : b.Fits) (hplain : b.IsPlain) :
    ∃ y, (Time.clock b.token).toSeconds = .ok y ∧ b.ReadsBack x y := by
  cases b with
  | seconds n =>
    cases hx
    exact readsBack_seconds hcheck hfit
  | clock text => exact ⟨x, hx, readsBack_clock hx⟩
  | parts p =>
    rw [toSeconds, Except.ok.injEq] at hx
    subst hx
    exact readsBack_parts hplain hfit

/-- A time below several thousand years drifts by at most a millisecond. -/
theorem drift_le {b : Time} {x : Binary64} (hx : b.toSeconds = .ok x) (h : x.value ≤ 2 ^ 37) :
    b.drift ≤ 1 / 1000 := by
  cases b with
  | seconds n =>
    cases hx
    rw [drift]
    linarith
  | clock text => norm_num [drift]
  | parts p =>
    rw [toSeconds, Except.ok.injEq] at hx
    rw [drift, hx]
    linarith

end Time

end Montage
