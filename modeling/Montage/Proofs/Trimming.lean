import Montage.Proofs.Argument
import Montage.Proofs.Timestamp

/-!
# The span that a trim keeps

The check of a trim compares its bounds in seconds, and the arguments name them in timestamps. Read back,
the timestamps name a span. They can be read back only if the bounds are plain times: the check refuses
numbers and texts with a sign, and lets such parts pass. The span then is where the bounds are, up to
the drift of each, and it is not empty unless the bounds are closer than their drift.

* `Trim.span`: the span that the arguments name.
* `Trim.Keeps`: a span is where the bounds are, up to the drift of each.
* `Trim.MeetsClosely`: the same in milliseconds, for times that are not enormous.

Results:
* `Trim.span_eq`: the span, bound by bound.
* `Trim.near_of_not_lt`: start and duration meet the stop if all three are given.
* `Trim.Passes.keeps`: bounds that pass the check and are read back give a span that keeps them.
* `Trim.Keeps.meetsClosely`: times up to `2 ^ 37` seconds are met to the millisecond.
* `Trim.span_of_check`: a trim that passes its check keeps its span just if its bounds are plain.
-/

namespace Montage

/-- The seconds of the timestamp that an option has, if the option is there. -/
def Argument.timeOf (name : String) (arguments : List Argument) : Except Error (Option ℚ) :=
  match (values name arguments).head? with
  | none => .ok none
  | some token => do return some (← (Time.clock token).toSeconds).value

namespace Trim

open Argument (timeOf)

/-- A span of a medium in seconds: where it starts, and where it stops if that is said. -/
structure Span where
  start : ℚ
  stop : Option ℚ

/-! ## Arguments, read back -/

/-- The duration of a trim without a stop. -/
def lasting (t : Trim) : Option Time :=
  match t.stop with
  | some _ => none
  | none => t.duration

/-- The times that the arguments name. -/
def emitted (t : Trim) : List Time := t.start.toList ++ t.stop.toList ++ t.lasting.toList

/-- The span that the arguments name. A duration counts from the start, which is zero if not given. -/
def span (t : Trim) : Except Error Span := do
  let arguments := Argument.read t.arguments
  let start ← timeOf "-ss" arguments
  let stop ← timeOf "-to" arguments
  let duration ← timeOf "-t" arguments
  return ⟨start.getD 0, stop.or (duration.map (start.getD 0 + ·))⟩

/-- The seconds that the timestamp of a bound is read as. -/
def readBound : Option Time → Except Error (Option ℚ)
  | none => .ok none
  | some b => do return some (← (Time.clock b.token).toSeconds).value

theorem read_arguments (t : Trim) : Argument.read t.arguments =
    t.start.toList.map (fun b => .option "-ss" b.token) ++
      t.stop.toList.map (fun b => .option "-to" b.token) ++
      t.lasting.toList.map (fun b => .option "-t" b.token) := by
  have hss : "-ss" ∉ Argument.switches := by decide
  have hto : "-to" ∉ Argument.switches := by decide
  have ht : "-t" ∉ Argument.switches := by decide
  have hnil : Argument.read [] = [] := rfl
  obtain ⟨start, stop, duration⟩ := t
  cases start <;> cases stop <;> cases duration <;>
    simp [arguments, lasting, Argument.read_option hss, Argument.read_option hto,
      Argument.read_option ht, hnil]

/-- Each bound is read from the option of its own. -/
theorem span_eq (t : Trim) : t.span = do
    let start ← readBound t.start
    let stop ← readBound t.stop
    let duration ← readBound t.lasting
    return ⟨start.getD 0, stop.or (duration.map (start.getD 0 + ·))⟩ := by
  have hstart : timeOf "-ss" (Argument.read t.arguments) = readBound t.start := by
    rw [read_arguments]
    cases t.start <;> cases t.stop <;> cases t.lasting <;> rfl
  have hstop : timeOf "-to" (Argument.read t.arguments) = readBound t.stop := by
    rw [read_arguments]
    cases t.start <;> cases t.stop <;> cases t.lasting <;> rfl
  have hduration : timeOf "-t" (Argument.read t.arguments) = readBound t.lasting := by
    rw [read_arguments]
    cases t.start <;> cases t.stop <;> cases t.lasting <;> rfl
  unfold span
  dsimp only
  rw [hstart, hstop, hduration]

/-! ## Bounds -/

/-- How far a bound moves at most; one that is not given does not move. -/
def boundDrift (b : Option Time) : ℚ := (b.map Time.drift).getD 0

/-- What the timestamp of a bound is read as, beside the value of the bound. -/
structure Meets (b : Option Time) (x : Binary64) (r : Option ℚ) : Prop where
  isSome : r.isSome = b.isSome
  isFinite : x.isFinite = true
  value_nonneg : 0 ≤ x.value
  nonneg : 0 ≤ r.getD 0
  near : |r.getD 0 - x.value| ≤ boundDrift b

theorem isPlain_of_readBound {b : Option Time} {r : Option ℚ} (h : readBound b = .ok r) :
    ∀ a ∈ b, a.IsPlain := by
  rintro a rfl
  obtain ⟨y, hy, -⟩ := bind_eq_ok.mp h
  exact Time.isPlain_of_token hy

theorem readBound_of_isPlain {b : Option Time} {x : Binary64} (hx : boundSeconds b = .ok x)
    (hfit : ∀ a ∈ b, a.Fits) (hplain : ∀ a ∈ b, a.IsPlain) :
    ∃ r, readBound b = .ok r ∧ Meets b x r := by
  cases b with
  | none =>
    rw [boundSeconds, Except.ok.injEq] at hx
    subst hx
    refine ⟨none, rfl, rfl, Binary64.isUnsigned_zero.isFinite, Binary64.value_zero.ge, le_rfl, ?_⟩
    rw [Binary64.value_zero]
    simp [boundDrift]
  | some a =>
    obtain ⟨_, hcheck, hseconds⟩ := bind_eq_ok.mp hx
    obtain ⟨y, hy, hread⟩ := Time.toSeconds_token hcheck hseconds (hfit a rfl) (hplain a rfl)
    refine ⟨some y.value, ?_, rfl, hread.isFinite, hread.value_nonneg, hread.nonneg, hread.near⟩
    rw [readBound, hy]
    rfl

/-! ## The check -/

/-- What has to hold of the values of the bounds. -/
structure Passes (t : Trim) (x y z : Binary64) : Prop where
  start : boundSeconds t.start = .ok x
  stop : boundSeconds t.stop = .ok y
  duration : boundSeconds t.duration = .ok z
  after : t.stop.isSome = true → ¬ y ≤ x
  positive : t.duration.isSome = true → ¬ z ≤ 0
  agrees : t.start.isSome = true → t.stop.isSome = true → t.duration.isSome = true →
    ¬ tolerance < (x + z - y).abs

theorem check_ok {t : Trim} (h : t.check = .ok ()) : ∃ x y z, t.Passes x y z := by
  simp only [check, throw_eq_error, error_bind, pure_eq_ok, refuse_eq_ok, bind_eq_ok] at h
  obtain ⟨-, x, hx, y, hy, z, hz, hafter, hpositive, hagrees⟩ := h
  refine ⟨x, y, z, hx, hy, hz, ?_, ?_, ?_⟩
  · simpa using hafter
  · simpa using hpositive
  · simpa using hagrees

theorem rounds_tolerance : tolerance.Rounds (1 / 10 ^ 3) := by
  have htolerance : tolerance = (Number.ofDecimal false 1 (-((3 : Nat) : Int))).value := rfl
  have hrounds := Number.rounds_decimal (n := 1) (k := 3) (by norm_num)
  rw [htolerance, Number.ofDecimal_eq (by norm_num) (by norm_num)]
  dsimp only
  rwa [Nat.cast_one] at hrounds

/-- A number that is not more than the tolerance away from zero is finite, and small. -/
theorem small_of_not_lt {x : Binary64} (hx : x ≠ .nan) (h : ¬ tolerance < x.abs) :
    x.isFinite = true ∧ |x.value| ≤ tolerance.value := by
  have hfinite : x.isFinite = true := by
    cases x with
    | nan => exact absurd rfl hx
    | finite => rfl
    | infinity negative =>
      exact absurd (Binary64.lt_infinity rounds_tolerance.isUnsigned.isFinite) h
  rw [Binary64.lt_iff rounds_tolerance.isUnsigned.isFinite
    ((Binary64.isFinite_abs x).trans hfinite), Binary64.value_abs, not_lt] at h
  exact ⟨hfinite, h⟩

/-- Start and duration are only near to the stop if every sum on the way is finite. -/
theorem finite_of_not_lt {x y z : Binary64} (h : ¬ tolerance < (x + z - y).abs)
    (hx : x.isFinite = true) (hy : y.isFinite = true) (hz : z ≠ .nan) :
    (x + z + -y).isFinite = true ∧ (x + z).isFinite = true ∧ z.isFinite = true := by
  have hne {a : Binary64} (ha : a.isFinite = true) : a ≠ .nan := by
    rintro rfl
    cases ha
  have hneg : (-y).isFinite = true := (Binary64.isFinite_neg y).trans hy
  have hsum : x + z ≠ .nan := Binary64.add_ne_nan (hne hx) hz (.inl hx)
  have hlast := (small_of_not_lt (Binary64.add_ne_nan hsum (hne hneg) (.inr hneg)) h).1
  have hfirst := (Binary64.isFinite_of_add hlast).1
  exact ⟨hlast, hfirst, (Binary64.isFinite_of_add hfirst).2⟩

/-- Start and duration meet the stop, up to the tolerance. -/
theorem near_of_not_lt {x y z : Binary64} (h : ¬ tolerance < (x + z - y).abs)
    (hx : x.isFinite = true) (hy : y.isFinite = true) (hz : z ≠ .nan)
    (hxz : 0 ≤ x.value + z.value) :
    |x.value + z.value - y.value| ≤ 1 / 1000 + (x.value + z.value + 1) / 2 ^ 50 := by
  obtain ⟨hlast, hfirst, hz'⟩ := finite_of_not_lt h hx hy hz
  have hsmall : |(x + z + -y).value| ≤ tolerance.value := by
    refine (small_of_not_lt (x := x + z + -y) ?_ h).2
    intro hnan
    rw [hnan] at hlast
    cases hlast
  have hnear := Binary64.add_near hx hz' hfirst
  have hnear' := Binary64.add_near hfirst ((Binary64.isFinite_neg y).trans hy) hlast
  have htolerance := rounds_tolerance.near
  rw [Binary64.slip_of_nonneg hxz, abs_le] at hnear
  rw [Binary64.value_neg, Binary64.slip] at hnear'
  rw [Binary64.slip_of_nonneg (by norm_num), abs_le] at htolerance
  -- The difference is small, so that its own slip is too.
  have hmiddle : |(x + z).value + -y.value| ≤ 1 / 1000 + 1 / 2 ^ 51 := by
    have htriangle := abs_sub_abs_le_abs_sub ((x + z).value + -y.value) (x + z + -y).value
    rw [abs_sub_comm] at htriangle
    linarith
  rw [abs_le] at hmiddle ⊢
  constructor <;> linarith

/-! ## The span -/

theorem mem_emitted {t : Trim} {b : Time} :
    b ∈ t.emitted ↔ b ∈ t.start ∨ b ∈ t.stop ∨ b ∈ t.lasting := by
  simp [emitted, Option.mem_toList]

theorem isPlain_of_span {t : Trim} {w : Span} (h : t.span = .ok w) : ∀ b ∈ t.emitted, b.IsPlain := by
  rw [span_eq] at h
  obtain ⟨_, hstart, h⟩ := bind_eq_ok.mp h
  obtain ⟨_, hstop, h⟩ := bind_eq_ok.mp h
  obtain ⟨_, hduration, -⟩ := bind_eq_ok.mp h
  intro b hb
  rcases mem_emitted.mp hb with hb | hb | hb
  · exact isPlain_of_readBound hstart b hb
  · exact isPlain_of_readBound hstop b hb
  · exact isPlain_of_readBound hduration b hb

/-- Plain bounds are read back, each near to its value. -/
theorem span_of_isPlain {t : Trim} {x y z : Binary64} (h : t.Passes x y z)
    (hfit : ∀ b ∈ t.emitted, b.Fits) (hplain : ∀ b ∈ t.emitted, b.IsPlain) :
    ∃ start stop duration,
      t.span = .ok ⟨start.getD 0, stop.or (duration.map (start.getD 0 + ·))⟩ ∧
      Meets t.start x start ∧ Meets t.stop y stop ∧ (t.stop = none → Meets t.lasting z duration) := by
  have hlasting : boundSeconds t.lasting = .ok (if t.stop = none then z else 0) := by
    unfold lasting
    cases hstop : t.stop with
    | none => rw [if_pos rfl, h.duration]
    | some e => rw [if_neg (by simp)]; rfl
  obtain ⟨start, hstart, hstart'⟩ := readBound_of_isPlain h.start
    (fun b hb => hfit b (mem_emitted.mpr (.inl hb))) fun b hb => hplain b (mem_emitted.mpr (.inl hb))
  obtain ⟨stop, hstop, hstop'⟩ := readBound_of_isPlain h.stop
    (fun b hb => hfit b (mem_emitted.mpr (.inr (.inl hb))))
    fun b hb => hplain b (mem_emitted.mpr (.inr (.inl hb)))
  obtain ⟨duration, hduration, hduration'⟩ := readBound_of_isPlain hlasting
    (fun b hb => hfit b (mem_emitted.mpr (.inr (.inr hb))))
    fun b hb => hplain b (mem_emitted.mpr (.inr (.inr hb)))
  refine ⟨start, stop, duration, ?_, hstart', hstop', fun hnone => ?_⟩
  · rw [span_eq, hstart, hstop, hduration]
    rfl
  · rwa [if_pos hnone] at hduration'

/-- The value of a bound in seconds; zero if it is not given. -/
def boundValue (b : Option Time) : ℚ :=
  match boundSeconds b with
  | .ok x => x.value
  | .error _ => 0

theorem boundValue_eq {b : Option Time} {x : Binary64} (h : boundSeconds b = .ok x) :
    boundValue b = x.value := by
  rw [boundValue, h]

/-- A span is where the bounds of a trim are, up to their drift. It is empty only if the bounds are closer
    than that. If all three bounds are given, and the duration is a number, it has this duration, up
    to a millisecond more; beside a stop without a start, the duration counts for nothing. -/
structure Keeps (t : Trim) (w : Span) : Prop where
  start_nonneg : 0 ≤ w.start
  start_near : |w.start - boundValue t.start| ≤ boundDrift t.start
  stop_near : t.stop.isSome = true → ∃ r ∈ w.stop, |r - boundValue t.stop| ≤ boundDrift t.stop ∧
    (w.start < r ∨
      boundValue t.stop - boundValue t.start ∈ Set.Ioc 0 (boundDrift t.start + boundDrift t.stop))
  duration_near : t.stop = none → t.duration.isSome = true → ∃ r ∈ w.stop,
    |r - w.start - boundValue t.duration| ≤ boundDrift t.duration ∧
      (w.start < r ∨ boundValue t.duration ∈ Set.Ioc 0 (boundDrift t.duration))
  duration_agrees : t.start.isSome = true → t.stop.isSome = true → t.duration.isSome = true →
    boundSeconds t.duration ≠ .ok .nan → ∃ r ∈ w.stop, |r - w.start - boundValue t.duration| ≤
      1 / 1000 + boundDrift t.start + boundDrift t.stop +
        (boundValue t.start + boundValue t.duration + 1) / 2 ^ 50

theorem Meets.some {b : Option Time} {x : Binary64} {r : Option ℚ} (h : Meets b x r)
    (hb : b.isSome = true) : ∃ v, r = some v ∧ 0 ≤ v ∧ |v - x.value| ≤ boundDrift b := by
  obtain ⟨v, rfl⟩ := Option.isSome_iff_exists.mp (h.isSome.trans hb)
  exact ⟨v, rfl, h.nonneg, h.near⟩

section Parts

variable {t : Trim} {x y z : Binary64} {start stop duration : Option ℚ}

/-- The stop is where it was given, and after the start unless the two are close. -/
theorem Passes.stop_near (h : t.Passes x y z) (hstart : Meets t.start x start)
    (hstop : Meets t.stop y stop) (hsome : t.stop.isSome = true) :
    ∃ r ∈ stop, |r - y.value| ≤ boundDrift t.stop ∧
      (start.getD 0 < r ∨ y.value - x.value ∈ Set.Ioc 0 (boundDrift t.start + boundDrift t.stop)) := by
  obtain ⟨r, rfl, -, hr⟩ := hstop.some hsome
  have hafter := h.after hsome
  rw [Binary64.le_iff hstop.isFinite hstart.isFinite, not_le] at hafter
  have hs := hstart.near
  refine ⟨r, rfl, hr, (lt_or_ge (start.getD 0) r).imp_right fun hle => ?_⟩
  rw [abs_le] at hs hr
  exact ⟨by linarith, by linarith⟩

/-- The span lasts as long as the duration, and some time unless that is short. -/
theorem Passes.duration_near (h : t.Passes x y z) (hnone : t.stop = none)
    (hduration : Meets t.lasting z duration) (hsome : t.duration.isSome = true) (s : ℚ) :
    ∃ r ∈ duration.map (s + ·), |r - s - z.value| ≤ boundDrift t.duration ∧
      (s < r ∨ z.value ∈ Set.Ioc 0 (boundDrift t.duration)) := by
  have hlasting : t.lasting = t.duration := by rw [lasting, hnone]
  rw [hlasting] at hduration
  obtain ⟨d, rfl, -, hd⟩ := hduration.some hsome
  have hpositive := h.positive hsome
  rw [Binary64.le_iff hduration.isFinite (y := 0) Binary64.isUnsigned_zero.isFinite,
    Binary64.value_zero, not_le] at hpositive
  refine ⟨s + d, rfl, by rwa [add_sub_cancel_left], ?_⟩
  rcases lt_or_ge 0 d with hpos | hle
  · exact .inl (lt_add_of_pos_right s hpos)
  · rw [abs_le] at hd
    exact .inr ⟨hpositive, by linarith⟩

/-- If all three bounds are given, the span lasts as long as the duration. -/
theorem Passes.duration_agrees (h : t.Passes x y z) (hstart : Meets t.start x start)
    (hstop : Meets t.stop y stop) (hstart' : t.start.isSome = true) (hstop' : t.stop.isSome = true)
    (hduration' : t.duration.isSome = true) (hz : z ≠ .nan) :
    ∃ r ∈ stop, |r - start.getD 0 - z.value| ≤ 1 / 1000 + boundDrift t.start + boundDrift t.stop +
      (x.value + z.value + 1) / 2 ^ 50 := by
  obtain ⟨r, rfl, -, hr⟩ := hstop.some hstop'
  have hpass := h.agrees hstart' hstop' hduration'
  obtain ⟨-, -, hfinite⟩ := finite_of_not_lt hpass hstart.isFinite hstop.isFinite hz
  have hpositive := h.positive hduration'
  rw [Binary64.le_iff hfinite (y := 0) Binary64.isUnsigned_zero.isFinite,
    Binary64.value_zero, not_le] at hpositive
  have hsum := near_of_not_lt hpass hstart.isFinite hstop.isFinite hz
    (add_nonneg hstart.value_nonneg hpositive.le)
  have hs := hstart.near
  refine ⟨r, rfl, ?_⟩
  rw [abs_le] at hs hr hsum ⊢
  constructor <;> linarith

/-- Bounds that pass the check and are read back give a span that keeps them. -/
theorem Passes.keeps (h : t.Passes x y z) (hstart : Meets t.start x start)
    (hstop : Meets t.stop y stop) (hduration : t.stop = none → Meets t.lasting z duration) :
    t.Keeps ⟨start.getD 0, stop.or (duration.map (start.getD 0 + ·))⟩ := by
  have hx := boundValue_eq h.start
  have hy := boundValue_eq h.stop
  have hz := boundValue_eq h.duration
  constructor
  · exact hstart.nonneg
  · rw [hx]
    exact hstart.near
  · intro hsome
    obtain ⟨r, hr, hnear⟩ := h.stop_near hstart hstop hsome
    rw [hx, hy]
    exact ⟨r, by simp [Option.mem_def.mp hr], hnear⟩
  · intro hnone hsome
    obtain ⟨r, hr, hnear⟩ := h.duration_near hnone (hduration hnone) hsome (start.getD 0)
    have hstop' : stop = none := by
      rw [← Option.not_isSome_iff_eq_none, hstop.isSome, hnone]
      simp
    rw [hz]
    exact ⟨r, by rwa [hstop', Option.none_or], hnear⟩
  · intro hstart' hstop' hduration' hnumber
    obtain ⟨r, hr, hnear⟩ := h.duration_agrees hstart hstop hstart' hstop' hduration' fun hnan =>
      hnumber (by rw [h.duration, hnan])
    rw [hx, hz]
    exact ⟨r, by simp [Option.mem_def.mp hr], hnear⟩

end Parts

/-! ## Milliseconds -/

/-- No bound is beyond `2 ^ 37` seconds, which is more than four thousand years. -/
def IsModerate (t : Trim) : Prop := ∀ b ∈ [t.start, t.stop, t.duration], boundValue b ≤ 2 ^ 37

/-- A span meets every bound that it is made of within a millisecond, and so within 0.002 s. A duration
    beside both other bounds is not written: it was compared with them, up to a millisecond, and each
    of them moves. -/
structure MeetsClosely (t : Trim) (w : Span) : Prop where
  start : |w.start - boundValue t.start| ≤ 1 / 1000
  stop : t.stop.isSome = true → ∃ r ∈ w.stop, |r - boundValue t.stop| ≤ 1 / 1000
  duration : t.stop = none → t.duration.isSome = true →
    ∃ r ∈ w.stop, |r - w.start - boundValue t.duration| ≤ 1 / 1000
  beside : t.start.isSome = true → t.stop.isSome = true → t.duration.isSome = true →
    boundSeconds t.duration ≠ .ok .nan →
    ∃ r ∈ w.stop, |r - w.start - boundValue t.duration| ≤ 1 / 300

theorem boundDrift_le {b : Option Time} {x : Binary64} (hx : boundSeconds b = .ok x)
    (h : boundValue b ≤ 2 ^ 37) : boundDrift b ≤ 1 / 1000 := by
  rw [boundValue_eq hx] at h
  cases b with
  | none => norm_num [boundDrift]
  | some a =>
    obtain ⟨_, -, hseconds⟩ := bind_eq_ok.mp hx
    exact Time.drift_le hseconds h

/-- Times up to `2 ^ 37` seconds are met to the millisecond. -/
theorem Keeps.meetsClosely {t : Trim} {x y z : Binary64} {w : Span} (h : t.Keeps w)
    (hpass : t.Passes x y z) (hmoderate : t.IsModerate) : t.MeetsClosely w := by
  have hs := hmoderate t.start (by simp)
  have hd := hmoderate t.duration (by simp)
  have hstart := boundDrift_le hpass.start hs
  have hstop := boundDrift_le hpass.stop (hmoderate t.stop (by simp))
  have hduration := boundDrift_le hpass.duration hd
  constructor
  · exact h.start_near.trans hstart
  · intro hsome
    obtain ⟨r, hr, hnear, -⟩ := h.stop_near hsome
    exact ⟨r, hr, hnear.trans hstop⟩
  · intro hnone hsome
    obtain ⟨r, hr, hnear, -⟩ := h.duration_near hnone hsome
    exact ⟨r, hr, hnear.trans hduration⟩
  · intro hstart' hstop' hduration' hnumber
    obtain ⟨r, hr, hnear⟩ := h.duration_agrees hstart' hstop' hduration' hnumber
    refine ⟨r, hr, hnear.trans ?_⟩
    have hslips : (boundValue t.start + boundValue t.duration + 1) / 2 ^ 50 ≤ 3 / 10000 := by
      rw [div_le_iff₀ (by positivity)]
      linarith
    linarith

/-- **A trim keeps the span that its check accepted.** A trim that passes its check can be read back just
    if the bounds that it names are plain times: parts with a sign, with seconds that are written with
    an exponent or that are no number, are accepted and cannot be read. What is read is the span of the
    bounds, up to the drift of each, and to the millisecond unless the times are enormous.

    The times that are written have to fit the machine words. Beyond them nothing is said of what is
    written: no count of milliseconds is defined for a number, and there are no such parts. -/
theorem span_of_check {t : Trim} (h : t.check = .ok ()) (hfit : ∀ b ∈ t.emitted, b.Fits) :
    ((∃ w, t.span = .ok w) ↔ ∀ b ∈ t.emitted, b.IsPlain) ∧
      ∀ w, t.span = .ok w → t.Keeps w ∧ (t.IsModerate → t.MeetsClosely w) := by
  obtain ⟨x, y, z, hpass⟩ := check_ok h
  refine ⟨⟨fun ⟨w, hw⟩ => isPlain_of_span hw, fun hplain => ?_⟩, fun w hw => ?_⟩
  · obtain ⟨_, _, _, hspan, -⟩ := span_of_isPlain hpass hfit hplain
    exact ⟨_, hspan⟩
  · obtain ⟨start, stop, duration, hspan, hstart, hstop, hduration⟩ :=
      span_of_isPlain hpass hfit (isPlain_of_span hw)
    rw [hw, Except.ok.injEq] at hspan
    subst hspan
    have hkeeps := hpass.keeps hstart hstop hduration
    exact ⟨hkeeps, hkeeps.meetsClosely hpass⟩

/-- A start in parts, a stop as a text and a duration as a number. -/
theorem span_of_check_three_bounds :
    let t : Trim :=
      { start := some (.parts { minutes := 1, seconds := 1.5 }), stop := some (.clock "00:02:00"),
        duration := some (.seconds 58.5) }
    t.arguments = ["-ss", "00:01:1.5", "-to", "00:02:00"] ∧ t.check = .ok () ∧
      ∃ w, t.span = .ok w ∧ t.Keeps w ∧ t.MeetsClosely w := by
  intro t
  have hcheck : t.check = .ok () := by decide +kernel
  have hfit : ∀ b ∈ t.emitted, b.Fits := by decide +kernel
  have hplain : ∀ b ∈ t.emitted, b.IsPlain := by
    intro b hb
    rcases mem_emitted.mp hb with hb | hb | hb
    · cases hb
      exact (Time.isClock_partsToken_iff _).mp (by decide +kernel)
    · cases hb
      trivial
    · cases hb
  have hbound {b : Option Time} {x : Binary64} (hx : boundSeconds b = .ok x) (hle : x ≤ 200)
      (hfinite : x.isFinite = true) : boundValue b ≤ 2 ^ 37 := by
    have hlimit := Binary64.value_ofInt (n := 200) (by norm_num)
    have hvalue : (200 : Binary64).value = 200 := by exact_mod_cast hlimit.2
    rw [Binary64.le_iff hfinite (y := 200) hlimit.1.isFinite, hvalue] at hle
    rw [boundValue_eq hx]
    linarith
  have hmoderate : t.IsModerate := by
    intro b hb
    simp only [List.mem_cons, List.not_mem_nil, or_false] at hb
    rcases hb with rfl | rfl | rfl
    · exact hbound (x := 61.5) (by decide +kernel) (by decide +kernel) (by decide +kernel)
    · exact hbound (x := 120) (by decide +kernel) (by decide +kernel) (by decide +kernel)
    · exact hbound (x := 58.5) (by decide +kernel) (by decide +kernel) (by decide +kernel)
  obtain ⟨hread, hkeeps⟩ := span_of_check hcheck hfit
  obtain ⟨w, hw⟩ := hread.mpr hplain
  obtain ⟨hkept, hclose⟩ := hkeeps w hw
  exact ⟨by decide +kernel, hcheck, w, hw, hkept, hclose hmoderate⟩

/-- An hour before zero passes the check and cannot be read back. -/
theorem negative_start_is_not_read :
    let t : Trim := { start := some (.parts { hours := -1 }) }
    t.check = .ok () ∧ t.arguments = ["-ss", "-1:00:00"] ∧ ∀ w, t.span ≠ .ok w := by
  intro t
  have hcheck : t.check = .ok () := by decide +kernel
  refine ⟨hcheck, by decide +kernel, fun w hw => ?_⟩
  have hplain := isPlain_of_span hw (.parts { hours := -1 }) List.mem_cons_self
  exact absurd hplain.hours (by decide)

end Trim

end Montage
