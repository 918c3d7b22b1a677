import Mathlib.Data.Real.Basic
import Montage.Operation.Speed
import Montage.Proofs.Check
import Montage.Proofs.Exact

/-!
# Tempo stages

A factor is halved as long as it is above the fastest stage and doubled as long as it is below the slowest
one. Both are exact, so that the stages multiply to the factor, but for a rest that is left out because it
is near one. The stages are as few as any numbers between the two limits with their product.

* `Speed.Peels`: a loop that takes stages off a tempo, without a bound on its steps.
* `Speed.Outcome`: the three ways in which the two loops can end.
* `Speed.Decomposes`: what the stages of a factor are.

Results:
* `Speed.peels_peel`: the bounded loop ends as the unbounded one if its fuel is enough.
* `Speed.Peels.spec`: what a loop keeps.
* `Speed.outcome_of_peels`: the stages that the loops take off are all of one kind.
* `Speed.Outcome.length_le`: no numbers between the limits with the same product are fewer.
* `Speed.stages_decompose`: the stages of every factor that passes the check.
-/

namespace Montage.Speed

/-! ## The limits -/

theorem value_fastest : fastest.isFinite = true ∧ fastest.value = 2 := by
  have htwo := Binary64.value_ofInt (n := 2) (by norm_num)
  exact ⟨htwo.1.isFinite, by exact_mod_cast htwo.2⟩

theorem value_slowest : slowest.isFinite = true ∧ slowest.value = 1 / 2 := by
  have hunits : slowest.order = some ((unitsInOne / 2 : Nat) : Int) := by decide +kernel
  have hhalf : unitsInOne / 2 * 2 = unitsInOne := by decide +kernel
  have hone : (unitsInOne : ℚ) ≠ 0 := by exact_mod_cast unitsInOne_pos.ne'
  have hhalf' : (((unitsInOne / 2 : Nat) : Int) : ℚ) * 2 = unitsInOne := by exact_mod_cast hhalf
  have hfinite : slowest.isFinite = true := by decide +kernel
  obtain ⟨negative, m, heq⟩ := Binary64.isFinite_iff.mp hfinite
  refine ⟨hfinite, ?_⟩
  rw [heq] at hunits ⊢
  have hsigned : Binary64.signedUnits negative m = ((unitsInOne / 2 : Nat) : Int) :=
    Option.some.inj hunits
  rw [Binary64.value, hsigned, div_eq_div_iff hone two_ne_zero, hhalf', one_mul]

/-- A finite number above zero. -/
structure IsTempo (t : Binary64) : Prop where
  isFinite : t.isFinite = true
  pos : 0 < t.value

/-- What the first loop halves. -/
def isFast (t : Binary64) : Bool := decide (fastest < t)

/-- What the second loop doubles. -/
def isSlow (t : Binary64) : Bool := decide (t < slowest)

variable {f t rest : Binary64} {stages : List Binary64}

theorem isFast_iff (ht : t.isFinite = true) : isFast t = true ↔ 2 < t.value := by
  rw [isFast, decide_eq_true_eq, Binary64.lt_iff value_fastest.1 ht, value_fastest.2]

theorem isSlow_iff (ht : t.isFinite = true) : isSlow t = true ↔ t.value < 1 / 2 := by
  rw [isSlow, decide_eq_true_eq, Binary64.lt_iff ht value_slowest.1, value_slowest.2]

/-! ## A loop -/

/-- What a loop takes off a tempo as long as it is beyond a limit, and what is left. -/
inductive Peels (isBeyond : Binary64 → Bool) (stage : Binary64) :
    Binary64 → List Binary64 → Binary64 → Prop
  | done {t : Binary64} : isBeyond t = false → Peels isBeyond stage t [] t
  | take {t rest : Binary64} {stages : List Binary64} : isBeyond t = true →
      Peels isBeyond stage (t / stage) stages rest → Peels isBeyond stage t (stage :: stages) rest

/-- Every tempo beyond the limit is divided by the stage without rounding. -/
def IsExact (isBeyond : Binary64 → Bool) (stage : Binary64) : Prop :=
  ∀ ⦃t : Binary64⦄, IsTempo t → isBeyond t = true →
    IsTempo (t / stage) ∧ (t / stage).value = t.value / stage.value

variable {isBeyond : Binary64 → Bool} {stage : Binary64}

/-- The bounded loop ends as the unbounded one if its fuel is enough, that is if none is needed once
    there is none, and every step needs one unit of it. -/
theorem peels_peel (enough : Nat → Binary64 → Prop)
    (hzero : ∀ t, enough 0 t → isBeyond t = false)
    (hstep : ∀ fuel t, enough (fuel + 1) t → isBeyond t = true → enough fuel (t / stage))
    (fuel : Nat) (t : Binary64) (h : enough fuel t) :
    Peels isBeyond stage t (peel isBeyond stage fuel t).1 (peel isBeyond stage fuel t).2 := by
  induction fuel generalizing t with
  | zero => exact .done (hzero t h)
  | succ fuel ih =>
    rw [peel]
    by_cases hbeyond : isBeyond t = true
    · rw [if_pos hbeyond]
      exact .take hbeyond (ih _ (hstep fuel t h hbeyond))
    · rw [if_neg hbeyond]
      exact .done (Bool.eq_false_of_not_eq_true hbeyond)

/-- What a loop takes off and what it leaves multiply to the tempo. -/
theorem Peels.spec (h : Peels isBeyond stage t stages rest) (hexact : IsExact isBeyond stage)
    (hstage : stage.value ≠ 0) (ht : IsTempo t) :
    IsTempo rest ∧ isBeyond rest = false ∧ stages = List.replicate stages.length stage ∧
      t.value = stage.value ^ stages.length * rest.value := by
  induction h with
  | done hbeyond =>
    refine ⟨ht, hbeyond, rfl, ?_⟩
    rw [List.length_nil, pow_zero, one_mul]
  | @take t rest stages hbeyond _ ih =>
    obtain ⟨ht', hvalue⟩ := hexact ht hbeyond
    obtain ⟨hrest, hdone, hall, hproduct⟩ := ih ht'
    refine ⟨hrest, hdone, ?_, ?_⟩
    · rw [List.length_cons, List.replicate_succ, ← hall]
    · rw [hvalue, div_eq_iff hstage] at hproduct
      rw [hproduct, List.length_cons]
      ring

/-- A loop leaves the tempo alone, or it divides last what is beyond the limit. -/
theorem Peels.last (h : Peels isBeyond stage t stages rest) (hexact : IsExact isBeyond stage)
    (ht : IsTempo t) : (isBeyond t = false ∧ stages = [] ∧ rest = t) ∨
      (isBeyond t = true ∧ stages ≠ [] ∧
        ∃ before, IsTempo before ∧ isBeyond before = true ∧ rest.value = before.value / stage.value) := by
  induction h with
  | done hbeyond => exact .inl ⟨hbeyond, rfl, rfl⟩
  | @take t rest stages hbeyond _ ih =>
    obtain ⟨ht', hvalue⟩ := hexact ht hbeyond
    refine .inr ⟨hbeyond, List.cons_ne_nil _ _, ?_⟩
    rcases ih ht' with ⟨-, -, hrest⟩ | ⟨-, -, hbefore⟩
    · exact ⟨t, ht, hbeyond, by rw [hrest, hvalue]⟩
    · exact hbefore

/-! ## Both loops -/

theorem isExact_fast : IsExact isFast fastest := by
  intro t ht hfast
  have hpos := ht.pos
  have hlarge := (isFast_iff ht.isFinite).mp hfast
  have hholds : Binary64.Holds (t.value / fastest.value) := by
    rw [value_fastest.2]
    exact (Binary64.holds_value ht.isFinite).half (by rw [abs_of_pos hpos]; exact hlarge.le)
  obtain ⟨hfinite, hvalue⟩ := Binary64.div_exact ht.isFinite value_fastest.1
    (by rw [value_fastest.2]; norm_num) hholds
  refine ⟨⟨hfinite, ?_⟩, hvalue⟩
  rw [hvalue, value_fastest.2]
  exact half_pos hpos

theorem isExact_slow : IsExact isSlow slowest := by
  intro t ht hslow
  have hpos := ht.pos
  have hsmall := (isSlow_iff ht.isFinite).mp hslow
  have hdouble : t.value / slowest.value = t.value * 2 := by
    rw [value_slowest.2]
    ring
  have hholds : Binary64.Holds (t.value / slowest.value) := by
    rw [hdouble]
    exact (Binary64.holds_value ht.isFinite).double (by rw [abs_of_pos hpos]; linarith)
  obtain ⟨hfinite, hvalue⟩ := Binary64.div_exact ht.isFinite value_slowest.1
    (by rw [value_slowest.2]; norm_num) hholds
  refine ⟨⟨hfinite, ?_⟩, hvalue⟩
  rw [hvalue, hdouble]
  exact mul_pos hpos two_pos

theorem unitLimit_eq_pow : unitLimit = 2 ^ 1024 * unitsInOne := by decide +kernel

/-- The powers of two that the format spans above one and below it. -/
theorem IsTempo.bounds (ht : IsTempo t) : t.value ≤ 2 ^ 1024 ∧ 1 ≤ t.value * 2 ^ 1074 := by
  obtain ⟨m, hm⟩ := Binary64.holds_value ht.isFinite
  rw [abs_of_pos ht.pos] at hm
  have hone : (0 : ℚ) < unitsInOne := by exact_mod_cast unitsInOne_pos
  have hlimit : (m.units : ℚ) ≤ 2 ^ 1024 * unitsInOne := by
    exact_mod_cast (m.lt_limit.trans_eq unitLimit_eq_pow).le
  have hpow : (unitsInOne : ℚ) = 2 ^ 1074 := by rw [unitsInOne_eq_pow, Nat.cast_pow, Nat.cast_ofNat]
  have hunits : 1 ≤ m.units := by
    have hpos : (0 : ℚ) < m.units := hm ▸ mul_pos ht.pos hone
    exact_mod_cast hpos
  constructor
  · rw [← hm] at hlimit
    exact le_of_mul_le_mul_right hlimit hone
  · rw [← hpow, hm]
    exact_mod_cast hunits

/-- A thousand and some steps are enough for the first loop. -/
theorem peels_fast (ht : IsTempo t) {fuel : Nat} (hfuel : 1024 ≤ fuel) :
    Peels isFast fastest t (peel isFast fastest fuel t).1 (peel isFast fastest fuel t).2 := by
  refine peels_peel (fun fuel t => IsTempo t ∧ t.value ≤ 2 * 2 ^ fuel) ?_ ?_ _ _ ⟨ht, ?_⟩
  · rintro t ⟨ht, hle⟩
    rw [pow_zero, mul_one] at hle
    rw [← Bool.not_eq_true, isFast_iff ht.isFinite]
    exact not_lt.mpr hle
  · rintro fuel t ⟨ht, hle⟩ hfast
    obtain ⟨ht', hvalue⟩ := isExact_fast ht hfast
    refine ⟨ht', ?_⟩
    rw [hvalue, value_fastest.2, div_le_iff₀ two_pos, mul_assoc, ← pow_succ]
    exact hle
  · have hpow : (2 ^ 1024 : ℚ) ≤ 2 ^ fuel := pow_le_pow_right₀ one_le_two hfuel
    exact (ht.bounds.1.trans hpow).trans (le_mul_of_one_le_left (by positivity) one_le_two)

/-- They are enough for the second loop. -/
theorem peels_slow (ht : IsTempo t) {fuel : Nat} (hfuel : 1074 ≤ fuel) :
    Peels isSlow slowest t (peel isSlow slowest fuel t).1 (peel isSlow slowest fuel t).2 := by
  refine peels_peel (fun fuel t => IsTempo t ∧ 1 / 2 ≤ t.value * 2 ^ fuel) ?_ ?_ _ _ ⟨ht, ?_⟩
  · rintro t ⟨ht, hle⟩
    rw [pow_zero, mul_one] at hle
    rw [← Bool.not_eq_true, isSlow_iff ht.isFinite]
    exact not_lt.mpr hle
  · rintro fuel t ⟨ht, hle⟩ hslow
    obtain ⟨ht', hvalue⟩ := isExact_slow ht hslow
    refine ⟨ht', ?_⟩
    rw [hvalue, value_slowest.2, div_mul_eq_mul_div, le_div_iff₀ (by norm_num)]
    rw [pow_succ] at hle
    linarith
  · have hpow : (2 ^ 1074 : ℚ) ≤ 2 ^ fuel := pow_le_pow_right₀ one_le_two hfuel
    have hone := ht.bounds.2.trans (mul_le_mul_of_nonneg_left hpow ht.pos.le)
    exact le_trans (by norm_num) hone

/-- How the two loops can end: nothing is taken off a factor between the limits; twos are taken off a
    larger one, halves off a smaller one, and what is left lies on the same side of one. -/
inductive Outcome (f : Binary64) : List Binary64 → Binary64 → Prop
  | within : 1 / 2 ≤ f.value → f.value ≤ 2 → Outcome f [] f
  | fast {k : Nat} {rest : Binary64} : 2 < f.value → f.value = 2 ^ (k + 1) * rest.value →
      1 < rest.value → rest.value ≤ 2 → Outcome f (List.replicate (k + 1) fastest) rest
  | slow {k : Nat} {rest : Binary64} : f.value < 1 / 2 → f.value = (1 / 2) ^ (k + 1) * rest.value →
      1 / 2 ≤ rest.value → rest.value < 1 → Outcome f (List.replicate (k + 1) slowest) rest

theorem outcome_of_peels {fast slow : List Binary64} {middle : Binary64} (hf : IsTempo f)
    (hfast : Peels isFast fastest f fast middle) (hslow : Peels isSlow slowest middle slow rest) :
    IsTempo rest ∧ Outcome f (fast ++ slow) rest := by
  have hfastest : fastest.value ≠ 0 := by rw [value_fastest.2]; norm_num
  have hslowest : slowest.value ≠ 0 := by rw [value_slowest.2]; norm_num
  obtain ⟨hmiddle, hmiddle', hfast', hfastvalue⟩ := hfast.spec isExact_fast hfastest hf
  obtain ⟨hrest, hrest', hslow', hslowvalue⟩ := hslow.spec isExact_slow hslowest hmiddle
  rw [← Bool.not_eq_true, isFast_iff hmiddle.isFinite, not_lt] at hmiddle'
  rw [← Bool.not_eq_true, isSlow_iff hrest.isFinite, not_lt] at hrest'
  rw [value_fastest.2] at hfastvalue
  rw [value_slowest.2] at hslowvalue
  refine ⟨hrest, ?_⟩
  rcases hfast.last isExact_fast hf with ⟨hnot, rfl, rfl⟩ | ⟨hbeyond, hne, before, hbefore, hlarge, hvalue⟩
  · rw [List.nil_append]
    rcases hslow.last isExact_slow hmiddle with
      ⟨-, rfl, rfl⟩ | ⟨hbeyond, hne, before, hbefore, hsmall, hvalue⟩
    · exact .within hrest' hmiddle'
    · rw [isSlow_iff hmiddle.isFinite] at hbeyond
      rw [isSlow_iff hbefore.isFinite] at hsmall
      rw [value_slowest.2] at hvalue
      obtain ⟨k, hk⟩ := Nat.exists_eq_add_one_of_ne_zero (List.length_eq_zero_iff.not.mpr hne)
      rw [hk] at hslow' hslowvalue
      rw [hslow']
      exact .slow hbeyond hslowvalue hrest' (by rw [hvalue]; linarith)
  · rw [isFast_iff hf.isFinite] at hbeyond
    rw [isFast_iff hbefore.isFinite] at hlarge
    rw [value_fastest.2] at hvalue
    -- What a halving leaves is above one, so that the second loop does not start.
    have hone : 1 < middle.value := by rw [hvalue]; linarith
    rcases hslow.last isExact_slow hmiddle with ⟨-, rfl, rfl⟩ | ⟨hbeyond', -, -⟩
    · obtain ⟨k, hk⟩ := Nat.exists_eq_add_one_of_ne_zero (List.length_eq_zero_iff.not.mpr hne)
      rw [hk] at hfast' hfastvalue
      rw [List.append_nil, hfast']
      exact .fast hbeyond hfastvalue hone hmiddle'
    · rw [isSlow_iff hmiddle.isFinite] at hbeyond'
      linarith

/-! ## The stages -/

/-- What is left is a stage of its own unless it is near one. -/
def remainder (rest : Binary64) : List Binary64 :=
  if unityTolerance < (rest - 1).abs then [rest] else []

/-- The product of the stages, without rounding. -/
def product (stages : List Binary64) : ℚ := (stages.map (·.value)).prod

/-- A number that the audio filter takes. -/
structure InRange (x : Binary64) : Prop where
  isFinite : x.isFinite = true
  slowest_le : 1 / 2 ≤ x.value
  le_fastest : x.value ≤ 2

/-- The distance of a number from one, if that is held without rounding. -/
theorem remainder_cases (h : InRange rest) :
    (remainder rest = [rest] ∧ unityTolerance.value < |rest.value - 1|) ∨
      (remainder rest = [] ∧ |rest.value - 1| ≤ unityTolerance.value) := by
  have hone := Binary64.value_ofInt (n := 1) (by norm_num)
  have hone' : (1 : Binary64).value = 1 := by exact_mod_cast hone.2
  have hholds := (Binary64.holds_value h.isFinite).sub_one h.slowest_le h.le_fastest
  obtain ⟨hfinite, hvalue⟩ := Binary64.sub_exact h.isFinite (y := 1) hone.1.isFinite (by rwa [hone'])
  have hlt : unityTolerance < (rest - 1).abs ↔ unityTolerance.value < |rest.value - 1| := by
    rw [Binary64.lt_iff (by decide +kernel) ((Binary64.isFinite_abs _).trans hfinite),
      Binary64.value_abs, hvalue, hone']
  by_cases hfar : unityTolerance < (rest - 1).abs
  · exact .inl ⟨if_pos hfar, hlt.mp hfar⟩
  · exact .inr ⟨if_neg hfar, not_lt.mp (hlt.not.mp hfar)⟩

theorem unityTolerance_pos : 0 < unityTolerance.value := by
  have hlt : (0 : Binary64) < unityTolerance := by decide +kernel
  rwa [Binary64.lt_iff Binary64.isUnsigned_zero.isFinite (by decide +kernel), Binary64.value_zero] at hlt

/-- The stages are what both loops take off and the remainder; that a factor of one has none is no
    exception. -/
theorem tempoStages_eq (hf : IsTempo f) : ∃ fast middle slow rest, Peels isFast fastest f fast middle ∧
    Peels isSlow slowest middle slow rest ∧ tempoStages f = fast ++ slow ++ remainder rest := by
  by_cases hone : f.same 1 = true
  · have hvalue : f.value = 1 := by
      have h := Binary64.value_ofInt (n := 1) (by norm_num)
      rw [Binary64.same_iff hf.isFinite (y := 1) h.1.isFinite] at hone
      exact hone.trans (by exact_mod_cast h.2)
    have hfast : isFast f = false := by
      rw [← Bool.not_eq_true, isFast_iff hf.isFinite, hvalue]
      norm_num
    have hslow : isSlow f = false := by
      rw [← Bool.not_eq_true, isSlow_iff hf.isFinite, hvalue]
      norm_num
    refine ⟨[], f, [], f, .done hfast, .done hslow, ?_⟩
    have hnear : |f.value - 1| ≤ unityTolerance.value := by
      rw [hvalue, sub_self, abs_zero]
      exact unityTolerance_pos.le
    have hrange : InRange f := ⟨hf.isFinite, by rw [hvalue]; norm_num, by rw [hvalue]; norm_num⟩
    rcases remainder_cases hrange with ⟨-, hfar⟩ | ⟨hnone, -⟩
    · exact absurd hfar (not_lt.mpr hnear)
    · rw [hnone, tempoStages, if_pos hone]
      rfl
  · obtain ⟨fuel, hfuel, henough⟩ : ∃ fuel, mostStages = fuel ∧ 1074 ≤ fuel := ⟨_, rfl, by decide⟩
    have hfast := peels_fast hf (show 1024 ≤ fuel by omega)
    have hmiddle := (hfast.spec isExact_fast (by rw [value_fastest.2]; norm_num) hf).1
    have hslow := peels_slow hmiddle henough
    rw [tempoStages, if_neg hone, hfuel]
    exact ⟨_, _, _, _, hfast, hslow, rfl⟩

/-! ## Few stages -/

theorem prod_le_two_pow {l : List ℝ} (h : ∀ x ∈ l, 0 ≤ x ∧ x ≤ 2) :
    0 ≤ l.prod ∧ l.prod ≤ 2 ^ l.length := by
  induction l with
  | nil => exact ⟨zero_le_one, le_rfl⟩
  | cons x l ih =>
    obtain ⟨hnonneg, hle⟩ := h x List.mem_cons_self
    obtain ⟨hnonneg', hle'⟩ := ih fun y hy => h y (List.mem_cons_of_mem _ hy)
    rw [List.prod_cons, List.length_cons, pow_succ']
    exact ⟨mul_nonneg hnonneg hnonneg', mul_le_mul hle hle' hnonneg' zero_le_two⟩

/-- Numbers up to two are at least as many as the twos in their product, and more if the product is
    larger. -/
theorem length_le_of_prod {l : List ℝ} (h : ∀ x ∈ l, 0 ≤ x ∧ x ≤ 2) {n : Nat} {r : ℝ}
    (hprod : l.prod = 2 ^ n * r) : (1 ≤ r → n ≤ l.length) ∧ (1 < r → n < l.length) := by
  have hle := (prod_le_two_pow h).2
  have hpow : (0 : ℝ) < 2 ^ n := by positivity
  rw [hprod] at hle
  constructor
  · intro hr
    exact (pow_le_pow_iff_right₀ one_lt_two).mp ((le_mul_of_one_le_right hpow.le hr).trans hle)
  · intro hr
    exact (pow_lt_pow_iff_right₀ one_lt_two).mp ((lt_mul_of_one_lt_right hpow hr).trans_le hle)

/-- The same of halves, by way of the inverses. -/
theorem length_le_of_prod_half {l : List ℝ} (h : ∀ x ∈ l, 1 / 2 ≤ x ∧ x ≤ 2) {n : Nat} {r : ℝ}
    (hr : 0 < r) (hprod : l.prod = (1 / 2) ^ n * r) :
    (r ≤ 1 → n ≤ l.length) ∧ (r < 1 → n < l.length) := by
  have hinverse : ∀ x ∈ l.map fun x => x⁻¹, 0 ≤ x ∧ x ≤ 2 := by
    intro x hx
    obtain ⟨y, hy, rfl⟩ := List.mem_map.mp hx
    obtain ⟨hlow, -⟩ := h y hy
    refine ⟨inv_nonneg.mpr (by linarith), ?_⟩
    rw [inv_le_comm₀ (by linarith) two_pos, inv_eq_one_div]
    exact hlow
  have hproduct : (l.map fun x => x⁻¹).prod = 2 ^ n * r⁻¹ := by
    rw [← List.prod_inv, hprod, mul_inv, ← inv_pow, one_div, inv_inv]
  obtain ⟨hle, hlt⟩ := length_le_of_prod hinverse hproduct
  rw [List.length_map] at hle hlt
  exact ⟨fun h => hle ((one_le_inv₀ hr).mpr h), fun h => hlt ((one_lt_inv₀ hr).mpr h)⟩

theorem product_append (xs ys : List Binary64) : product (xs ++ ys) = product xs * product ys := by
  rw [product, List.map_append, List.prod_append, product, product]

theorem product_replicate (k : Nat) (x : Binary64) : product (List.replicate k x) = x.value ^ k := by
  rw [product, List.map_replicate, List.prod_replicate]

theorem product_singleton (x : Binary64) : product [x] = x.value := List.prod_singleton

variable {peeled : List Binary64}

theorem Outcome.inRange (h : Outcome f peeled rest) (hrest : IsTempo rest) : InRange rest := by
  cases h with
  | within hlow hhigh => exact ⟨hrest.isFinite, hlow, hhigh⟩
  | fast _ _ hlow hhigh => exact ⟨hrest.isFinite, by linarith, hhigh⟩
  | slow _ _ hlow hhigh => exact ⟨hrest.isFinite, hlow, by linarith⟩

/-- What is taken off and what is left multiply to the factor. -/
theorem Outcome.value_eq (h : Outcome f peeled rest) : f.value = product peeled * rest.value := by
  cases h with
  | within => exact (one_mul _).symm
  | fast _ hvalue => rw [hvalue, product_replicate, value_fastest.2]
  | slow _ hvalue => rw [hvalue, product_replicate, value_slowest.2]

/-- What is taken off is in range. -/
theorem Outcome.peeled_inRange (h : Outcome f peeled rest) {x : Binary64} (hx : x ∈ peeled) :
    InRange x := by
  cases h with
  | within => cases hx
  | fast =>
    rw [List.eq_of_mem_replicate hx]
    exact ⟨value_fastest.1, by rw [value_fastest.2]; norm_num, value_fastest.2.le⟩
  | slow =>
    rw [List.eq_of_mem_replicate hx]
    exact ⟨value_slowest.1, value_slowest.2.ge, by rw [value_slowest.2]; norm_num⟩

/-- No numbers between the limits with the same product are fewer. -/
theorem Outcome.length_le (h : Outcome f peeled rest) (hrest : IsTempo rest) {l : List ℝ}
    (hl : ∀ x ∈ l, 1 / 2 ≤ x ∧ x ≤ 2) (hprod : l.prod = (product (peeled ++ remainder rest) : ℚ)) :
    (peeled ++ remainder rest).length ≤ l.length := by
  have hsplit := remainder_cases (h.inRange hrest)
  rw [product_append, Rat.cast_mul] at hprod
  rw [List.length_append]
  cases h with
  | within =>
    rcases hsplit with ⟨hlast, hfar⟩ | ⟨hnone, -⟩
    · rw [hlast]
      refine List.length_pos_of_ne_nil fun hnil => ?_
      rw [hnil, hlast, product_singleton, List.prod_nil] at hprod
      have hone : f.value = 1 := by
        rw [product, List.map_nil, List.prod_nil, Rat.cast_one, one_mul] at hprod
        exact_mod_cast hprod.symm
      rw [hone, sub_self, abs_zero] at hfar
      exact absurd hfar (not_lt.mpr unityTolerance_pos.le)
    · rw [hnone]
      exact Nat.zero_le _
  | @fast k _ _ _ hone _ =>
    rw [product_replicate, value_fastest.2] at hprod
    push_cast at hprod
    obtain ⟨hle, hlt⟩ := length_le_of_prod (fun x hx => ⟨by linarith [(hl x hx).1], (hl x hx).2⟩) hprod
    rw [List.length_replicate]
    rcases hsplit with ⟨hlast, -⟩ | ⟨hnone, -⟩
    · rw [hlast] at hlt ⊢
      exact hlt (by rw [product_singleton]; exact_mod_cast hone)
    · rw [hnone] at hle ⊢
      exact hle (by norm_num [product])
  | @slow k _ _ _ _ hone =>
    rw [product_replicate, value_slowest.2] at hprod
    push_cast at hprod
    rw [List.length_replicate]
    rcases hsplit with ⟨hlast, -⟩ | ⟨hnone, -⟩
    · rw [hlast, product_singleton] at hprod
      have hpos : (0 : ℝ) < rest.value := by exact_mod_cast hrest.pos
      rw [hlast]
      exact (length_le_of_prod_half hl hpos hprod).2 (by exact_mod_cast hone)
    · rw [hnone, product, List.map_nil, List.prod_nil, Rat.cast_one] at hprod
      rw [hnone]
      exact (length_le_of_prod_half hl one_pos hprod).1 le_rfl

/-- What the stages of a factor are: what the loops take off it and, unless it is near one, what they
    leave. -/
structure Decomposes (f : Binary64) (peeled : List Binary64) (rest : Binary64)
    (stages : List Binary64) : Prop where
  stages_eq : stages = peeled ++ remainder rest
  inRange : ∀ x ∈ stages, InRange x
  fast : 2 < f.value → ∀ x ∈ stages.dropLast, x = fastest
  slow : f.value < 1 / 2 → ∀ x ∈ stages.dropLast, x = slowest
  single : 1 / 2 ≤ f.value → f.value ≤ 2 → stages.length ≤ 1
  apart : ¬ (2 ∈ stages.map (·.value) ∧ 1 / 2 ∈ stages.map (·.value))
  product_eq : product stages = f.value ∨ (stages = peeled ∧ f.value / product stages = rest.value ∧
    |rest.value - 1| ≤ unityTolerance.value)
  shortest : ∀ l : List ℝ, (∀ x ∈ l, 1 / 2 ≤ x ∧ x ≤ 2) → l.prod = (product stages : ℚ) →
    stages.length ≤ l.length

theorem mem_remainder {x : Binary64} (hx : x ∈ remainder rest) : x = rest := by
  unfold remainder at hx
  split at hx
  · exact List.mem_singleton.mp hx
  · cases hx

theorem mem_peeled_of_mem_dropLast {x : Binary64} (hx : x ∈ (peeled ++ remainder rest).dropLast) :
    x ∈ peeled := by
  unfold remainder at hx
  split at hx
  · rwa [List.dropLast_concat] at hx
  · rw [List.append_nil] at hx
    exact List.mem_of_mem_dropLast hx

/-- More stages than one lie on the same side of one. -/
theorem Outcome.same_side (h : Outcome f peeled rest) : peeled = [] ∨
    (∀ x ∈ peeled ++ remainder rest, 1 < x.value) ∨ ∀ x ∈ peeled ++ remainder rest, x.value < 1 := by
  cases h with
  | within => exact .inl rfl
  | fast _ _ hone _ =>
    refine .inr (.inl fun x hx => ?_)
    rcases List.mem_append.mp hx with hx | hx
    · rw [List.eq_of_mem_replicate hx, value_fastest.2]
      norm_num
    · rwa [mem_remainder hx]
  | slow _ _ _ hone =>
    refine .inr (.inr fun x hx => ?_)
    rcases List.mem_append.mp hx with hx | hx
    · rw [List.eq_of_mem_replicate hx, value_slowest.2]
      norm_num
    · rwa [mem_remainder hx]

/-- A two and a half do not occur together. -/
theorem Outcome.apart (h : Outcome f peeled rest) :
    ¬ (2 ∈ (peeled ++ remainder rest).map (·.value) ∧
      1 / 2 ∈ (peeled ++ remainder rest).map (·.value)) := by
  rintro ⟨htwo, hhalf⟩
  obtain ⟨x, hx, hx'⟩ := List.mem_map.mp htwo
  obtain ⟨y, hy, hy'⟩ := List.mem_map.mp hhalf
  rcases h.same_side with rfl | hside | hside
  · have hsame : x = y := (mem_remainder hx).trans (mem_remainder hy).symm
    rw [hsame, hy'] at hx'
    norm_num at hx'
  · have := hside y hy
    rw [hy'] at this
    norm_num at this
  · have := hside x hx
    rw [hx'] at this
    norm_num at this

theorem Outcome.product_eq (h : Outcome f peeled rest) (hf : IsTempo f) (hrest : IsTempo rest) :
    product (peeled ++ remainder rest) = f.value ∨ (peeled ++ remainder rest = peeled ∧
      f.value / product (peeled ++ remainder rest) = rest.value ∧
      |rest.value - 1| ≤ unityTolerance.value) := by
  have hvalue := h.value_eq
  rcases remainder_cases (h.inRange hrest) with ⟨hlast, -⟩ | ⟨hnone, hnear⟩
  · left
    rw [hlast, product_append, product_singleton, hvalue]
  · right
    have hne : product peeled ≠ 0 := by
      intro hzero
      rw [hzero, zero_mul] at hvalue
      exact absurd hvalue hf.pos.ne'
    rw [hnone, List.append_nil]
    exact ⟨rfl, by rw [hvalue, mul_div_cancel_left₀ _ hne], hnear⟩

theorem Outcome.decomposes (h : Outcome f peeled rest) (hf : IsTempo f) (hrest : IsTempo rest) :
    Decomposes f peeled rest (peeled ++ remainder rest) where
  stages_eq := rfl
  inRange x hx := by
    rcases List.mem_append.mp hx with hx | hx
    · exact h.peeled_inRange hx
    · rw [mem_remainder hx]
      exact h.inRange hrest
  fast hlarge x hx := by
    have hmem := mem_peeled_of_mem_dropLast hx
    cases h with
    | within _ hhigh => exact absurd hlarge (not_lt.mpr hhigh)
    | fast => exact List.eq_of_mem_replicate hmem
    | slow hsmall => linarith
  slow hsmall x hx := by
    have hmem := mem_peeled_of_mem_dropLast hx
    cases h with
    | within hlow => exact absurd hsmall (not_lt.mpr hlow)
    | fast hlarge => linarith
    | slow => exact List.eq_of_mem_replicate hmem
  single hlow hhigh := by
    cases h with
    | within =>
      rcases remainder_cases ⟨hf.isFinite, hlow, hhigh⟩ with ⟨hlast, -⟩ | ⟨hnone, -⟩
      · rw [hlast, List.nil_append, List.length_singleton]
      · rw [hnone]
        exact Nat.zero_le _
    | fast hlarge => exact absurd hlarge (not_lt.mpr hhigh)
    | slow hsmall => exact absurd hsmall (not_lt.mpr hlow)
  apart := h.apart
  product_eq := h.product_eq hf hrest
  shortest _ hl hprod := h.length_le hrest hl hprod

/-! ## Factors that pass the check -/

theorem check_eq_ok_iff (s : Speed) : s.check = .ok () ↔ IsTempo s.factor := by
  rw [check, demand_eq_ok]
  constructor
  · rintro ⟨⟨hpos, hfinite⟩, -⟩
    rw [Binary64.lt_iff Binary64.isUnsigned_zero.isFinite hfinite, Binary64.value_zero] at hpos
    exact ⟨hfinite, hpos⟩
  · rintro ⟨hfinite, hpos⟩
    refine ⟨⟨?_, hfinite⟩, rfl⟩
    rwa [Binary64.lt_iff Binary64.isUnsigned_zero.isFinite hfinite, Binary64.value_zero]

/-- **Every factor is decomposed.** The check passes the finite numbers above zero. For each of them both
    loops end, and the stages are in range, of one kind but for the last, never a two beside a half, and
    as few as numbers in range with their product can be; they multiply to the factor, or the rest that
    was left out is near one. -/
theorem stages_decompose (s : Speed) :
    (s.check = .ok () ↔ s.factor.isFinite = true ∧ 0 < s.factor.value) ∧
    (s.check = .ok () → ∃ fast middle slow rest, Peels isFast fastest s.factor fast middle ∧
      Peels isSlow slowest middle slow rest ∧ Decomposes s.factor (fast ++ slow) rest s.stages) := by
  refine ⟨(check_eq_ok_iff s).trans ⟨fun h => ⟨h.1, h.2⟩, fun h => ⟨h.1, h.2⟩⟩, fun hcheck => ?_⟩
  have hf := (check_eq_ok_iff s).mp hcheck
  obtain ⟨fast, middle, slow, rest, hfast, hslow, hstages⟩ := tempoStages_eq hf
  obtain ⟨hrest, houtcome⟩ := outcome_of_peels hf hfast hslow
  refine ⟨fast, middle, slow, rest, hfast, hslow, ?_⟩
  rw [stages, hstages]
  exact houtcome.decomposes hf hrest

/-- A factor that three halvings bring between the limits. -/
theorem stages_decompose_nine :
    let s : Speed := ⟨9⟩
    s.check = .ok () ∧ s.stages = [2, 2, 2, 1.125] ∧ ∃ fast middle slow rest,
      Peels isFast fastest 9 fast middle ∧ Peels isSlow slowest middle slow rest ∧
        Decomposes 9 (fast ++ slow) rest s.stages := by
  intro s
  have hcheck : s.check = .ok () := by decide +kernel
  exact ⟨hcheck, by decide +kernel, (stages_decompose s).2 hcheck⟩

end Montage.Speed
