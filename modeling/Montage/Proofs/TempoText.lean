import Montage.Proofs.Numeral
import Montage.Proofs.Path
import Montage.Proofs.Tempo

/-!
# Written tempos

The video filter of a speed has the factor as it is, the audio filter the stages as decimals with four
places or one. What the decimals denote stays between the limits, and their product is near to the factor:
the stages that are taken off a factor are written without rounding, so that only the last stage or one
that was left out makes a difference, however many stages there are.

* `Decimal.value?`: what a decimal denotes, without rounding.
* `Binary64.fixedCount`: a number as a count of its last decimal place.
* `Speed.tempos`: reads the tempos of an audio filter.
* `Speed.shownTempo`: the tempo that is written for a stage.

Results:
* `Binary64.value?_fixed`, `Binary64.fixedCount_near`: what is written with fixed places.
* `Speed.tempos_audioFilter`: the tempos of the audio filter are those of the stages.
* `Speed.exists_last`: only the last tempo differs from what it stands for.
* `Speed.audio_matches_video`: the tempos multiply to the speed of the video.
-/

namespace Montage

/-! ## Decimals -/

open Number (plain readMantissa)

/-- What digits with an optional fraction denote, without rounding. -/
def Decimal.value? (cs : List Char) : Option ℚ :=
  match readMantissa Char.isDigit cs with
  | some (whole, fraction, []) => some (ofDigits (whole ++ fraction) / 10 ^ fraction.length)
  | _ => none

theorem Number.mem_plain {whole fraction : List Char} {c : Char} (h : c ∈ plain whole fraction) :
    c ∈ whole ∨ c = '.' ∨ c ∈ fraction := by
  by_cases hnil : fraction = []
  · rw [hnil, Number.plain_nil] at h
    exact .inl h
  · rw [Number.plain_of_ne_nil _ hnil, List.mem_append, List.mem_cons] at h
    exact h

theorem Decimal.value?_plain {whole fraction : List Char} (hne : whole ≠ [])
    (hw : ∀ c ∈ whole, c.isDigit = true) (hf : ∀ c ∈ fraction, c.isDigit = true) :
    value? (plain whole fraction) = some ((ofDigits (whole ++ fraction) : ℚ) / 10 ^ fraction.length) := by
  have hread := Number.readMantissa_plain [] hne hw hf (by simp)
  rw [List.append_nil] at hread
  rw [value?, hread]

namespace Binary64

/-- A number without its sign as a count of its last decimal place, rounded. -/
def fixedCount (places : Nat) : Binary64 → Nat
  | finite _ m => roundDiv (m.units * 10 ^ places) unitsInOne
  | _ => 0

variable {x : Binary64} {places : Nat}

theorem IsUnsigned.fixed_toList (hx : x.IsUnsigned) (hplaces : 0 < places) :
    (x.fixed places).toList = plain (Decimal.digits (x.fixedCount places / 10 ^ places))
      (Decimal.padded places (x.fixedCount places % 10 ^ places : Nat)).toList := by
  obtain ⟨m, rfl⟩ := hx
  have hfraction : (Decimal.padded places (fixedCount places (finite false m) % 10 ^ places : Nat)).toList ≠ [] := by
    rw [← List.length_pos_iff]
    exact hplaces.trans_le (Decimal.le_length_padded _ _)
  rw [Number.plain_of_ne_nil _ hfraction, Decimal.padded_toList, fixed, String.toList_ofList]
  simp only [Nat.pow_eq, if_neg hplaces.ne']
  rfl

/-- What is written with fixed places denotes the count of the last of them. -/
theorem IsUnsigned.value?_fixed (hx : x.IsUnsigned) (hplaces : 0 < places) :
    Decimal.value? (x.fixed places).toList = some ((x.fixedCount places : ℚ) / 10 ^ places) := by
  have hlt : x.fixedCount places % 10 ^ places < 10 ^ places := Nat.mod_lt _ (Nat.pow_pos (by decide))
  have hlength := Decimal.length_padded hplaces hlt
  have hne : Decimal.digits (x.fixedCount places / 10 ^ places) ≠ [] := Nat.toDigits_ne_nil
  rw [hx.fixed_toList hplaces, Decimal.value?_plain hne
    (fun c hc => Decimal.isDigit_of_mem_digits hc) (fun c hc => Decimal.isDigit_of_mem_padded hc), hlength,
    Decimal.ofDigits_append, hlength, Decimal.ofDigits_digits, Decimal.ofDigits_padded, Nat.div_add_mod]

theorem IsUnsigned.fixedCount_near (hx : x.IsUnsigned) (places : Nat) :
    |(x.fixedCount places : ℚ) - x.value * 10 ^ places| ≤ 1 / 2 := by
  obtain ⟨m, rfl⟩ := hx
  have hround := roundDiv_near (m.units * 10 ^ places) unitsInOne_pos
  rwa [Nat.cast_mul, Nat.cast_pow, Nat.cast_ofNat, mul_div_right_comm, ← value_unsigned] at hround

theorem IsUnsigned.eq_of_same {y : Binary64} (hx : x.IsUnsigned) (hy : y.IsUnsigned)
    (h : x.same y = true) : x = y := by
  obtain ⟨m, rfl⟩ := hx
  obtain ⟨n, rfl⟩ := hy
  have hunits : (m.units : Int) = n.units := of_decide_eq_true h
  obtain ⟨units, hspacing, hlimit⟩ := m
  obtain ⟨units', hspacing', hlimit'⟩ := n
  obtain rfl : units = units' := Int.ofNat_inj.mp hunits
  rfl

/-- A number between two counts is rounded to one between them. -/
theorem IsUnsigned.fixedCount_bounds (hx : x.IsUnsigned) {low high : Nat}
    (hlow : (low : ℚ) ≤ x.value * 10 ^ places) (hhigh : x.value * 10 ^ places ≤ high) :
    low ≤ x.fixedCount places ∧ x.fixedCount places ≤ high := by
  have hnear := abs_le.mp (hx.fixedCount_near places)
  have hlow' : (low : ℚ) < x.fixedCount places + 1 := by linarith
  have hhigh' : (x.fixedCount places : ℚ) < high + 1 := by linarith
  exact ⟨Nat.lt_succ_iff.mp (by exact_mod_cast hlow'), Nat.lt_succ_iff.mp (by exact_mod_cast hhigh')⟩

end Binary64

/-! ## Reading tempos -/

namespace Text

/-- Pieces without the separator are found again between the separators. -/
theorem splitOn_intercalate {separator : Char} {pieces : List (List Char)} (hne : pieces ≠ [])
    (h : ∀ piece ∈ pieces, separator ∉ piece) :
    splitOn separator ([separator].intercalate pieces) = pieces := by
  induction pieces with
  | nil => exact absurd rfl hne
  | cons piece pieces ih =>
    have hpiece := splitOn_of_notMem (h piece List.mem_cons_self)
    cases pieces with
    | nil => rw [List.intercalate_singleton, hpiece]
    | cons next pieces =>
      have hrest := ih (List.cons_ne_nil _ _) fun p hp => h p (List.mem_cons_of_mem _ hp)
      rw [List.intercalate_cons_cons, List.append_assoc, List.singleton_append, splitOn_append, hpiece,
        hrest, List.singleton_append]

end Text

namespace Speed

/-- Reads one part of an audio filter. -/
def tempo? (part : List Char) : Option ℚ :=
  if "atempo=".toList <+: part then Decimal.value? (part.drop 7) else none

/-- Reads the tempos of an audio filter. -/
def tempos (filter : List Char) : Option (List ℚ) :=
  if filter = [] then some [] else (Text.splitOn ',' filter).mapM tempo?

/-- The tempo that is written for a stage. -/
def shownTempo (stage : Binary64) : ℚ :=
  if stage.same fastest then 2 else if stage.same slowest then 1 / 2 else stage.fixedCount 4 / 10 ^ 4

variable {f rest stage : Binary64} {peeled stages : List Binary64}

theorem IsTempo.isUnsigned (h : IsTempo stage) : stage.IsUnsigned := by
  obtain ⟨negative, m, rfl⟩ := Binary64.isFinite_iff.mp h.isFinite
  cases negative with
  | false => exact ⟨m, rfl⟩
  | true =>
    have hpos := h.pos
    have hneg : Binary64.finite true m = -Binary64.finite false m := rfl
    rw [hneg, Binary64.value_neg, neg_pos] at hpos
    exact absurd hpos (not_lt.mpr (Binary64.IsUnsigned.value_nonneg ⟨m, rfl⟩))

theorem InRange.isTempo (h : InRange stage) : IsTempo stage :=
  ⟨h.isFinite, lt_of_lt_of_le (by norm_num) h.slowest_le⟩

theorem same_fastest_iff (h : stage.isFinite = true) : stage.same fastest = true ↔ stage.value = 2 := by
  rw [Binary64.same_iff h value_fastest.1, value_fastest.2]

theorem same_slowest_iff (h : stage.isFinite = true) : stage.same slowest = true ↔ stage.value = 1 / 2 := by
  rw [Binary64.same_iff h value_slowest.1, value_slowest.2]

theorem value?_two : Decimal.value? "2.0".toList = some 2 := by decide +kernel

theorem value?_half : Decimal.value? "0.5".toList = some (1 / 2) := by decide +kernel

theorem InRange.value?_stageText (h : InRange stage) :
    Decimal.value? (stageText stage).toList = some (shownTempo stage) := by
  unfold stageText shownTempo
  split
  · exact value?_two
  split
  · exact value?_half
  · exact h.isTempo.isUnsigned.value?_fixed (by decide)

/-- The limits are written as they are, and all else is rounded. -/
theorem InRange.shownTempo_cases (h : InRange stage) : shownTempo stage = stage.value ∨
    shownTempo stage = stage.fixedCount 4 / 10 ^ 4 := by
  unfold shownTempo
  split
  · exact .inl ((same_fastest_iff h.isFinite).mp ‹_›).symm
  split
  · exact .inl ((same_slowest_iff h.isFinite).mp ‹_›).symm
  · exact .inr rfl

/-- Rounding leaves a stage between the limits. -/
theorem InRange.shownTempo_bounds (h : InRange stage) :
    1 / 2 ≤ shownTempo stage ∧ shownTempo stage ≤ 2 := by
  have hlow := h.slowest_le
  have hhigh := h.le_fastest
  rcases h.shownTempo_cases with hshown | hshown
  · rw [hshown]
    exact ⟨hlow, hhigh⟩
  · have hcount : 5000 ≤ stage.fixedCount 4 ∧ stage.fixedCount 4 ≤ 20000 :=
      h.isTempo.isUnsigned.fixedCount_bounds (by norm_num; linarith) (by norm_num; linarith)
    obtain ⟨hlow', hhigh'⟩ := hcount
    have hlow'' : (5000 : ℚ) ≤ stage.fixedCount 4 := by exact_mod_cast hlow'
    have hhigh'' : (stage.fixedCount 4 : ℚ) ≤ 20000 := by exact_mod_cast hhigh'
    rw [hshown, le_div_iff₀ (by norm_num), div_le_iff₀ (by norm_num)]
    constructor <;> linarith

theorem InRange.shownTempo_near (h : InRange stage) :
    |shownTempo stage - stage.value| ≤ 1 / 20000 := by
  rcases h.shownTempo_cases with hshown | hshown
  · rw [hshown, sub_self, abs_zero]
    norm_num
  · have hnear := abs_le.mp (h.isTempo.isUnsigned.fixedCount_near 4)
    rw [hshown, abs_le]
    constructor <;> linarith

/-! ## The audio filter -/

theorem InRange.comma_notMem (h : InRange stage) : ',' ∉ (stageText stage).toList := by
  unfold stageText
  split
  · decide
  split
  · decide
  rw [h.isTempo.isUnsigned.fixed_toList (by decide)]
  intro hmem
  rcases Number.mem_plain hmem with hc | hc | hc
  · exact absurd (Decimal.isDigit_of_mem_digits hc) (by decide)
  · exact absurd hc (by decide)
  · exact absurd (Decimal.isDigit_of_mem_padded hc) (by decide)

/-- One part of the audio filter. -/
def stagePart (stage : Binary64) : List Char := "atempo=".toList ++ (stageText stage).toList

theorem InRange.tempo?_stagePart (h : InRange stage) : tempo? (stagePart stage) = some (shownTempo stage) := by
  have hdrop : (stagePart stage).drop 7 = (stageText stage).toList := rfl
  have hfront : "atempo=".toList <+: stagePart stage := List.prefix_append _ _
  rw [tempo?, if_pos hfront, hdrop, h.value?_stageText]

theorem mapM_tempo? (h : ∀ stage ∈ stages, InRange stage) :
    (stages.map stagePart).mapM tempo? = some (stages.map shownTempo) := by
  induction stages with
  | nil => rfl
  | cons stage stages ih =>
    rw [List.map_cons, List.mapM_cons, (h stage List.mem_cons_self).tempo?_stagePart,
      ih fun x hx => h x (List.mem_cons_of_mem _ hx)]
    rfl

theorem audioFilter_toList (s : Speed) :
    s.audioFilter.toList = [','].intercalate (s.stages.map stagePart) := by
  have hcomma : ",".toList = [','] := rfl
  have hparts : (s.stages.map fun stage => "atempo=" ++ stageText stage).map String.toList =
      s.stages.map stagePart := by
    rw [List.map_map]
    exact List.map_congr_left fun stage _ => String.toList_append
  rw [audioFilter, Text.join, String.toList_intercalate, hcomma, hparts]

theorem audioFilter_eq_nil_iff (s : Speed) : s.audioFilter.toList = [] ↔ s.stages = [] := by
  rw [audioFilter_toList]
  constructor
  · intro h
    by_contra hne
    obtain ⟨stage, stages, hstages⟩ := List.exists_cons_of_ne_nil hne
    have hpart : stagePart stage ≠ [] := List.cons_ne_nil _ _
    rw [hstages, List.map_cons] at h
    cases stages with
    | nil => exact hpart (List.intercalate_singleton.symm.trans h)
    | cons next stages =>
      rw [List.map_cons, List.intercalate_cons_cons, List.append_assoc] at h
      exact hpart (List.append_eq_nil_iff.mp h).1
  · intro h
    rw [h, List.map_nil, List.intercalate_nil]

/-- The tempos of the audio filter are those of the stages. -/
theorem tempos_audioFilter {s : Speed} (h : ∀ stage ∈ s.stages, InRange stage) :
    tempos s.audioFilter.toList = some (s.stages.map shownTempo) := by
  unfold tempos
  by_cases hnone : s.stages = []
  · rw [if_pos ((audioFilter_eq_nil_iff s).mpr hnone), hnone]
    rfl
  · have hparts : ∀ part ∈ s.stages.map stagePart, ',' ∉ part := by
      intro part hpart
      obtain ⟨stage, hstage, rfl⟩ := List.mem_map.mp hpart
      exact List.not_mem_append (by decide) (h stage hstage).comma_notMem
    rw [if_neg ((audioFilter_eq_nil_iff s).not.mpr hnone), audioFilter_toList,
      Text.splitOn_intercalate (List.map_eq_nil_iff.not.mpr hnone) hparts, mapM_tempo? h]

/-! ## The product -/

theorem unityTolerance_le : unityTolerance.value ≤ 1 / 20000 := by
  have horder : (unityTolerance.order.all fun n : Int => decide (n * 20000 ≤ unitsInOne)) = true := by
    decide +kernel
  have hfinite : unityTolerance.isFinite = true := by decide +kernel
  obtain ⟨negative, m, heq⟩ := Binary64.isFinite_iff.mp hfinite
  have hone : (0 : ℚ) < unitsInOne := by exact_mod_cast unitsInOne_pos
  rw [heq] at horder ⊢
  have hunits : ((Binary64.signedUnits negative m : Int) : ℚ) * 20000 ≤ unitsInOne := by
    exact_mod_cast of_decide_eq_true horder
  rw [Binary64.value, div_le_div_iff₀ hone (by norm_num), one_mul]
  exact hunits

theorem Outcome.shownTempo_peeled (h : Outcome f peeled rest) (hstage : stage ∈ peeled) :
    shownTempo stage = stage.value := by
  cases h with
  | within => cases hstage
  | fast =>
    rw [List.eq_of_mem_replicate hstage, shownTempo, if_pos, value_fastest.2]
    rw [same_fastest_iff value_fastest.1, value_fastest.2]
  | slow =>
    rw [List.eq_of_mem_replicate hstage, shownTempo, if_neg, if_pos, value_slowest.2]
    · rw [same_slowest_iff value_slowest.1, value_slowest.2]
    · rw [same_fastest_iff value_slowest.1, value_slowest.2]
      norm_num

/-- Only the last tempo differs from what it stands for. -/
theorem Outcome.exists_last (h : Outcome f peeled rest) (hrest : IsTempo rest) :
    ∃ last, ((peeled ++ remainder rest).map shownTempo).prod = product peeled * last ∧
      |last - rest.value| ≤ 1 / 20000 := by
  have hpeeled : (peeled.map shownTempo).prod = product peeled := by
    rw [product, List.map_congr_left fun stage hstage => h.shownTempo_peeled hstage]
  have hrange := h.inRange hrest
  rcases remainder_cases hrange with ⟨hlast, -⟩ | ⟨hnone, hnear⟩
  · refine ⟨shownTempo rest, ?_, hrange.shownTempo_near⟩
    rw [hlast, List.map_append, List.prod_append, hpeeled, List.map_singleton, List.prod_singleton]
  · refine ⟨1, ?_, ?_⟩
    · rw [hnone, List.append_nil, hpeeled, mul_one]
    · rw [abs_sub_comm]
      exact hnear.trans unityTolerance_le

theorem Outcome.product_pos (h : Outcome f peeled rest) (hf : IsTempo f) (hrest : IsTempo rest) :
    0 < product peeled := by
  have hpos := hf.pos
  rw [h.value_eq] at hpos
  exact pos_of_mul_pos_left hpos hrest.pos.le

/-- A last tempo near to what it stands for makes the product near to the factor, however many stages
    precede it. -/
theorem relative_near {p r q : ℚ} (hp : 0 < p) (hr : 1 / 2 ≤ r) (hq : |q - r| ≤ 1 / 20000) :
    |p * q / (p * r) - 1| ≤ 1 / 10000 := by
  have hr' : 0 < r := lt_of_lt_of_le (by norm_num) hr
  have hratio : p * q / (p * r) - 1 = (q - r) / r := by
    field_simp
  rw [hratio, abs_div, abs_of_pos hr', div_le_iff₀ hr']
  linarith

/-! ## The video filter -/

theorem readsAs_one : Number.ReadsAs "1.0" 1 := ⟨_, rfl, by decide +kernel⟩

/-- The factor stands in the video filter without rounding. -/
theorem exists_videoParameters (hf : IsTempo f) :
    ∃ text, (Speed.mk f).videoParameters = "PTS/" ++ text ∧ Number.ReadsAs text f := by
  unfold videoParameters
  dsimp only
  split
  · have hone : (1 : Binary64).IsUnsigned := (Binary64.value_ofInt (n := 1) (by norm_num)).1
    rw [hf.isUnsigned.eq_of_same hone ‹_›]
    exact ⟨_, rfl, readsAs_one⟩
  · exact ⟨_, rfl, Binary64.readsAs_text f⟩

theorem apply_arguments (s : Speed) (c : Command) : (s.apply c).arguments =
    c.arguments ++ ["-filter:v", "setpts=" ++ s.videoParameters] ++
      if s.stages = [] then [] else ["-filter:a", s.audioFilter] := by
  have hempty : s.audioFilter.isEmpty = true ↔ s.stages = [] := by
    rw [String.isEmpty_iff, ← String.toList_eq_nil_iff, audioFilter_eq_nil_iff]
  unfold apply Command.filter
  dsimp only
  by_cases hnone : s.stages = []
  · rw [if_pos (hempty.mpr hnone), if_pos hnone, List.append_nil]
    rfl
  · rw [if_neg (hempty.not.mpr hnone), if_neg hnone]
    rfl

/-- The stages are those that are taken off and the remainder of a rest. -/
theorem exists_outcome (hf : IsTempo f) :
    ∃ peeled rest, IsTempo rest ∧ Outcome f peeled rest ∧ tempoStages f = peeled ++ remainder rest := by
  obtain ⟨fast, middle, slow, rest, hfast, hslow, hstages⟩ := tempoStages_eq hf
  obtain ⟨hrest, houtcome⟩ := outcome_of_peels hf hfast hslow
  exact ⟨fast ++ slow, rest, hrest, houtcome, hstages⟩

theorem inRange_stages {s : Speed} (hf : IsTempo s.factor) : ∀ stage ∈ s.stages, InRange stage := by
  obtain ⟨peeled, rest, hrest, houtcome, hstages⟩ := exists_outcome hf
  rw [stages, hstages]
  exact (houtcome.decomposes hf hrest).inRange

/-- **The sound keeps pace with the picture.** For every factor that passes the check, the tempos that the
    audio filter is read as lie between the limits, and their product differs from the factor by at most one
    part in ten thousand. The video filter is read as the factor itself. The command has an audio filter
    exactly if there are stages. -/
theorem audio_matches_video (s : Speed) (hcheck : s.check = .ok ()) :
    (∃ ts, tempos s.audioFilter.toList = some ts ∧ ts.length = s.stages.length ∧
      (∀ t ∈ ts, 1 / 2 ≤ t ∧ t ≤ 2) ∧ |ts.prod / s.factor.value - 1| ≤ 1 / 10000) ∧
    (∃ text, s.videoParameters = "PTS/" ++ text ∧ Number.ReadsAs text s.factor) ∧
    ∀ c : Command, (s.apply c).arguments = c.arguments ++ ["-filter:v", "setpts=" ++ s.videoParameters] ++
      if s.stages = [] then [] else ["-filter:a", s.audioFilter] := by
  have hf := (check_eq_ok_iff s).mp hcheck
  have hrange := inRange_stages hf
  obtain ⟨peeled, rest, hrest, houtcome, hstages⟩ := exists_outcome hf
  refine ⟨⟨_, tempos_audioFilter hrange, List.length_map _, ?_, ?_⟩, exists_videoParameters hf,
    apply_arguments s⟩
  · intro t ht
    obtain ⟨stage, hstage, rfl⟩ := List.mem_map.mp ht
    exact (hrange stage hstage).shownTempo_bounds
  · obtain ⟨last, hproduct, hnear⟩ := houtcome.exists_last hrest
    rw [stages, hstages, hproduct, houtcome.value_eq]
    exact relative_near (houtcome.product_pos hf hrest) (houtcome.inRange hrest).slowest_le hnear

/-- Two halvings, and a rest with more than four places. -/
theorem audio_matches_video_rounded :
    let s : Speed := ⟨7.12345⟩
    s.check = .ok () ∧ s.audioFilter = "atempo=2.0,atempo=2.0,atempo=1.7809" ∧
      s.videoParameters = "PTS/7.12345" ∧
      ∃ ts, tempos "atempo=2.0,atempo=2.0,atempo=1.7809".toList = some ts ∧ ts.length = s.stages.length ∧
        (∀ t ∈ ts, 1 / 2 ≤ t ∧ t ≤ 2) ∧ |ts.prod / s.factor.value - 1| ≤ 1 / 10000 := by
  intro s
  have hcheck : s.check = .ok () := by decide +kernel
  have haudio : s.audioFilter = "atempo=2.0,atempo=2.0,atempo=1.7809" := by decide +kernel
  exact ⟨hcheck, haudio, by decide +kernel, haudio ▸ (audio_matches_video s hcheck).1⟩

end Speed

end Montage
