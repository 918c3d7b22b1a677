import Montage.Proofs.MainStream

/-!
# Labels from the counter

A label that is drawn from the counter is a stem with a number behind it. No number is drawn twice,
but the number starts where the stem ends, and a stem may end in digits of its own: `[out1` with `0`
behind it and `[out` with `10` behind it are the same label.

* `FilterGraph.drawn`: the labels that calls draw, read off the graph.
* `FilterGraph.draws`: the stems and numbers of these labels.
* `FilterGraph.Clash`: when an earlier and a later draw give the same label.

Results:
* `FilterGraph.drawn_eq`: what is drawn, for calls in a row without a reset.
* `FilterGraph.label_eq_iff`: when two labels agree.
* `FilterGraph.nodup_drawn_iff`: labels are pairwise different just if no two draws clash.
-/

namespace Montage

namespace FilterGraph

/-! ## What calls draw -/

namespace Call

/-- The label that a call draws: the one that it hands out, or the one that a filter without outputs
    is given. -/
def drawn? (g : FilterGraph) : Call → Option String
  | add text kind inputs outputs =>
    if outputs.isEmpty then
      (g.add text kind inputs outputs).filters.getLast?.bind fun f => f.outputs.head?
    else none
  | allocate stem => some (g.allocate stem).1
  | addSource .. | reset => none

/-- The stem of the label that a call draws. -/
def stem? : Call → Option String
  | add _ kind _ outputs => if outputs.isEmpty then some (FilterGraph.stem kind) else none
  | allocate stem => some stem
  | addSource .. | reset => none

/-- A call draws its stem with the number of the counter. -/
theorem drawn?_eq (g : FilterGraph) (c : Call) : c.drawn? g = c.stem?.map (label · g.nextLabel) := by
  cases c with
  | add text kind inputs outputs =>
    by_cases ho : outputs.isEmpty = true
    · simp only [drawn?, stem?, ho, if_true, FilterGraph.add, append, List.getLast?_concat]
      rfl
    · simp only [drawn?, stem?, ho, Bool.false_eq_true, if_false]
      rfl
  | allocate stem => rfl
  | addSource text inputs outputs => rfl
  | reset => rfl

/-- A call that draws a label moves the counter, and no other call does. -/
theorem nextLabel_apply (g : FilterGraph) {c : Call} (hc : c ≠ reset) :
    (c.apply g).nextLabel = g.nextLabel + c.stem?.toList.length := by
  cases c with
  | add text kind inputs outputs =>
    by_cases ho : outputs.isEmpty = true
    · simp only [apply, stem?, ho, if_true, FilterGraph.add]
      rfl
    · simp only [apply, stem?, ho, Bool.false_eq_true, if_false, FilterGraph.add]
      rfl
  | allocate stem => rfl
  | addSource text inputs outputs =>
    by_cases ho : outputs.isEmpty = true
    · simp [apply, FilterGraph.addSource, stem?, ho, Except.toOption]
    · simp [apply, FilterGraph.addSource, stem?, ho, Except.toOption, append]
  | reset => exact absurd rfl hc

end Call

/-- The labels that calls draw, one after the other. -/
def drawn (g : FilterGraph) : List Call → List String
  | [] => []
  | c :: calls => (c.drawn? g).toList ++ drawn (c.apply g) calls

/-- The stems and numbers that calls draw. -/
def draws (g : FilterGraph) (calls : List Call) : List (String × Nat) :=
  (calls.filterMap Call.stem?).zipIdx g.nextLabel

/-- Calls draw their stems with the numbers from that of the counter on. -/
theorem drawn_eq (g : FilterGraph) {calls : List Call} (h : Call.reset ∉ calls) :
    drawn g calls = (draws g calls).map fun d => label d.1 d.2 := by
  induction calls generalizing g with
  | nil => rfl
  | cons c calls ih =>
    obtain ⟨hc, hcalls⟩ := not_or.mp (mt List.mem_cons.mpr h)
    rw [drawn, c.drawn?_eq, ih _ hcalls, draws, draws, Call.nextLabel_apply g (Ne.symm hc)]
    cases hs : c.stem? with
    | none => rw [List.filterMap_cons_none hs]; rfl
    | some stem => rw [List.filterMap_cons_some hs, List.zipIdx_cons]; rfl

/-- Numbers are drawn in order. -/
theorem pairwise_draws (g : FilterGraph) (calls : List Call) :
    (draws g calls).Pairwise fun a b => a.2 < b.2 := by
  rw [draws, List.pairwise_iff_getElem]
  intro i j hi hj hij
  simpa only [List.getElem_zipIdx, Nat.add_lt_add_iff_left] using hij

/-! ## When two labels agree -/

/-- The stem of the earlier draw goes on like the number of the later one: it is the stem of the later
    draw with leading digits of that number, and its own number is the rest of them. -/
def Clash (earlier later : String × Nat) : Prop :=
  ∃ lead, earlier.1.toList = later.1.toList ++ lead ∧
    Decimal.digits later.2 = lead ++ Decimal.digits earlier.2

theorem label_eq_iff {s t : String} {m n : Nat} (h : m < n) :
    label s m = label t n ↔ Clash (s, m) (t, n) := by
  rw [← String.toList_inj, label_toList, label_toList, List.cons.injEq, ← List.append_assoc,
    ← List.append_assoc, List.append_cancel_right_eq, List.append_eq_append_iff]
  constructor
  · rintro ⟨-, ⟨lead, -, hdigits⟩ | ⟨lead, hstem, hdigits⟩⟩
    · -- A smaller number has no more digits, so none of its own can be left over.
      have hlength := Decimal.length_digits_mono (Nat.le_of_lt h)
      rw [hdigits, List.length_append] at hlength
      have hnil : lead = [] := List.eq_nil_of_length_eq_zero (by omega)
      rw [hnil, List.nil_append] at hdigits
      exact absurd (Decimal.digits_inj hdigits) (Nat.ne_of_lt h)
    · exact ⟨lead, hstem, hdigits⟩
  · rintro ⟨lead, hstem, hdigits⟩
    exact ⟨rfl, .inr ⟨lead, hstem, hdigits⟩⟩

/-- Whether the last character of a stem is a digit. -/
def EndsInDigit (stem : String) : Prop := ∃ c ∈ stem.toList.getLast?, c.isDigit = true

/-- Of draws that clash the earlier stem ends in a digit. -/
theorem Clash.endsInDigit {a b : String × Nat} (h : Clash a b) (hab : a.2 < b.2) :
    EndsInDigit a.1 := by
  obtain ⟨lead, hstem, hdigits⟩ := h
  rcases List.eq_nil_or_concat lead with rfl | ⟨front, c, rfl⟩
  · exact absurd (Decimal.digits_inj hdigits) (Nat.ne_of_gt hab)
  · refine ⟨c, by simp [hstem], Decimal.isDigit_of_mem_digits (n := b.2) ?_⟩
    simp [hdigits]

/-- Of draws that clash the later number has at least two digits. -/
theorem Clash.ten_le {a b : String × Nat} (h : Clash a b) (hab : a.2 < b.2) : 10 ≤ b.2 := by
  obtain ⟨lead, -, hdigits⟩ := h
  have hne : lead ≠ [] := by
    rintro rfl
    exact Nat.ne_of_gt hab (Decimal.digits_inj hdigits)
  have hlead : 0 < lead.length := List.length_pos_iff.mpr hne
  have hown : 0 < (Decimal.digits a.2).length := Nat.length_toDigits_pos
  by_contra hlt
  have hone : (Decimal.digits b.2).length ≤ 1 :=
    (Nat.length_toDigits_le_iff (by decide) (by decide)).mpr (by omega)
  rw [hdigits, List.length_append] at hone
  omega

/-! ## Labels that are pairwise different -/

theorem nodup_drawn_iff_pairwise (g : FilterGraph) {calls : List Call} (h : Call.reset ∉ calls) :
    (drawn g calls).Nodup ↔ (draws g calls).Pairwise fun a b => ¬ Clash a b := by
  rw [drawn_eq g h, List.nodup_iff_pairwise_ne, List.pairwise_map]
  have hordered := pairwise_draws g calls
  constructor
  · intro hne
    exact (hordered.and hne).imp fun hab hclash => hab.2 ((label_eq_iff hab.1).mpr hclash)
  · intro hnone
    exact (hordered.and hnone).imp fun hab heq => hab.2 ((label_eq_iff hab.1).mp heq)

/-- A stem that is drawn is one of the two for filters, or was asked for. -/
theorem stem_of_mem_draws {g : FilterGraph} {calls : List Call} {d : String × Nat}
    (h : d ∈ draws g calls) : d.1 = "temp" ∨ d.1 = "out" ∨ Call.allocate d.1 ∈ calls := by
  obtain ⟨c, hc, hstem⟩ := List.mem_filterMap.mp (List.fst_mem_of_mem_zipIdx h)
  cases c with
  | add text kind inputs outputs =>
    by_cases ho : outputs.isEmpty = true
    · simp only [Call.stem?, ho, if_true, Option.some.injEq] at hstem
      cases kind with
      | simple => exact .inl hstem.symm
      | complex => exact .inr (.inl hstem.symm)
    · simp [Call.stem?, ho] at hstem
  | allocate stem => cases hstem; exact .inr (.inr hc)
  | addSource text inputs outputs => cases hstem
  | reset => cases hstem

/-- **Labels from the counter.** The labels that calls draw without a reset are pairwise different just
    if no two draws clash. No two do as long as no stem that is asked for ends in a digit, nor among
    the labels with the numbers below ten. -/
theorem nodup_drawn_iff (g : FilterGraph) {calls : List Call} (h : Call.reset ∉ calls) :
    ((drawn g calls).Nodup ↔ (draws g calls).Pairwise fun a b => ¬ Clash a b) ∧
    ((∀ stem, Call.allocate stem ∈ calls → ¬ EndsInDigit stem) → (drawn g calls).Nodup) ∧
    (g.nextLabel + (drawn g calls).length ≤ 10 → (drawn g calls).Nodup) := by
  have hiff := nodup_drawn_iff_pairwise g h
  have hordered := pairwise_draws g calls
  refine ⟨hiff, ?_, ?_⟩
  · intro hstems
    have hplain : ∀ d ∈ draws g calls, ¬ EndsInDigit d.1 := by
      intro d hd
      rcases stem_of_mem_draws hd with htemp | hout | hasked
      · rw [htemp]; simp [EndsInDigit]
      · rw [hout]; simp [EndsInDigit]
      · exact hstems d.1 hasked
    refine hiff.mpr (hordered.imp_of_mem fun ha _ hab hclash => ?_)
    exact hplain _ ha (hclash.endsInDigit hab)
  · intro hfew
    rw [drawn_eq g h, List.length_map, draws, List.length_zipIdx] at hfew
    refine hiff.mpr (hordered.imp_of_mem fun _ hb hab hclash => ?_)
    have hten := hclash.ten_le hab
    have hlast := List.snd_lt_of_mem_zipIdx hb
    omega

/-- A logo that is prepared and laid over two joined files, with a title: three labels are drawn. -/
theorem nodup_drawn_iff_logo_and_title :
    let calls : List Call :=
      [.addSource "concat=n=2:v=1" ["[0:v]", "[1:v]"] ["[outv]"], .allocate "ovl",
        .add "scale=64:-1" .complex ["[2:v]"] ["[ovl0]"],
        .add "overlay=0:0" .complex ["[0:v]", "[ovl0]"] [], .add "drawtext=text=T" .complex [] []]
    Call.reset ∉ calls ∧ drawn {} calls = ["[ovl0]", "[out1]", "[out2]"] ∧ (drawn {} calls).Nodup := by
  intro calls
  have hreset : Call.reset ∉ calls := by simp [calls]
  have hdrawn : drawn {} calls = ["[ovl0]", "[out1]", "[out2]"] := by decide +kernel
  exact ⟨hreset, hdrawn, (nodup_drawn_iff {} hreset).2.2 (by rw [hdrawn]; decide)⟩

/-- A label is asked for whose stem ends in a digit: ten filters later the counter comes to it again. -/
theorem stem_with_digit_is_drawn_again :
    let calls : List Call := .allocate "out1" :: List.replicate 10 (.add "null" .complex [] [])
    Call.reset ∉ calls ∧ (drawn {} calls).head? = some "[out10]" ∧
      (drawn {} calls).getLast? = some "[out10]" ∧ ¬ (drawn {} calls).Nodup := by
  intro calls
  exact ⟨by simp [calls], by decide +kernel, by decide +kernel, by decide +kernel⟩

end FilterGraph

end Montage
