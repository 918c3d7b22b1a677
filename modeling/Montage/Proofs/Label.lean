import Montage.Operation.Concatenation
import Montage.Proofs.Digits

/-!
# Labels are told apart

The labels of a graph are of four kinds: the streams of the inputs, the labels drawn from the
counter for overlays and outputs, and the two fixed labels of a concatenation. No two kinds share
a label, and within a kind the number decides.

* `FilterGraph.label`: the label with a stem and a number.
* `label_inj`, `streamLabel_inj`: labels of one kind that agree have the same number.
* `label_ne_streamLabel`, `label_out_ne_ovl`, `label_ne_of_letter`, `streamLabel_ne_of_letter`:
  labels of different kinds differ.
-/

namespace Montage

/-! ## The characters of a label -/

/-- The label with a stem and a number. -/
def FilterGraph.label (stem : String) (number : Nat) : String :=
  s!"[{stem}{Decimal.ofInt number}]"

open FilterGraph (label)
open Concatenation (streamLabel)

theorem label_toList (stem : String) (n : Nat) :
    (label stem n).toList = '[' :: (stem.toList ++ (Decimal.digits n ++ [']'])) := by
  change ("[" ++ stem ++ Decimal.ofInt n ++ "]").toList = _
  simp [Decimal.ofInt_natCast, String.toList_append]

theorem streamLabel_toList (stream : String) (n : Nat) :
    (streamLabel stream n).toList =
      '[' :: (Decimal.digits n ++ ':' :: (stream.toList ++ [']'])) := by
  change ("[" ++ Decimal.ofInt n ++ ":" ++ stream ++ "]").toList = _
  simp [Decimal.ofInt_natCast, String.toList_append]

/-! ## Labels of one kind -/

theorem label_inj {stem : String} {m n : Nat} (h : label stem m = label stem n) : m = n := by
  have hl := congrArg String.toList h
  rw [label_toList, label_toList, List.cons.injEq, List.append_cancel_left_eq,
    List.append_cancel_right_eq] at hl
  exact Decimal.digits_inj hl.2

theorem takeWhile_isDigit_digits (n : Nat) (rest : List Char) :
    (Decimal.digits n ++ ':' :: rest).takeWhile Char.isDigit = Decimal.digits n := by
  rw [List.takeWhile_append_of_pos fun c hc => Decimal.isDigit_of_mem_digits hc]
  simp

theorem streamLabel_inj {s t : String} {m n : Nat} (h : streamLabel s m = streamLabel t n) :
    m = n := by
  have hl := congrArg String.toList h
  rw [streamLabel_toList, streamLabel_toList, List.cons.injEq] at hl
  have hd := congrArg (List.takeWhile Char.isDigit) hl.2
  rw [takeWhile_isDigit_digits, takeWhile_isDigit_digits] at hd
  exact Decimal.digits_inj hd

/-- The main stream at first is the video of the first input, and of no other. -/
theorem streamLabel_eq_mainVideo_iff {n : Nat} : streamLabel "v" n = mainVideo ↔ n = 0 := by
  have h0 : streamLabel "v" 0 = mainVideo := by decide
  constructor
  · intro h; exact streamLabel_inj (h.trans h0.symm)
  · rintro rfl; exact h0

/-! ## Labels of different kinds -/

/-- The second character of a label from the counter is a letter, that of a stream a digit. -/
theorem label_ne_streamLabel {c : Char} (hc : c.isDigit = false) (stem : List Char) (m : Nat)
    (s : String) (n : Nat) : label (String.ofList (c :: stem)) m ≠ streamLabel s n := by
  intro h
  have hl := congrArg String.toList h
  obtain ⟨d, rest, hd, hdigit⟩ := Decimal.digits_eq_cons n
  rw [label_toList, streamLabel_toList, hd] at hl
  simp only [String.toList_ofList, List.cons_append, List.cons.injEq] at hl
  rw [hl.2.1, hdigit] at hc
  cases hc

theorem label_out_ne_ovl (m n : Nat) : label "out" m ≠ label "ovl" n := by
  intro h
  have hl := congrArg String.toList h
  rw [label_toList, label_toList] at hl
  simp at hl

/-- A label in which a letter follows the stem does not come from the counter. -/
theorem label_ne_of_letter {stem : String} {c : Char} (hc : c.isDigit = false) (n : Nat)
    (rest : List Char) {text : List Char} (ht : text = '[' :: (stem.toList ++ c :: rest)) :
    label stem n ≠ String.ofList text := by
  intro h
  have hl := congrArg String.toList h
  obtain ⟨d, rest', hd, hdigit⟩ := Decimal.digits_eq_cons n
  rw [label_toList, String.toList_ofList, ht, hd] at hl
  simp only [List.cons_append, List.cons.injEq, true_and, List.append_cancel_left_eq] at hl
  rw [← hl.1, hdigit] at hc
  cases hc

theorem streamLabel_ne_of_letter {stream : String} {c : Char} (hc : c.isDigit = false) (n : Nat)
    {rest text : List Char} (ht : text = '[' :: c :: rest) :
    streamLabel stream n ≠ String.ofList text := by
  intro h
  have hl := congrArg String.toList h
  obtain ⟨d, rest', hd, hdigit⟩ := Decimal.digits_eq_cons n
  rw [streamLabel_toList, String.toList_ofList, ht, hd] at hl
  simp only [List.cons_append, List.cons.injEq, true_and] at hl
  rw [← hl.1, hdigit] at hc
  cases hc

/-! ## Labels that filters write -/

/-- The labels that filters write while the counter stands at `k`. -/
inductive Written (k : Nat) : String → Prop
  | out {n : Nat} (h : n < k) : Written k (label "out" n)
  | ovl {n : Nat} (h : n < k) : Written k (label "ovl" n)
  | video : Written k "[outv]"
  | audio : Written k "[outa]"

namespace Written

theorem mono {k k' : Nat} {l : String} (h : Written k l) (hk : k ≤ k') : Written k' l := by
  cases h with
  | out h => exact .out (by omega)
  | ovl h => exact .ovl (by omega)
  | video => exact .video
  | audio => exact .audio

/-- A label with a number that the counter has not reached was not written. -/
theorem out_fresh {k n : Nat} (hn : k ≤ n) : ¬ Written k (label "out" n) := by
  generalize hl : label "out" n = l
  rintro (⟨h⟩ | ⟨h⟩ | _ | _)
  · have := label_inj hl; omega
  · exact label_out_ne_ovl _ _ hl
  · exact label_ne_of_letter (c := 'v') (by decide) n [']'] rfl hl
  · exact label_ne_of_letter (c := 'a') (by decide) n [']'] rfl hl

theorem ovl_fresh {k n : Nat} (hn : k ≤ n) : ¬ Written k (label "ovl" n) := by
  generalize hl : label "ovl" n = l
  rintro (⟨h⟩ | ⟨h⟩ | _ | _)
  · exact label_out_ne_ovl _ _ hl.symm
  · have := label_inj hl; omega
  all_goals
    have := congrArg String.toList hl
    rw [label_toList] at this
    simp at this

/-- No filter writes a stream of an input. -/
theorem ne_streamLabel {k : Nat} {l : String} (h : Written k l) (s : String) (n : Nat) :
    l ≠ streamLabel s n := by
  cases h with
  | out h => exact label_ne_streamLabel (c := 'o') (by decide) ['u', 't'] _ s n
  | ovl h => exact label_ne_streamLabel (c := 'o') (by decide) ['v', 'l'] _ s n
  | video => exact (streamLabel_ne_of_letter (c := 'o') (by decide) n rfl).symm
  | audio => exact (streamLabel_ne_of_letter (c := 'o') (by decide) n rfl).symm

theorem ne_mainVideo {k : Nat} {l : String} (h : Written k l) : l ≠ mainVideo := by
  rw [← streamLabel_eq_mainVideo_iff.mpr rfl]
  exact h.ne_streamLabel "v" 0

/-- No filter writes the audio stream that is mapped if no other is. -/
theorem ne_inputAudio {k : Nat} {l : String} (h : Written k l) : l ≠ "0:a?" := by
  cases h with
  | video | audio => decide
  | out _ | ovl _ =>
    intro hl
    have := congrArg String.toList hl
    rw [label_toList] at this
    simp at this

end Written

end Montage
