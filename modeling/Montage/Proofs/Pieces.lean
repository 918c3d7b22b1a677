import Mathlib.Data.List.Basic
import Montage.Proofs.Path

/-!
# The pieces of a text

A text is cut at its separators in one of two ways: into the pieces between the separators, of which
there is one more, or into the pieces that separators end, such as lines, where what follows the last
separator counts only if it is not empty. It can also be cut once, at its first separator. All three are
said here without a program that cuts.

* `Text.IsCut`: the pieces between the separators.
* `Text.IsEnded`: the pieces that separators end.
* `Text.IsHalved`: the two sides of the first separator.

Results:
* `Text.splitOn_eq_iff`: the pieces between the separators are found, and no others.
* `Text.endedBy_eq_iff`: so are the pieces that separators end.
* `Text.endedBy_append`: what stands before a separator is cut whatever stands behind it.
* `Text.isHalved_iff`: the two sides of the first separator are found.
-/

namespace Montage.Text

/-- The pieces of a text between its separators: none of them has one, and one stands between any two
    neighbours. -/
structure IsCut (separator : Char) (cs : List Char) (pieces : List (List Char)) : Prop where
  ne_nil : pieces ≠ []
  notMem : ∀ piece ∈ pieces, separator ∉ piece
  text_eq : cs = [separator].intercalate pieces

/-- Pieces, each with a separator behind it. -/
def ended (separator : Char) (pieces : List (List Char)) : List Char :=
  pieces.flatMap fun piece => piece ++ [separator]

/-- The pieces of a text that separators end. The last one may lack its separator unless it is empty. -/
structure IsEnded (separator : Char) (cs : List Char) (pieces : List (List Char)) : Prop where
  notMem : ∀ piece ∈ pieces, separator ∉ piece
  text_eq : cs = ended separator pieces ∨
    ∃ front last, pieces = front ++ [last] ∧ last ≠ [] ∧ cs = ended separator front ++ last

/-- The two sides of the first separator of a text. Without a separator the right one is empty. -/
structure IsHalved (separator : Char) (cs left right : List Char) : Prop where
  notMem : separator ∉ left
  text_eq : cs = left ++ separator :: right ∨ cs = left ∧ right = []

variable {separator : Char} {cs piece left right : List Char} {pieces : List (List Char)}

/-! ## Pieces between separators -/

theorem splitOn_eq (separator : Char) (cs : List Char) : splitOn separator cs = cs.splitOn separator := by
  induction cs with
  | nil => rfl
  | cons c cs ih =>
    rw [splitOn, ih, List.splitOn, List.splitOn, List.splitOnP_cons_eq_if_modifyHead]
    by_cases hc : c = separator <;> simp [hc]

theorem notMem_of_mem_splitOn (h : piece ∈ splitOn separator cs) : separator ∉ piece := by
  induction cs generalizing piece with
  | nil =>
    rw [splitOn, List.mem_singleton] at h
    rw [h]
    exact List.not_mem_nil
  | cons c cs ih =>
    obtain ⟨first, others, hcut⟩ := List.exists_cons_of_ne_nil (splitOn_ne_nil separator cs)
    rw [hcut] at ih
    rw [splitOn, hcut] at h
    by_cases hc : c = separator
    · rw [if_pos hc] at h
      rcases List.mem_cons.mp h with rfl | h
      · exact List.not_mem_nil
      · exact ih h
    · rw [if_neg hc, List.modifyHead_cons] at h
      rcases List.mem_cons.mp h with rfl | h
      · exact List.not_mem_cons_of_ne_of_not_mem (Ne.symm hc) (ih List.mem_cons_self)
      · exact ih (List.mem_cons_of_mem _ h)

/-- The pieces between the separators are found, and no others. -/
theorem splitOn_eq_iff : splitOn separator cs = pieces ↔ IsCut separator cs pieces := by
  constructor
  · rintro rfl
    refine ⟨splitOn_ne_nil separator cs, fun piece => notMem_of_mem_splitOn, ?_⟩
    rw [splitOn_eq, List.intercalate_splitOn]
  · rintro ⟨hne, hnot, rfl⟩
    rw [splitOn_eq, List.splitOn_intercalate separator hnot hne]

theorem isCut_splitOn (separator : Char) (cs : List Char) : IsCut separator cs (splitOn separator cs) :=
  splitOn_eq_iff.mp rfl

theorem exists_last (separator : Char) (cs : List Char) :
    ∃ front last, splitOn separator cs = front ++ [last] :=
  (List.eq_nil_or_concat' _).resolve_left (splitOn_ne_nil separator cs)

theorem ended_cons (separator : Char) (piece : List Char) (pieces : List (List Char)) :
    ended separator (piece :: pieces) = piece ++ separator :: ended separator pieces := by
  rw [ended, List.flatMap_cons, List.append_assoc]
  rfl

theorem intercalate_concat (separator : Char) (front : List (List Char)) (last : List Char) :
    [separator].intercalate (front ++ [last]) = ended separator front ++ last := by
  induction front with
  | nil => exact List.intercalate_singleton
  | cons piece front ih =>
    rw [List.cons_append, List.intercalate_cons_of_ne_nil (List.concat_ne_nil last front), ih, ended_cons]
    simp only [List.append_assoc, List.cons_append, List.nil_append]

/-- Every character of a text is a separator or stands in a piece. -/
theorem IsCut.eq_or_mem (h : IsCut separator cs pieces) {c : Char} (hc : c ∈ cs) :
    c = separator ∨ ∃ piece ∈ pieces, c ∈ piece := by
  obtain ⟨front, last, rfl⟩ := (List.eq_nil_or_concat' pieces).resolve_left h.ne_nil
  rw [h.text_eq, intercalate_concat, List.mem_append, ended, List.mem_flatMap] at hc
  rcases hc with ⟨piece, hpiece, hc⟩ | hc
  · rcases List.mem_append.mp hc with hc | hc
    · exact .inr ⟨piece, List.mem_append_left _ hpiece, hc⟩
    · exact .inl (List.mem_singleton.mp hc)
  · exact .inr ⟨last, List.mem_append_right _ (List.mem_singleton_self last), hc⟩

/-! ## Pieces that separators end -/

theorem endedBy_of_splitOn {front : List (List Char)} {last : List Char}
    (h : splitOn separator cs = front ++ [last]) :
    endedBy separator cs = if last = [] then front else front ++ [last] := by
  unfold endedBy
  rw [h]
  simp only [List.getLast?_concat, List.dropLast_concat, Option.some.injEq]

theorem endedBy_subset (separator : Char) (cs : List Char) :
    endedBy separator cs ⊆ splitOn separator cs := by
  obtain ⟨front, last, hcut⟩ := exists_last separator cs
  rw [endedBy_of_splitOn hcut, hcut]
  split
  · exact List.subset_append_left front [last]
  · exact List.Subset.refl _

/-- What stands before a separator is cut whatever stands behind it. -/
theorem endedBy_append (separator : Char) (xs ys : List Char) :
    endedBy separator (xs ++ separator :: ys) = splitOn separator xs ++ endedBy separator ys := by
  obtain ⟨front, last, hcut⟩ := exists_last separator ys
  have hall : splitOn separator (xs ++ separator :: ys) = splitOn separator xs ++ front ++ [last] := by
    rw [splitOn_append, hcut, List.append_assoc]
  rw [endedBy_of_splitOn hcut, endedBy_of_splitOn hall]
  by_cases hlast : last = []
  · rw [if_pos hlast, if_pos hlast]
  · rw [if_neg hlast, if_neg hlast, List.append_assoc]

theorem endedBy_of_notMem (h : separator ∉ cs) :
    endedBy separator cs = if cs = [] then [] else [cs] :=
  endedBy_of_splitOn (splitOn_of_notMem h)

/-- Pieces with their separators are cut off one by one. -/
theorem endedBy_ended (hnot : ∀ piece ∈ pieces, separator ∉ piece) (rest : List Char) :
    endedBy separator (ended separator pieces ++ rest) = pieces ++ endedBy separator rest := by
  induction pieces with
  | nil => rfl
  | cons piece pieces ih =>
    rw [ended_cons, List.append_assoc, List.cons_append, endedBy_append,
      splitOn_of_notMem (hnot piece List.mem_cons_self),
      ih fun piece h => hnot piece (List.mem_cons_of_mem _ h)]
    rfl

theorem isEnded_endedBy (separator : Char) (cs : List Char) :
    IsEnded separator cs (endedBy separator cs) := by
  obtain ⟨front, last, hlast⟩ := exists_last separator cs
  have hcut := splitOn_eq_iff.mp hlast
  have htext : cs = ended separator front ++ last := by
    rw [← intercalate_concat]
    exact hcut.text_eq
  rw [endedBy_of_splitOn hlast]
  by_cases hempty : last = []
  · rw [if_pos hempty]
    refine ⟨fun piece h => hcut.notMem piece (List.mem_append_left _ h), .inl ?_⟩
    rw [htext, hempty, List.append_nil]
  · rw [if_neg hempty]
    exact ⟨hcut.notMem, .inr ⟨front, last, rfl, hempty, htext⟩⟩

/-- The pieces that separators end are found, and no others. -/
theorem endedBy_eq_iff : endedBy separator cs = pieces ↔ IsEnded separator cs pieces := by
  constructor
  · rintro rfl
    exact isEnded_endedBy separator cs
  · rintro ⟨hnot, rfl | ⟨front, last, rfl, hlast, rfl⟩⟩
    · have hrest := endedBy_ended hnot []
      rwa [List.append_nil, endedBy_of_notMem List.not_mem_nil, if_pos rfl, List.append_nil] at hrest
    · have hfront : ∀ piece ∈ front, separator ∉ piece := fun piece h =>
        hnot piece (List.mem_append_left _ h)
      rw [endedBy_ended hfront, endedBy_of_notMem (hnot last (by simp)), if_neg hlast]

/-! ## Two sides -/

/-- The two sides of the first separator are found, and no others. -/
theorem isHalved_iff : IsHalved separator cs left right ↔
    cs.takeWhile (· ≠ separator) = left ∧ (cs.dropWhile (· ≠ separator)).drop 1 = right := by
  constructor
  · rintro ⟨hnot, htext⟩
    have hleft : ∀ c ∈ left, decide (c ≠ separator) = true := fun c hc =>
      decide_eq_true (ne_of_mem_of_not_mem hc hnot)
    obtain ⟨tail, rfl, htail⟩ : ∃ tail, cs = left ++ tail ∧
        (tail = separator :: right ∨ tail = [] ∧ right = []) := by
      rcases htext with hcs | ⟨rfl, hright⟩
      · exact ⟨_, hcs, .inl rfl⟩
      · exact ⟨[], (List.append_nil cs).symm, .inr ⟨rfl, hright⟩⟩
    rw [List.takeWhile_append_of_pos hleft, List.dropWhile_append_of_pos hleft]
    rcases htail with rfl | ⟨rfl, rfl⟩ <;> simp
  · rintro ⟨rfl, rfl⟩
    refine ⟨fun hmem => ?_, ?_⟩
    · exact of_decide_eq_true (List.all_eq_true.mp List.all_takeWhile separator hmem) rfl
    · have htext : cs.takeWhile (· ≠ separator) ++ cs.dropWhile (· ≠ separator) = cs :=
        List.takeWhile_append_dropWhile
      have hhead := List.head?_dropWhile_not (fun c => decide (c ≠ separator)) cs
      rcases hrest : cs.dropWhile (· ≠ separator) with _ | ⟨c, rest⟩
      · rw [hrest, List.append_nil] at htext
        exact .inr ⟨htext.symm, rfl⟩
      · rw [hrest] at hhead htext
        have hc : c = separator := not_not.mp (of_decide_eq_false hhead)
        rw [hc] at htext
        exact .inl htext.symm

end Montage.Text
