import Montage.Proofs.Timestamp

/-!
# Milliseconds, kept by a timestamp

A number of seconds is rounded to milliseconds before it is written, and the milliseconds are split into
fields of a fixed width. The fields can be taken apart again and count the same milliseconds: nothing is
lost or carried, and no two counts share a timestamp.

* `Time.Stamp`: the four fields of a timestamp, as they are written.
* `Time.Stamp.ofList?`, `Time.Stamp.ofCount`: the fields of a text, and those of a count.
* `Time.Stamp.IsComplete`: the widths and the limits of the fields.
* `Binary64.IsCountable`: a number whose milliseconds 64 bits can hold.
* `Time.Keeps`: what a timestamp keeps of a number.

Results:
* `Time.Stamp.ofList?_toList`: the fields are taken apart as they were put together.
* `Time.Stamp.isComplete_ofCount`, `Time.Stamp.count_ofCount`: the fields of a count of milliseconds.
* `Time.timestamp_keeps_milliseconds`: timestamps are equal, and ordered, as the milliseconds are.
-/

namespace Montage

namespace Time

/-! ## Fields -/

/-- The fields of a timestamp, as they are written. -/
structure Stamp where
  hours : List Char
  minutes : List Char
  seconds : List Char
  milliseconds : List Char
  deriving DecidableEq

/-- A number below a limit, in a fixed count of digits. -/
structure IsField (width limit : Nat) (cs : List Char) : Prop where
  length : cs.length = width
  digits : ∀ c ∈ cs, c.isDigit = true
  lt : Decimal.ofDigits cs < limit

namespace Stamp

def toList (s : Stamp) : List Char := fields s.hours s.minutes (s.seconds ++ '.' :: s.milliseconds)

/-- The pieces between the colons, the last of them split at its point. -/
def ofList? (cs : List Char) : Option Stamp :=
  match Text.splitOn ':' cs with
  | [hours, minutes, rest] =>
    match Text.splitOn '.' rest with
    | [seconds, milliseconds] => some ⟨hours, minutes, seconds, milliseconds⟩
    | _ => none
  | _ => none

/-- The milliseconds that the fields count. -/
def count (s : Stamp) : Nat :=
  3600000 * Decimal.ofDigits s.hours + 60000 * Decimal.ofDigits s.minutes +
    1000 * Decimal.ofDigits s.seconds + Decimal.ofDigits s.milliseconds

/-- Two digits or more for the hours, two for the minutes and the seconds, which stay below 60, and
    three for the milliseconds. -/
structure IsComplete (s : Stamp) : Prop where
  hours_length : 2 ≤ s.hours.length
  hours_digits : ∀ c ∈ s.hours, c.isDigit = true
  minutes : IsField 2 60 s.minutes
  seconds : IsField 2 60 s.seconds
  milliseconds : IsField 3 1000 s.milliseconds

variable {s : Stamp}

/-- Complete fields make a clock text. -/
theorem IsComplete.isClock (h : s.IsComplete) : isClock s.toList = true := by
  have hne {cs : List Char} {width : Nat} (hlength : width ≤ cs.length) (hwidth : 0 < width) : cs ≠ [] :=
    List.ne_nil_of_length_pos (hwidth.trans_le hlength)
  have hhours := hne h.hours_length (by decide)
  have hminutes := hne h.minutes.length.ge (by decide)
  have hseconds := hne h.seconds.length.ge (by decide)
  have hmilliseconds := hne h.milliseconds.length.ge (by decide)
  rw [Time.isClock, Stamp.toList, fields, dropField_digits hhours h.hours_digits,
    dropField_digits hminutes h.minutes.digits, ← Number.plain_of_ne_nil _ hmilliseconds]
  exact isSecondsField_plain hseconds h.seconds.digits h.milliseconds.digits

/-- The fields are taken apart as they were put together. -/
theorem ofList?_toList (h : s.IsComplete) : ofList? s.toList = some s := by
  have hnotMem {c : Char} {cs : List Char} (hc : c.isDigit = false)
      (hd : ∀ c ∈ cs, c.isDigit = true) : c ∉ cs := fun hmem => by
    rw [hd c hmem] at hc
    cases hc
  have hcolon : Char.isDigit ':' = false := rfl
  have hpoint : Char.isDigit '.' = false := rfl
  have hrest : ':' ∉ s.seconds ++ '.' :: s.milliseconds := by
    rw [List.mem_append, List.mem_cons]
    rintro (hmem | hmem | hmem)
    · exact hnotMem hcolon h.seconds.digits hmem
    · cases hmem
    · exact hnotMem hcolon h.milliseconds.digits hmem
  have hfields : Text.splitOn ':' s.toList = [s.hours, s.minutes, s.seconds ++ '.' :: s.milliseconds] :=
    splitOn_fields (hnotMem hcolon h.hours_digits) (hnotMem hcolon h.minutes.digits) hrest
  have hlast : Text.splitOn '.' (s.seconds ++ '.' :: s.milliseconds) = [s.seconds, s.milliseconds] := by
    rw [Text.splitOn_append, Text.splitOn_of_notMem (hnotMem hpoint h.seconds.digits),
      Text.splitOn_of_notMem (hnotMem hpoint h.milliseconds.digits)]
    rfl
  rw [ofList?, hfields]
  dsimp only
  rw [hlast]

end Stamp

/-! ## The fields of a count -/

theorem isField_padded (width : Nat) {limit n : Nat} (hwidth : 0 < width) (hlimit : limit ≤ 10 ^ width)
    (h : n < limit) : IsField width limit (Decimal.padded width n).toList :=
  ⟨Decimal.length_padded hwidth (h.trans_le hlimit), fun _ => Decimal.isDigit_of_mem_padded,
    by rwa [Decimal.ofDigits_padded]⟩

/-- The fields of a count of milliseconds. -/
def Stamp.ofCount (total : Nat) : Stamp where
  hours := (Decimal.padded 2 (total / 3600000 : Nat)).toList
  minutes := (Decimal.padded 2 (total / 60000 % 60 : Nat)).toList
  seconds := (Decimal.padded 2 (total / 1000 % 60 : Nat)).toList
  milliseconds := (Decimal.padded 3 (total % 1000 : Nat)).toList

theorem Stamp.isComplete_ofCount (total : Nat) : (Stamp.ofCount total).IsComplete := by
  constructor <;> dsimp only [Stamp.ofCount]
  · exact Decimal.le_length_padded 2 (total / 3600000)
  · exact fun c hc => Decimal.isDigit_of_mem_padded hc
  · exact isField_padded 2 (by decide) (by decide) (Nat.mod_lt (total / 60000) (by decide))
  · exact isField_padded 2 (by decide) (by decide) (Nat.mod_lt (total / 1000) (by decide))
  · exact isField_padded 3 (by decide) (by decide) (Nat.mod_lt total (by decide))

theorem Stamp.toList_ofCount (total : Nat) :
    (ofMilliseconds total).toList = (Stamp.ofCount total).toList := by
  have hne := List.ne_nil_of_length_eq_add_one (Stamp.isComplete_ofCount total).milliseconds.length
  dsimp only [Stamp.ofCount] at hne
  rw [ofMilliseconds_toList, Number.plain_of_ne_nil _ hne, Stamp.toList]
  dsimp only [Stamp.ofCount]

/-- The fields of a count count it. -/
theorem Stamp.count_ofCount (total : Nat) : (Stamp.ofCount total).count = total := by
  simp only [Stamp.count, Stamp.ofCount, Decimal.ofDigits_padded]
  omega

end Time

/-! ## Numbers -/

/-- A finite number of seconds, not below zero, whose milliseconds 64 bits can hold. -/
structure Binary64.IsCountable (n : Binary64) : Prop where
  isFinite : n.isFinite = true
  nonneg : 0 ≤ n.value
  fits : (Time.seconds n).Fits

namespace Time

/-- A number is written as a text that is a clock text, and the fields of the text count the milliseconds
    of the number. -/
structure Keeps (n : Binary64) (text : String) (s : Stamp) : Prop where
  timestamp : (seconds n).timestamp = .ok text
  isClock : isClock text.toList = true
  toList : text.toList = s.toList
  fields : Stamp.ofList? text.toList = some s
  isComplete : s.IsComplete
  count : (s.count : Int) = (n * 1000).roundAway

theorem exists_keeps {n : Binary64} (h : n.IsCountable) : ∃ text s, Keeps n text s := by
  obtain ⟨total, htotal, -, -⟩ := exists_count h.isFinite h.nonneg h.fits
  have hlist := Stamp.toList_ofCount total
  have hcomplete := Stamp.isComplete_ofCount total
  have hcheck : checkNumber n = .ok () := checkNumber_eq_ok_iff.mpr ⟨h.isFinite, h.nonneg⟩
  refine ⟨ofMilliseconds total, Stamp.ofCount total, ?_, ?_, hlist, ?_, hcomplete, ?_⟩
  · rw [timestamp, check, hcheck, ok_bind, token, htotal]
    rfl
  · rw [hlist]
    exact hcomplete.isClock
  · rw [hlist, Stamp.ofList?_toList hcomplete]
  · rw [Stamp.count_ofCount, htotal]

/-- Two numbers share a timestamp just if they share the count. -/
theorem Keeps.eq_iff {n n' : Binary64} {text text' : String} {s s' : Stamp} (h : Keeps n text s)
    (h' : Keeps n' text' s') : text = text' ↔ (n * 1000).roundAway = (n' * 1000).roundAway := by
  constructor
  · rintro rfl
    have hsame : s = s' := Option.some.inj (h.fields.symm.trans h'.fields)
    rw [← h.count, ← h'.count, hsame]
  · intro hcount
    have htoken : (seconds n).token = (seconds n').token := congrArg ofMilliseconds hcount
    have hwritten {m : Binary64} {text : String} (ht : (seconds m).timestamp = .ok text) :
        (seconds m).token = text := by
      obtain ⟨_, -, hpure⟩ := bind_eq_ok.mp ht
      exact pure_eq_ok.mp hpure
    rw [← hwritten h.timestamp, ← hwritten h'.timestamp, htoken]

/-- **A timestamp keeps the milliseconds.** The timestamp of a number of seconds is a clock text with two
    digits or more for the hours, two for minutes and seconds below 60, and three for the
    fraction; its fields count the milliseconds that the number is rounded to. So two timestamps are
    equal just if the counts are, and they denote times in the order of the counts. -/
theorem timestamp_keeps_milliseconds {n n' : Binary64} (h : n.IsCountable) (h' : n'.IsCountable) :
    ∃ (text text' : String) (s s' : Stamp), Keeps n text s ∧ Keeps n' text' s' ∧
      (text = text' ↔ (n * 1000).roundAway = (n' * 1000).roundAway) ∧
      (s.count ≤ s'.count ↔ (n * 1000).roundAway ≤ (n' * 1000).roundAway) := by
  obtain ⟨text, s, hkeeps⟩ := exists_keeps h
  obtain ⟨text', s', hkeeps'⟩ := exists_keeps h'
  refine ⟨text, text', s, s', hkeeps, hkeeps', hkeeps.eq_iff hkeeps', ?_⟩
  rw [← hkeeps.count, ← hkeeps'.count, Int.ofNat_le]

/-- The carry into the minutes and the one into the hours. -/
theorem timestamp_keeps_carries :
    (59.9996 : Binary64).IsCountable ∧ (3599.9999 : Binary64).IsCountable ∧
      (seconds 59.9996).timestamp = .ok "00:01:00.000" ∧
      (seconds 3599.9999).timestamp = .ok "01:00:00.000" ∧
      ∃ (text text' : String) (s s' : Stamp), Keeps 59.9996 text s ∧ Keeps 3599.9999 text' s' ∧
        text ≠ text' ∧ s.count ≤ s'.count := by
  have hcountable {n : Binary64} (hcheck : checkNumber n = .ok ()) (hfit : (seconds n).Fits) :
      n.IsCountable := by
    obtain ⟨hfinite, hnonneg⟩ := checkNumber_eq_ok_iff.mp hcheck
    exact ⟨hfinite, hnonneg, hfit⟩
  have hminute : (59.9996 : Binary64).IsCountable := hcountable (by decide +kernel) (by decide +kernel)
  have hhour : (3599.9999 : Binary64).IsCountable := hcountable (by decide +kernel) (by decide +kernel)
  obtain ⟨text, text', s, s', hkeeps, hkeeps', heq, hle⟩ := timestamp_keeps_milliseconds hminute hhour
  refine ⟨hminute, hhour, by decide +kernel, by decide +kernel, text, text', s, s', hkeeps, hkeeps', ?_, ?_⟩
  · rw [Ne, heq]
    decide +kernel
  · rw [hle]
    decide +kernel

end Time

end Montage
