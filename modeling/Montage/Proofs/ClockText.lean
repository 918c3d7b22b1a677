import Mathlib.Data.List.Forall2
import Montage.Proofs.Clock
import Montage.Proofs.Octets

/-!
# The grammar of clock texts

A clock text is one to three runs of digits with colons between them and an optional fraction behind the
last. The check of a text drops leading fields one at a time, and its value is read from the pieces between
the colons: the two agree on what the fields are. Every field of a text that passes the check is read to
its end, so that a field can only lack a number because the format holds none near it.

* `Time.IsClockText`: the grammar.
* `Time.total`: the sum of the fields, each in its unit.
* `Binary64.IsPositive`: a number without a sign, which may be infinite.

Results:
* `Time.isClock_iff`: the check accepts the grammar and nothing else.
* `Time.exists_readings`: the pieces between the colons are read to their ends.
* `Time.fieldSum_of_readings`: they have a sum unless one of them is out of range.
* `Time.clock_obeys_grammar`: what becomes of a text, in all three ways to use it.
-/

namespace Montage

open Number (plain Reading)

/-! ## The grammar -/

namespace Time

/-- One to three runs of digits with colons between them; behind the last of them there may be a point
    with one or more digits. -/
def IsClockText (cs : List Char) : Prop :=
  ∃ (runs : List (List Char)) (fraction : List Char), 1 ≤ runs.length ∧ runs.length ≤ 3 ∧
    (∀ run ∈ runs, IsRun run) ∧ (∀ c ∈ fraction, c.isDigit = true) ∧
    cs = plain ([':'].intercalate runs) fraction

/-- The fields before the last one, each with its colon, and what follows them. -/
def behind (front : List (List Char)) (last : List Char) : List Char :=
  front.foldr (fun run rest => run ++ ':' :: rest) last

/-- The last run stands apart, since the fraction belongs to it. -/
theorem isClockText_iff {cs : List Char} : IsClockText cs ↔
    ∃ front last, front.length ≤ 2 ∧ (∀ run ∈ front, IsRun run) ∧ isSecondsField last = true ∧
      cs = behind front last := by
  have hjoin (front : List (List Char)) (whole fraction : List Char) :
      plain ([':'].intercalate (front ++ [whole])) fraction = behind front (plain whole fraction) := by
    induction front with
    | nil => rw [List.nil_append, List.intercalate_singleton, behind, List.foldr_nil]
    | cons run front ih =>
      obtain ⟨next, others, hnext⟩ := List.exists_cons_of_ne_nil (l := front ++ [whole]) (by simp)
      rw [behind, List.foldr_cons, ← behind, ← ih, List.cons_append, hnext,
        List.intercalate_cons_cons, plain, plain]
      simp only [List.append_assoc, List.cons_append, List.nil_append]
  constructor
  · rintro ⟨runs, fraction, hpos, hle, hruns, hf, rfl⟩
    obtain ⟨front, whole, rfl⟩ := (List.eq_nil_or_concat' runs).resolve_left
      (List.ne_nil_of_length_pos hpos)
    rw [List.length_append, List.length_singleton] at hle
    refine ⟨front, plain whole fraction, by omega, fun run h => hruns run (List.mem_append_left _ h),
      isSecondsField_iff.mpr ⟨whole, fraction, hruns whole (by simp), hf, rfl⟩, hjoin front whole fraction⟩
  · rintro ⟨front, last, hle, hfront, hlast, rfl⟩
    obtain ⟨whole, fraction, hw, hf, rfl⟩ := isSecondsField_iff.mp hlast
    have hlength : (front ++ [whole]).length = front.length + 1 := by simp
    refine ⟨front ++ [whole], fraction, by omega, by omega, fun run h => ?_, hf,
      (hjoin front whole fraction).symm⟩
    rcases List.mem_append.mp h with h | h
    · exact hfront run h
    · rwa [List.mem_singleton.mp h]

/-- A leading field is dropped with its colon; a text without one is not changed. -/
theorem dropField_cases (cs : List Char) :
    (∃ run, IsRun run ∧ cs = run ++ ':' :: dropField cs) ∨ dropField cs = cs := by
  obtain ⟨hsplit, hdigits⟩ := spanDigits_spec cs
  by_cases hfield : ∃ c run rest, Text.spanDigits cs = (c :: run, ':' :: rest)
  · obtain ⟨c, run, rest, hspan⟩ := hfield
    have hrest : dropField cs = rest := by
      rw [dropField, hspan]
      rfl
    rw [hspan] at hsplit hdigits
    rw [hrest]
    exact .inl ⟨c :: run, ⟨List.cons_ne_nil _ _, hdigits⟩, hsplit⟩
  · right
    unfold dropField
    split
    · next c run rest hspan => exact absurd ⟨c, run, rest, hspan⟩ hfield
    · rfl

theorem IsRun.colon_notMem {run : List Char} (h : IsRun run) : ':' ∉ run := fun hmem =>
  absurd (h.2 ':' hmem) (by decide)

theorem colon_notMem_of_isSecondsField {cs : List Char} (h : isSecondsField cs = true) : ':' ∉ cs :=
  fun hmem => absurd (mem_of_isSecondsField h hmem) (by decide)

/-- A last field has nothing in front that could be dropped. -/
theorem dropField_of_isSecondsField {cs : List Char} (h : isSecondsField cs = true) :
    dropField cs = cs := by
  rcases dropField_cases cs with ⟨run, -, hcs⟩ | hsame
  · have hmem : ':' ∈ run ++ ':' :: dropField cs := List.mem_append_right run List.mem_cons_self
    rw [← hcs] at hmem
    exact absurd hmem (colon_notMem_of_isSecondsField h)
  · exact hsame

/-- The check accepts the grammar and nothing else. -/
theorem isClock_iff {cs : List Char} : isClock cs = true ↔ IsClockText cs := by
  rw [isClockText_iff, isClock]
  constructor
  · intro h
    rcases dropField_cases cs with ⟨first, hfirst, hcs⟩ | hsame
    · rcases dropField_cases (dropField cs) with ⟨second, hsecond, hrest⟩ | hsame
      · refine ⟨[first, second], _, by simp, by simp [hfirst, hsecond], h, ?_⟩
        rw [behind, List.foldr_cons, List.foldr_cons, List.foldr_nil, ← hrest]
        exact hcs
      · rw [hsame] at h
        exact ⟨[first], _, by simp, by simp [hfirst], h, hcs⟩
    · rw [hsame, hsame] at h
      exact ⟨[], cs, by simp, by simp, h, rfl⟩
  · rintro ⟨front, last, hle, hfront, hlast, rfl⟩
    rcases front with _ | ⟨first, _ | ⟨second, _ | ⟨third, rest⟩⟩⟩
    · rw [behind, List.foldr_nil, dropField_of_isSecondsField hlast, dropField_of_isSecondsField hlast]
      exact hlast
    · obtain ⟨hne, hd⟩ := hfront first (by simp)
      rw [behind, List.foldr_cons, List.foldr_nil, dropField_digits hne hd,
        dropField_of_isSecondsField hlast]
      exact hlast
    · obtain ⟨hne, hd⟩ := hfront first (by simp)
      obtain ⟨hne', hd'⟩ := hfront second (by simp)
      rw [behind, List.foldr_cons, List.foldr_cons, List.foldr_nil, dropField_digits hne hd,
        dropField_digits hne' hd']
      exact hlast
    · simp only [List.length_cons] at hle
      omega

/-- A clock text has digits, colons and a point only. -/
theorem mem_of_isClock {cs : List Char} (h : isClock cs = true) {c : Char} (hc : c ∈ cs) :
    c.isDigit = true ∨ c = ':' ∨ c = '.' := by
  obtain ⟨front, last, -, hfront, hlast, rfl⟩ := isClockText_iff.mp (isClock_iff.mp h)
  clear h
  induction front with
  | nil => exact (mem_of_isSecondsField hlast hc).imp_right .inr
  | cons run front ih =>
    rw [behind, List.foldr_cons, ← behind, List.mem_append, List.mem_cons] at hc
    rcases hc with hc | hc | hc
    · exact .inl ((hfront run List.mem_cons_self).2 c hc)
    · exact .inr (.inl hc)
    · exact ih (fun other hmem => hfront other (List.mem_cons_of_mem _ hmem)) hc

theorem IsClockText.ascii {cs : List Char} (h : IsClockText cs) : ∀ c ∈ cs, c.toNat < 128 := by
  intro c hc
  rcases mem_of_isClock (isClock_iff.mpr h) hc with hdigit | rfl | rfl
  · have hnine : c.toNat ≤ 57 := (Char.isDigit_iff_toNat.mp hdigit).2
    omega
  · decide
  · decide

/-! ## The pieces between the colons -/

theorem splitOn_behind {front : List (List Char)} {last : List Char} (hfront : ∀ run ∈ front, IsRun run)
    (hlast : isSecondsField last = true) : Text.splitOn ':' (behind front last) = front ++ [last] := by
  induction front with
  | nil => exact Text.splitOn_of_notMem (colon_notMem_of_isSecondsField hlast)
  | cons run front ih =>
    have hrun := Text.splitOn_of_notMem (hfront run List.mem_cons_self).colon_notMem
    have hrest := ih fun run h => hfront run (List.mem_cons_of_mem _ h)
    rw [behind, List.foldr_cons, ← behind, Text.splitOn_append, hrun, hrest]
    rfl

/-- A last field is read to its end; what is read has no sign. -/
theorem read_of_isSecondsField {cs : List Char} (h : isSecondsField cs = true) :
    ∃ n e, Number.read cs = some (Number.ofDecimal false n e, []) := by
  obtain ⟨whole, fraction, ⟨hne, hw⟩, hf, rfl⟩ := isSecondsField_iff.mp h
  exact ⟨_, _, Number.read_plain hne hw hf⟩

theorem IsRun.isSecondsField {run : List Char} (h : IsRun run) : isSecondsField run = true :=
  isSecondsField_iff.mpr ⟨run, [], h, by simp, (Number.plain_nil run).symm⟩

end Time

/-! ## Numbers without a sign -/

namespace Binary64

/-- A number without a sign, which may be infinite. -/
def IsPositive (x : Binary64) : Prop := x.IsUnsigned ∨ x = infinity false

theorem isPositive_ofRatio (num den : Nat) : (ofRatio false num den).IsPositive := by
  unfold ofRatio
  cases Magnitude.ofRatio? num den with
  | none => exact .inr rfl
  | some m => exact .inl ⟨m, rfl⟩

/-- What is read without a sign and in range has none. -/
theorem isUnsigned_ofDecimal {n : Nat} {e : Int} (h : (Number.ofDecimal false n e).outOfRange = false) :
    (Number.ofDecimal false n e).value.IsUnsigned := by
  have hratio {r : UnitRatio} (hr : (Number.ofUnitRatio false r).outOfRange = false) :
      (Number.ofUnitRatio false r).value.IsUnsigned := by
    rw [Number.ofUnitRatio, Bool.or_eq_false_iff, Bool.not_eq_false'] at hr
    exact isUnsigned_ofRatio hr.1
  unfold Number.ofDecimal Number.ofScientific at *
  split at h
  · next hzero =>
    rw [if_pos hzero]
    exact ⟨.zero, rfl⟩
  split at h
  · cases h
  split at h
  · cases h
  next hzero hlarge hsmall =>
  rw [if_neg hzero, if_neg hlarge, if_neg hsmall]
  split at h
  · next hexp =>
    rw [if_pos hexp]
    exact hratio h
  · next hexp =>
    rw [if_neg hexp]
    exact hratio h

variable {x y : Binary64}

theorem IsPositive.add (hx : x.IsPositive) (hy : y.IsPositive) : (x + y).IsPositive := by
  rcases hx with ⟨m, rfl⟩ | rfl
  · rcases hy with ⟨k, rfl⟩ | rfl
    · have hadd : finite false m + finite false k = if signedUnits false m + signedUnits false k = 0 then
          finite false .zero else ofRatio (decide (signedUnits false m + signedUnits false k < 0))
            (signedUnits false m + signedUnits false k).natAbs 1 := rfl
      have hnonneg : ¬ signedUnits false m + signedUnits false k < 0 := by
        simp only [signedUnits, Bool.false_eq_true, if_false]
        omega
      rw [hadd, decide_eq_false hnonneg]
      split
      · exact .inl ⟨.zero, rfl⟩
      · exact isPositive_ofRatio _ _
    · exact .inr rfl
  · rcases hy with ⟨k, rfl⟩ | rfl <;> exact .inr rfl

theorem IsUnsigned.mul (hx : x.IsUnsigned) (hy : y.IsUnsigned) : (x * y).IsPositive := by
  obtain ⟨m, rfl⟩ := hx
  obtain ⟨k, rfl⟩ := hy
  exact isPositive_ofRatio _ _

/-- A number without a sign passes the check just if it is finite. -/
theorem IsPositive.checkNumber_iff (h : x.IsPositive) :
    Time.checkNumber x = .ok () ↔ x.isFinite = true := by
  rcases h with hunsigned | rfl
  · exact iff_of_true (Time.checkNumber_of_isUnsigned hunsigned) hunsigned.isFinite
  · exact iff_of_false nofun nofun

end Binary64

/-! ## The sum -/

namespace Time

/-- Seconds, and minutes and hours if there are any: the last field comes first. -/
def total : List Binary64 → Binary64
  | [] => 0
  | [s] => s
  | [s, m] => s + m * 60
  | s :: m :: h :: _ => s + m * 60 + h * 3600

/-- The seconds of fields that were read, the first field first. -/
def secondsOf (readings : List Reading) : Binary64 := total (readings.reverse.map (·.value))

/-- The format holds a number near every field, and the sum is finite. -/
def InRange (readings : List Reading) : Prop :=
  (∀ r ∈ readings, r.outOfRange = false) ∧ (secondsOf readings).isFinite = true

/-- A failure that blames the time. -/
def BlamesTime {α : Type} (x : Except Error α) : Prop :=
  ∃ details, x = .error (.invalidParameter "time" details)

theorem BlamesTime.bind {α β : Type} {x : Except Error α} (h : BlamesTime x) (f : α → Except Error β) :
    BlamesTime (x >>= f) := by
  obtain ⟨details, rfl⟩ := h
  exact ⟨details, rfl⟩

/-- Every piece is read to its end. -/
def AreRead : List (List Char) → List Reading → Prop :=
  List.Forall₂ fun piece r => Number.read piece = some (r, [])

theorem exists_areRead {pieces : List (List Char)} (h : ∀ piece ∈ pieces, isSecondsField piece = true) :
    ∃ readings, AreRead pieces readings ∧
      ∀ r ∈ readings, r.outOfRange = false → r.value.IsUnsigned := by
  induction pieces with
  | nil => exact ⟨[], .nil, by simp⟩
  | cons piece pieces ih =>
    obtain ⟨n, e, hone⟩ := read_of_isSecondsField (h piece List.mem_cons_self)
    obtain ⟨readings, hall, hunsigned⟩ := ih fun piece hmem => h piece (List.mem_cons_of_mem _ hmem)
    refine ⟨Number.ofDecimal false n e :: readings, .cons hone hall, fun r hr => ?_⟩
    rcases List.mem_cons.mp hr with rfl | hr
    · exact Binary64.isUnsigned_ofDecimal
    · exact hunsigned r hr

/-- The pieces of a clock text are one to three, and each is read to its end. -/
theorem exists_readings {cs : List Char} (h : IsClockText cs) :
    ∃ readings : List Reading, 1 ≤ readings.length ∧ readings.length ≤ 3 ∧
      AreRead (Text.splitOn ':' cs) readings ∧
      ∀ r ∈ readings, r.outOfRange = false → r.value.IsUnsigned := by
  obtain ⟨front, last, hle, hfront, hlast, rfl⟩ := isClockText_iff.mp h
  rw [splitOn_behind hfront hlast]
  have hpieces : ∀ piece ∈ front ++ [last], isSecondsField piece = true := by
    intro piece hmem
    rcases List.mem_append.mp hmem with hmem | hmem
    · exact (hfront piece hmem).isSecondsField
    · rwa [List.mem_singleton.mp hmem]
  obtain ⟨readings, hread, hunsigned⟩ := exists_areRead hpieces
  have hlength := hread.length_eq
  rw [List.length_append, List.length_singleton] at hlength
  exact ⟨readings, by omega, by omega, hread, hunsigned⟩

/-- A field that is read has a number unless it is out of range. -/
theorem fieldNumber_of_read (text : String) {field : List Char} {r : Reading}
    (h : Number.read field = some (r, [])) : fieldNumber text field =
      if r.outOfRange then .error (.invalidParameter "time" s!"Time value out of range: {text}")
      else .ok r.value := by
  rw [fieldNumber, h]
  cases hr : r.outOfRange <;> simp [Option.filter, hr]

/-- Fields that are read have a sum unless one of them is out of range. -/
theorem fieldSum_of_readings (text : String) {fields : List (List Char)} {readings : List Reading}
    (hle : readings.length ≤ 3) (h : AreRead fields readings) :
    fieldSum text fields = if ∀ r ∈ readings, r.outOfRange = false then
        .ok (total (readings.map (·.value)))
      else .error (.invalidParameter "time" s!"Time value out of range: {text}") := by
  cases h with
  | nil => simp [fieldSum, total]
  | @cons _ r _ _ hread h =>
  have hr := fieldNumber_of_read text hread
  cases h with
  | nil =>
    rw [fieldSum, hr]
    cases hout : r.outOfRange <;> simp [hout, total]
  | @cons _ s _ _ hread h =>
  have hs := fieldNumber_of_read text hread
  cases h with
  | nil =>
    rw [fieldSum, hr, hs]
    cases hout : r.outOfRange <;> cases hout' : s.outOfRange <;> simp [hout, hout', total]
  | @cons _ t _ _ hread h =>
  have ht := fieldNumber_of_read text hread
  cases h with
  | nil =>
    rw [fieldSum, hr, hs, ht]
    cases hout : r.outOfRange <;> cases hout' : s.outOfRange <;> cases hout'' : t.outOfRange <;>
      simp [hout, hout', hout'', total]
  | cons =>
    simp only [List.length_cons] at hle
    omega

/-- A sum of numbers without a sign has none. -/
theorem isPositive_total {xs : List Binary64} (h : ∀ x ∈ xs, x.IsUnsigned) : (total xs).IsPositive := by
  have hsixty : (60 : Binary64).IsUnsigned := (Binary64.value_ofInt (n := 60) (by norm_num)).1
  have hhour : (3600 : Binary64).IsUnsigned := (Binary64.value_ofInt (n := 3600) (by norm_num)).1
  match xs with
  | [] => exact .inl Binary64.isUnsigned_zero
  | [s] => exact .inl (h s (by simp))
  | [s, m] => exact .add (.inl (h s (by simp))) ((h m (by simp)).mul hsixty)
  | s :: m :: g :: _ =>
    exact .add (.add (.inl (h s (by simp))) ((h m (by simp)).mul hsixty)) ((h g (by simp)).mul hhour)

/-! ## The three ways to use a text -/

/-- The seconds of a clock text are the sum of its fields, unless that is out of range. -/
theorem clockSeconds_of_readings {text : String} {readings : List Reading} (hle : readings.length ≤ 3)
    (h : AreRead (Text.splitOn ':' text.toList) readings)
    (hunsigned : ∀ r ∈ readings, r.outOfRange = false → r.value.IsUnsigned) :
    (InRange readings → clockSeconds text = .ok (secondsOf readings)) ∧
      (¬ InRange readings → BlamesTime (clockSeconds text)) := by
  have hsum := fieldSum_of_readings text (List.length_reverse.trans_le hle) (List.rel_reverse h)
  simp only [List.mem_reverse] at hsum
  rw [clockSeconds, hsum, ← secondsOf]
  by_cases hrange : ∀ r ∈ readings, r.outOfRange = false
  · have hpositive : (secondsOf readings).IsPositive := by
      refine isPositive_total fun x hx => ?_
      obtain ⟨r, hr, rfl⟩ := List.mem_map.mp hx
      exact hunsigned r (List.mem_reverse.mp hr) (hrange r (List.mem_reverse.mp hr))
    rw [if_pos hrange, ok_bind]
    by_cases hfinite : (secondsOf readings).isFinite = true
    · rw [hpositive.checkNumber_iff.mpr hfinite]
      exact ⟨fun _ => rfl, fun hnot => absurd ⟨hrange, hfinite⟩ hnot⟩
    · refine ⟨fun hin => absurd hin.2 hfinite, fun _ => ?_⟩
      rw [checkNumber, Bool.eq_false_of_not_eq_true hfinite]
      exact ⟨_, rfl⟩
  · rw [if_neg hrange]
    exact ⟨fun hin => absurd hin.1 hrange, fun _ => ⟨_, rfl⟩⟩

/-- **A clock text is what the grammar says, and it is read as the grammar says.** A text of the grammar is
    its own timestamp. Its fields, one to three, are each read to the end; their sum is its value and
    is what is written, unless a field or the sum is out of range. Then, and for every text that is
    not of the grammar, reading and writing fail alike. The octets of a text obey the grammar just if
    the text does, and then they are the text. -/
theorem clock_obeys_grammar (text : String) :
    (IsClockText text.toList → (Time.clock text).timestamp = .ok text ∧
      ∃ readings : List Reading, 1 ≤ readings.length ∧ readings.length ≤ 3 ∧
        AreRead (Text.splitOn ':' text.toList) readings ∧
        (InRange readings → (Time.clock text).toSeconds = .ok (secondsOf readings) ∧
          (Time.clock text).secondsText = .ok (secondsOf readings).text) ∧
        (¬ InRange readings → BlamesTime (Time.clock text).toSeconds ∧
          BlamesTime (Time.clock text).secondsText)) ∧
    (¬ IsClockText text.toList → BlamesTime (Time.clock text).timestamp ∧
      BlamesTime (Time.clock text).toSeconds ∧ BlamesTime (Time.clock text).secondsText) ∧
    (IsClockText (Octet.ofText text).toList ↔ IsClockText text.toList) ∧
    (IsClockText text.toList → Octet.ofText text = text) := by
  have hoctets : IsClockText (Octet.ofText text).toList ↔ IsClockText text.toList := by
    rw [Octet.ofText_toList]
    exact Octet.iff_of_ascii (fun _ => IsClockText.ascii) text.toList
  have hsame : IsClockText text.toList → Octet.ofText text = text := fun h => by
    rw [← String.toList_inj, Octet.ofText_toList, Octet.ofChars_of_ascii h.ascii]
  refine ⟨?_, ?_, hoctets, hsame⟩ <;> rw [← isClock_iff]
  · intro hclock
    have hcheck : checkClock text = .ok () := if_pos hclock
    have hseconds : (Time.clock text).toSeconds = clockSeconds text := by rw [toSeconds, hcheck, ok_bind]
    have hwritten : (Time.clock text).secondsText =
        (Time.clock text).toSeconds >>= fun n => pure n.text := by
      rw [secondsText, check, hcheck, ok_bind]
    obtain ⟨readings, hpos, hle, hread, hunsigned⟩ := exists_readings (isClock_iff.mp hclock)
    obtain ⟨hin, hout⟩ := clockSeconds_of_readings hle hread hunsigned
    refine ⟨by rw [timestamp, check, hcheck]; rfl, readings, hpos, hle, hread, fun h => ?_, fun h => ?_⟩
    · rw [hwritten, hseconds, hin h]
      exact ⟨rfl, rfl⟩
    · rw [hwritten, hseconds]
      exact ⟨hout h, (hout h).bind _⟩
  · intro hclock
    have hcheck : BlamesTime (checkClock text) := ⟨_, if_neg hclock⟩
    exact ⟨hcheck.bind _, hcheck.bind _, hcheck.bind _⟩

/-- Minutes and seconds, and the same text without its last digit. -/
theorem minutes_obey_grammar :
    IsClockText "1:05.5".toList ∧ (Time.clock "1:05.5").timestamp = .ok "1:05.5" ∧
      (Time.clock "1:05.5").toSeconds = .ok 65.5 ∧
      ¬ IsClockText "1:05.".toList ∧ BlamesTime (Time.clock "1:05.").toSeconds := by
  have hclock : IsClockText "1:05.5".toList := isClock_iff.mp (by decide +kernel)
  have hpoint : ¬ IsClockText "1:05.".toList := mt isClock_iff.mpr (by decide +kernel)
  exact ⟨hclock, ((clock_obeys_grammar _).1 hclock).1, by decide +kernel, hpoint,
    ((clock_obeys_grammar _).2.1 hpoint).2.1⟩

end Time

end Montage
