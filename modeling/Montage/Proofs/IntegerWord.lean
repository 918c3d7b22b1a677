import Montage.Proofs.Clock

/-!
# Integer words

An integer is read after blanks and a sign, up to the first character that is no digit. Only the digits are
needed, there may be any number of zeros among them, and the integer has to fit in 32 bits.

* `Integer.blanks`: what may stand in front.
* `Integer.Spells`: what the parts of a text have to be to spell an integer.
* `Integer.IsWord`: a text that consists of these parts.

Results:
* `Integer.read_eq_ok_iff`: what is read, and where reading ends.
* `Integer.ofWord?_eq_some_iff`: a text is taken for an integer just if it is its word.
* `Integer.isWord_ofInt`: the decimal text of an integer is its word.
-/

namespace Montage.Integer

/-- The blanks: space, tab, line feed, vertical tab, form feed and carriage return. -/
def blanks : List Char := [' ', '\t', '\n', '\x0b', '\x0c', '\r']

/-- A sign, or none. -/
def IsSign (sign : List Char) : Prop := sign = [] ∨ sign = ['+'] ∨ sign = ['-']

/-- Blanks, a sign or none, and digits spell an integer between -2^31 and 2^31 - 1. -/
structure Spells (front sign digits : List Char) (n : Int) : Prop where
  blank : ∀ c ∈ front, c ∈ blanks
  isSign : IsSign sign
  isRun : Time.IsRun digits
  value : n = if sign = ['-'] then -(Decimal.ofDigits digits : Int) else Decimal.ofDigits digits
  lower : -2 ^ 31 ≤ n
  upper : n < 2 ^ 31

/-- A text that spells an integer from its beginning to its end. -/
def IsWord (word : List Char) (n : Int) : Prop :=
  ∃ front sign digits, word = front ++ (sign ++ digits) ∧ Spells front sign digits n

variable {cs rest front sign digits : List Char} {n : Int}

/-! ## Parts -/

theorem isBlank_iff {c : Char} : Text.isBlank c = true ↔ c ∈ blanks := by
  constructor
  · intro h
    rw [Text.isBlank, Bool.or_eq_true, beq_iff_eq, Bool.and_eq_true, decide_eq_true_eq,
      decide_eq_true_eq] at h
    rcases h with rfl | ⟨hlow, hhigh⟩
    · decide
    · have hlow' : 9 ≤ c.toNat := hlow
      have hhigh' : c.toNat ≤ 13 := hhigh
      rw [← Char.ofNat_toNat c]
      interval_cases c.toNat <;> decide
  · have hall : blanks.all Text.isBlank = true := by decide
    exact List.all_eq_true.mp hall c

theorem fits_iff : fits n = true ↔ -2 ^ 31 ≤ n ∧ n < 2 ^ 31 := by
  rw [fits, decide_eq_true_eq]
  norm_num

/-- A text is its sign, if it has one, and the rest. -/
theorem exists_sign (cs : List Char) : ∃ sign, IsSign sign ∧
    readSign cs = (decide (sign = ['-']), (readSign cs).2) ∧ cs = sign ++ (readSign cs).2 := by
  unfold readSign
  split
  · exact ⟨['-'], .inr (.inr rfl), rfl, rfl⟩
  · exact ⟨['+'], .inr (.inl rfl), rfl, rfl⟩
  · exact ⟨[], .inl rfl, rfl, rfl⟩

/-- The sign of digits is read off, and what stands behind them does not matter. -/
theorem Spells.readSign (h : Spells front sign digits n) (rest : List Char) :
    readSign (sign ++ (digits ++ rest)) = (decide (sign = ['-']), digits ++ rest) := by
  rcases h.isSign with rfl | rfl | rfl
  · obtain ⟨first, others, rfl⟩ := List.exists_cons_of_ne_nil h.isRun.1
    obtain ⟨-, hminus, hplus, -⟩ := Number.facts_of_isDigit (h.isRun.2 first List.mem_cons_self)
    simp only [List.nil_append, List.cons_append]
    unfold Integer.readSign
    split
    · next heq => exact absurd (List.cons.inj heq).1 hminus
    · next heq => exact absurd (List.cons.inj heq).1 hplus
    · rfl
  · rfl
  · rfl

/-- No blank stands where the sign or the digits begin. -/
theorem Spells.dropWhile_blanks (h : Spells front sign digits n) (rest : List Char) :
    (front ++ (sign ++ (digits ++ rest))).dropWhile Text.isBlank = sign ++ (digits ++ rest) := by
  refine (Number.span_of_all (fun c hc => isBlank_iff.mpr (h.blank c hc)) fun c hc => ?_).2
  rcases h.isSign with rfl | rfl | rfl
  · obtain ⟨first, others, rfl⟩ := List.exists_cons_of_ne_nil h.isRun.1
    obtain rfl : first = c := Option.some.inj hc
    exact (Number.facts_of_isDigit (h.isRun.2 first List.mem_cons_self)).1
  · obtain rfl : '+' = c := Option.some.inj hc
    decide
  · obtain rfl : '-' = c := Option.some.inj hc
    decide

/-! ## Reading -/

theorem read_of_spells (h : Spells front sign digits n) (hrest : ∀ c ∈ rest.head?, c.isDigit = false) :
    read (front ++ (sign ++ (digits ++ rest))) = .ok (n, rest) := by
  obtain ⟨htake, hdrop⟩ := Number.span_of_all h.isRun.2 hrest
  obtain ⟨first, others, hdigits⟩ := List.exists_cons_of_ne_nil h.isRun.1
  have hvalue := h.value
  have hfits := fits_iff.mpr ⟨h.lower, h.upper⟩
  rw [read, h.dropWhile_blanks, h.readSign]
  dsimp only
  rw [Text.spanDigits, htake, hdrop, hdigits]
  dsimp only
  rw [← hdigits]
  simp only [decide_eq_true_eq]
  rw [← hvalue, if_pos hfits]

/-- An integer is read where it is spelled, and reading ends before the first character that is no
    digit. -/
theorem read_eq_ok_iff : read cs = .ok (n, rest) ↔
    ∃ front sign digits, cs = front ++ (sign ++ (digits ++ rest)) ∧ Spells front sign digits n ∧
      ∀ c ∈ rest.head?, c.isDigit = false := by
  constructor
  · intro h
    have hcs : cs.takeWhile Text.isBlank ++ cs.dropWhile Text.isBlank = cs :=
      List.takeWhile_append_dropWhile
    have hblank : ∀ c ∈ cs.takeWhile Text.isBlank, c ∈ blanks := fun c hc =>
      isBlank_iff.mp (List.all_eq_true.mp List.all_takeWhile c hc)
    obtain ⟨sign, hsign, hread, htext⟩ := exists_sign (cs.dropWhile Text.isBlank)
    rw [read, hread] at h
    dsimp only at h
    generalize (readSign (cs.dropWhile Text.isBlank)).2 = body at h htext
    obtain ⟨hbody, hdigits⟩ := Time.spanDigits_spec body
    have hstop : ∀ c ∈ (Text.spanDigits body).2.head?, c.isDigit = false := by
      intro c hc
      have hhead := List.head?_dropWhile_not Char.isDigit body
      have hc' : (body.dropWhile Char.isDigit).head? = some c := hc
      rwa [hc'] at hhead
    generalize Text.spanDigits body = span at h hbody hdigits hstop
    obtain ⟨digits, after⟩ := span
    split at h
    · cases h
    · next digits' after' hne heq =>
      obtain ⟨rfl, rfl⟩ := Prod.mk.inj heq
      rw [demand_eq_ok] at h
      obtain ⟨hfits, hpair⟩ := h
      obtain ⟨rfl, rfl⟩ := Prod.mk.inj (Except.ok.inj hpair)
      obtain ⟨hlower, hupper⟩ := fits_iff.mp hfits
      have hrun : Time.IsRun digits := ⟨hne, hdigits⟩
      refine ⟨_, sign, digits, ?_, ⟨hblank, hsign, hrun, ?_, hlower, hupper⟩, hstop⟩
      · rw [← hbody, ← htext, hcs]
      · simp only [decide_eq_true_eq]
  · rintro ⟨front, sign, digits, rfl, hspells, hrest⟩
    exact read_of_spells hspells hrest

/-- A text is taken for an integer just if it is its word. -/
theorem ofWord?_eq_some_iff {word : String} : ofWord? word = some n ↔ IsWord word.toList n := by
  have hread : ofWord? word = some n ↔ read word.toList = .ok (n, []) := by
    unfold ofWord?
    rcases read word.toList with fault | ⟨m, _ | ⟨c, rest⟩⟩ <;> simp
  rw [hread, read_eq_ok_iff]
  simp only [List.append_nil, List.head?_nil, Option.mem_def, reduceCtorEq, false_implies, implies_true,
    and_true, IsWord]

/-- The decimal text of an integer is its word. -/
theorem isWord_ofInt (hlower : -2 ^ 31 ≤ n) (hupper : n < 2 ^ 31) : IsWord (Decimal.ofInt n).toList n := by
  have hrun : Time.IsRun (Decimal.digits n.natAbs) :=
    ⟨Nat.toDigits_ne_nil, fun _ => Decimal.isDigit_of_mem_digits⟩
  refine ⟨[], if n < 0 then ['-'] else [], Decimal.digits n.natAbs, String.toList_ofList,
    ⟨by simp, ?_, hrun, ?_, hlower, hupper⟩⟩
  · split
    · exact .inr (.inr rfl)
    · exact .inl rfl
  · rw [Decimal.ofDigits_digits]
    by_cases hn : n < 0
    · rw [if_pos hn, if_pos rfl]
      omega
    · rw [if_neg hn, if_neg (by simp)]
      omega

/-- The characters of a word. -/
theorem IsWord.mem (h : IsWord cs n) {c : Char} (hc : c ∈ cs) :
    c ∈ blanks ++ ['+', '-'] ++ "0123456789".toList := by
  obtain ⟨front, sign, digits, rfl, hspells⟩ := h
  rcases List.mem_append.mp hc with hc | hc
  · exact List.mem_append_left _ (List.mem_append_left _ (hspells.blank c hc))
  rcases List.mem_append.mp hc with hc | hc
  · refine List.mem_append_left _ (List.mem_append_right _ ?_)
    rcases hspells.isSign with rfl | rfl | rfl
    · cases hc
    · exact List.mem_cons.mpr (.inl (List.mem_singleton.mp hc))
    · exact List.mem_cons_of_mem _ hc
  · exact List.mem_append_right _ (Number.mem_of_isDigit (hspells.isRun.2 c hc))

theorem IsWord.ascii (h : IsWord cs n) : ∀ c ∈ cs, c.toNat < 128 := by
  have hall : ((blanks ++ ['+', '-'] ++ "0123456789".toList).all fun c => decide (c.toNat < 128)) = true := by
    decide
  exact fun c hc => of_decide_eq_true (List.all_eq_true.mp hall c (h.mem hc))

theorem IsWord.colon_notMem (h : IsWord cs n) : ':' ∉ cs := fun hc => absurd (h.mem hc) (by decide)

end Montage.Integer
