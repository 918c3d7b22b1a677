import Mathlib.Data.List.Forall2
import Mathlib.Data.List.TakeWhile
import Montage.Diagnostic
import Montage.Proofs.Octets
import Montage.Proofs.Pieces

/-!
# The line to report

The line to report of an error output is the earliest that mentions an error, without blanks at both
ends; if none does, the first; and if that is missing or empty, a fixed text. The text that is
read may be cut off anywhere: what comes behind does not change the report just if a line that mentions an
error was read to its end.

* `Text.IsTrimmed`: a text without the characters at both ends that are to be dropped.
* `Diagnostic.HasErrorWord`: the word "error" stands in a line, in whichever case.
* `Diagnostic.Reports`: the report of some lines.
* `Diagnostic.IsSettled`: a line that mentions an error was read to its end.

Results:
* `Text.trim_eq_iff`: a text is trimmed so, and not otherwise.
* `Diagnostic.mentionsError_iff`: the word is found in whichever case.
* `Diagnostic.errorLine_eq_iff`: the report is found, and no other.
* `Diagnostic.errorLine_append`, `Diagnostic.exists_errorLine_append_ne`: when more text changes it.
* `Diagnostic.errorLine_ofText`: it is the same in octets.
* `Diagnostic.errorLine_is_right`: all of it.
-/

namespace Montage

/-! ## Both ends of a text -/

namespace Text

/-- What is left of a text without the characters of a margin at both ends. -/
structure IsTrimmed (margin cs shown : List Char) : Prop where
  text_eq : ∃ left right, cs = left ++ shown ++ right ∧ (∀ c ∈ left, c ∈ margin) ∧ ∀ c ∈ right, c ∈ margin
  head : ∀ c ∈ shown.head?, c ∉ margin
  last : ∀ c ∈ shown.getLast?, c ∉ margin

variable {dropped : Char → Bool} {margin cs shown word : List Char}

theorem dropWhile_of_head (h : ∀ c ∈ cs.head?, dropped c = false) : cs.dropWhile dropped = cs := by
  cases cs with
  | nil => rfl
  | cons c cs => exact List.dropWhile_cons_of_neg (Bool.eq_false_iff.mp (h c rfl))

theorem head_dropWhile {c : Char} (h : c ∈ (cs.dropWhile dropped).head?) : dropped c = false := by
  have hhead := List.head?_dropWhile_not dropped cs
  rwa [Option.mem_def.mp h] at hhead

theorem not_dropped_iff (hmargin : ∀ c, dropped c = true ↔ c ∈ margin) (c : Char) :
    dropped c = false ↔ c ∉ margin := by
  rw [← hmargin, Bool.not_eq_true]

theorem isTrimmed_trim (hmargin : ∀ c, dropped c = true ↔ c ∈ margin) (cs : List Char) :
    IsTrimmed margin cs (trim dropped cs) := by
  have htake (ds : List Char) : ∀ c ∈ ds.takeWhile dropped, c ∈ margin := fun c hc =>
    (hmargin c).mp (List.all_eq_true.mp List.all_takeWhile c hc)
  have hbody : cs.dropWhile dropped =
      trim dropped cs ++ ((cs.dropWhile dropped).reverse.takeWhile dropped).reverse := by
    rw [trim, ← List.reverse_append, List.takeWhile_append_dropWhile, List.reverse_reverse]
  constructor
  · refine ⟨cs.takeWhile dropped, ((cs.dropWhile dropped).reverse.takeWhile dropped).reverse, ?_, htake cs, ?_⟩
    · rw [List.append_assoc, ← hbody, List.takeWhile_append_dropWhile]
    · exact fun c hc => htake _ c (List.mem_reverse.mp hc)
  · intro c hc
    have hfirst : c ∈ (cs.dropWhile dropped).head? := by
      rw [hbody, List.head?_append, Option.mem_def.mp hc]
      rfl
    exact (not_dropped_iff hmargin c).mp (head_dropWhile hfirst)
  · intro c hc
    rw [trim, List.getLast?_reverse] at hc
    exact (not_dropped_iff hmargin c).mp (head_dropWhile hc)

theorem trim_of_isTrimmed (hmargin : ∀ c, dropped c = true ↔ c ∈ margin) (h : IsTrimmed margin cs shown) :
    trim dropped cs = shown := by
  obtain ⟨⟨left, right, rfl, hleft, hright⟩, hhead, hlast⟩ := h
  have hleft' : ∀ c ∈ left, dropped c = true := fun c hc => (hmargin c).mpr (hleft c hc)
  have hright' : ∀ c ∈ right, dropped c = true := fun c hc => (hmargin c).mpr (hright c hc)
  rw [trim, List.append_assoc, List.dropWhile_append_of_pos hleft']
  by_cases hempty : shown = []
  · rw [hempty, List.nil_append, List.dropWhile_eq_nil_iff.mpr hright']
    rfl
  · have hfront : (shown ++ right).dropWhile dropped = shown ++ right := by
      refine dropWhile_of_head fun c hc => (not_dropped_iff hmargin c).mpr (hhead c ?_)
      rwa [List.head?_append_of_ne_nil _ hempty] at hc
    have hback : shown.reverse.dropWhile dropped = shown.reverse := by
      refine dropWhile_of_head fun c hc => (not_dropped_iff hmargin c).mpr (hlast c ?_)
      rwa [List.head?_reverse] at hc
    rw [hfront, List.reverse_append,
      List.dropWhile_append_of_pos fun c hc => hright' c (List.mem_reverse.mp hc), hback, List.reverse_reverse]

/-- A text is trimmed so, and not otherwise. -/
theorem trim_eq_iff (hmargin : ∀ c, dropped c = true ↔ c ∈ margin) :
    trim dropped cs = shown ↔ IsTrimmed margin cs shown := by
  constructor
  · rintro rfl
    exact isTrimmed_trim hmargin cs
  · exact trim_of_isTrimmed hmargin

/-- A text that goes on with another character than those dropped keeps all but what it has at its start. -/
theorem trim_concat {c : Char} (hc : dropped c = false) :
    trim dropped (cs ++ [c]) = cs.dropWhile dropped ++ [c] := by
  have hstart : (cs ++ [c]).dropWhile dropped = cs.dropWhile dropped ++ [c] := by
    have hsingle : [c].dropWhile dropped = [c] := List.dropWhile_cons_of_neg (Bool.eq_false_iff.mp hc)
    rw [List.dropWhile_append, hsingle]
    by_cases hempty : (cs.dropWhile dropped).isEmpty = true
    · rw [if_pos hempty, List.isEmpty_iff.mp hempty, List.nil_append]
    · rw [if_neg hempty]
  rw [trim, hstart, List.reverse_concat, List.dropWhile_cons_of_neg (Bool.eq_false_iff.mp hc),
    List.reverse_cons, List.reverse_reverse]

theorem length_trim_le (dropped : Char → Bool) (cs : List Char) :
    (trim dropped cs).length ≤ (cs.dropWhile dropped).length := by
  rw [trim, List.length_reverse]
  exact (List.dropWhile_suffix dropped).length_le.trans_eq List.length_reverse

theorem includes_iff : includes word cs = true ↔ word <:+: cs := by
  induction cs with
  | nil => rw [includes, List.isEmpty_iff, List.infix_nil]
  | cons c cs ih => rw [includes, Bool.or_eq_true, List.isPrefixOf_iff_prefix, ih, List.infix_cons_iff]

/-! ## Octets of pieces and of their ends -/

/-- Trimming ASCII characters goes the same way in octets. -/
theorem IsTrimmed.ofChars (hascii : ∀ c ∈ margin, c.toNat < 128) (h : IsTrimmed margin cs shown) :
    IsTrimmed margin (Octet.ofChars cs) (Octet.ofChars shown) := by
  have hoctet {c octet : Char} (hc : c ∉ margin) (hmem : octet ∈ Octet.ofChar c) : octet ∉ margin := by
    intro hmargin
    rcases Octet.eq_or_beyond hmem with rfl | hbeyond
    · exact hc hmargin
    · have hlow := hascii octet hmargin
      omega
  obtain ⟨⟨left, right, rfl, hleft, hright⟩, hhead, hlast⟩ := h
  refine ⟨⟨left, right, ?_, hleft, hright⟩, ?_, ?_⟩
  · rw [Octet.ofChars_append, Octet.ofChars_append, Octet.ofChars_of_ascii fun c hc => hascii c (hleft c hc),
      Octet.ofChars_of_ascii fun c hc => hascii c (hright c hc)]
  · intro octet hmem
    cases shown with
    | nil => cases hmem
    | cons c shown =>
      rw [Octet.ofChars_cons, List.head?_append_of_ne_nil _ (Octet.ofChar_ne_nil c)] at hmem
      exact hoctet (hhead c rfl) (List.mem_of_mem_head? hmem)
  · intro octet hmem
    rcases List.eq_nil_or_concat' shown with rfl | ⟨shown, c, rfl⟩
    · cases hmem
    · have hc : Octet.ofChars [c] = Octet.ofChar c := List.flatMap_singleton _ _
      rw [Octet.ofChars_append, hc, List.getLast?_append_of_ne_nil _ (Octet.ofChar_ne_nil c)] at hmem
      exact hoctet (hlast c List.getLast?_concat) (List.mem_of_getLast? hmem)

/-- The pieces that an ASCII separator ends are the same in octets. -/
theorem IsEnded.ofChars {separator : Char} {pieces : List (List Char)} (hascii : separator.toNat < 128)
    (h : IsEnded separator cs pieces) :
    IsEnded separator (Octet.ofChars cs) (pieces.map Octet.ofChars) := by
  have hended (pieces : List (List Char)) :
      Octet.ofChars (ended separator pieces) = ended separator (pieces.map Octet.ofChars) := by
    have hseparator : Octet.ofChars [separator] = [separator] :=
      Octet.ofChars_of_ascii fun c hc => List.mem_singleton.mp hc ▸ hascii
    induction pieces with
    | nil => rfl
    | cons piece pieces ih =>
      rw [List.map_cons, ended_cons, ended_cons, ← List.singleton_append, Octet.ofChars_append,
        Octet.ofChars_append, hseparator, ih, List.singleton_append]
  refine ⟨fun piece hpiece => ?_, ?_⟩
  · obtain ⟨cs, hcs, rfl⟩ := List.mem_map.mp hpiece
    exact mt (Octet.mem_ofChars_iff hascii).mp (h.notMem cs hcs)
  · rcases h.text_eq with rfl | ⟨front, last, rfl, hlast, rfl⟩
    · exact .inl (hended pieces)
    · refine .inr ⟨front.map Octet.ofChars, Octet.ofChars last, List.map_append, ?_, ?_⟩
      · exact mt Octet.ofChars_eq_nil_iff.mp hlast
      · rw [Octet.ofChars_append, hended]

end Text

namespace Diagnostic

variable {output shown : String} {line word report cs : List Char} {lines : List (List Char)}

/-! ## Lines that mention an error -/

/-- The word "error", each letter in whichever case. -/
def IsErrorWord (word : List Char) : Prop :=
  List.Forall₂ (fun letter c => c = letter ∨ c = letter.toUpper) "error".toList word

/-- The word "error" stands somewhere in a line. -/
def HasErrorWord (line : List Char) : Prop := ∃ word, IsErrorWord word ∧ word <:+: line

theorem toNat_toLower (c : Char) :
    c.toLower.toNat = if 65 ≤ c.toNat ∧ c.toNat ≤ 90 then c.toNat + 32 else c.toNat := by
  have hcapital : c.val ≥ 'A'.val ∧ c.val ≤ 'Z'.val ↔ 65 ≤ c.toNat ∧ c.toNat ≤ 90 := Iff.rfl
  unfold Char.toLower
  by_cases h : 65 ≤ c.toNat ∧ c.toNat ≤ 90
  · rw [dif_pos (hcapital.mpr h), if_pos h]
    exact (UInt32.toNat_add _ _).trans (Nat.mod_eq_of_lt (show c.toNat + 32 < 2 ^ 32 by omega))
  · rw [dif_neg (mt hcapital.mp h), if_neg h]

/-- The two characters that a small letter is the lower case of. -/
theorem toLower_eq_iff {letter c : Char} (h : letter.isLower = true) :
    c.toLower = letter ↔ c = letter ∨ c = letter.toUpper := by
  have hsmall : 'a'.val ≤ letter.val ∧ letter.val ≤ 'z'.val :=
    (Bool.and_eq_true_iff.mp h).imp of_decide_eq_true of_decide_eq_true
  have hrange : 97 ≤ letter.toNat ∧ letter.toNat ≤ 122 := hsmall
  have hshift : ('A'.val - 'a'.val).toNat = 2 ^ 32 - 32 := by decide
  have hupper : letter.toUpper.toNat = (letter.toNat + (2 ^ 32 - 32)) % 2 ^ 32 := by
    unfold Char.toUpper
    rw [dif_pos hsmall, ← hshift]
    exact UInt32.toNat_add _ _
  rw [← Char.toNat_inj, ← Char.toNat_inj, ← Char.toNat_inj, toNat_toLower]
  split <;> omega

theorem isErrorWord_iff : IsErrorWord word ↔ Text.lower word = "error".toList := by
  have hsmall : "error".toList.all Char.isLower = true := by decide
  unfold IsErrorWord
  generalize "error".toList = letters at hsmall
  induction letters generalizing word with
  | nil => rw [List.forall₂_nil_left_iff, Text.lower, List.map_eq_nil_iff]
  | cons letter letters ih =>
    rw [List.all_cons, Bool.and_eq_true] at hsmall
    cases word with
    | nil => exact iff_of_false nofun nofun
    | cons c word =>
      have hrest : List.Forall₂ _ letters word ↔ _ := ih hsmall.2
      rw [List.forall₂_cons, hrest, ← toLower_eq_iff hsmall.1, Text.lower, Text.lower, List.map_cons,
        List.cons_eq_cons]

/-- The word is found in whichever case. -/
theorem mentionsError_iff : mentionsError line = true ↔ HasErrorWord line := by
  rw [mentionsError, Text.includes_iff, Text.lower, List.infix_map_iff]
  constructor
  · rintro ⟨word, hinfix, hword⟩
    exact ⟨word, isErrorWord_iff.mpr hword.symm, hinfix⟩
  · rintro ⟨word, hword, hinfix⟩
    exact ⟨word, hinfix, (isErrorWord_iff.mp hword).symm⟩

theorem HasErrorWord.exists_mem (h : HasErrorWord line) : ∃ c ∈ line, c.toLower ∈ "error".toList := by
  obtain ⟨word, hword, hinfix⟩ := h
  have hlower := isErrorWord_iff.mp hword
  obtain ⟨c, rest, rfl⟩ := List.exists_cons_of_ne_nil (show word ≠ [] by rintro rfl; cases hlower)
  refine ⟨c, hinfix.subset List.mem_cons_self, ?_⟩
  rw [← hlower]
  exact List.mem_cons_self

/-! ## The report -/

/-- The report of some lines: the earliest that mentions an error, without spaces, tabs and carriage returns
    at both ends; the first if none does; and a fixed text if that is missing or empty. -/
inductive Reports (lines : List (List Char)) : List Char → Prop where
  | error {before after : List (List Char)} {line report : List Char}
      (lines_eq : lines = before ++ line :: after) (noneBefore : ∀ l ∈ before, ¬ HasErrorWord l)
      (mentions : HasErrorWord line) (trimmed : Text.IsTrimmed [' ', '\t', '\r'] line report) :
      Reports lines report
  | first {line : List Char} {after : List (List Char)} (lines_eq : lines = line :: after)
      (noneThere : ∀ l ∈ lines, ¬ HasErrorWord l) (ne_nil : line ≠ []) : Reports lines line
  | nothing (noneThere : ∀ l ∈ lines, ¬ HasErrorWord l) (empty : lines.head?.getD [] = []) :
      Reports lines unknown.toList

theorem isMargin_iff (c : Char) : isMargin c = true ↔ c ∈ [' ', '\t', '\r'] := by
  simp [isMargin, or_assoc]

/-- Among lines that mention an error one is the earliest. -/
theorem exists_earliest (h : ∃ line ∈ lines, HasErrorWord line) :
    ∃ before line after, lines = before ++ line :: after ∧ (∀ l ∈ before, ¬ HasErrorWord l) ∧
      HasErrorWord line := by
  obtain ⟨line, hline, hword⟩ := h
  obtain ⟨first, hfirst⟩ := Option.isSome_iff_exists.mp
    (List.find?_isSome.mpr ⟨line, hline, mentionsError_iff.mpr hword⟩)
  obtain ⟨hmentions, before, after, hlines, hbefore⟩ := List.find?_eq_some_iff_append.mp hfirst
  refine ⟨before, first, after, hlines, fun l hl hl' => ?_, mentionsError_iff.mp hmentions⟩
  have hnot := hbefore l hl
  rw [mentionsError_iff.mpr hl'] at hnot
  cases hnot

theorem exists_reports (lines : List (List Char)) : ∃ report, Reports lines report := by
  by_cases hmentions : ∃ line ∈ lines, HasErrorWord line
  · obtain ⟨before, line, after, hlines, hbefore, hline⟩ := exists_earliest hmentions
    exact ⟨_, .error hlines hbefore hline (Text.isTrimmed_trim isMargin_iff line)⟩
  · have hnone : ∀ l ∈ lines, ¬ HasErrorWord l := fun l hl hword => hmentions ⟨l, hl, hword⟩
    by_cases hempty : lines.head?.getD [] = []
    · exact ⟨_, .nothing hnone hempty⟩
    · cases lines with
      | nil => exact absurd rfl hempty
      | cons line after => exact ⟨line, .first rfl hnone hempty⟩

theorem find?_eq_none (h : ∀ l ∈ lines, ¬ HasErrorWord l) : lines.find? mentionsError = none :=
  List.find?_eq_none.mpr fun l hl hmentions => h l hl (mentionsError_iff.mp hmentions)

theorem errorLine_of_reports (h : Reports (Text.lines output.toList) report) :
    errorLine output = String.ofList report := by
  unfold errorLine
  cases h with
  | @error before after line _ hlines hbefore hmentions htrimmed =>
    have hfind : (Text.lines output.toList).find? mentionsError = some line := by
      refine List.find?_eq_some_iff_append.mpr ⟨mentionsError_iff.mpr hmentions, before, after, hlines, ?_⟩
      intro l hl
      rw [Bool.not_eq_true', ← Bool.not_eq_true, mentionsError_iff]
      exact hbefore l hl
    simp only [hfind, (Text.trim_eq_iff isMargin_iff).mpr htrimmed]
  | first hlines hnone hne =>
    obtain ⟨c, rest, rfl⟩ := List.exists_cons_of_ne_nil hne
    simp only [find?_eq_none hnone]
    rw [hlines]
  | nothing hnone hempty =>
    simp only [find?_eq_none hnone]
    rcases hlines : Text.lines output.toList with _ | ⟨_ | ⟨c, line⟩, after⟩
    · rw [String.ofList_toList]
    · rw [String.ofList_toList]
    · rw [hlines] at hempty
      cases hempty

theorem reports_errorLine (output : String) :
    ∃ lines, Text.IsEnded '\n' output.toList lines ∧ Reports lines (errorLine output).toList := by
  obtain ⟨report, hreport⟩ := exists_reports (Text.lines output.toList)
  refine ⟨Text.lines output.toList, Text.isEnded_endedBy '\n' output.toList, ?_⟩
  rwa [errorLine_of_reports hreport, String.toList_ofList]

/-- The report is found, and no other. -/
theorem errorLine_eq_iff : errorLine output = shown ↔
    ∃ lines, Text.IsEnded '\n' output.toList lines ∧ Reports lines shown.toList := by
  constructor
  · rintro rfl
    exact reports_errorLine output
  · rintro ⟨lines, hlines, hreport⟩
    obtain rfl : Text.lines output.toList = lines := Text.endedBy_eq_iff.mpr hlines
    rw [errorLine_of_reports hreport, String.ofList_toList]

/-- A report says something. -/
theorem Reports.ne_nil (h : Reports lines report) : report ≠ [] := by
  cases h with
  | @error _ _ line _ _ _ hmentions htrimmed =>
    rintro rfl
    obtain ⟨left, right, hline, hleft, hright⟩ := htrimmed.text_eq
    obtain ⟨c, hc, hletter⟩ := hmentions.exists_mem
    rw [hline, List.append_nil, List.mem_append] at hc
    have hmargin : c ∈ [' ', '\t', '\r'] := hc.elim (hleft c) (hright c)
    have hnone : [' ', '\t', '\r'].all (fun c => decide (c.toLower ∉ "error".toList)) = true := by decide
    exact of_decide_eq_true (List.all_eq_true.mp hnone c hmargin) hletter
  | first _ _ hne => exact hne
  | nothing => decide

/-- A report of lines is one line. -/
theorem Reports.newline_notMem (h : Reports lines report) (hlines : ∀ line ∈ lines, '\n' ∉ line) :
    '\n' ∉ report := by
  cases h with
  | @error before after line _ hsplit _ _ htrimmed =>
    obtain ⟨left, right, hline, -, -⟩ := htrimmed.text_eq
    have hnot : '\n' ∉ line := hlines line (by rw [hsplit]; simp)
    rw [hline, List.mem_append, List.mem_append] at hnot
    exact fun hmem => hnot (.inl (.inr hmem))
  | first hsplit => exact hlines _ (by rw [hsplit]; exact List.mem_cons_self)
  | nothing => decide

/-! ## When more text comes -/

/-- A line that mentions an error was read to its end. -/
def IsSettled (cs : List Char) : Prop :=
  ∃ lines line rest, cs = Text.ended '\n' lines ++ rest ∧ (∀ l ∈ lines, '\n' ∉ l) ∧ line ∈ lines ∧
    HasErrorWord line

/-- What comes behind a line that mentions an error does not change the report. -/
theorem errorLine_append (h : IsSettled output.toList) (more : String) :
    errorLine (output ++ more) = errorLine output := by
  obtain ⟨lines, line, rest, htext, hnot, hmem, hline⟩ := h
  obtain ⟨before, first, after, hlines, hbefore, hfirst⟩ := exists_earliest ⟨line, hmem, hline⟩
  have hreport (text : String) (rest : List Char) (htext : text.toList = Text.ended '\n' lines ++ rest) :
      errorLine text = String.ofList (Text.trim isMargin first) := by
    have hall : Text.lines text.toList = before ++ first :: (after ++ Text.endedBy '\n' rest) := by
      rw [Text.lines, htext, Text.endedBy_ended hnot, hlines, List.append_assoc, List.cons_append]
    exact errorLine_of_reports (.error hall hbefore hfirst (Text.isTrimmed_trim isMargin_iff first))
  rw [hreport output rest htext, hreport (output ++ more) (rest ++ more.toList)]
  rw [String.toList_append, htext, List.append_assoc]

theorem Reports.exists_mentions (h : Reports lines report) (hreport : HasErrorWord report)
    (hne : report ≠ unknown.toList) : ∃ line ∈ lines, HasErrorWord line := by
  cases h with
  | @error before after line _ hlines _ hline => exact ⟨line, by rw [hlines]; simp, hline⟩
  | first hlines => exact ⟨report, by rw [hlines]; exact List.mem_cons_self, hreport⟩
  | nothing => exact absurd rfl hne

/-- The only line that mentions an error is the last, without its end: it changes as it goes on. -/
theorem errorLine_append_ne_of_last {front : List (List Char)} {last : List Char}
    (htext : output.toList = Text.ended '\n' front ++ last) (hcut : ∀ l ∈ front ++ [last], '\n' ∉ l)
    (hnone : ∀ l ∈ front, ¬ HasErrorWord l) (hlast : HasErrorWord last) :
    errorLine (output ++ "x") ≠ errorLine output := by
  have hreport {text : String} {line : List Char} (htext : text.toList = Text.ended '\n' front ++ line)
      (hcut : ∀ l ∈ front ++ [line], '\n' ∉ l) (hline : HasErrorWord line) :
      errorLine text = String.ofList (Text.trim isMargin line) := by
    obtain ⟨c, hc, -⟩ := hline.exists_mem
    have hended : Text.IsEnded '\n' text.toList (front ++ [line]) :=
      ⟨hcut, .inr ⟨front, line, rfl, List.ne_nil_of_mem hc, htext⟩⟩
    exact errorLine_of_reports
      (.error (Text.endedBy_eq_iff.mpr hended) hnone hline (Text.isTrimmed_trim isMargin_iff line))
  have htext' : (output ++ "x").toList = Text.ended '\n' front ++ (last ++ ['x']) := by
    simp [htext]
  have hcut' : ∀ l ∈ front ++ [last ++ ['x']], '\n' ∉ l := by
    simpa [or_imp, forall_and] using hcut
  have hlast' : HasErrorWord (last ++ ['x']) := by
    obtain ⟨word, hword, hinfix⟩ := hlast
    exact ⟨word, hword, hinfix.trans (List.infix_append' [] last ['x'])⟩
  intro heq
  rw [hreport htext' hcut' hlast', hreport htext hcut hlast, String.ofList_inj,
    Text.trim_concat (by decide)] at heq
  have hlength := congrArg List.length heq
  have hshort := Text.length_trim_le isMargin last
  rw [List.length_append, List.length_singleton] at hlength
  omega

/-- No line mentions an error: one that does so may come. -/
theorem errorLine_append_ne_of_none (hnone : ∀ l ∈ Text.splitOn '\n' output.toList, ¬ HasErrorWord l) :
    errorLine (output ++ "\nerror") ≠ errorLine output := by
  have hmentions : HasErrorWord "error".toList := mentionsError_iff.mp (by decide)
  have hlines : Text.lines (output ++ "\nerror").toList =
      Text.splitOn '\n' output.toList ++ "error".toList :: [] := by
    have hmore : (output ++ "\nerror").toList = output.toList ++ '\n' :: "error".toList := by simp
    rw [Text.lines, hmore, Text.endedBy_append]
    rfl
  have hreport : errorLine (output ++ "\nerror") = "error" :=
    errorLine_of_reports (.error hlines hnone hmentions (Text.isTrimmed_trim isMargin_iff _))
  intro heq
  obtain ⟨lines, hended, hreports⟩ := reports_errorLine output
  rw [← heq, hreport] at hreports
  obtain ⟨line, hline, hword⟩ := hreports.exists_mentions hmentions (by decide)
  rw [← Text.endedBy_eq_iff.mpr hended] at hline
  exact hnone line (Text.endedBy_subset '\n' output.toList hline) hword

/-- Until then, more text may change it. -/
theorem exists_errorLine_append_ne (h : ¬ IsSettled output.toList) :
    ∃ more, errorLine (output ++ more) ≠ errorLine output := by
  obtain ⟨front, last, hsplit⟩ := Text.exists_last '\n' output.toList
  have hcut := Text.splitOn_eq_iff.mp hsplit
  have htext : output.toList = Text.ended '\n' front ++ last := by
    rw [← Text.intercalate_concat]
    exact hcut.text_eq
  have hnone : ∀ l ∈ front, ¬ HasErrorWord l := fun l hl hword =>
    h ⟨front, l, last, htext, fun l hl => hcut.notMem l (List.mem_append_left _ hl), hl, hword⟩
  by_cases hlast : HasErrorWord last
  · exact ⟨"x", errorLine_append_ne_of_last htext hcut.notMem hnone hlast⟩
  · refine ⟨"\nerror", errorLine_append_ne_of_none fun l hl => ?_⟩
    rw [hsplit] at hl
    rcases List.mem_append.mp hl with hl | hl
    · exact hnone l hl
    · rwa [List.mem_singleton.mp hl]

/-! ## Octets -/

theorem HasErrorWord.ofChars_iff : HasErrorWord (Octet.ofChars line) ↔ HasErrorWord line := by
  have hascii (word : List Char) (hword : IsErrorWord word) : ∀ c ∈ word, c.toNat < 128 := by
    intro c hc
    have hmem : c.toLower ∈ "error".toList := by
      rw [← isErrorWord_iff.mp hword]
      exact List.mem_map_of_mem hc
    have hletters : ∀ d ∈ "error".toList, d.toNat < 128 := by simp
    have hlow := hletters _ hmem
    rw [toNat_toLower] at hlow
    split at hlow <;> omega
  exact exists_congr fun word => and_congr_right fun hword => Octet.infix_ofChars_iff (hascii word hword)

/-- The report of the octets of lines are the octets of their report. -/
theorem Reports.ofChars (h : Reports lines report) :
    Reports (lines.map Octet.ofChars) (Octet.ofChars report) := by
  have hmap {ls : List (List Char)} (hnone : ∀ l ∈ ls, ¬ HasErrorWord l) :
      ∀ l ∈ ls.map Octet.ofChars, ¬ HasErrorWord l := by
    intro l hl
    obtain ⟨line, hline, rfl⟩ := List.mem_map.mp hl
    exact fun hword => hnone line hline (HasErrorWord.ofChars_iff.mp hword)
  cases h with
  | @error before after line _ hlines hbefore hmentions htrimmed =>
    have hall : lines.map Octet.ofChars =
        before.map Octet.ofChars ++ Octet.ofChars line :: after.map Octet.ofChars := by
      rw [hlines, List.map_append, List.map_cons]
    exact .error hall (hmap hbefore) (HasErrorWord.ofChars_iff.mpr hmentions) (htrimmed.ofChars (by simp))
  | @first _ after hlines hnone hne =>
    have hall : lines.map Octet.ofChars = Octet.ofChars report :: after.map Octet.ofChars := by
      rw [hlines, List.map_cons]
    exact .first hall (hmap hnone) (mt Octet.ofChars_eq_nil_iff.mp hne)
  | nothing hnone hempty =>
    rw [Octet.ofChars_of_ascii (by simp [unknown])]
    refine .nothing (hmap hnone) ?_
    cases lines with
    | nil => rfl
    | cons line after => exact Octet.ofChars_eq_nil_iff.mpr hempty

/-- The report is the same in octets. -/
theorem errorLine_ofText (output : String) :
    errorLine (Octet.ofText output) = Octet.ofText (errorLine output) := by
  obtain ⟨lines, hlines, hreport⟩ := reports_errorLine output
  refine errorLine_eq_iff.mpr ⟨lines.map Octet.ofChars, ?_, ?_⟩
  · rw [Octet.ofText_toList]
    exact hlines.ofChars (by decide)
  · rw [Octet.ofText_toList]
    exact hreport.ofChars

/-! ## What is reported -/

/-- **The right line is reported.** The lines of an error output are what line feeds end, and what stands
    behind the last one if it is not empty. The earliest of them that mentions an error is reported, without
    spaces, tabs and carriage returns at both ends; else the first unless it is empty; else a fixed text.
    A report is never empty and never has a line feed. More text never changes it just if a line that
    mentions an error was read to its end. All of this is the same in octets as in characters. -/
theorem errorLine_is_right (output : String) :
    (∀ shown, errorLine output = shown ↔
      ∃ lines, Text.IsEnded '\n' output.toList lines ∧ Reports lines shown.toList) ∧
    errorLine output ≠ "" ∧ '\n' ∉ (errorLine output).toList ∧
    ((∀ more, errorLine (output ++ more) = errorLine output) ↔ IsSettled output.toList) ∧
    errorLine (Octet.ofText output) = Octet.ofText (errorLine output) := by
  obtain ⟨lines, hlines, hreport⟩ := reports_errorLine output
  refine ⟨fun shown => errorLine_eq_iff, fun hempty => ?_, hreport.newline_notMem hlines.notMem,
    ⟨fun hsame => ?_, errorLine_append⟩, errorLine_ofText output⟩
  · rw [hempty] at hreport
    exact hreport.ne_nil rfl
  · by_contra hopen
    obtain ⟨more, hmore⟩ := exists_errorLine_append_ne hopen
    exact hmore (hsame more)

example : errorLine "version 6.0\n\tERROR: no codec \r\nError again" = "ERROR: no codec" := by decide +kernel

end Diagnostic

end Montage
