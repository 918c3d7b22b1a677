import Mathlib.Data.List.Basic
import Montage.Operation.Concatenation
import Montage.Proofs.Octets

/-!
# Reading list files

A list file has one line for each input, with its path in quotes. A path may hold quotes and line ends, or
even look like further lines. A reader that knows how a quote is written inside quotes and what may follow
the quote that closes them still reads from the list what was written, and nothing else can be read.

* `Concatenation.readToken`, `Concatenation.readList`: read a quoted token, and a whole list.
* `Concatenation.written`: the text of a list of entries.
* `Concatenation.paths`: the normal paths of the inputs.

Results:
* `Concatenation.readToken_eq_some_iff`: what is read as a token.
* `Concatenation.readList_eq_some_iff`: what is read as a list.
* `Concatenation.listContent_toList`: the list file is the text of its paths.
* `Concatenation.listContent_is_read_back`: the paths are read back from the list file.
-/

namespace Montage.Concatenation

/-! ## Tokens -/

/-- Reads a quoted token behind the quote that opens it, and gives the text behind the one that closes it.
    A quote closes the token at the end of the text or of a line; otherwise it has to begin the four
    characters that stand for a quote. -/
def readToken : List Char → Option (List Char × List Char)
  | '\'' :: '\\' :: '\'' :: '\'' :: rest =>
    (readToken rest).map fun (token, rest) => ('\'' :: token, rest)
  | ['\''] => some ([], [])
  | '\'' :: '\n' :: rest => some ([], '\n' :: rest)
  | '\'' :: _ => none
  | c :: rest => (readToken rest).map fun (token, rest) => (c :: token, rest)
  | [] => none

/-- What may follow the quote that closes a token. -/
def Follows (rest : List Char) : Prop := rest = [] ∨ ∃ more, rest = '\n' :: more

variable {cs rest token : List Char} {c : Char}

theorem quoteChar_other (hc : c ≠ '\'') : quoteChar c = [c] := if_neg hc

theorem readToken_other (hc : c ≠ '\'') (cs : List Char) :
    readToken (c :: cs) = (readToken cs).map fun (token, rest) => (c :: token, rest) := by
  conv_lhs => unfold readToken
  split <;> simp_all

theorem readToken_close (h : Follows rest) : readToken ('\'' :: rest) = some ([], rest) := by
  obtain rfl | ⟨more, rfl⟩ := h <;> rfl

theorem readToken_quoted (h : Follows rest) (token : List Char) :
    readToken (token.flatMap quoteChar ++ '\'' :: rest) = some (token, rest) := by
  induction token with
  | nil => exact readToken_close h
  | cons c token ih =>
    rw [List.flatMap_cons, List.append_assoc]
    by_cases hc : c = '\''
    · subst hc
      have hcode (more : List Char) : readToken (quoteChar '\'' ++ more) =
          (readToken more).map fun (token, rest) => ('\'' :: token, rest) := rfl
      rw [hcode, ih]
      rfl
    · rw [quoteChar_other hc, List.singleton_append, readToken_other hc, ih]
      rfl

theorem quoted_of_readToken (h : readToken cs = some (token, rest)) :
    cs = token.flatMap quoteChar ++ '\'' :: rest ∧ Follows rest := by
  induction cs using readToken.induct generalizing token with
  | case1 cs ih =>
    rw [readToken, Option.map_eq_some_iff] at h
    obtain ⟨⟨token, rest⟩, hread, hpair⟩ := h
    cases hpair
    obtain ⟨rfl, hrest⟩ := ih hread
    exact ⟨rfl, hrest⟩
  | case2 =>
    cases h
    exact ⟨rfl, .inl rfl⟩
  | case3 cs =>
    cases h
    exact ⟨rfl, .inr ⟨cs, rfl⟩⟩
  | case4 cs hcode hend hline =>
    rw [readToken] at h
    · cases h
    all_goals assumption
  | case5 c cs hcode hend hline hquote ih =>
    have hc : c ≠ '\'' := by
      rintro rfl
      exact hquote rfl
    rw [readToken_other hc, Option.map_eq_some_iff] at h
    obtain ⟨⟨token, rest⟩, hread, hpair⟩ := h
    cases hpair
    obtain ⟨rfl, hrest⟩ := ih hread
    rw [List.flatMap_cons, quoteChar_other hc]
    exact ⟨rfl, hrest⟩
  | case6 => cases h

/-- A token is read exactly where it stands quoted, closed by a quote that may close it. -/
theorem readToken_eq_some_iff :
    readToken cs = some (token, rest) ↔ cs = token.flatMap quoteChar ++ '\'' :: rest ∧ Follows rest := by
  refine ⟨quoted_of_readToken, ?_⟩
  rintro ⟨rfl, h⟩
  exact readToken_quoted h token

theorem length_of_readToken (h : readToken cs = some (token, rest)) : rest.length < cs.length := by
  obtain ⟨rfl, -⟩ := quoted_of_readToken h
  simp only [List.length_append, List.length_cons]
  omega

/-! ## Lists -/

/-- Reads the entries of a list, one quoted token a line. -/
def readList (text : List Char) : Option (List (List Char)) :=
  match text with
  | 'f' :: 'i' :: 'l' :: 'e' :: ' ' :: '\'' :: cs =>
    match _ : readToken cs with
    | some (token, _ :: rest) => (readList rest).map fun entries => token :: entries
    | some (token, []) => some [token]
    | none => none
  | _ => none
termination_by text.length
decreasing_by
  have hlength := length_of_readToken ‹_›
  simp only [List.length_cons] at hlength ⊢
  omega

/-- The line of an entry. -/
def entryLine (entry : List Char) : List Char := 'f' :: 'i' :: 'l' :: 'e' :: ' ' :: quote entry

/-- The text of a list of entries. -/
def written (entries : List (List Char)) : List Char := ['\n'].intercalate (entries.map entryLine)

variable {text entry : List Char} {entries : List (List Char)}

theorem written_singleton (entry : List Char) : written [entry] = entryLine entry := by
  rw [written, List.map_singleton, List.intercalate_singleton]

theorem written_cons (h : entries ≠ []) :
    written (entry :: entries) = entryLine entry ++ '\n' :: written entries := by
  rw [written, List.map_cons, List.intercalate_cons_of_ne_nil (List.map_eq_nil_iff.not.mpr h),
    List.append_assoc]
  rfl

theorem entryLine_append (entry cs : List Char) : entryLine entry ++ cs =
    'f' :: 'i' :: 'l' :: 'e' :: ' ' :: '\'' :: (entry.flatMap quoteChar ++ '\'' :: cs) := by
  simp [entryLine, quote]

theorem readList_last (entry : List Char) : readList (entryLine entry) = some [entry] := by
  rw [← List.append_nil (entryLine entry), entryLine_append, readList]
  split <;> simp_all [readToken_quoted (.inl rfl)]

theorem readList_line (entry cs : List Char) : readList (entryLine entry ++ '\n' :: cs) =
    (readList cs).map fun entries => entry :: entries := by
  rw [entryLine_append, readList]
  split <;> simp_all [readToken_quoted (.inr ⟨cs, rfl⟩)]

theorem readList_written (h : entries ≠ []) : readList (written entries) = some entries := by
  induction entries with
  | nil => exact absurd rfl h
  | cons entry entries ih =>
    by_cases hlast : entries = []
    · rw [hlast, written_singleton, readList_last]
    · rw [written_cons hlast, readList_line, ih hlast]
      rfl

theorem written_of_readList (h : readList text = some entries) :
    entries ≠ [] ∧ text = written entries := by
  induction text using readList.induct generalizing entries with
  | case1 cs token c rest hread ih =>
    obtain ⟨rfl, hfollows⟩ := quoted_of_readToken hread
    obtain ⟨more, hmore⟩ := hfollows.resolve_left (List.cons_ne_nil c rest)
    obtain ⟨rfl, rfl⟩ := List.cons.inj hmore
    rw [← entryLine_append, readList_line, Option.map_eq_some_iff] at h
    obtain ⟨more, hmore, rfl⟩ := h
    obtain ⟨hne, htext⟩ := ih hmore
    exact ⟨List.cons_ne_nil _ _, by rw [← entryLine_append, written_cons hne, htext]⟩
  | case2 cs token hread =>
    obtain ⟨rfl, -⟩ := quoted_of_readToken hread
    rw [← entryLine_append, List.append_nil, readList_last] at h
    cases h
    exact ⟨List.cons_ne_nil _ _, by rw [← entryLine_append, List.append_nil, written_singleton]⟩
  | case3 cs hread =>
    rw [readList] at h
    split at h <;> simp_all
  | case4 text hline =>
    rw [readList] at h
    · cases h
    · exact hline

/-- A list is read exactly where it stands written, and has an entry. -/
theorem readList_eq_some_iff : readList text = some entries ↔ entries ≠ [] ∧ text = written entries := by
  refine ⟨written_of_readList, ?_⟩
  rintro ⟨hne, rfl⟩
  exact readList_written hne

theorem readList_nil : readList [] = none := by
  rw [readList]
  rintro cs ⟨⟩

/-- Different lists have different texts. -/
theorem written_injective : Function.Injective written := by
  have hempty : written [] = [] := rfl
  intro entries others h
  by_cases hne : entries = []
  · subst hne
    by_contra hothers
    have hread := readList_written (Ne.symm hothers)
    rw [← h, hempty, readList_nil] at hread
    cases hread
  · have hread := readList_written hne
    rw [h] at hread
    by_cases hothers : others = []
    · rw [hothers, hempty, readList_nil] at hread
      cases hread
    · rw [readList_written hothers] at hread
      exact (Option.some.inj hread).symm

/-! ## The list file -/

/-- The normal paths of the inputs. -/
def paths (c : Concatenation) (h : Host) : List (List Char) :=
  c.inputs.map fun path => (Path.normalText h.directory path).toList

variable {c : Concatenation} {h : Host}

theorem listLine_toList (h : Host) (path : String) :
    (listLine h path).toList = entryLine (Path.normalText h.directory path).toList := by
  have hfile : "file ".toList = ['f', 'i', 'l', 'e', ' '] := rfl
  rw [listLine, String.toList_append, hfile, String.toList_ofList, entryLine]
  simp only [List.cons_append, List.nil_append]

theorem listContent_toList (c : Concatenation) (h : Host) :
    (c.listContent h).toList = written (c.paths h) := by
  have hlines : (c.inputs.map (listLine h)).map String.toList = (c.paths h).map entryLine := by
    rw [paths, List.map_map, List.map_map]
    exact List.map_congr_left fun path _ => listLine_toList h path
  have hbreak : "\n".toList = ['\n'] := rfl
  rw [listContent, Text.join, String.toList_intercalate, hlines, hbreak, written]

theorem replacesAscii_quoteChar : Octet.ReplacesAscii quoteChar where
  ascii c hc d hd := by
    by_cases hquote : c = '\''
    · subst hquote
      simp only [quoteChar, if_true, List.mem_cons, List.not_mem_nil, or_false] at hd
      rcases hd with rfl | rfl | rfl | rfl <;> decide
    · rw [quoteChar_other hquote, List.mem_singleton] at hd
      rwa [hd]
  beyond c hc := by
    refine quoteChar_other ?_
    rintro rfl
    exact absurd hc (by decide)

theorem ofChars_entryLine (entry : List Char) :
    Octet.ofChars (entryLine entry) = entryLine (Octet.ofChars entry) := by
  have hfront : Octet.ofChars ['f', 'i', 'l', 'e', ' ', '\''] = ['f', 'i', 'l', 'e', ' ', '\''] :=
    Octet.ofChars_of_ascii (by simp)
  have hback : Octet.ofChars ['\''] = ['\''] := Octet.ofChars_of_ascii (by simp)
  have hline (entry : List Char) : entryLine entry =
      ['f', 'i', 'l', 'e', ' ', '\''] ++ (entry.flatMap quoteChar ++ ['\'']) := rfl
  rw [hline, hline, Octet.ofChars_append, Octet.ofChars_append, hfront, hback,
    Octet.ofChars_flatMap replacesAscii_quoteChar]

/-- The octets of a list are the list of the octets. -/
theorem ofChars_written (entries : List (List Char)) :
    Octet.ofChars (written entries) = written (entries.map Octet.ofChars) := by
  induction entries with
  | nil => rfl
  | cons entry entries ih =>
    by_cases hlast : entries = []
    · rw [hlast, List.map_singleton, written_singleton, written_singleton, ofChars_entryLine]
    · have hbreak : Octet.ofChars ('\n' :: written entries) = '\n' :: Octet.ofChars (written entries) := rfl
      rw [written_cons hlast, List.map_cons, written_cons (by simpa using hlast), ← ih,
        Octet.ofChars_append, ofChars_entryLine, hbreak]

/-- Replacing one input replaces one path. -/
theorem paths_set (c : Concatenation) (h : Host) (i : Nat) (path : String) :
    ({ c with inputs := c.inputs.set i path } : Concatenation).paths h =
      (c.paths h).set i (Path.normalText h.directory path).toList := List.map_set

/-- **A list file is read back.** The paths of the inputs are read from the list file, in characters and in
    octets. Another path in the place of one changes its own entry only, and lists of other paths are
    other texts. The reader accepts nothing that is not written this way. -/
theorem listContent_is_read_back (c : Concatenation) (h : Host) (hinputs : c.inputs ≠ []) :
    readList (c.listContent h).toList = some (c.paths h) ∧
    readList (Octet.ofText (c.listContent h)).toList = some ((c.paths h).map Octet.ofChars) ∧
    (∀ i path, readList (({ c with inputs := c.inputs.set i path } : Concatenation).listContent h).toList =
      some ((c.paths h).set i (Path.normalText h.directory path).toList)) ∧
    (∀ (other : Concatenation) (h' : Host), other.paths h' ≠ c.paths h →
      other.listContent h' ≠ c.listContent h) ∧
    ∀ text entries, readList text = some entries ↔ entries ≠ [] ∧ text = written entries := by
  have hpaths : c.paths h ≠ [] := by simpa [paths] using hinputs
  refine ⟨?_, ?_, ?_, ?_, fun text entries => readList_eq_some_iff⟩
  · rw [listContent_toList, readList_written hpaths]
  · rw [Octet.ofText_toList, listContent_toList, ofChars_written, readList_written (by simpa using hpaths)]
  · intro i path
    rw [listContent_toList, paths_set, readList_written (by simpa using hpaths)]
  · intro other h' hne hcontent
    rw [← String.toList_inj, listContent_toList, listContent_toList] at hcontent
    exact hne (written_injective hcontent)

/-- Paths that hold a quote, a line that looks like an entry, and the code of a quote; the line as an entry
    of its own. -/
theorem listContent_is_read_back_quotes :
    let c : Concatenation := ⟨["it's", "a'\nfile 'b", "'\\''"], .demuxer, false, "lists"⟩
    let other : Concatenation := ⟨["it's", "a", "b", "'\\''"], .demuxer, false, "lists"⟩
    c.inputs ≠ [] ∧
    c.paths {} = ["/it's".toList, "/a'\nfile 'b".toList, "/'\\''".toList] ∧
    readList (c.listContent {}).toList = some ["/it's".toList, "/a'\nfile 'b".toList, "/'\\''".toList] ∧
    other.paths {} ≠ c.paths {} ∧ other.listContent {} ≠ c.listContent {} := by
  intro c other
  have hinputs : c.inputs ≠ [] := by decide
  have hpaths : c.paths {} = ["/it's".toList, "/a'\nfile 'b".toList, "/'\\''".toList] := by decide +kernel
  have hother : other.paths {} ≠ c.paths {} := by decide +kernel
  obtain ⟨hread, -, -, hcontent, -⟩ := listContent_is_read_back c {} hinputs
  exact ⟨hinputs, hpaths, hpaths ▸ hread, hother, hcontent other {} hother⟩

end Montage.Concatenation
