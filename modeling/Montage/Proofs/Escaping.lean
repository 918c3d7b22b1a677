import Mathlib.Data.List.Induction
import Montage.Operation.Caption
import Montage.Proofs.Check
import Montage.Proofs.Octets

/-!
# Escaped captions

A caption is written inside quotes, with its backslashes doubled and two backslashes before each colon and
each apostrophe. The text is read back although the code of a backslash begins the codes of the others:
no colon and no apostrophe stands in an escaped text without the two backslashes of its own.

* `Caption.unescape`: reads an escaped text.
* `Caption.slashes`: how many backslashes end a text.
* `Caption.EscapedAt`: a colon or an apostrophe of an escaped text, and which one of the text it is.

Results:
* `Caption.unescape_escape`: an escaped text is read back.
* `Caption.escapedAt_iff`: where the colons and apostrophes of an escaped text stand.
* `Caption.slashes_escape`: how many backslashes stand before them.
* `Caption.text_eq_of_filterText`: the filter of a caption determines its text.
* `Caption.escape_is_unambiguous`: all of this.
-/

namespace Montage.Caption

/-! ## Reading -/

/-- The characters that would end the text or its quotes. -/
def isSpecial (c : Char) : Bool := c = ':' || c = '\''

/-- Reads an escaped text. Two backslashes stand for the special character behind them, or else for one
    backslash; all other characters stand for themselves. -/
def unescape : List Char → List Char
  | '\\' :: '\\' :: c :: rest =>
    if isSpecial c then c :: unescape rest else '\\' :: unescape (c :: rest)
  | ['\\', '\\'] => ['\\']
  | c :: rest => c :: unescape rest
  | [] => []

variable {c : Char} {cs ds front back : List Char}

theorem isSpecial_iff : isSpecial c = true ↔ c = ':' ∨ c = '\'' := by simp [isSpecial]

theorem escapeChar_special (h : isSpecial c = true) : escapeChar c = ['\\', '\\', c] := by
  rcases isSpecial_iff.mp h with rfl | rfl <;> rfl

theorem escapeChar_other (hc : c ≠ '\\') (h : isSpecial c = false) : escapeChar c = [c] := by
  rw [escapeChar, if_neg hc, if_neg (isSpecial_iff.not.mp (Bool.not_eq_true _ ▸ h))]

theorem escape_cons (c : Char) (cs : List Char) : escape (c :: cs) = escapeChar c ++ escape cs :=
  List.flatMap_cons

theorem escape_append (cs ds : List Char) : escape (cs ++ ds) = escape cs ++ escape ds :=
  List.flatMap_append

/-- No escaped text begins with a special character. -/
theorem head_escape (cs : List Char) : ∀ c ∈ (escape cs).head?, isSpecial c = false := by
  cases cs with
  | nil => rintro c ⟨⟩
  | cons d cs =>
    rw [escape_cons]
    by_cases hd : d = '\\'
    · subst hd
      rintro c ⟨⟩
      decide
    cases hspecial : isSpecial d with
    | true =>
      rw [escapeChar_special hspecial]
      rintro c ⟨⟩
      decide
    | false =>
      rw [escapeChar_other hd hspecial]
      rintro c ⟨⟩
      exact hspecial

theorem unescape_slashes (h : ∀ c ∈ cs.head?, isSpecial c = false) :
    unescape ('\\' :: '\\' :: cs) = '\\' :: unescape cs := by
  cases cs with
  | nil => rfl
  | cons c cs => rw [unescape, h c rfl, if_neg Bool.false_ne_true]

theorem unescape_cons (hc : c ≠ '\\') (cs : List Char) : unescape (c :: cs) = c :: unescape cs := by
  conv_lhs => unfold unescape
  split <;> simp_all

/-- An escaped text is read back. The reader looks one character ahead, and what it sees there begins an
    escaped text. -/
theorem unescape_escape (cs : List Char) : unescape (escape cs) = cs := by
  induction cs with
  | nil => rfl
  | cons c cs ih =>
    rw [escape_cons]
    by_cases hc : c = '\\'
    · subst hc
      have hslashes : escapeChar '\\' ++ escape cs = '\\' :: '\\' :: escape cs := rfl
      rw [hslashes, unescape_slashes (head_escape cs), ih]
    cases hspecial : isSpecial c with
    | true =>
      rw [escapeChar_special hspecial]
      simp only [List.cons_append, List.nil_append]
      rw [unescape, if_pos hspecial, ih]
    | false => rw [escapeChar_other hc hspecial, List.singleton_append, unescape_cons hc, ih]

/-! ## Special characters -/

/-- How many backslashes end a text. -/
def slashes (cs : List Char) : Nat := (cs.reverse.takeWhile (· = '\\')).length

theorem slashes_concat (cs : List Char) (c : Char) :
    slashes (cs ++ [c]) = if c = '\\' then slashes cs + 1 else 0 := by
  unfold slashes
  rw [List.reverse_append, List.reverse_singleton, List.singleton_append]
  by_cases hc : c = '\\' <;> simp [hc]

/-- An escaped text ends with twice as many backslashes as the text. -/
theorem slashes_escape (cs : List Char) : slashes (escape cs) = 2 * slashes cs := by
  induction cs using List.reverseRecOn with
  | nil => rfl
  | append_singleton cs c ih =>
    rw [escape_append, slashes_concat]
    by_cases hc : c = '\\'
    · subst hc
      have htwo : escape cs ++ escape ['\\'] = escape cs ++ ['\\'] ++ ['\\'] := by
        rw [List.append_assoc]
        rfl
      rw [htwo, slashes_concat, if_pos rfl, slashes_concat, if_pos rfl, if_pos rfl, ih]
      omega
    · obtain ⟨before, hbefore⟩ : ∃ before, escape [c] = before ++ [c] := by
        rw [escape, List.flatMap_singleton]
        cases hspecial : isSpecial c with
        | true => exact ⟨['\\', '\\'], escapeChar_special hspecial⟩
        | false => exact ⟨[], escapeChar_other hc hspecial⟩
      rw [hbefore, ← List.append_assoc, slashes_concat, if_neg hc, if_neg hc]

/-- In the escaped text of `cs`, between `front` and `back`, stands a special character. It is the one
    between `before` and `after` in `cs`, and `front` ends with two backslashes of its own and two for
    each backslash directly before it in `cs`. -/
structure EscapedAt (cs front back : List Char) (c : Char) (before after : List Char) : Prop where
  text_eq : cs = before ++ c :: after
  front_eq : front = escape before ++ ['\\', '\\']
  back_eq : back = escape after
  slashes_eq : slashes front = 2 * slashes before + 2

theorem slashes_front (before : List Char) : slashes (escape before ++ ['\\', '\\']) =
    2 * slashes before + 2 := by
  have htwo : escape before ++ ['\\', '\\'] = escape before ++ ['\\'] ++ ['\\'] := by
    rw [List.append_assoc]
    rfl
  rw [htwo, slashes_concat, if_pos rfl, slashes_concat, if_pos rfl, slashes_escape]

/-- The only special character in the code of one character is the last. -/
theorem eq_of_escapeChar {d : Char} {more : List Char} (hc : isSpecial c = true)
    (h : escapeChar d = front ++ c :: more) : d = c ∧ front = ['\\', '\\'] ∧ more = [] := by
  have hslash : c ≠ '\\' := by
    rintro rfl
    exact absurd hc (by decide)
  by_cases hd : d = '\\'
  · subst hd
    have hmem : c ∈ escapeChar '\\' := by
      rw [h]
      simp
    simp [escapeChar] at hmem
    exact absurd hmem hslash
  cases hspecial : isSpecial d with
  | true =>
    rw [escapeChar_special hspecial] at h
    match front, h with
    | [], h => exact absurd (List.cons.inj h).1.symm hslash
    | [_], h => exact absurd (List.cons.inj (List.cons.inj h).2).1.symm hslash
    | [_, _], h =>
      simp only [List.cons_append, List.nil_append, List.cons.injEq] at h
      obtain ⟨rfl, rfl, rfl, rfl⟩ := h
      exact ⟨rfl, rfl, rfl⟩
    | _ :: _ :: _ :: _, h => simp at h
  | false =>
    have hmem : c ∈ escapeChar d := by
      rw [h]
      simp
    rw [escapeChar_other hd hspecial, List.mem_singleton] at hmem
    rw [hmem, hspecial] at hc
    cases hc

/-- Every special character of an escaped text is one of the text, and the other way round. -/
theorem escapedAt_iff (hc : isSpecial c = true) (cs front back : List Char) :
    escape cs = front ++ c :: back ↔ ∃ before after, EscapedAt cs front back c before after := by
  constructor
  · intro h
    induction cs generalizing front with
    | nil => simp [escape] at h
    | cons d cs ih =>
      rw [escape_cons] at h
      rcases List.append_eq_append_iff.mp h with ⟨rest, rfl, hrest⟩ | ⟨rest, hcode, hrest⟩
      · obtain ⟨before, after, rfl, rfl, rfl, -⟩ := ih rest hrest
        have hfront : escapeChar d ++ (escape before ++ ['\\', '\\']) =
            escape (d :: before) ++ ['\\', '\\'] := by
          rw [escape_cons, List.append_assoc]
        exact ⟨d :: before, after, rfl, hfront, rfl, hfront ▸ slashes_front (d :: before)⟩
      · cases rest with
        | nil =>
          -- The code of `d` ends before the special character, which then begins an escaped text.
          rw [List.nil_append] at hrest
          have hhead := head_escape cs c (by rw [← hrest]; rfl)
          rw [hhead] at hc
          cases hc
        | cons e rest =>
          obtain ⟨rfl, hback⟩ := List.cons.inj hrest
          obtain ⟨rfl, rfl, rfl⟩ := eq_of_escapeChar hc hcode
          exact ⟨[], cs, rfl, rfl, hback, slashes_front []⟩
  · rintro ⟨before, after, rfl, rfl, rfl, -⟩
    rw [escape_append, escape_cons, escapeChar_special hc, List.append_assoc]
    rfl

/-! ## Octets and filters -/

theorem replacesAscii_escapeChar : Octet.ReplacesAscii escapeChar where
  ascii c hc d hd := by
    by_cases hslash : c = '\\'
    · subst hslash
      simp only [escapeChar, if_true, List.mem_cons, List.not_mem_nil, or_false, or_self] at hd
      rw [hd]
      decide
    cases hspecial : isSpecial c with
    | true =>
      rw [escapeChar_special hspecial, List.mem_cons, List.mem_cons, List.mem_singleton] at hd
      rcases hd with rfl | rfl | rfl
      · decide
      · decide
      · exact hc
    | false =>
      rw [escapeChar_other hslash hspecial, List.mem_singleton] at hd
      rwa [hd]
  beyond c hc := by
    refine escapeChar_other ?_ ?_
    · rintro rfl
      exact absurd hc (by decide)
    · rw [Bool.eq_false_iff, ne_eq, isSpecial_iff]
      rintro (rfl | rfl) <;> exact absurd hc (by decide)

/-- What stands in a filter behind the text of its caption and does not depend on it. -/
def lookBack (c : Caption) : String :=
  "'" ++ option "fontfile" (c.fontFile.map fun path => s!"'{path}'")
    ++ option "fontsize" (some (Decimal.ofInt (c.fontSize.getD 24)))
    ++ option "fontcolor" (some (c.fontColor.getD "white"))
    ++ match c.background with
      | some color =>
        ":box=1" ++ option "boxcolor" (some color)
          ++ option "boxborderw" (c.border.map Decimal.ofInt)
      | none => ""

theorem lookText_eq (c : Caption) :
    c.lookText = "drawtext=text='" ++ (String.ofList (escape c.text.toList) ++ c.lookBack) := by
  have hquoted (escaped : String) : s!"'{escaped}'" = "'" ++ (escaped ++ "'") := String.append_assoc
  have hhead : "drawtext=text='" = "drawtext=text=" ++ "'" := rfl
  unfold lookText lookBack
  rw [hhead]
  cases c.background <;> simp only [hquoted, String.append_assoc]

theorem escape_injective : Function.Injective escape := Function.LeftInverse.injective unescape_escape

/-- Captions that differ in their texts only have different filters. -/
theorem text_eq_of_filterText {c : Caption} {s t filter : String} {h : Host}
    (hs : ({ c with text := s } : Caption).filterText h = .ok filter)
    (ht : ({ c with text := t } : Caption).filterText h = .ok filter) : s = t := by
  obtain ⟨place, hplace, hs⟩ := bind_eq_ok.mp hs
  obtain ⟨window, hwindow, hs⟩ := bind_eq_ok.mp hs
  obtain ⟨place', hplace', ht⟩ := bind_eq_ok.mp ht
  obtain ⟨window', hwindow', ht⟩ := bind_eq_ok.mp ht
  obtain rfl : place = place' := Except.ok.inj (hplace.symm.trans hplace')
  obtain rfl : window = window' := Except.ok.inj (hwindow.symm.trans hwindow')
  have hfilter := (pure_eq_ok.mp hs).trans (pure_eq_ok.mp ht).symm
  have hlook : ({ c with text := s } : Caption).lookText = ({ c with text := t } : Caption).lookText := by
    rwa [String.append_left_inj, String.append_left_inj, String.append_left_inj] at hfilter
  rw [lookText_eq, lookText_eq, String.append_right_inj] at hlook
  have hescape := (String.append_left_inj _).mp hlook
  exact String.toList_inj.mp (escape_injective (String.ofList_inj.mp hescape))

/-- **Escaping loses nothing.** An escaped text is read back, the escaped texts of two parts make up that of
    the whole, and the colons and apostrophes of an escaped text are those of the text, each behind two
    backslashes of its own and two for each backslash directly before it in the text. All of this holds of
    octets as of characters, and no two texts make the same filter of a caption. -/
theorem escape_is_unambiguous (cs : List Char) :
    unescape (escape cs) = cs ∧
    (∀ ds, escape (cs ++ ds) = escape cs ++ escape ds) ∧
    (∀ front c back, isSpecial c = true →
      (escape cs = front ++ c :: back ↔ ∃ before after, EscapedAt cs front back c before after)) ∧
    Octet.ofChars (escape cs) = escape (Octet.ofChars cs) ∧
    ∀ (c : Caption) (h : Host) (s t filter : String), s ≠ t →
      ({ c with text := s } : Caption).filterText h = .ok filter →
      ({ c with text := t } : Caption).filterText h ≠ .ok filter := by
  refine ⟨unescape_escape cs, escape_append cs, ?_, Octet.ofChars_flatMap replacesAscii_escapeChar cs, ?_⟩
  · intro front c back hc
    exact escapedAt_iff hc cs front back
  · intro c h s t filter hne hs ht
    exact hne (text_eq_of_filterText hs ht)

/-- A backslash before a colon, and the colon alone. -/
theorem escape_is_unambiguous_colon :
    isSpecial ':' = true ∧
    (∃ before after, EscapedAt ['\\', ':'] ['\\', '\\', '\\', '\\'] [] ':' before after) ∧
    (({ text := "\\:" } : Caption).filterText {} =
      .ok "drawtext=text='\\\\\\\\:':fontsize=24:fontcolor=white:x=(w-text_w)/2:y=(h-text_h)/2" ∧
    ({ text := ":" } : Caption).filterText {} ≠
      .ok "drawtext=text='\\\\\\\\:':fontsize=24:fontcolor=white:x=(w-text_w)/2:y=(h-text_h)/2") := by
  obtain ⟨-, -, hspecial, -, hfilters⟩ := escape_is_unambiguous ['\\', ':']
  have hfilter : ({ text := "\\:" } : Caption).filterText {} =
      .ok "drawtext=text='\\\\\\\\:':fontsize=24:fontcolor=white:x=(w-text_w)/2:y=(h-text_h)/2" := by
    have hlook : ({ text := "\\:" } : Caption).lookText =
        "drawtext=text='\\\\\\\\:':fontsize=24:fontcolor=white" := by decide +kernel
    rw [filterText, hlook]
    rfl
  exact ⟨by decide, (hspecial _ ':' _ (by decide)).mp (by decide), hfilter,
    hfilters {} {} "\\:" ":" _ (by decide) hfilter⟩

end Montage.Caption
