import Montage.CommandLine.Reading
import Montage.Proofs.IntegerWord
import Montage.Proofs.Octets
import Montage.Proofs.Pieces

/-!
# The texts of sizes and crops

A crop is two or four integer words with colons between them. A size is cut at its first `x`, and each of
its sides is an integer word or left open. Every other text is refused by a complaint about the usage.

* `CommandLine.IsCropText`, `CommandLine.IsSizeText`: the grammars, with what the texts stand for.
* `CommandLine.FailsByUsage`: something that fails by complaints about the usage only.

Results:
* `CommandLine.parseCrop_eq_ok_iff`: what is read as a crop.
* `CommandLine.parseSize_eq_ok_iff`: what is read as a size.
* `CommandLine.geometry_is_read_exactly`: both, with what becomes of all other texts.
-/

namespace Montage.CommandLine

open Integer (IsWord)

/-! ## The grammars -/

/-- The text of a crop: two integer words with a colon between them, or four. Without a place the crop
    begins in the corner. -/
inductive IsCropText (cs : List Char) : Crop → Prop
  | cornered {w h : List Char} {width height : Int} (cut : Text.IsCut ':' cs [w, h])
      (isWidth : IsWord w width) (isHeight : IsWord h height) : IsCropText cs ⟨width, height, 0, 0⟩
  | placed {w h left top : List Char} {width height x y : Int} (cut : Text.IsCut ':' cs [w, h, left, top])
      (isWidth : IsWord w width) (isHeight : IsWord h height) (isLeft : IsWord left x)
      (isTop : IsWord top y) : IsCropText cs ⟨width, height, x, y⟩

/-- One side of a size: an integer word, or nothing if the side is left open. -/
def IsSideText (cs : List Char) : Option Int → Prop
  | none => cs = []
  | some n => IsWord cs n

/-- The text of a size, cut at its first `x` if it has one: two sides of which one may be left open. -/
structure IsSizeText (cs : List Char) (width height : Option Int) : Prop where
  sides : ∃ left right, Text.IsHalved 'x' cs left right ∧ IsSideText left width ∧ IsSideText right height
  some_or_some : ¬ (width = none ∧ height = none)

variable {cs : List Char} {value flag : String} {n : Int}

/-! ## Reading -/

theorem parseInteger_eq_ok_iff : parseInteger flag value = .ok n ↔ IsWord value.toList n := by
  rw [← Integer.ofWord?_eq_some_iff, parseInteger]
  cases Integer.ofWord? value <;> simp

theorem parseInteger_ofList : parseInteger flag (String.ofList cs) = .ok n ↔ IsWord cs n := by
  rw [parseInteger_eq_ok_iff, String.toList_ofList]

theorem parseCrop_of_isCropText {c : Crop} (h : IsCropText value.toList c) : parseCrop value = .ok c := by
  cases h with
  | cornered cut isWidth isHeight =>
    rw [parseCrop, Text.splitOn_eq_iff.mpr cut]
    simp only [parseInteger_ofList.mpr isWidth, parseInteger_ofList.mpr isHeight, ok_bind]
    rfl
  | placed cut isWidth isHeight isLeft isTop =>
    rw [parseCrop, Text.splitOn_eq_iff.mpr cut]
    simp only [parseInteger_ofList.mpr isWidth, parseInteger_ofList.mpr isHeight,
      parseInteger_ofList.mpr isLeft, parseInteger_ofList.mpr isTop, ok_bind]
    rfl

theorem isCropText_of_parseCrop {c : Crop} (h : parseCrop value = .ok c) : IsCropText value.toList c := by
  have hcut := Text.isCut_splitOn ':' value.toList
  rw [parseCrop] at h
  split at h
  · next w h' hpieces =>
    simp only [bind_eq_ok, parseInteger_ofList, pure_eq_ok] at h
    obtain ⟨width, hwidth, height, hheight, rfl⟩ := h
    exact .cornered (hpieces ▸ hcut) hwidth hheight
  · next w h' left top hpieces =>
    simp only [bind_eq_ok, parseInteger_ofList, pure_eq_ok] at h
    obtain ⟨width, hwidth, height, hheight, x, hx, y, hy, rfl⟩ := h
    exact .placed (hpieces ▸ hcut) hwidth hheight hx hy
  · cases h

/-- What is read as a crop. -/
theorem parseCrop_eq_ok_iff {c : Crop} : parseCrop value = .ok c ↔ IsCropText value.toList c :=
  ⟨isCropText_of_parseCrop, parseCrop_of_isCropText⟩

theorem parseSide_eq_ok_iff {side : Option Int} : parseSide cs = .ok side ↔ IsSideText cs side := by
  cases cs with
  | nil =>
    have hword (n : Int) : ¬ IsWord [] n := by
      rintro ⟨front, sign, digits, htext, hspells⟩
      exact hspells.isRun.1 (List.append_eq_nil_iff.mp (List.append_eq_nil_iff.mp htext.symm).2).2
    cases side with
    | none => exact iff_of_true rfl rfl
    | some n => exact iff_of_false nofun (hword n)
  | cons c cs =>
    have hside : parseSide (c :: cs) = (parseInteger "--resize" (String.ofList (c :: cs))).map some := rfl
    rw [hside]
    cases hread : parseInteger "--resize" (String.ofList (c :: cs)) with
    | error e =>
      cases side with
      | none => exact iff_of_false nofun nofun
      | some n => exact iff_of_false nofun fun h => nomatch hread.symm.trans (parseInteger_ofList.mpr h)
    | ok m =>
      cases side with
      | none => exact iff_of_false nofun nofun
      | some n =>
        have hword : IsSideText (c :: cs) (some n) ↔ m = n := by
          rw [IsSideText, ← parseInteger_ofList, hread, Except.ok.injEq]
        rw [hword, Except.map, Except.ok.injEq, Option.some.injEq]

/-- What is read as a size. -/
theorem parseSize_eq_ok_iff {keeps : Bool} {r : Resize} : parseSize value keeps = .ok r ↔
    IsSizeText value.toList r.width r.height ∧ r.keepsAspect = keeps := by
  obtain ⟨width, height, keepsAspect⟩ := r
  simp only [parseSize, bind_eq_ok, parseSide_eq_ok_iff, throw_eq_error, refuse_eq_ok, error_bind,
    pure_eq_ok]
  constructor
  · rintro ⟨_, hleft, _, hright, hsome, hsize⟩
    cases hsize
    refine ⟨⟨⟨_, _, Text.isHalved_iff.mpr ⟨rfl, rfl⟩, hleft, hright⟩, ?_⟩, rfl⟩
    simpa using hsome
  · rintro ⟨⟨⟨left, right, hhalved, hleft, hright⟩, hsome⟩, rfl⟩
    obtain ⟨rfl, rfl⟩ := Text.isHalved_iff.mp hhalved
    exact ⟨width, hleft, height, hright, by simpa using hsome, rfl⟩

/-! ## Refusing -/

/-- If it fails, the usage is complained about. -/
def FailsByUsage {α : Type} (x : Except Error α) : Prop := ∀ e, x = .error e → ∃ details, e = .usage details

section Failing

variable {α β : Type}

theorem FailsByUsage.ok (a : α) : FailsByUsage (.ok a) := nofun

theorem FailsByUsage.usage (details : String) : FailsByUsage (.error (.usage details) : Except Error α) := by
  rintro e ⟨⟩
  exact ⟨details, rfl⟩

theorem FailsByUsage.bind {x : Except Error α} {f : α → Except Error β} (hx : FailsByUsage x)
    (hf : ∀ a, FailsByUsage (f a)) : FailsByUsage (x >>= f) := by
  intro e h
  rcases bind_eq_error.mp h with h | ⟨a, -, h⟩
  · exact hx e h
  · exact hf a e h

/-- Without a result the usage is complained about. -/
theorem FailsByUsage.error {x : Except Error α} (h : FailsByUsage x) (hno : ∀ a, x ≠ .ok a) :
    ∃ details, x = .error (.usage details) := by
  rcases x with e | a
  · obtain ⟨details, rfl⟩ := h e rfl
    exact ⟨details, rfl⟩
  · exact absurd rfl (hno a)

end Failing

theorem failsByUsage_parseInteger (flag value : String) : FailsByUsage (parseInteger flag value) := by
  unfold parseInteger
  split
  · exact .ok _
  · exact .usage _

theorem failsByUsage_parseCrop (value : String) : FailsByUsage (parseCrop value) := by
  have hpart (cs : List Char) := failsByUsage_parseInteger "--crop" (String.ofList cs)
  unfold parseCrop
  split
  · exact (hpart _).bind fun _ => (hpart _).bind fun _ => .ok _
  · exact (hpart _).bind fun _ => (hpart _).bind fun _ => (hpart _).bind fun _ => (hpart _).bind fun _ => .ok _
  · exact .usage _

theorem failsByUsage_parseSide (cs : List Char) : FailsByUsage (parseSide cs) := by
  unfold parseSide
  split
  · exact .ok _
  · exact (failsByUsage_parseInteger _ _).bind fun _ => .ok _

theorem failsByUsage_parseSize (value : String) (keeps : Bool) : FailsByUsage (parseSize value keeps) := by
  unfold parseSize
  refine (failsByUsage_parseSide _).bind fun width => (failsByUsage_parseSide _).bind fun height => ?_
  split
  · exact .usage _
  · exact .ok _

/-! ## Octets and decimal texts -/

theorem IsCropText.ascii {c : Crop} (h : IsCropText cs c) : ∀ d ∈ cs, d.toNat < 128 := by
  intro d hd
  cases h with
  | cornered cut isWidth isHeight =>
    rcases cut.eq_or_mem hd with rfl | ⟨piece, hpiece, hd⟩
    · decide
    · simp only [List.mem_cons, List.not_mem_nil, or_false] at hpiece
      rcases hpiece with rfl | rfl
      · exact isWidth.ascii d hd
      · exact isHeight.ascii d hd
  | placed cut isWidth isHeight isLeft isTop =>
    rcases cut.eq_or_mem hd with rfl | ⟨piece, hpiece, hd⟩
    · decide
    · simp only [List.mem_cons, List.not_mem_nil, or_false] at hpiece
      rcases hpiece with rfl | rfl | rfl | rfl
      · exact isWidth.ascii d hd
      · exact isHeight.ascii d hd
      · exact isLeft.ascii d hd
      · exact isTop.ascii d hd

theorem IsSideText.ascii {side : Option Int} (h : IsSideText cs side) : ∀ c ∈ cs, c.toNat < 128 := by
  cases side with
  | none =>
    have hnil : cs = [] := h
    simp [hnil]
  | some n => exact IsWord.ascii h

theorem IsSizeText.ascii {width height : Option Int} (h : IsSizeText cs width height) :
    ∀ c ∈ cs, c.toNat < 128 := by
  obtain ⟨⟨left, right, ⟨-, htext⟩, hleft, hright⟩, -⟩ := h
  intro c hc
  rcases htext with rfl | ⟨rfl, -⟩
  · rcases List.mem_append.mp hc with hc | hc
    · exact hleft.ascii c hc
    rcases List.mem_cons.mp hc with rfl | hc
    · decide
    · exact hright.ascii c hc
  · exact hleft.ascii c hc

/-- The decimal texts of four integers of 32 bits, with colons between them. -/
theorem isCropText_join {c : Crop} (h : ∀ n ∈ [c.width, c.height, c.x, c.y], -2 ^ 31 ≤ n ∧ n < 2 ^ 31) :
    IsCropText (Text.join ":" ([c.width, c.height, c.x, c.y].map Decimal.ofInt)).toList c := by
  have hword (n : Int) (hn : n ∈ [c.width, c.height, c.x, c.y]) : IsWord (Decimal.ofInt n).toList n :=
    Integer.isWord_ofInt (h n hn).1 (h n hn).2
  have hcut : Text.IsCut ':' (Text.join ":" ([c.width, c.height, c.x, c.y].map Decimal.ofInt)).toList
      (([c.width, c.height, c.x, c.y].map Decimal.ofInt).map String.toList) := by
    refine ⟨List.cons_ne_nil _ _, ?_, String.toList_intercalate⟩
    rw [List.map_map]
    intro piece hpiece
    obtain ⟨n, hn, rfl⟩ := List.mem_map.mp hpiece
    exact (hword n hn).colon_notMem
  exact .placed hcut (hword _ (by simp)) (hword _ (by simp)) (hword _ (by simp)) (hword _ (by simp))

/-! ## What is read -/

/-- **Sizes and crops are read exactly.** A text is read as a crop just if it is the text of this crop, and
    as a size just if it is the text of this size. Every other text is refused by a complaint about the
    usage. All of this is the same in octets as in characters, and the decimal texts of any four integers
    of 32 bits are read as the crop of these integers. -/
theorem geometry_is_read_exactly (value : String) :
    (∀ c, parseCrop value = .ok c ↔ IsCropText value.toList c) ∧
    ((∀ c, ¬ IsCropText value.toList c) → ∃ details, parseCrop value = .error (.usage details)) ∧
    (∀ keeps width height keeps', parseSize value keeps = .ok ⟨width, height, keeps'⟩ ↔
      IsSizeText value.toList width height ∧ keeps' = keeps) ∧
    ((∀ width height, ¬ IsSizeText value.toList width height) →
      ∀ keeps, ∃ details, parseSize value keeps = .error (.usage details)) ∧
    (∀ c, parseCrop (Octet.ofText value) = .ok c ↔ parseCrop value = .ok c) ∧
    (∀ keeps r, parseSize (Octet.ofText value) keeps = .ok r ↔ parseSize value keeps = .ok r) ∧
    ∀ c : Crop, (∀ n ∈ [c.width, c.height, c.x, c.y], -2 ^ 31 ≤ n ∧ n < 2 ^ 31) →
      parseCrop (Text.join ":" ([c.width, c.height, c.x, c.y].map Decimal.ofInt)) = .ok c := by
  refine ⟨fun c => parseCrop_eq_ok_iff, fun hno => ?_, fun keeps width height keeps' => parseSize_eq_ok_iff,
    fun hno keeps => ?_, fun c => ?_, fun keeps r => ?_, fun c hc => ?_⟩
  · exact (failsByUsage_parseCrop value).error fun c hc => hno c (parseCrop_eq_ok_iff.mp hc)
  · exact (failsByUsage_parseSize value keeps).error fun r hr => hno _ _ (parseSize_eq_ok_iff.mp hr).1
  · rw [parseCrop_eq_ok_iff, parseCrop_eq_ok_iff, Octet.ofText_toList]
    exact Octet.iff_of_ascii (fun _ => IsCropText.ascii) value.toList
  · rw [parseSize_eq_ok_iff, parseSize_eq_ok_iff, Octet.ofText_toList]
    exact and_congr_left' (Octet.iff_of_ascii (fun _ => IsSizeText.ascii) value.toList)
  · exact parseCrop_eq_ok_iff.mpr (isCropText_join hc)

/-- Three numbers are no crop and no size; four are a crop, the least and the greatest integer included. -/
theorem geometry_is_read_exactly_three_and_four :
    (∀ c, ¬ IsCropText "1:2:3".toList c) ∧ (∃ details, parseCrop "1:2:3" = .error (.usage details)) ∧
    (∀ width height, ¬ IsSizeText "1:2:3".toList width height) ∧
    (∃ details, parseSize "1:2:3" true = .error (.usage details)) ∧
    (∀ n ∈ [-2147483648, 2147483647, 0, (5 : Int)], -2 ^ 31 ≤ n ∧ n < 2 ^ 31) ∧
    parseCrop "-2147483648:2147483647:0:5" = .ok ⟨-2147483648, 2147483647, 0, 5⟩ := by
  obtain ⟨hcrop, hnocrop, hsize, hnosize, -, -, hfour⟩ := geometry_is_read_exactly "1:2:3"
  have hcropError : parseCrop "1:2:3" = .error (.usage "--crop expects W:H or W:H:X:Y, got '1:2:3'") := by
    decide +kernel
  have hsizeError : parseSize "1:2:3" true = .error (.usage "--resize expects an integer, got '1:2:3'") := by
    decide +kernel
  have hthree : ∀ c, ¬ IsCropText "1:2:3".toList c := fun c h =>
    nomatch hcropError.symm.trans ((hcrop c).mpr h)
  have hthree' : ∀ width height, ¬ IsSizeText "1:2:3".toList width height := fun width height h =>
    nomatch hsizeError.symm.trans ((hsize true width height true).mpr ⟨h, rfl⟩)
  have hbounds : ∀ n ∈ [-2147483648, 2147483647, 0, (5 : Int)], -2 ^ 31 ≤ n ∧ n < 2 ^ 31 := by simp
  have htext : Text.join ":" ([-2147483648, 2147483647, 0, (5 : Int)].map Decimal.ofInt) =
      "-2147483648:2147483647:0:5" := by decide +kernel
  exact ⟨hthree, hnocrop hthree, hthree', hnosize hthree' true, hbounds,
    htext ▸ hfour ⟨-2147483648, 2147483647, 0, 5⟩ hbounds⟩

end Montage.CommandLine
