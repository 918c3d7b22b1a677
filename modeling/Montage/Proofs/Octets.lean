import Mathlib.Data.List.Basic
import Montage.Text.Octet

/-!
# Texts and their octets

What a program writes are the octets of a text. In UTF-8 the octets of a character beyond ASCII are all
beyond ASCII too, so that whatever replaces ASCII characters by ASCII texts may look at octets as well as
at characters.

* `Octet.ofChars`: the octets of a list of characters.

Results:
* `Octet.ofChar_cases`: the octets of one character.
* `Octet.iff_of_ascii`: what only ASCII texts can be is the same in characters and in octets.
* `Octet.infix_ofChars_iff`: an ASCII word stands in a text just if it stands in its octets.
* `Octet.ofChars_flatMap`: replacing ASCII characters commutes with taking octets.
-/

namespace Montage.Octet

/-- The octets of a character. -/
def ofChar (c : Char) : List Char := (String.utf8EncodeChar c).map fun byte => Char.ofNat byte.toNat

/-- The octets of a list of characters. -/
def ofChars (cs : List Char) : List Char := cs.flatMap ofChar

theorem ofText_toList (text : String) : (ofText text).toList = ofChars text.toList := String.toList_ofList

theorem ofChars_append (cs ds : List Char) : ofChars (cs ++ ds) = ofChars cs ++ ofChars ds :=
  List.flatMap_append

theorem ofChars_cons (c : Char) (cs : List Char) : ofChars (c :: cs) = ofChar c ++ ofChars cs :=
  List.flatMap_cons

theorem ofNat_byte (n : Nat) (h : n < 256) : (Char.ofNat (UInt8.ofNat n).toNat).toNat = n := by
  have hvalid : n.isValidChar := .inl (by omega)
  rw [UInt8.toNat_ofNat_of_lt' h, Char.ofNat, dif_pos hvalid]
  rfl

/-- An ASCII character is its own octet; the octets of any other are beyond ASCII. -/
theorem ofChar_cases (c : Char) : (c.toNat < 128 ∧ ofChar c = [c]) ∨
    (128 ≤ c.toNat ∧ ∀ octet ∈ ofChar c, 128 ≤ octet.toNat) := by
  have hvalue : c.val.toNat = c.toNat := rfl
  unfold ofChar String.utf8EncodeChar
  rw [hvalue]
  dsimp only
  by_cases hascii : c.toNat ≤ 127
  · refine .inl ⟨by omega, ?_⟩
    rw [if_pos hascii, List.map_singleton, ← Char.toNat_inj.mp (ofNat_byte c.toNat (by omega)).symm]
  · refine .inr ⟨by omega, ?_⟩
    rw [if_neg hascii]
    split
    · simp only [List.map_cons, List.map_nil, List.mem_cons, List.not_mem_nil, or_false]
      rintro octet (rfl | rfl) <;> rw [ofNat_byte _ (by omega)] <;> omega
    split
    · simp only [List.map_cons, List.map_nil, List.mem_cons, List.not_mem_nil, or_false]
      rintro octet (rfl | rfl | rfl) <;> rw [ofNat_byte _ (by omega)] <;> omega
    · simp only [List.map_cons, List.map_nil, List.mem_cons, List.not_mem_nil, or_false]
      rintro octet (rfl | rfl | rfl | rfl) <;> rw [ofNat_byte _ (by omega)] <;> omega

theorem ofChars_of_ascii {cs : List Char} (h : ∀ c ∈ cs, c.toNat < 128) : ofChars cs = cs := by
  induction cs with
  | nil => rfl
  | cons c cs ih =>
    have hc : ofChar c = [c] := by
      rcases ofChar_cases c with ⟨-, hc⟩ | ⟨hbeyond, -⟩
      · exact hc
      · exact absurd (h c List.mem_cons_self) (by omega)
    rw [ofChars, List.flatMap_cons, hc]
    exact congrArg _ (ih fun d hd => h d (List.mem_cons_of_mem _ hd))

theorem ofChar_ne_nil (c : Char) : ofChar c ≠ [] := by
  unfold ofChar
  rw [ne_eq, List.map_eq_nil_iff, ← List.length_eq_zero_iff, String.length_utf8EncodeChar]
  exact Nat.ne_of_gt c.utf8Size_pos

/-- What only ASCII texts can be, a text is just if its octets are. -/
theorem iff_of_ascii {p : List Char → Prop} (h : ∀ cs, p cs → ∀ c ∈ cs, c.toNat < 128) (cs : List Char) :
    p (ofChars cs) ↔ p cs := by
  constructor
  · intro hp
    have hascii : ∀ c ∈ cs, c.toNat < 128 := by
      intro c hc
      rcases ofChar_cases c with ⟨hascii, -⟩ | ⟨-, hbeyond⟩
      · exact hascii
      · obtain ⟨octet, hoctet⟩ := List.exists_mem_of_ne_nil _ (ofChar_ne_nil c)
        have hlow := h _ hp octet (List.mem_flatMap.mpr ⟨c, hc, hoctet⟩)
        have hhigh := hbeyond octet hoctet
        omega
    rwa [ofChars_of_ascii hascii] at hp
  · intro hp
    rwa [ofChars_of_ascii (h cs hp)]

/-! ## ASCII characters and words -/

/-- An octet of a character is the character itself or beyond ASCII. -/
theorem eq_or_beyond {c octet : Char} (h : octet ∈ ofChar c) : octet = c ∨ 128 ≤ octet.toNat := by
  rcases ofChar_cases c with ⟨-, hc⟩ | ⟨-, hbeyond⟩
  · rw [hc] at h
    exact .inl (List.mem_singleton.mp h)
  · exact .inr (hbeyond octet h)

/-- The ASCII characters of a text are those of its octets. -/
theorem mem_ofChars_iff {c : Char} {cs : List Char} (hc : c.toNat < 128) : c ∈ ofChars cs ↔ c ∈ cs := by
  constructor
  · intro h
    obtain ⟨d, hd, hmem⟩ := List.mem_flatMap.mp h
    rcases eq_or_beyond hmem with rfl | hbeyond
    · exact hd
    · omega
  · intro h
    refine List.mem_flatMap.mpr ⟨c, h, ?_⟩
    rcases ofChar_cases c with ⟨-, hown⟩ | ⟨hbeyond, -⟩
    · rw [hown]
      exact List.mem_singleton_self c
    · omega

theorem ofChars_eq_nil_iff {cs : List Char} : ofChars cs = [] ↔ cs = [] := by
  rw [ofChars, List.flatMap_eq_nil_iff, List.eq_nil_iff_forall_not_mem]
  exact forall₂_congr fun c _ => iff_false_intro (ofChar_ne_nil c)

theorem prefix_of_ofChars {word cs : List Char} (hword : ∀ c ∈ word, c.toNat < 128)
    (h : word <+: ofChars cs) : word <+: cs := by
  induction word generalizing cs with
  | nil => exact List.nil_prefix
  | cons w word ih =>
    have hw : w.toNat < 128 := hword w List.mem_cons_self
    cases cs with
    | nil => exact absurd h (by simp [ofChars])
    | cons c cs =>
      rw [ofChars_cons] at h
      rcases ofChar_cases c with ⟨-, hc⟩ | ⟨-, hbeyond⟩
      · rw [hc, List.singleton_append, List.cons_prefix_cons] at h
        rw [List.cons_prefix_cons]
        exact ⟨h.1, ih (fun d hd => hword d (List.mem_cons_of_mem _ hd)) h.2⟩
      · obtain ⟨octet, octets, hoctets⟩ := List.exists_cons_of_ne_nil (ofChar_ne_nil c)
        rw [hoctets, List.cons_append, List.cons_prefix_cons] at h
        have := hbeyond octet (by rw [hoctets]; exact List.mem_cons_self)
        rw [← h.1] at this
        omega

/-- A word with none of the characters in front stands behind them. -/
theorem infix_of_append {word front back : List Char} (hne : word ≠ [])
    (hfront : ∀ c ∈ front, c ∉ word) (h : word <:+: front ++ back) : word <:+: back := by
  induction front with
  | nil => exact h
  | cons c front ih =>
    rw [List.cons_append, List.infix_cons_iff] at h
    rcases h with hstart | hinfix
    · obtain ⟨w, rest, rfl⟩ := List.exists_cons_of_ne_nil hne
      rw [List.cons_prefix_cons] at hstart
      exact absurd (hstart.1 ▸ List.mem_cons_self) (hfront c List.mem_cons_self)
    · exact ih (fun d hd => hfront d (List.mem_cons_of_mem _ hd)) hinfix

/-- An ASCII word stands in a text just if it stands in its octets. -/
theorem infix_ofChars_iff {word cs : List Char} (hword : ∀ c ∈ word, c.toNat < 128) :
    word <:+: ofChars cs ↔ word <:+: cs := by
  constructor
  · intro h
    by_cases hne : word = []
    · rw [hne]
      exact List.nil_infix
    induction cs with
    | nil => exact h
    | cons c cs ih =>
      rw [List.infix_cons_iff]
      rcases ofChar_cases c with ⟨-, hc⟩ | ⟨-, hbeyond⟩
      · rw [ofChars_cons, hc, List.singleton_append, List.infix_cons_iff, ← List.singleton_append, ← hc,
          ← ofChars_cons] at h
        exact h.imp (prefix_of_ofChars hword) ih
      · refine .inr (ih (infix_of_append hne (fun octet hoctet hmem => ?_) (ofChars_cons c cs ▸ h)))
        have hlow := hword octet hmem
        have hhigh := hbeyond octet hoctet
        omega
  · rintro ⟨before, after, rfl⟩
    rw [ofChars_append, ofChars_append, ofChars_of_ascii hword]
    exact List.infix_append _ _ _

/-! ## Replacing -/

/-- Replaces some ASCII characters, each by an ASCII text. -/
structure ReplacesAscii (replace : Char → List Char) : Prop where
  ascii : ∀ c, c.toNat < 128 → ∀ d ∈ replace c, d.toNat < 128
  beyond : ∀ c, 128 ≤ c.toNat → replace c = [c]

/-- The octets of a text in which ASCII characters are replaced are its octets, replaced likewise. -/
theorem ofChars_flatMap {replace : Char → List Char} (h : ReplacesAscii replace) (cs : List Char) :
    ofChars (cs.flatMap replace) = (ofChars cs).flatMap replace := by
  induction cs with
  | nil => rfl
  | cons c cs ih =>
    have hc : ofChars (replace c) = (ofChar c).flatMap replace := by
      rcases ofChar_cases c with ⟨hascii, hc⟩ | ⟨hbeyond, hoctets⟩
      · rw [hc, List.flatMap_singleton, ofChars_of_ascii (h.ascii c hascii)]
      · rw [h.beyond c hbeyond, ofChars, List.flatMap_singleton]
        rw [List.flatMap_congr fun octet hoctet => h.beyond octet (hoctets octet hoctet),
          List.flatMap_singleton']
    have hcons : ofChars (c :: cs) = ofChar c ++ ofChars cs := List.flatMap_cons
    rw [List.flatMap_cons, ofChars_append, ih, hc, hcons, List.flatMap_append]

end Montage.Octet
