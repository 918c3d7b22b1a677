import Montage.Operation.Concatenation
import Montage.Proofs.Label

/-!
# The path of a name in a folder

A list file is written under a path that is put together from a folder and a fresh name. Read
again, the path has the parts of the folder and then the name, however the folder is spelled.

* `Text.splitOn_append`: the pieces on both sides of a separator.
* `Path.IsName`: a name that can stand behind a folder.
* `Path.ofText_joinText`: the parts of a path that was put together.
* `Host.IsListName.isName`: the names of list files are such names.
-/

namespace Montage

/-! ## Pieces -/

namespace Text

variable {separator : Char}

theorem splitOn_ne_nil (separator : Char) (cs : List Char) : splitOn separator cs ≠ [] := by
  induction cs with
  | nil => simp [splitOn]
  | cons c cs ih =>
    rw [splitOn]
    by_cases hc : c = separator
    · simp [hc]
    · obtain ⟨piece, pieces, hp⟩ := List.exists_cons_of_ne_nil ih
      simp [hc, hp]

/-- A separator ends one piece and begins the next. -/
theorem splitOn_append (separator : Char) (xs ys : List Char) :
    splitOn separator (xs ++ separator :: ys) = splitOn separator xs ++ splitOn separator ys := by
  induction xs with
  | nil => simp [splitOn]
  | cons c xs ih =>
    rw [List.cons_append, splitOn, splitOn, ih]
    by_cases hc : c = separator
    · simp [hc]
    · obtain ⟨piece, pieces, hp⟩ := List.exists_cons_of_ne_nil (splitOn_ne_nil separator xs)
      simp [hc, hp]

theorem splitOn_of_notMem {cs : List Char} (h : separator ∉ cs) : splitOn separator cs = [cs] := by
  induction cs with
  | nil => rfl
  | cons c cs ih =>
    have hc : c ≠ separator := fun hc => h (by rw [hc]; exact List.mem_cons_self)
    rw [splitOn, if_neg hc, ih fun hmem => h (List.mem_cons_of_mem _ hmem)]
    rfl

end Text

/-! ## Names in a folder -/

namespace Path

/-- A name that stands for something in a folder: one part, and not one that leads elsewhere. -/
structure IsName (name : String) : Prop where
  noSlash : '/' ∉ name.toList
  notEmpty : name ≠ ""
  notHere : name ≠ "."
  notOuter : name ≠ ".."

variable {folder name : String}

theorem IsName.follow (h : IsName name) (here : Location) : follow here name = here ++ [name] := by
  rw [Path.follow, if_neg h.notHere, if_neg h.notOuter]

/-- The pieces of a path that was put together are those of the folder, less an empty one at its
    end, and then the name. -/
theorem pieces_joinText (hname : IsName name) (hfolder : folder ≠ "") :
    ∃ before : List (List Char), Text.splitOn '/' (joinText folder name).toList =
        before ++ [name.toList] ∧
      (Text.splitOn '/' folder.toList = before ∨ Text.splitOn '/' folder.toList = before ++ [[]]) := by
  have hsplit := Text.splitOn_of_notMem hname.noSlash
  have hempty : folder.isEmpty = false := by simpa using hfolder
  unfold joinText
  by_cases hlast : folder.toList.getLast? = some '/'
  · obtain ⟨init, hinit⟩ := List.getLast?_eq_some_iff.mp hlast
    refine ⟨Text.splitOn '/' init, ?_, .inr ?_⟩
    · simp [hinit, Text.splitOn_append, hsplit]
    · rw [hinit, Text.splitOn_append]; rfl
  · refine ⟨Text.splitOn '/' folder.toList, ?_, .inl rfl⟩
    have hslash : "/".toList = ['/'] := rfl
    simp [hlast, hempty, hslash, Text.splitOn_append, hsplit]

/-- A path that was put together has the parts of the folder and then the name. -/
theorem ofText_joinText (hname : IsName name) (hfolder : folder ≠ "") :
    ofText (joinText folder name) =
      ⟨(ofText folder).absolute, (ofText folder).parts ++ [name], false⟩ := by
  obtain ⟨before, hjoin, hparts⟩ := pieces_joinText hname hfolder
  have hhead : (joinText folder name).toList.head? = folder.toList.head? := by
    obtain ⟨c, rest, hcons⟩ := List.exists_cons_of_ne_nil
      (show folder.toList ≠ [] by simpa using hfolder)
    unfold joinText
    split <;> simp [hcons]
  have hsame : ((Text.splitOn '/' folder.toList).map String.ofList).filter (· ≠ "") =
      (before.map String.ofList).filter (· ≠ "") := by
    rcases hparts with h | h <;> rw [h]
    simp
  have hparts : (ofText folder).parts = (before.map String.ofList).filter (· ≠ "") := hsame
  rw [hparts]
  unfold ofText
  rw [hhead, hjoin]
  simp [hname.notEmpty]

theorem joinText_ne_empty (h : name ≠ "") : joinText folder name ≠ "" := by
  unfold joinText
  split <;> simp [h]

/-- Only the empty text is an empty path. -/
theorem isEmpty_ofText (text : String) : (ofText text).isEmpty = true ↔ text = "" := by
  constructor
  · intro h
    refine Decidable.byContradiction fun hne => ?_
    obtain ⟨c, rest, hcons⟩ := List.exists_cons_of_ne_nil (show text.toList ≠ [] by simpa using hne)
    obtain ⟨piece, pieces, hp⟩ := List.exists_cons_of_ne_nil (Text.splitOn_ne_nil '/' rest)
    by_cases hc : c = '/'
    · simp [isEmpty, ofText, hcons, hc] at h
    · simp [isEmpty, ofText, hcons, hc, Text.splitOn, hp] at h
  · intro h
    rw [h]
    rfl

end Path

/-! ## The names of list files -/

namespace Host

/-- A name that a host hands out for a list file. -/
def IsListName (name : String) : Prop := ∃ h : Host, h.listName.1 = name

theorem IsListName.isName {name : String} (h : IsListName name) : Path.IsName name := by
  obtain ⟨h, rfl⟩ := h
  have hchars : h.listName.1.toList = "concat-".toList ++ Decimal.digits h.process ++ '-' ::
      Decimal.digits h.clock ++ '-' :: Decimal.digits h.listsNamed ++ ".txt".toList := by
    change ("concat-" ++ Decimal.ofInt h.process ++ "-" ++ Decimal.ofInt h.clock ++ "-" ++
      Decimal.ofInt h.listsNamed ++ ".txt").toList = _
    simp [Decimal.ofInt_natCast]
  have hdigits (n : Nat) : '/' ∉ Decimal.digits n := fun hmem =>
    absurd (Decimal.isDigit_of_mem_digits hmem) (by decide)
  have hhead : h.listName.1.toList.head? = some 'c' := by rw [hchars]; rfl
  have hne {text : String} (htext : text.toList.head? ≠ some 'c') : h.listName.1 ≠ text := by
    rintro rfl; exact htext hhead
  refine ⟨?_, hne (by decide), hne (by decide), hne (by decide)⟩
  rw [hchars]
  simp [hdigits]

end Host

/-- A path that a list file in a folder may have. -/
def IsListPath (folder path : String) : Prop :=
  ∃ name, Host.IsListName name ∧ path = Path.joinText folder name

end Montage
