import Montage.Proofs.Action
import Montage.Proofs.Refusal

/-!
# Writing a list file

A list file is written in several steps, and each may be the last. The ways in which this ends are
cases here, with the host that each leaves, so that later proofs look into no step.

* `Concatenation.WritesList`: the ways in which writing a list file ends.
* `Concatenation.listText_error_iff`: when the content of a list cannot be made up.

Results:
* `Host.tree_of_makeFolders` and its companions: changes of files change the file tree alone.
* `Concatenation.writesList`: writing a list file ends in one of these ways.
-/

namespace Montage

/-! ## Changes of files -/

namespace Host

variable {h h' : Host} {text content : String}

theorem tree_of_makeFolders (h : Host) (text : String) :
    ∃ tree, (h.makeFolders text).1 = { h with tree } := by
  unfold makeFolders
  by_cases hlong : Path.isTooLong text = true
  · rw [if_pos hlong]
    exact ⟨h.tree, rfl⟩
  · rw [if_neg hlong]
    exact ⟨_, rfl⟩

theorem tree_of_write (hw : h.write text content = .ok h') : ∃ tree, h' = { h with tree } := by
  obtain ⟨-, hw⟩ := refuse_eq_ok.mp hw
  obtain ⟨tree, -, hh⟩ := bind_eq_ok.mp hw
  exact ⟨tree, (pure_eq_ok.mp hh).symm⟩

theorem tree_of_remove (hr : h.remove text = .ok h') : ∃ tree, h' = { h with tree } := by
  obtain ⟨-, hr⟩ := refuse_eq_ok.mp hr
  obtain ⟨tree, -, hh⟩ := bind_eq_ok.mp hr
  exact ⟨tree, (pure_eq_ok.mp hh).symm⟩

end Host

namespace Concatenation

variable {c : Concatenation} {h : Host}

/-! ## The content -/

/-- Some path of a list starts in the working directory. -/
def HasRelative (c : Concatenation) : Prop := ∃ path ∈ c.inputs, (Path.ofText path).absolute = false

theorem all_absolute_iff :
    (c.inputs.all fun path => (Path.ofText path).absolute) = true ↔ ¬ c.HasRelative := by
  simp [HasRelative]

theorem listText_ok {content : String} (ht : c.listText h = .ok content) :
    content = c.listContent h := by
  unfold listText at ht
  by_cases hall : (c.inputs.all fun path => (Path.ofText path).absolute) = true
  · simp only [hall, if_true] at ht
    exact (pure_eq_ok.mp ht).symm
  · simp only [hall] at ht
    obtain ⟨_, -, ht⟩ := bind_eq_ok.mp ht
    exact (pure_eq_ok.mp ht).symm

/-- The content cannot be made up just if some path needs the working directory and the machine does
    not tell that. -/
theorem listText_error_iff {fault : FileFault} :
    c.listText h = .error fault ↔ c.HasRelative ∧ h.currentPath = .error fault := by
  unfold listText
  by_cases hall : (c.inputs.all fun path => (Path.ofText path).absolute) = true
  · simp only [hall, if_true]
    refine iff_of_false ?_ fun hrelative => all_absolute_iff.mp hall hrelative.1
    rintro ⟨⟩
  · have hrelative : c.HasRelative := by rwa [all_absolute_iff, not_not] at hall
    simp only [hall]
    rcases h.currentPath with fault' | path
    · constructor
      · rintro ⟨⟩; exact ⟨hrelative, rfl⟩
      · rintro ⟨-, ⟨⟩⟩; rfl
    · constructor
      · rintro ⟨⟩
      · rintro ⟨-, ⟨⟩⟩

/-! ## The steps -/

/-- What writing a list file on the host `h` gives, and the host that it leaves. The host `m` is the one
    after the folder was made. -/
inductive WritesList (c : Concatenation) (h : Host) : Except Failure String → Host → Prop
  /-- The folder cannot be made. -/
  | noFolder {m : Host} {fault : FileFault} (error : Error) (refusal : error.isRefusal = true)
      (made : h.makeFolders c.tempFolder = (m, some fault)) :
      WritesList c h (.error (.reported error)) m
  /-- The file cannot be opened. -/
  | unopened {m : Host} (error : Error) (refusal : error.isRefusal = true)
      (made : h.makeFolders c.tempFolder = (m, none))
      (text : c.listText m.listName.2 = .ok (c.listContent m.listName.2)) :
      WritesList c h (.error (.reported error)) m.listName.2
  /-- The content cannot be made up, and the file is left empty if it was opened. -/
  | unmade {m h' : Host} {fault : FileFault} (made : h.makeFolders c.tempFolder = (m, none))
      (text : c.listText m.listName.2 = .error fault)
      (left : h' = m.listName.2 ∨
        m.listName.2.write (Path.joinText c.tempFolder m.listName.1) "" = .ok h') :
      WritesList c h (.error (.machine fault)) h'
  /-- The file is written. -/
  | written {m h' : Host} (made : h.makeFolders c.tempFolder = (m, none))
      (text : c.listText m.listName.2 = .ok (c.listContent m.listName.2))
      (write : m.listName.2.write (Path.joinText c.tempFolder m.listName.1)
        (c.listContent m.listName.2) = .ok h') :
      WritesList c h (.ok (Path.joinText c.tempFolder m.listName.1)) h'

/-- Writing a list file ends in one of these ways. -/
theorem writesList (c : Concatenation) (h : Host) :
    c.WritesList h (c.writeList.perform h).1 (c.writeList.perform h).2 := by
  unfold writeList
  rw [Action.perform_bind, Action.perform_get]
  rcases hm : h.makeFolders c.tempFolder with ⟨m, fault⟩
  simp only [hm, Action.perform_bind, Action.perform_set]
  cases fault with
  | some fault => exact .noFolder _ rfl hm
  | none =>
    simp only [Action.perform_bind, Action.perform_set]
    rcases ht : c.listText m.listName.2 with fault | content
    · simp only
      rcases hw : m.listName.2.write (Path.joinText c.tempFolder m.listName.1) "" with _ | h'
      · exact .unmade hm ht (.inl rfl)
      · exact .unmade hm ht (.inr hw)
    · have hcontent := listText_ok ht
      subst hcontent
      simp only
      rcases hw : m.listName.2.write (Path.joinText c.tempFolder m.listName.1)
        (c.listContent m.listName.2) with _ | h'
      · exact .unopened _ rfl hm ht
      · exact .written hm ht hw

/-- Writing a list file fails with no error just if the folder can be made and then the content
    cannot. -/
theorem writeList_escapes_iff {f : Failure} (hf : f.Escapes) :
    (c.writeList.perform h).1 = .error f ↔ ∃ m fault, f = .machine fault ∧
      h.makeFolders c.tempFolder = (m, none) ∧ c.HasRelative ∧ m.currentPath = .error fault := by
  have hgone {m : Host} {fault : FileFault} : c.listText m.listName.2 = .error fault ↔
      c.HasRelative ∧ m.currentPath = .error fault := listText_error_iff
  have hwrites := c.writesList h
  generalize (c.writeList.perform h).1 = outcome at hwrites
  generalize (c.writeList.perform h).2 = h' at hwrites
  cases hwrites with
  | noFolder error hrefusal hm =>
    refine iff_of_false (by rintro ⟨⟩; exact hf) ?_
    rintro ⟨m, fault, -, hmade, -⟩
    rw [hm] at hmade
    cases hmade
  | unopened error hrefusal hm ht =>
    refine iff_of_false (by rintro ⟨⟩; exact hf) ?_
    rintro ⟨m, fault, -, hmade, htext⟩
    rw [hm] at hmade
    cases hmade
    rw [hgone.mpr htext] at ht
    cases ht
  | unmade hm ht hleft =>
    constructor
    · rintro ⟨⟩
      exact ⟨_, _, rfl, hm, hgone.mp ht⟩
    · rintro ⟨m, fault, rfl, hmade, htext⟩
      rw [hm] at hmade
      cases hmade
      rw [hgone.mpr htext] at ht
      cases ht
      rfl
  | written hm ht hw =>
    refine iff_of_false (by rintro ⟨⟩) ?_
    rintro ⟨m, fault, -, hmade, htext⟩
    rw [hm] at hmade
    cases hmade
    rw [hgone.mpr htext] at ht
    cases ht

end Concatenation

end Montage
