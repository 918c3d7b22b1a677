import Montage.Proofs.Phase

/-!
# Which files are written

Until it is executed a session writes no files but the lists of its operations. Folders may be made as
well, also by a call that fails, but a file is written just by a demuxer concatenation, and such a
concatenation is kept.

* `Host.Writes`: the files of a host stood there before, apart from those at some paths.

Results:
* `Tree.file_of_makeFolders`: making folders makes no file.
* `Concatenation.writes_writeList_ok`, `Concatenation.writes_writeList_error`: writing a list file
  writes no other file, and none if it ends with an error.
* `Concatenation.writes_applyDemuxer_error`: no list file is written in vain.
* `Session.Unspent.writes_call`: a call from which no failure escapes writes no files but lists that
  are owned.
-/

namespace Montage

open Montage.Action (Contract)

/-! ## Folders -/

namespace Tree

variable {t t' : Tree} {l here : Location} {content : String} {executable : Bool}

theorem file_of_putFolder {m : Location} {isSealed : Bool}
    (h : (t.put m (.folder isSealed)).find? l = some (.file content executable)) :
    t.find? l = some (.file content executable) := by
  unfold find? put at h
  unfold find?
  by_cases hl : l = []
  · simp [hl] at h
  · by_cases hm : l = m
    · subst hm
      simp [hl] at h
    · have : (l == m) = false := by simpa using hm
      simpa only [hl, if_false, List.lookup_cons, this, lookup_filter_ne, hm] using h

theorem file_of_makeFolder {parts : List String} (h : t.makeFolder here parts = .ok t')
    (hf : t'.find? l = some (.file content executable)) :
    t.find? l = some (.file content executable) := by
  unfold makeFolder at h
  rcases hw : t.walk here parts with fault | ⟨m, _ | _⟩
  · rw [hw] at h
    obtain ⟨location, -, hput⟩ := bind_eq_ok.mp h
    cases hput
    exact file_of_putFolder hf
  · rw [hw] at h
    cases h
  · rw [hw] at h
    cases h
    exact hf

theorem file_of_makeEach {folders : List (List String)}
    (h : (t.makeEach here folders).1.find? l = some (.file content executable)) :
    t.find? l = some (.file content executable) := by
  induction folders generalizing t with
  | nil => exact h
  | cons parts rest ih =>
    rw [makeEach] at h
    rcases hm : t.makeFolder here parts with fault | t'
    · rw [hm] at h
      exact h
    · rw [hm] at h
      exact file_of_makeFolder hm (ih h)

/-- Making folders makes no file. -/
theorem file_of_makeFolders {path : Path}
    (h : (t.makeFolders here path).1.find? l = some (.file content executable)) :
    t.find? l = some (.file content executable) := by
  unfold makeFolders at h
  by_cases he : path.isEmpty = true
  · simpa [he] using h
  simp only [he, Bool.false_eq_true, if_false] at h
  rcases hw : t.walk here path.steps with fault | ⟨m, _ | _⟩
  · rw [hw] at h
    by_cases hgone : fault.isAbsence = true
    · simp only [hgone, if_true] at h
      rcases hmissing : t.missing here path.parts.reverse with fault | folders
      · rw [hmissing] at h
        exact h
      · rw [hmissing] at h
        exact file_of_makeEach h
    · simp only [hgone] at h
      exact h
  · rw [hw] at h
    exact h
  · rw [hw] at h
    exact h

end Tree

/-! ## Files -/

/-- Every file of `h'` stood in `h` already, or is found at one of the paths. -/
def Host.Writes (paths : List String) (h h' : Host) : Prop :=
  ∀ l content executable, h'.tree.find? l = some (.file content executable) →
    h.tree.find? l = some (.file content executable) ∨
      ∃ path ∈ paths, h'.find path = .ok (l, .file content executable)

namespace Host

variable {h h' h'' : Host} {paths more : List String} {folder name content : String}

theorem Writes.of_tree (ht : h'.tree = h.tree) : h.Writes paths h' :=
  fun _ _ _ hf => .inl (ht ▸ hf)

theorem Writes.mono (hw : h.Writes paths h') (hp : paths ⊆ more) : h.Writes more h' := by
  intro l content executable hf
  refine (hw l content executable hf).imp id ?_
  rintro ⟨path, hpath, hfind⟩
  exact ⟨path, hp hpath, hfind⟩

/-- What is written later is written. -/
theorem Writes.after (hw : h.Writes [] h') (hw' : h'.Writes paths h'') : h.Writes paths h'' := by
  intro l content executable hf
  rcases hw' l content executable hf with hf | hpath
  · rcases hw l content executable hf with hf | ⟨path, hpath, -⟩
    · exact .inl hf
    · cases hpath
  · exact .inr hpath

/-- A host that goes on with the same file tree writes nothing more. -/
theorem Writes.continues {still : Prop} (hw : h.Writes paths h') (hh : h'.Continues still h'')
    (hs : still) : h.Writes paths h'' := by
  intro l content executable hf
  rw [hh.tree hs] at hf
  refine (hw l content executable hf).imp id ?_
  rintro ⟨path, hpath, hfind⟩
  exact ⟨path, hpath, by rw [hh.find hs]; exact hfind⟩

theorem Continues.writes {still : Prop} (hh : h.Continues still h') (hs : still) :
    h.Writes paths h' := .of_tree (hh.tree hs)

theorem writes_makeFolders {fault : Option FileFault} {path : String}
    (hm : h.makeFolders path = (h', fault)) : h.Writes [] h' := by
  unfold makeFolders at hm
  by_cases hlong : Path.isTooLong path = true
  · rw [if_pos hlong] at hm
    cases hm
    exact .of_tree rfl
  · rw [if_neg hlong] at hm
    cases hm
    exact fun _ _ _ hf => .inl (Tree.file_of_makeFolders hf)

theorem writes_write (hname : Path.IsName name) (hfolder : folder ≠ "")
    (hw : h.write (Path.joinText folder name) content = .ok h') :
    h.Writes [Path.joinText folder name] h' := by
  obtain ⟨⟨m, x, hm, htree, hfind⟩, -⟩ := find_of_write hname hfolder hw
  intro l content' executable hf
  rw [htree, Tree.find?_put _ hm] at hf
  by_cases hl : l = m
  · right
    rw [if_pos hl] at hf
    cases hf
    exact ⟨_, List.mem_singleton_self _, hl ▸ hfind⟩
  · left
    rwa [if_neg hl] at hf

end Host

/-! ## Lists -/

namespace Concatenation

variable {c : Concatenation} {h h' : Host} {b b' : Bench} {path : String} {error : Error}

/-- A list file that is written is the only file that is. -/
theorem writes_writeList_ok (hfolder : c.tempFolder ≠ "")
    (hw : c.writeList.perform h = (.ok path, h')) : h.Writes [path] h' := by
  have hwrites := c.writesList h
  rw [hw] at hwrites
  cases hwrites with
  | @written m _ hm ht hwrite =>
    have hname : Host.IsListName m.listName.1 := ⟨m, rfl⟩
    have hnamed : m.Writes [] m.listName.2 := .of_tree rfl
    have hfile := Host.writes_write hname.isName hfolder hwrite
    exact (Host.writes_makeFolders hm).after (hnamed.after hfile)

/-- Writing a list file that ends with an error writes no file. -/
theorem writes_writeList_error (hw : c.writeList.perform h = (.error (.reported error), h')) :
    h.Writes [] h' := by
  have hwrites := c.writesList h
  rw [hw] at hwrites
  cases hwrites with
  | noFolder error hrefusal hm => exact Host.writes_makeFolders hm
  | unopened error hrefusal hm ht => exact (Host.writes_makeFolders hm).after (.of_tree rfl)

theorem writes_applyDemuxer_ok (hfolder : c.tempFolder ≠ "")
    (h : c.applyDemuxer.perform b = (.ok (), b')) : b.host.Writes b'.listFile.toList b'.host := by
  obtain ⟨path, host, hwrite, hlist, hlog⟩ := applyDemuxer_steps h
  rw [hlist]
  exact (writes_writeList_ok hfolder hwrite).continues hlog trivial

/-- No list file is written in vain. -/
theorem writes_applyDemuxer_error
    (h : c.applyDemuxer.perform b = (.error (.reported error), b')) : b.host.Writes [] b'.host := by
  unfold applyDemuxer at h
  rw [Action.perform_bind, Action.perform_get] at h
  by_cases hin : b.draft.command.input.isSome = true
  · simp only [hin, if_true] at h; cases h; exact .of_tree rfl
  simp only [hin, Bool.false_eq_true, if_false] at h
  rcases Action.bind_error h with h | ⟨path, t, -, h⟩
  · rw [Bench.perform_onHost, Prod.mk.injEq] at h
    obtain ⟨hwrite, rfl⟩ := h
    exact writes_writeList_error (Prod.ext hwrite rfl)
  -- Behind the file only the log stands in the way, and what fails there is no error.
  rcases Action.bind_error h with h | ⟨_, t, -, h⟩
  · cases h
  rcases Action.bind_error h with h | ⟨_, u, -, h⟩
  · rw [Bench.perform_onHost, Prod.mk.injEq, Log.perform_debug] at h
    rcases hd : Settings.debugging t.host with fault | wanted
    · simp only [hd] at h
      cases h.1
    · simp only [hd] at h
      cases h.1
  · cases h

end Concatenation

/-! ## Sessions -/

theorem Bench.writes_add_ok {c : Concatenation} {b b' : Bench} (hfolder : c.tempFolder ≠ "")
    (h : (Bench.add (.concat c)).perform b = (.ok (), b')) :
    b.host.Writes b'.listFile.toList b'.host := by
  have hcheck : c.check b.host = .ok () := (Bench.add_ok h).1
  rw [Bench.perform_add] at h
  simp only [Operation.check, hcheck, Operation.apply, Concatenation.apply] at h
  cases hs : c.strategy with
  | filter =>
    simp only [hs, c.perform_applyFilter] at h
    cases h
    exact .of_tree rfl
  | demuxer =>
    simp only [hs] at h
    exact Concatenation.writes_applyDemuxer_ok hfolder h

theorem Bench.writes_add_error {c : Concatenation} {b b' : Bench} {error : Error}
    (h : (Bench.add (.concat c)).perform b = (.error (.reported error), b')) :
    b.host.Writes [] b'.host := by
  rw [Bench.perform_add] at h
  rcases hcheck : c.check b.host with f | _
  · simp only [Operation.check, hcheck] at h
    cases h
    exact .of_tree rfl
  simp only [Operation.check, hcheck, Operation.apply, Concatenation.apply] at h
  cases hs : c.strategy with
  | filter =>
    simp only [hs, c.perform_applyFilter] at h
    cases h
  | demuxer =>
    simp only [hs] at h
    exact Concatenation.writes_applyDemuxer_error h

namespace Session

variable {o : SessionOptions} {folder : String} {s s' t : Session}

/-- Keeping a concatenation writes no files but lists that are owned. If a failure escapes, an empty
    file may stay. -/
theorem writes_keep {c : Concatenation} (hfolder : c.tempFolder ≠ "") {outcome : Except Failure Unit}
    (h : (keep (.concat c)).perform s = (outcome, s')) (ho : Handled outcome) :
    s.host.Writes s'.lists s'.host := by
  have hlog := Log.perform_debug (Operation.concat c).describe s.host
  unfold keep at h
  rw [Action.perform_bind, onHost, Action.perform_within, hlog] at h
  rcases hd : Settings.debugging s.host with fault | wanted
  · simp only [hd] at h
    cases h
    exact .of_tree rfl
  simp only [hd] at hlog h
  have hnotes : s.host.Continues True _ := (Log.at_debug (Operation.concat c).describe).leads
  simp only [hlog] at hnotes
  generalize (if wanted = true then _ else s.host : Host) = host at h hnotes
  rw [Action.perform_bind, onBench, Action.perform_within, Action.perform_bind] at h
  rcases hadd : (Bench.add (.concat c)).perform ⟨host, s.draft, none⟩ with ⟨f | _, b⟩
  · simp only [hadd] at h
    cases h
    cases f with
    | reported error =>
      have hnone := Bench.writes_add_error hadd
      exact (hnotes.writes trivial).after (hnone.mono (List.nil_subset _))
    | setting fault => exact (ho _ rfl trivial).elim
    | machine fault => exact (ho _ rfl trivial).elim
  · simp only [hadd] at h
    cases h
    have hlist := Bench.writes_add_ok hfolder hadd
    refine (hnotes.writes trivial).after (hlist.mono ?_)
    intro path hpath
    rw [mem_lists]
    exact ⟨⟨.concat c, b.listFile⟩, by simp, by simpa using hpath⟩

theorem writes_concat {r : ConcatRequest} {outcome : Except Failure Unit}
    (h : (Session.concat r).perform s = (outcome, s')) (ho : Handled outcome) :
    s.host.Writes s'.lists s'.host := by
  unfold Session.concat at h
  rw [Action.perform_bind_of_ok (Action.perform_get s), Action.perform_bind,
    Action.perform_expect] at h
  rcases hc : Concatenation.ofRequest r s.options.tempFolder s.host with f | c
  · rw [hc] at h
    cases h
    exact .of_tree rfl
  have hfolder : c.tempFolder ≠ "" := by
    rw [Concatenation.tempFolder_of_ofRequest hc]
    exact s.options.listFolder_ne_empty s.host
  simp only [hc, Action.perform_bind] at h
  rcases hkeep : (keep (.concat c)).perform s with ⟨f | _, t⟩
  · rw [hkeep] at h
    cases h
    exact writes_keep hfolder hkeep ho
  · rw [hkeep] at h
    cases h
    have hwrites := writes_keep hfolder hkeep ho
    exact hwrites

/-- The contract of calls that change no file. -/
def staying : Contract Session where
  leads s s' := s.host.Continues True s'.host
  allows s := s.host.Explains
  refl s := .refl True s.host
  trans := .trans
  allows_of_leads hs := hs.explains

theorem staying_debug (message : String) (s : Session) :
    staying.At s (onHost (Log.debug message)) :=
  .within (Log.at_debug message) (fun _ ht => ht) fun _ hf => hf

theorem staying_setInput (path : String) (s : Session) : staying.At s (setInput path) := by
  unfold setInput
  refine .get_bind ?_
  cases s.input with
  | some given => exact .bind (.fail rfl) fun _ _ ht => by cases ht
  | none =>
    refine .bind (staying_debug _ s) fun _ _ _ => ?_
    exact .bind (.modify (.refl _ _)) fun _ _ _ => .modify (.refl _ _)

theorem staying_setOutput (path : String) (options : OutputOptions) (s : Session) :
    staying.At s (setOutput path options) := by
  unfold setOutput
  refine .bind (staying_debug _ s) fun _ _ _ => ?_
  exact .bind (.modify (.refl _ _)) fun _ _ _ => .modify (.refl _ _)

theorem Fresh.writes_call (hs : Fresh o folder s) {c : Call} {outcome : Except Failure Unit}
    (h : c.action.perform s = (outcome, s')) (ho : Handled outcome) :
    s.host.Writes s'.lists s'.host := by
  cases c with
  | input path =>
    have hstays := (staying_setInput path s).leads
    rw [show (setInput path).perform s = (outcome, s') from h] at hstays
    exact hstays.writes trivial
  | concat r => exact writes_concat h ho
  | add op =>
    have hadd : (Session.add op).perform s = (outcome, s') := h
    unfold Session.add at hadd
    rw [Action.perform_bind, requireInput_of_none hs.input] at hadd
    cases hadd
    exact .of_tree rfl
  | output path options =>
    have hstays := (staying_setOutput path options s).leads
    rw [show (setOutput path options).perform s = (outcome, s') from h] at hstays
    exact hstays.writes trivial

/-- A call that comes to an end writes no files but lists that are owned. -/
theorem Unspent.writes_call {h : Host} (hs : Unspent o folder s) (hw : h.Writes s.lists s.host)
    {c : Call} {outcome : Except Failure Unit} (hc : c.action.perform s = (outcome, s'))
    (ho : Handled outcome) : h.Writes s'.lists s'.host := by
  rcases hs with hs | hs
  · rw [hs.lists] at hw
    exact hw.after (hs.writes_call hc ho)
  · have hcontinues := (c.at_action s).leads
    rw [hc] at hcontinues
    obtain ⟨more, hmore, -⟩ := hcontinues.kept
    refine (hw.mono ?_).continues hcontinues.host hs.hasInput
    rw [lists_of_append hmore]
    exact List.subset_append_left _ _

end Session

end Montage
