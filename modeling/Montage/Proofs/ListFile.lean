import Montage.Proofs.Continuity
import Montage.Proofs.Tree

/-!
# List files

A list file is written into a folder under a fresh name, stays there while the session goes on, and is
removed by cleaning up. Cleaning up always succeeds: a file that cannot be removed is told of in the
log.

* `Concatenation.Lists`: the list file of a concatenation stands in the folder, with its content.
* `Host.dropList`, `Session.cleaned`: the host without a list file, the session without all of them.
* `Host.Settled`: a list file is gone, or the log tells that it could not be removed.

Results:
* `Concatenation.applyDemuxer_ok`: a list file that was written stands in its folder with its
  content.
* `Session.perform_cleanUp`: cleaning up leaves no slot set and settles every list.
-/

namespace Montage

/-! ## The folder -/

namespace SessionOptions

/-- The folder into which a session writes its list files. -/
def listFolder (o : SessionOptions) (h : Host) : String :=
  if o.tempFolder.isEmpty then Settings.tempName h else o.tempFolder

theorem listFolder_ne_empty (o : SessionOptions) (h : Host) : o.listFolder h ≠ "" := by
  unfold listFolder
  by_cases he : o.tempFolder.isEmpty = true
  · simp only [he, if_true]
    have hdefault : Path.joinText h.directoryText "temp" ≠ "" := Path.joinText_ne_empty (by decide)
    unfold Settings.tempName Settings.text
    cases h.valueOf? "CLIPFORGE_TEMP_DIR" with
    | none => exact hdefault
    | some value =>
      by_cases hv : value.isEmpty = true
      · simp only [hv, if_true]; exact hdefault
      · simp only [hv]; rintro rfl; exact hv rfl
  · simp only [he]; rintro h; exact he (by rw [if_neg (by decide)] at h; rw [h]; rfl)

theorem listFolder_congr (o : SessionOptions) {still : Prop} {h h' : Host}
    (hh : h.Continues still h') : o.listFolder h' = o.listFolder h := by
  simp only [listFolder, Settings.tempName, Settings.text, hh.valueOf?, Host.directoryText,
    hh.directory]

end SessionOptions

namespace Concatenation

/-- A folder that is settled is that of the session, with or without its options. -/
theorem folderOf_ok {o : SessionOptions} {h : Host} {folder : String}
    (hf : folderOf o.tempFolder h = .ok folder) : folder = o.listFolder h := by
  unfold folderOf at hf
  unfold SessionOptions.listFolder
  by_cases he : o.tempFolder.isEmpty = true
  · simp only [he, if_true] at hf ⊢
    have hname := mapError_eq_ok.mp hf
    unfold Settings.tempFolder at hname
    cases hd : h.currentPath with
    | error fault => rw [hd] at hname; cases hname
    | ok path => rw [hd] at hname; cases hname; rfl
  · simp only [he] at hf ⊢
    cases hf
    rfl

theorem tempFolder_of_ofRequest {r : ConcatRequest} {o : SessionOptions} {h : Host}
    {c : Concatenation} (hc : ofRequest r o.tempFolder h = .ok c) :
    c.tempFolder = o.listFolder h := by
  obtain ⟨folder, strategy, hfolder, -, -, rfl⟩ := ofRequest_eq_ok.mp hc
  exact folderOf_ok hfolder

end Concatenation

/-! ## Writing -/

namespace Concatenation

/-- The list file of a concatenation stands in the folder, with its content. -/
structure Lists (c : Concatenation) (path : String) (h : Host) : Prop where
  named : IsListPath c.tempFolder path
  file : ∃ l executable, h.find path = .ok (l, .file (c.listContent h) executable)
  folder : h.isFolder c.tempFolder = true

variable {c : Concatenation} {path : String} {h h' : Host}

theorem Lists.content?_eq (hl : c.Lists path h) : h.content? path = some (c.listContent h) := by
  obtain ⟨l, executable, hfind⟩ := hl.file
  rw [Host.content?, hfind]

/-- The content depends on the working directory alone. -/
theorem listContent_congr (hd : h'.directory = h.directory) : c.listContent h' = c.listContent h := by
  have hline : listLine h' = listLine h := by
    funext path
    rw [listLine, listLine, hd]
  rw [listContent, listContent, hline]

/-- A list stays what it is on a host that goes on with the same file tree. -/
theorem Lists.continues {still : Prop} (hl : c.Lists path h) (hh : h.Continues still h')
    (hs : still) : c.Lists path h' := by
  have hfind := hh.find hs
  refine ⟨hl.named, ?_, ?_⟩
  · rw [hfind, listContent_congr hh.directory]
    exact hl.file
  · rw [← hl.folder, Host.isFolder, Host.isFolder, hfind]

theorem writeList_ok (hfolder : c.tempFolder ≠ "") (hw : c.writeList.perform h = (.ok path, h')) :
    c.Lists path h' := by
  have hwrites := c.writesList h
  rw [hw] at hwrites
  cases hwrites with
  | @written m _ hm ht hwrite =>
    have hname : Host.IsListName m.listName.1 := ⟨m, rfl⟩
    obtain ⟨⟨l, x, -, -, hfile⟩, hdir⟩ := Host.find_of_write hname.isName hfolder hwrite
    have hsame : c.listContent h' = c.listContent m.listName.2 := by
      obtain ⟨tree, rfl⟩ := Host.tree_of_write hwrite
      exact listContent_congr rfl
    exact ⟨⟨_, hname, rfl⟩, ⟨l, x, by rw [hsame]; exact hfile⟩, hdir⟩

/-- A demuxer concatenation that succeeds writes its list file, and then to the log alone. -/
theorem applyDemuxer_steps {b b' : Bench} (h : c.applyDemuxer.perform b = (.ok (), b')) :
    ∃ path host, c.writeList.perform b.host = (.ok path, host) ∧ b'.listFile = some path ∧
      host.Continues True b'.host := by
  unfold applyDemuxer at h
  rw [Action.perform_bind, Action.perform_get] at h
  by_cases hin : b.draft.command.input.isSome = true
  · simp only [hin, if_true] at h; cases h
  simp only [hin, Bool.false_eq_true, if_false] at h
  obtain ⟨path, t, hwrite, hrest⟩ := Action.bind_ok h
  obtain ⟨_, _, ⟨⟩, hrest⟩ := Action.bind_ok hrest
  obtain ⟨_, u, hlog, hrest⟩ := Action.bind_ok hrest
  cases hrest
  rw [Bench.perform_onHost, Prod.mk.injEq] at hwrite hlog
  obtain ⟨hwrite, rfl⟩ := hwrite
  obtain ⟨-, rfl⟩ := hlog
  exact ⟨path, _, Prod.ext hwrite rfl, rfl, (Log.at_debug _).leads⟩

/-- It owns the list file. -/
theorem applyDemuxer_ok {b b' : Bench} (hfolder : c.tempFolder ≠ "")
    (h : c.applyDemuxer.perform b = (.ok (), b')) :
    ∃ path, b'.listFile = some path ∧ c.Lists path b'.host := by
  obtain ⟨path, host, hwrite, hlist, hlog⟩ := applyDemuxer_steps h
  exact ⟨path, hlist, (writeList_ok hfolder hwrite).continues hlog trivial⟩

end Concatenation

/-! ## Removing -/

namespace Host

/-- The warning that a list file could not be removed. -/
def listWarning (path : String) (fault : FileFault) : String :=
  let reason := fault.message
  let message := s!"Failed to remove concat list {path}: {reason}"
  s!"[WARN] {message}\n"

/-- The host without a list file; one that cannot be removed is told of. -/
def dropList (h : Host) (path : String) : Host :=
  match h.remove path with
  | .ok h => h
  | .error fault => { h with logged := h.logged ++ listWarning path fault }

/-- A list file is gone, or the log tells that it could not be removed. -/
def Settled (h : Host) (path : String) : Prop :=
  h.IsAbsent path ∨
    ∃ (m : Host) (fault : FileFault) (more : String),
      m.remove path = .error fault ∧ h.logged = m.logged ++ listWarning path fault ++ more

variable {h h' : Host} {folder path other : String}

theorem IsAbsent.continues {still : Prop} (hp : h.IsAbsent path) (hh : h.Continues still h')
    (hs : still) : h'.IsAbsent path := by
  rw [IsAbsent, pathExists, hh.find hs]
  exact hp

theorem Settled.continues (hp : h.Settled path) (hh : h.Continues True h') : h'.Settled path := by
  rcases hp with hgone | ⟨m, fault, more, hfails, hlog⟩
  · exact .inl (hgone.continues hh trivial)
  · obtain ⟨more', hmore⟩ := hh.logged
    exact .inr ⟨m, fault, more ++ more', hfails, by rw [hmore, hlog, String.append_assoc]⟩

theorem continues_dropList (h : Host) (path : String) : h.Continues False (h.dropList path) := by
  unfold dropList
  rcases hr : h.remove path with fault | h'
  · exact ⟨rfl, rfl, rfl, ⟨_, rfl⟩, False.elim⟩
  · obtain ⟨tree, rfl⟩ := tree_of_remove hr
    exact h.continues_tree tree

theorem settled_dropList (hfolder : folder ≠ "") (hp : IsListPath folder path) :
    (h.dropList path).Settled path := by
  obtain ⟨name, hname, rfl⟩ := hp
  unfold dropList
  rcases hr : h.remove (Path.joinText folder name) with fault | h'
  · exact .inr ⟨h, fault, "", hr, by simp⟩
  · exact .inl (isAbsent_of_remove hname.isName hfolder hr)

/-- What is settled stays so when another list is dropped. -/
theorem Settled.dropList (hfolder : folder ≠ "") (ho : IsListPath folder other)
    (hp : h.Settled path) : (h.dropList other).Settled path := by
  obtain ⟨name, hname, rfl⟩ := ho
  rcases hp with hgone | ⟨m, fault, more, hfails, hlog⟩
  · left
    unfold Host.dropList
    rcases hr : h.remove (Path.joinText folder name) with fault | h'
    · exact hgone
    · exact hgone.of_remove hname.isName hfolder hr
  · obtain ⟨more', hmore⟩ := (h.continues_dropList (Path.joinText folder name)).logged
    exact .inr ⟨m, fault, more ++ more', hfails, by rw [hmore, hlog, String.append_assoc]⟩

theorem continues_foldl (h : Host) (paths : List String) :
    h.Continues False (paths.foldl Host.dropList h) := by
  induction paths generalizing h with
  | nil => exact .refl False h
  | cons first rest ih => exact (h.continues_dropList first).trans (ih _)

/-- After several lists were dropped each of them is settled. -/
theorem settled_foldl {paths : List String} (hfolder : folder ≠ "")
    (hpaths : ∀ p ∈ paths, IsListPath folder p) (hp : path ∈ paths ∨ h.Settled path) :
    (paths.foldl Host.dropList h).Settled path := by
  induction paths generalizing h with
  | nil =>
    rcases hp with hp | hp
    · cases hp
    · exact hp
  | cons first rest ih =>
    have hfirst := hpaths first List.mem_cons_self
    refine ih (fun p hm => hpaths p (List.mem_cons_of_mem _ hm)) ?_
    rcases hp with hp | hp
    · rcases List.mem_cons.mp hp with rfl | hp
      · exact .inr (settled_dropList hfolder hfirst)
      · exact .inl hp
    · exact .inr (hp.dropList hfolder hfirst)

/-- If all list files can be removed, all of them are gone in the end. -/
theorem gone_foldl {paths : List String} (hfolder : folder ≠ "")
    (hpaths : ∀ p ∈ paths, IsListPath folder p) (hf : h.isFolder folder = true)
    (hfiles : ∀ p ∈ paths, h.IsRemovable p) (hp : path ∈ paths ∨ h.IsAbsent path) :
    (paths.foldl dropList h).isFolder folder = true ∧ (paths.foldl dropList h).IsAbsent path := by
  induction paths generalizing h with
  | nil =>
    rcases hp with hp | hp
    · cases hp
    · exact ⟨hf, hp⟩
  | cons first rest ih =>
    obtain ⟨name, hname, rfl⟩ := hpaths first List.mem_cons_self
    have hne : Path.joinText folder name ≠ "" := Path.joinText_ne_empty hname.isName.notEmpty
    obtain ⟨h', hr, hf'⟩ := (hfiles _ List.mem_cons_self).remove hne hfolder hf
    have hdrop : h.dropList (Path.joinText folder name) = h' := by rw [dropList, hr]
    rw [List.foldl_cons, hdrop]
    refine ih (fun p hm => hpaths p (List.mem_cons_of_mem _ hm)) hf' ?_ ?_
    · intro p hm
      exact (hfiles p (List.mem_cons_of_mem _ hm)).of_remove hname.isName hfolder hr
    · rcases hp with hp | hp
      · rcases List.mem_cons.mp hp with rfl | hp
        · exact .inr (isAbsent_of_remove hname.isName hfolder hr)
        · exact .inl hp
      · exact .inr (hp.of_remove hname.isName hfolder hr)

end Host

/-! ## Cleaning up -/

theorem Concatenation.perform_removeList (path : String) (h : Host) :
    (removeList path).perform h = (.ok (), h.dropList path) := by
  unfold removeList Host.dropList
  rw [Action.perform_bind, Action.perform_get]
  simp only
  cases h.remove path <;> rfl

namespace KeptOperation

/-- The operation without its list file. -/
def released (k : KeptOperation) : KeptOperation := { k with listFile := none }

theorem released_of_none {k : KeptOperation} (h : k.listFile = none) : k.released = k := by
  cases k
  cases h
  rfl

theorem perform_cleanUp (k : KeptOperation) (h : Host) :
    k.cleanUp.perform h = (.ok k.released, k.listFile.toList.foldl Host.dropList h) := by
  unfold cleanUp
  cases hk : k.listFile with
  | none => rfl
  | some path =>
    rw [Action.perform_bind, Concatenation.perform_removeList]
    rfl

end KeptOperation

namespace Session

/-- The list files that operations of the session own. -/
def lists (s : Session) : List String := s.kept.filterMap KeptOperation.listFile

/-- The session without list files. -/
def cleaned (s : Session) : Session :=
  { s with
    host := s.lists.foldl Host.dropList s.host
    kept := s.kept.map KeptOperation.released }

/-- Cleaning up always succeeds: it drops all list files and leaves no slot set. -/
theorem perform_cleanUp (s : Session) : cleanUp.perform s = (.ok (), s.cleaned) := by
  have heach (kept : List KeptOperation) (h : Host) :
      (kept.mapM KeptOperation.cleanUp).perform h =
        (.ok (kept.map KeptOperation.released),
          (kept.filterMap KeptOperation.listFile).foldl Host.dropList h) := by
    induction kept generalizing h with
    | nil => rfl
    | cons k rest ih =>
      rw [List.mapM_cons, Action.perform_bind, k.perform_cleanUp]
      simp only [Action.perform_bind, ih]
      cases hk : k.listFile <;> simp [hk]
  unfold cleanUp
  rw [Action.perform_bind, Action.perform_get]
  simp only
  rw [Action.perform_bind, onHost, Action.perform_within, heach]
  rfl

theorem lists_cleaned (s : Session) : s.cleaned.lists = [] := by
  simp [lists, cleaned, List.filterMap_map, Function.comp_def, KeptOperation.released]

theorem lists_congr {s t : Session} (h : t.kept = s.kept) : t.lists = s.lists := by
  rw [lists, h, lists]

theorem lists_of_append {s t : Session} {more : List KeptOperation} (h : t.kept = s.kept ++ more) :
    t.lists = s.lists ++ more.filterMap KeptOperation.listFile := by
  rw [lists, h, List.filterMap_append, lists]

theorem mem_lists {s : Session} {path : String} :
    path ∈ s.lists ↔ ∃ k ∈ s.kept, k.listFile = some path := List.mem_filterMap

end Session

end Montage
