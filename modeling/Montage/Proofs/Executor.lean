import Montage.Executor.Process
import Montage.Executor.Rehearsal
import Montage.Proofs.Contract
import Montage.Proofs.Tree

/-!
# What executors do

What sessions rely on when they hand over a command. The executor that runs programs keeps to it, and
so does a rehearsal.

* `Executor.Reports`: nothing but errors comes back.
* `Executor.RunsPrograms`: the errors tell how a program ran, and the environment stays.
* `Host.Spared`: a folder and the list files in it are as they were.
* `Executor.Spares`: an executor that leaves them so.

Results:
* `Executor.runsPrograms_process`: the executor that runs programs.
* `Rehearsal.runsPrograms`, `Rehearsal.spares`: rehearsals.
-/

namespace Montage

open Montage.Action (Contract)

/-- The contract of running a program: the environment stays, and an error tells how the program
    ran. A setting can stand in the way only if it is that for debugging messages. -/
def Host.running : Contract Host where
  leads h h' := h'.environment = h.environment
  allows
    | _, .reported error => error.isRefusal = false
    | h, .setting fault => Settings.debugging h = .error fault
    | _, .machine _ => False
  refl _ := rfl
  trans hst htu := htu.trans hst
  allows_of_leads := by
    intro h h' f hh hf
    cases f with
    | reported error => exact hf
    | setting fault => exact (Settings.debugging_congr hh).symm.trans hf
    | machine fault => exact hf

/-- From the host `h` to the host `h'` a folder stays where it is, and so does what stands in it under
    the name of a list file. -/
structure Host.Spared (folder : String) (h h' : Host) : Prop where
  isFolder : h.isFolder folder = true → h'.isFolder folder = true
  find : h.isFolder folder = true → ∀ path, IsListPath folder path → h'.find path = h.find path

theorem Host.Continues.spared {still : Prop} {h h' : Host} (hh : h.Continues still h') (hs : still)
    (folder : String) : h.Spared folder h' := by
  have hfind := hh.find hs
  refine ⟨fun hf => ?_, fun _ path _ => hfind path⟩
  rw [← hf, isFolder, isFolder, hfind]

namespace Executor

/-- An executor that fails with errors only, as long as the setting for debugging messages can be
    read. -/
structure Reports (e : Executor) : Prop where
  setting : ∀ c h fault, ((e.execute c).perform h).1 = .error (.setting fault) →
    Settings.debugging h = .error fault
  machine : ∀ c h fault, ((e.execute c).perform h).1 ≠ .error (.machine fault)

/-- An executor that fails only because a program could not be started or failed, and that leaves the
    environment as it is. -/
def RunsPrograms (e : Executor) : Prop := ∀ c h, Host.running.At h (e.execute c)

/-- An executor that leaves a folder and the list files in it as they are. -/
def Spares (e : Executor) (folder : String) : Prop :=
  ∀ (c : Command) (h : Host), h.Spared folder ((e.execute c).perform h).2

theorem RunsPrograms.reports {e : Executor} (he : e.RunsPrograms) : e.Reports :=
  ⟨fun c h _ hf => (he c h).allows _ hf, fun c h _ hf => (he c h).allows _ hf⟩

end Executor

/-! ## Programs -/

/-- A launcher that changes no variable of the process that starts a program. -/
def Launcher.KeepsEnvironment (launch : Launcher) : Prop :=
  ∀ h program arguments completion h',
    launch h program arguments = .ok (completion, h') → h'.environment = h.environment

theorem Log.running_debug (message : String) (h : Host) : Host.running.At h (Log.debug message) := by
  have hperform := Log.perform_debug message h
  rcases hd : Settings.debugging h with fault | wanted
  · rw [hd] at hperform
    exact .of_error hperform rfl hd
  · rw [hd] at hperform
    refine .of_ok hperform ?_
    cases wanted <;> rfl

section

variable {launch : Launcher}

theorem Executor.running_startAndWait (hlaunch : launch.KeepsEnvironment) (program : String)
    (arguments : List String) (h : Host) :
    Host.running.At h (startAndWait launch program arguments) := by
  unfold startAndWait
  refine .get_bind ?_
  rcases hl : launch h program arguments with fault | ⟨completion, h'⟩
  · exact .bind (.modify rfl) fun _ _ _ => .fail rfl
  · exact .bind (.set (hlaunch h program arguments completion h' hl)) fun _ _ _ => .pure _

/-- The executor that runs programs fails only with what came of them. -/
theorem Executor.runsPrograms_process (hlaunch : launch.KeepsEnvironment) :
    (process launch).RunsPrograms := by
  intro c h
  change Host.running.At h (runProcess launch c)
  unfold runProcess
  refine .bind (.modify rfl) fun _ h₁ _ => .get_bind ?_
  refine .bind (running_startAndWait hlaunch _ _ _) fun completion h₂ _ => ?_
  refine .bind (.modify rfl) fun _ h₃ _ => .get_bind ?_
  by_cases hended : completion.ending = .exited 0
  · simp only [hended, ne_eq, not_true_eq_false, if_false]
    exact .bind (Log.running_debug _ _) fun _ _ _ => .pure _
  · simp only [ne_eq, hended, not_false_eq_true, if_true]
    refine .bind (.forM (fun _ _ => .modify rfl) _ _) fun _ h₄ _ => ?_
    refine .bind ?_ fun _ _ hfail => by cases hfail
    exact .fail rfl

end

/-! ## Rehearsals -/

namespace Rehearsal

/-- What a rehearsal tells of a command. -/
def outcome (r : Rehearsal) (c : Command) : Except Error ExecutionResult :=
  if r.notFound then .error (.programNotFound c.program)
  else match r.failure with
    | some err => .error (.executionFailed c.text err)
    | none => .ok ⟨c.output.getD "", c.text, r.milliseconds, r.out, r.err⟩

/-- What a rehearsal does to the host. -/
def left (r : Rehearsal) (c : Command) (h : Host) : Host :=
  if r.spoilsInput then c.input.elim h (spoil · h) else h

theorem perform_play (r : Rehearsal) (c : Command) (h : Host) :
    (r.play c).perform h = ((r.outcome c).mapError .reported, r.left c h) := by
  obtain ⟨spoilsInput, notFound, failure, milliseconds, out, err⟩ := r
  cases spoilsInput <;> cases hi : c.input <;> cases notFound <;> cases failure <;>
    simp [play, outcome, left, hi, Action.perform_bind, Except.mapError] <;> rfl

theorem spoil_environment (path : String) (h : Host) : (spoil path h).environment = h.environment := by
  have hmade (m : Host) (text : String) : (m.makeFolders text).1.environment = m.environment := by
    obtain ⟨tree, htree⟩ := m.tree_of_makeFolders text
    rw [htree]
  unfold spoil
  rcases hr : h.remove path with fault | h'
  · exact hmade h _
  · obtain ⟨tree, rfl⟩ := Host.tree_of_remove hr
    exact hmade _ _

theorem runsPrograms (r : Rehearsal) : r.executor.RunsPrograms := by
  intro c h
  have hplay := r.perform_play c h
  have hleft : (r.left c h).environment = h.environment := by
    unfold left
    cases r.spoilsInput
    · rfl
    · cases c.input with
      | none => rfl
      | some path => exact spoil_environment path h
  cases ho : r.outcome c with
  | ok result => rw [ho] at hplay; exact .of_ok hplay hleft
  | error error =>
    rw [ho] at hplay
    refine .of_error hplay hleft ?_
    unfold outcome at ho
    cases hn : r.notFound <;> cases hf : r.failure <;> simp [hn, hf] at ho <;> subst ho <;> rfl

end Rehearsal

end Montage
