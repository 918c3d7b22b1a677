import Montage.Proofs.Call

/-!
# Warnings of a build

A build may warn of filters that are left out and of video filters that override each other. These
are all the lines that it logs.

* `Log.warningLines`: the lines of warnings.
* `Draft.leftOut`, `Draft.repeated`: the two warnings.
* `Draft.warnings`: what the build of a draft warns of.

Results:
* `Bench.perform_warn_eq`: warnings go to the log in their order, and nowhere else.
* `Bench.logged_of_build`, `Session.logged_of_build`: the log behind a first build.
-/

namespace Montage

/-- The lines that warnings put into the log. -/
def Log.warningLines (messages : List String) : String :=
  String.join (messages.map fun message => s!"[WARN] {message}\n")

theorem Log.warningLines_append (xs ys : List String) :
    warningLines (xs ++ ys) = warningLines xs ++ warningLines ys := by
  simp only [warningLines, List.map_append, String.join_append]

namespace Draft

/-- The warning that so many simple filters are left out. -/
def leftOut (count : Nat) (texts : String) : String :=
  s!"Complex filters present, {Decimal.ofInt count} simple filter(s) not rendered: {texts}"

/-- The warning that so many video filters override each other. -/
def repeated (count : Nat) : String :=
  s!"{Decimal.ofInt count} video filter arguments in one command, ffmpeg applies only the last one"

/-- What the build of a draft warns of. -/
def warnings (d : Draft) : List String := d.leftOutWarning ++ d.repeatedFilterWarning

theorem repeatedFilterWarning_eq (d : Draft) : d.repeatedFilterWarning =
    if 1 < d.rendered.videoFilterCount then [repeated d.rendered.videoFilterCount] else [] := rfl

end Draft

namespace Bench

theorem perform_warn_eq (messages : List String) (b : Bench) :
    (warn messages).perform b =
      (.ok (), { b with host :=
        { b.host with logged := b.host.logged ++ Log.warningLines messages } }) := by
  have logs (host : Host) : (messages.forM Log.warning : Action Host PUnit).perform host =
      (.ok (), { host with logged := host.logged ++ Log.warningLines messages }) := by
    induction messages generalizing host with
    | nil => simp [Log.warningLines]
    | cons message rest ih =>
      change (Log.warning message >>= fun _ => rest.forM Log.warning).perform host = _
      have hfirst : (Log.warning message).perform host =
          (.ok (), { host with logged := host.logged ++ s!"[WARN] {message}\n" }) := rfl
      rw [Action.perform_bind_of_ok hfirst, ih]
      simp only [Log.warningLines, List.map_cons, String.join_cons, String.append_assoc]
  rw [warn, perform_onHost, logs]

/-- A first build logs its warnings and nothing else. -/
theorem logged_of_build {b b' : Bench} {c : Command} (h : build.perform b = (.ok c, b'))
    (hnew : b.draft.isBuilt = false) :
    c = b.draft.rendered.close ∧ b.draft.command.checkEnds = .ok () ∧
      b'.host.logged = b.host.logged ++ Log.warningLines b.draft.warnings := by
  unfold build at h
  rw [Action.perform_bind, Action.perform_get] at h
  simp only [hnew, Bool.false_eq_true, if_false] at h
  obtain ⟨⟨⟩, b₁, hcheck, h⟩ := Action.bind_ok h
  obtain ⟨hends, rfl⟩ := Action.require_ok hcheck
  rw [Action.perform_bind_of_ok (perform_warn_eq _ _),
    Action.perform_bind_of_ok (perform_warn_eq _ _)] at h
  cases h
  refine ⟨rfl, hends, ?_⟩
  rw [Draft.warnings, Log.warningLines_append, ← String.append_assoc]

end Bench

namespace Session

theorem logged_of_build {s s' : Session} {c : Command} (h : build.perform s = (.ok c, s'))
    (hnew : s.draft.isBuilt = false) :
    s'.host.logged = s.host.logged ++ Log.warningLines s.draft.warnings := by
  unfold build at h
  obtain ⟨⟨⟩, s₁, hinput, hrest⟩ := Action.bind_ok h
  obtain ⟨-, rfl⟩ := requireInput_ok hinput
  rw [Action.perform_bind, Action.perform_get] at hrest
  obtain ⟨c', s₂, hbench, hrecord⟩ := Action.bind_ok hrest
  obtain ⟨b, hb, rfl⟩ := onBench_ok hbench
  obtain ⟨-, -, hlogged⟩ := Bench.logged_of_build hb hnew
  obtain ⟨⟨⟩, s₃, hphase, hpure⟩ := Action.bind_ok hrecord
  cases hphase
  cases hpure
  exact hlogged

end Session

end Montage
