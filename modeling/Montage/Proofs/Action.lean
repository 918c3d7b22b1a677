import Mathlib.Data.List.Induction
import Montage.Bench

/-!
# Performing actions

What an action does to a state, step by step. Later proofs take an action apart with these laws
and never unfold the monad.

* `perform_bind`: a sequence goes on in the state that its first part leaves, and stops there if
  that part fails.
* `bind_ok`, `bind_error`: what is known of the parts of a sequence that succeeds or fails.
* `forM_invariant`: what each of several actions keeps holds after all of them.
* `Bench.perform_edit` and its companions: the same for the steps on a bench.
-/

namespace Montage.Action

variable {σ τ α β : Type}

@[simp] theorem perform_pure (a : α) (s : σ) : (pure a : Action σ α).perform s = (.ok a, s) := rfl

@[simp] theorem perform_get (s : σ) : (get : Action σ σ).perform s = (.ok s, s) := rfl

@[simp] theorem perform_modify (f : σ → σ) (s : σ) :
    (modify f : Action σ PUnit).perform s = (.ok (), f s) := rfl

@[simp] theorem perform_set (s t : σ) : (set t : Action σ PUnit).perform s = (.ok (), t) := rfl

@[simp] theorem perform_throw (f : Failure) (s : σ) :
    (throw f : Action σ α).perform s = (.error f, s) := rfl

@[simp] theorem perform_fail (e : Error) (s : σ) :
    (fail e : Action σ α).perform s = (.error (.reported e), s) := rfl

@[simp] theorem perform_within (part : σ → τ) (put : σ → τ → σ) (a : Action τ α) (s : σ) :
    (within part put a).perform s = ((a.perform (part s)).1, put s (a.perform (part s)).2) := rfl

theorem perform_attempt (a : Action σ α) (s : σ) :
    (attempt a).perform s =
      match a.perform s with
      | (.ok value, t) => (.ok (.ok value), t)
      | (.error (.reported e), t) => (.ok (.error e), t)
      | (.error (.setting fault), t) => (.error (.setting fault), t)
      | (.error (.machine fault), t) => (.error (.machine fault), t) := rfl

theorem perform_bind (a : Action σ α) (f : α → Action σ β) (s : σ) :
    (a >>= f).perform s =
      match a.perform s with
      | (.ok v, t) => (f v).perform t
      | (.error e, t) => (.error e, t) := by
  change (match a s with | (x, t) => ExceptT.bindCont f x t) = _
  unfold perform ExceptT.run
  rcases a s with ⟨_ | v, t⟩ <;> rfl

/-- A step that succeeds hands its value and its state on. -/
theorem perform_bind_of_ok {a : Action σ α} {f : α → Action σ β} {s t : σ} {v : α}
    (h : a.perform s = (.ok v, t)) : (a >>= f).perform s = (f v).perform t := by
  rw [perform_bind, h]

/-- An action that is seen to succeed on some state. -/
theorem perform_of_isOk {a : Action σ PUnit} {s : σ} (h : (a.perform s).1.isOk = true) :
    a.perform s = (.ok (), (a.perform s).2) := by
  rcases ha : a.perform s with ⟨_ | _, t⟩
  · rw [ha] at h; cases h
  · rfl

/-- An action that is seen to give a value with a property. -/
theorem perform_of_any {a : Action σ α} {P : α → Prop} [DecidablePred P] {s : σ}
    (h : (a.perform s).1.toOption.any (fun v => decide (P v)) = true) :
    ∃ v, a.perform s = (.ok v, (a.perform s).2) ∧ P v := by
  rcases ha : a.perform s with ⟨_ | v, t⟩
  · rw [ha] at h; cases h
  · rw [ha] at h; exact ⟨v, rfl, of_decide_eq_true h⟩

theorem bind_ok {a : Action σ α} {f : α → Action σ β} {s t : σ} {w : β}
    (h : (a >>= f).perform s = (.ok w, t)) :
    ∃ v u, a.perform s = (.ok v, u) ∧ (f v).perform u = (.ok w, t) := by
  rw [perform_bind] at h
  rcases ha : a.perform s with ⟨_ | v, u⟩
  · rw [ha] at h; cases h
  · rw [ha] at h; exact ⟨v, u, rfl, h⟩

theorem bind_error {a : Action σ α} {f : α → Action σ β} {s t : σ} {e : Failure}
    (h : (a >>= f).perform s = (.error e, t)) :
    a.perform s = (.error e, t) ∨
      ∃ v u, a.perform s = (.ok v, u) ∧ (f v).perform u = (.error e, t) := by
  rw [perform_bind] at h
  rcases ha : a.perform s with ⟨e' | v, u⟩
  · rw [ha] at h; cases h; left; rfl
  · rw [ha] at h; right; exact ⟨v, u, rfl, h⟩

@[simp] theorem perform_require_ok (a : α) (s : σ) :
    (require (.ok a) : Action σ α).perform s = (.ok a, s) := rfl

theorem require_ok {x : Except Error α} {s t : σ} {a : α}
    (h : (require x : Action σ α).perform s = (.ok a, t)) : x = .ok a ∧ t = s := by
  cases x with
  | error e => cases h
  | ok b => cases h; exact ⟨rfl, rfl⟩

theorem require_error {x : Except Error α} {s t : σ} {f : Failure}
    (h : (require x : Action σ α).perform s = (.error f, t)) : t = s := by
  cases x with
  | error e => cases h; rfl
  | ok b => cases h

@[simp] theorem perform_expect (x : Except Failure α) (s : σ) :
    (expect x : Action σ α).perform s = (x, s) := by
  cases x <;> rfl

theorem expect_ok {x : Except Failure α} {s t : σ} {a : α}
    (h : (expect x : Action σ α).perform s = (.ok a, t)) : x = .ok a ∧ t = s := by
  rw [perform_expect] at h
  cases h
  exact ⟨rfl, rfl⟩

theorem expect_error {x : Except Failure α} {s t : σ} {f : Failure}
    (h : (expect x : Action σ α).perform s = (.error f, t)) : x = .error f ∧ t = s := by
  rw [perform_expect] at h
  cases h
  exact ⟨rfl, rfl⟩

/-! ## Rows of actions -/

variable {γ : Type}

theorem forM_append_ok {step : γ → Action σ PUnit} {xs ys : List γ} {s t : σ}
    (h : (forM (xs ++ ys) step).perform s = (.ok (), t)) :
    ∃ m, (forM xs step).perform s = (.ok (), m) ∧ (forM ys step).perform m = (.ok (), t) := by
  rw [List.forM_append] at h
  obtain ⟨⟨⟩, m, hx, hy⟩ := bind_ok h
  exact ⟨m, hx, hy⟩

theorem forM_cons_ok {step : γ → Action σ PUnit} {x : γ} {xs : List γ} {s t : σ}
    (h : (forM (x :: xs) step).perform s = (.ok (), t)) :
    ∃ m, (step x).perform s = (.ok (), m) ∧ (forM xs step).perform m = (.ok (), t) := by
  rw [List.forM_cons] at h
  obtain ⟨⟨⟩, m, hx, hxs⟩ := bind_ok h
  exact ⟨m, hx, hxs⟩

/-- What holds before a row of actions, and is kept by each that succeeds, holds after the row. -/
theorem forM_invariant {step : γ → Action σ PUnit} {I : List γ → σ → Prop} {s t : σ}
    (start : I [] s)
    (keep : ∀ xs x m m', I xs m → (step x).perform m = (.ok (), m') → I (xs ++ [x]) m')
    {xs : List γ} (h : (forM xs step).perform s = (.ok (), t)) : I xs t := by
  -- From the end of the row, since the invariant speaks of the steps before.
  induction xs using List.reverseRecOn generalizing t with
  | nil => cases h; exact start
  | append_singleton xs x ih =>
    obtain ⟨m, hm, hx⟩ := forM_append_ok h
    obtain ⟨m', hx, hnil⟩ := forM_cons_ok hx
    cases hnil
    exact keep xs x m t (ih hm) hx

end Montage.Action

namespace Montage.Bench

variable {α : Type}

@[simp] theorem perform_onHost (a : Action Host α) (b : Bench) :
    (onHost a).perform b = ((a.perform b.host).1, { b with host := (a.perform b.host).2 }) := rfl

@[simp] theorem perform_edit (change : Draft → Draft) (b : Bench) :
    (edit change).perform b = (.ok (), { b with draft := change b.draft }) := rfl

@[simp] theorem perform_editGet (change : Draft → α × Draft) (b : Bench) :
    (editGet change).perform b =
      (.ok (change b.draft).1, { b with draft := (change b.draft).2 }) := rfl

/-- Warnings go to the log and always succeed. -/
theorem perform_warn (messages : List String) (b : Bench) :
    ∃ h, (warn messages).perform b = (.ok (), { b with host := h }) := by
  have logs : ∀ host : Host,
      ∃ h, (messages.forM Log.warning : Action Host PUnit).perform host = (.ok (), h) := by
    induction messages with
    | nil => intro host; exact ⟨host, rfl⟩
    | cons m rest ih =>
      intro host
      change ∃ h, (Log.warning m >>= fun _ => rest.forM Log.warning).perform host = (.ok (), h)
      rw [Action.perform_bind]
      exact ih _
  obtain ⟨h, hh⟩ := logs b.host
  exact ⟨h, by rw [warn, perform_onHost, hh]⟩

end Montage.Bench
