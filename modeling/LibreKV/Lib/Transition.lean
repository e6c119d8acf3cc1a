import Mathlib.Data.List.Induction
import Mathlib.Data.Nat.Notation
import Mathlib.Logic.Basic

/-!
# Runs of a labelled transition system

A component is given by a step relation `Step s a s'`: in state `s` the call `a` returns and
leaves `s'`. A run is a finite sequence of such steps. The labels are kept in call order, so
an invariant may speak about the whole history as well as about the state.

A condition on the calls of a run is a restriction of the step relation (`Guarded`), and what
is noted about each call is a second component of its label (`Noted`). Neither is a second
notion of run: every rule below applies to such runs as it stands. Where the calls can be
computed, a run is made by computing them one after the other (`Run.of_foldlM`).
-/

namespace Transition

variable {σ α β : Type*}

/-- Finitely many steps from `s₀`, with the labels in the order of the calls. -/
inductive Run (Step : σ → α → σ → Prop) (s₀ : σ) : List α → σ → Prop
  /-- Before the first call. -/
  | nil : Run Step s₀ [] s₀
  /-- One more call at the end. -/
  | snoc {log : List α} {s s' : σ} {a : α} :
      Run Step s₀ log s → Step s a s' → Run Step s₀ (log ++ [a]) s'

/-- The steps of `Step` whose call meets the condition `C` in the state before it. -/
def Guarded (Step : σ → α → σ → Prop) (C : σ → α → Prop) : σ → α → σ → Prop :=
  fun s a s' => C s a ∧ Step s a s'

/-- The steps of `Step`, each with a note taken of the call in the state before it. -/
def Noted (Step : σ → α → σ → Prop) (note : σ → α → β) : σ → α × β → σ → Prop :=
  fun s p s' => Step s p.1 s' ∧ p.2 = note s p.1

namespace Run

variable {Step : σ → α → σ → Prop} {C : σ → α → Prop} {s₀ s : σ} {log : List α}

/-- The invariant rule: what holds at the start and is kept by every step holds in every
state reached. -/
@[elab_as_elim]
theorem invariant {Inv : σ → Prop} (h : Run Step s₀ log s) (init : Inv s₀)
    (step : ∀ s a s', Inv s → Step s a s' → Inv s') : Inv s := by
  induction h with
  | nil => exact init
  | snoc _ hstep ih => exact step _ _ _ ih hstep

/-- The invariant rule for a property of the history together with the state. -/
theorem invariantLog {Inv : List α → σ → Prop} (h : Run Step s₀ log s) (init : Inv [] s₀)
    (step : ∀ log s a s', Inv log s → Step s a s' → Inv (log ++ [a]) s') : Inv log s := by
  induction h with
  | nil => exact init
  | snoc _ hstep ih => exact step _ _ _ _ ih hstep

/-- A larger step relation has every run of the smaller one. -/
theorem mono {Step' : σ → α → σ → Prop} (h : Run Step s₀ log s)
    (hsub : ∀ s a s', Step s a s' → Step' s a s') : Run Step' s₀ log s := by
  induction h with
  | nil => exact .nil
  | snoc _ hstep ih => exact .snoc ih (hsub _ _ _ hstep)

/-- Forget the condition of a guarded run. -/
theorem of_guarded (h : Run (Guarded Step C) s₀ log s) : Run Step s₀ log s :=
  h.mono fun _ _ _ hstep => hstep.2

/-- Notes can be taken along every run. -/
theorem noted (h : Run Step s₀ log s) (note : σ → α → β) :
    ∃ notes, notes.map Prod.fst = log ∧ Run (Noted Step note) s₀ notes s := by
  induction h with
  | nil => exact ⟨[], rfl, .nil⟩
  | @snoc log s s' a _ hstep ih =>
      obtain ⟨notes, hnotes, hrun⟩ := ih
      refine ⟨notes ++ [(a, note s a)], ?_, .snoc hrun ⟨hstep, rfl⟩⟩
      rw [List.map_append, hnotes]
      rfl

/-- The simulation rule: when every step is matched by one of another system, so is every run,
with the same labels. -/
theorem simulate {τ : Type*} {Step' : τ → α → τ → Prop} {R : σ → τ → Prop} {t₀ : τ}
    (h : Run Step s₀ log s) (init : R s₀ t₀)
    (step : ∀ s a s' t, R s t → Step s a s' → ∃ t', Step' t a t' ∧ R s' t') :
    ∃ t, Run Step' t₀ log t ∧ R s t := by
  induction h with
  | nil => exact ⟨t₀, .nil, init⟩
  | snoc _ hstep ih =>
      obtain ⟨t, hrun, hrel⟩ := ih
      obtain ⟨t', hstep', hrel'⟩ := step _ _ _ t hrel hstep
      exact ⟨t', .snoc hrun hstep', hrel'⟩

/-- The potential rule: when every step uses up some of what the start has, the run is no longer
than that. -/
theorem length_add_le {Inv : σ → Prop} {potential : σ → ℕ} (h : Run Step s₀ log s) (init : Inv s₀)
    (step : ∀ s a s', Inv s → Step s a s' → Inv s' ∧ potential s' + 1 ≤ potential s) :
    log.length + potential s ≤ potential s₀ := by
  have hboth : Inv s ∧ log.length + potential s ≤ potential s₀ := by
    induction h with
    | nil => exact ⟨init, by simp⟩
    | snoc _ hstep ih =>
        obtain ⟨hinv, hle⟩ := ih
        obtain ⟨hinv', hless⟩ := step _ _ _ hinv hstep
        refine ⟨hinv', ?_⟩
        rw [List.length_append, List.length_singleton]
        omega
  exact hboth.2

/-! ### Runs that are computed -/

/-- Calls that were made one after the other are a run. -/
theorem of_foldlM {next : σ → α → Option σ} (h : log.foldlM next s₀ = some s)
    (hnext : ∀ s a s', next s a = some s' → Step s a s') : Run Step s₀ log s := by
  induction log using List.reverseRecOn generalizing s with
  | nil =>
      obtain rfl := Option.some.inj h
      exact .nil
  | append_singleton log a ih =>
      rw [List.foldlM_append] at h
      obtain ⟨s', hlog, hlast⟩ := Option.bind_eq_some_iff.mp h
      rw [List.foldlM_cons] at hlast
      obtain ⟨s'', hstep, hnil⟩ := Option.bind_eq_some_iff.mp hlast
      obtain rfl := Option.some.inj hnil
      exact .snoc (ih hlog) (hnext _ _ _ hstep)

end Run

variable {ε ρ : Type*} [DecidableEq ρ]

/-- The state after a call, if it returns what is noted beside it. -/
def returned (call : σ → α → Except ε (ρ × σ)) (s : σ) (p : α × ρ) : Option σ :=
  match call s p.1 with
  | .ok (r, s') => if r = p.2 then some s' else none
  | .error _ => none

theorem returned_eq_some {call : σ → α → Except ε (ρ × σ)} {s s' : σ} {p : α × ρ} :
    returned call s p = some s' ↔ call s p.1 = .ok (p.2, s') := by
  rw [returned]
  cases call s p.1 with
  | error e => simp
  | ok q =>
      obtain ⟨r, s''⟩ := q
      by_cases hr : r = p.2
      · simp [hr]
      · simp [hr]

/-- Calls with their results, made one after the other, are a run of the calls that return. -/
theorem Run.of_returned {call : σ → α → Except ε (ρ × σ)} {s₀ s : σ} {log : List (α × ρ)}
    (h : log.foldlM (returned call) s₀ = some s) :
    Run (fun s p s' => call s p.1 = .ok (p.2, s')) s₀ log s :=
  .of_foldlM h fun _ _ _ => returned_eq_some.mp

end Transition
