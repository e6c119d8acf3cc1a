import Mathlib.Data.Nat.Notation
import Mathlib.Logic.Basic
import Mathlib.Logic.Function.Iterate

/-!
# Sequencing and iterating fallible computations

The two ways a sequence `x >>= f` in `Except` can end, as rewriting rules and as an
inversion. A step function written in `do` notation is taken apart with these rules, one
line at a time, and is never unfolded to nested matches. A loop is a `foldlM` over the values
of its counter; the two rules for it are the total and the partial correctness rule of a
loop with an invariant. What a loop touches on its way, also when a later round fails, is
told by the rounds it enters (`visited`).
-/

namespace Fallible

universe u v

variable {ε : Type u} {α β : Type v}

@[simp] theorem ok_bind (a : α) (f : α → Except ε β) : (Except.ok a >>= f) = f a := rfl

@[simp] theorem error_bind (e : ε) (f : α → Except ε β) :
    (Except.error e >>= f) = .error e := rfl

/-- A sequence that succeeds did both of its parts. -/
theorem bind_eq_ok {x : Except ε α} {f : α → Except ε β} {b : β} :
    (x >>= f) = .ok b ↔ ∃ a, x = .ok a ∧ f a = .ok b := by
  cases x with
  | error e => simp
  | ok a => simp

/-- A last step that is one-to-one tells the results apart, and leaves the errors as they are. -/
theorem bind_ok_inj {x y : Except ε α} {g : α → β} (hg : Function.Injective g) :
    ((x >>= fun a => Except.ok (g a)) = (y >>= fun a => Except.ok (g a))) ↔ x = y := by
  cases x with
  | error e => cases y <;> simp
  | ok a => cases y <;> simp [hg.eq_iff]

/-! ### Returning -/

/-- The computation ends without an error. -/
def Returns (x : Except ε α) : Prop := ∃ a, x = .ok a

@[simp] theorem returns_ok (a : α) : Returns (Except.ok a : Except ε α) := ⟨a, rfl⟩

@[simp] theorem not_returns_error (e : ε) : ¬ Returns (.error e : Except ε α) := by
  rintro ⟨a, ha⟩
  cases ha

theorem returns_bind_iff {x : Except ε α} {f : α → Except ε β} :
    Returns (x >>= f) ↔ ∃ a, x = .ok a ∧ Returns (f a) := by
  cases x with
  | error e => simp
  | ok a => simp

theorem exists_ok_and {x : Except ε α} {P : Prop} :
    (∃ a, x = .ok a ∧ P) ↔ Returns x ∧ P := exists_and_right

theorem exists_eq_ok {x : Except ε α} : (∃ a, x = .ok a) ↔ Returns x := Iff.rfl

/-- When the second part returns or fails whatever the first part gave it, the two parts can be
looked at one by one. -/
theorem returns_bind {x : Except ε α} {f : α → Except ε β} {P : Prop}
    (hf : ∀ a, x = .ok a → (Returns (f a) ↔ P)) : Returns (x >>= f) ↔ Returns x ∧ P := by
  cases x with
  | error e => simp
  | ok a => simpa using hf a rfl

/-! ### Loops -/

variable {σ : Type v} {f : σ → α → Except ε σ}

theorem foldlM_range_succ {f : σ → ℕ → Except ε σ} (n : ℕ) (s : σ) :
    (List.range (n + 1)).foldlM f s = ((List.range n).foldlM f s >>= fun s => f s n) := by
  rw [List.range_succ, List.foldlM_append]
  congr
  funext s'
  cases h : f s' n with
  | error e => simp [List.foldlM, h]
  | ok s'' => simp [List.foldlM, h, pure, Except.pure]

/-- Total correctness: each round succeeds and keeps the invariant. -/
theorem foldlM_range_ok {f : σ → ℕ → Except ε σ} {Inv : ℕ → σ → Prop} {n : ℕ} {s : σ}
    (init : Inv 0 s)
    (step : ∀ k < n, ∀ s, Inv k s → ∃ s', f s k = .ok s' ∧ Inv (k + 1) s') :
    ∃ s', (List.range n).foldlM f s = .ok s' ∧ Inv n s' := by
  induction n with
  | zero => exact ⟨s, rfl, init⟩
  | succ n ih =>
      obtain ⟨s₁, h₁, hinv₁⟩ := ih fun k hk => step k (Nat.lt_succ_of_lt hk)
      obtain ⟨s₂, h₂, hinv₂⟩ := step n (Nat.lt_succ_self n) s₁ hinv₁
      refine ⟨s₂, ?_, hinv₂⟩
      rw [foldlM_range_succ, h₁, ok_bind, h₂]

/-- A loop whose rounds move a cursor through the state, whatever else they compute: where the
cursor is after `n` rounds. -/
theorem foldlM_range_cursor {γ : Type*} {f : σ → ℕ → Except ε σ} (cursor : σ → γ) (next : γ → γ)
    (advance : ∀ s k s', f s k = .ok s' → cursor s' = next (cursor s)) {n : ℕ} {s s' : σ}
    (h : (List.range n).foldlM f s = .ok s') : cursor s' = next^[n] (cursor s) := by
  induction n generalizing s' with
  | zero =>
      obtain rfl := Except.ok.inj h
      rfl
  | succ n ih =>
      rw [foldlM_range_succ, bind_eq_ok] at h
      obtain ⟨s₁, h₁, hlast⟩ := h
      rw [advance s₁ n s' hlast, ih h₁, Function.iterate_succ_apply']

/-- Such a loop returns when every round returns where it finds the cursor. -/
theorem returns_foldlM_range {γ : Type*} {f : σ → ℕ → Except ε σ} (cursor : σ → γ)
    (next : γ → γ) (Q : ℕ → γ → Prop)
    (advance : ∀ s k s', f s k = .ok s' → cursor s' = next (cursor s))
    (round : ∀ s k, Returns (f s k) ↔ Q k (cursor s)) (n : ℕ) (s : σ) :
    Returns ((List.range n).foldlM f s) ↔ ∀ k < n, Q k (next^[k] (cursor s)) := by
  induction n with
  | zero => exact ⟨fun _ k hk => absurd hk (Nat.not_lt_zero k), fun _ => returns_ok s⟩
  | succ n ih =>
      have hlast : ∀ s₁, (List.range n).foldlM f s = .ok s₁ →
          (Returns (f s₁ n) ↔ Q n (next^[n] (cursor s))) := by
        intro s₁ h₁
        rw [round, foldlM_range_cursor cursor next advance h₁]
      rw [foldlM_range_succ, returns_bind hlast, ih, Nat.forall_lt_succ_right]

/-- A loop whose rounds leave the state as it is or fail with `e`. -/
theorem foldlM_fixed {l : List α} {s : σ} {e : ε}
    (h : ∀ a ∈ l, f s a = .ok s ∨ f s a = .error e) :
    (l.foldlM f s = .ok s ∧ ∀ a ∈ l, f s a = .ok s) ∨
      (l.foldlM f s = .error e ∧ ∃ a ∈ l, f s a = .error e) := by
  induction l with
  | nil => exact Or.inl ⟨rfl, fun a ha => absurd ha List.not_mem_nil⟩
  | cons a l ih =>
      rw [List.foldlM_cons]
      rcases h a List.mem_cons_self with ha | ha
      · rw [ha, ok_bind]
        rcases ih fun b hb => h b (List.mem_cons_of_mem a hb) with ⟨hl, hall⟩ | ⟨hl, b, hb, hbe⟩
        · exact Or.inl ⟨hl, List.forall_mem_cons.mpr ⟨ha, hall⟩⟩
        · exact Or.inr ⟨hl, b, List.mem_cons_of_mem a hb, hbe⟩
      · rw [ha, error_bind]
        exact Or.inr ⟨rfl, a, List.mem_cons_self, ha⟩

/-- Partial correctness: a round that succeeds keeps the invariant. -/
theorem foldlM_invariant {Inv : σ → Prop} {l : List α} {s s' : σ} (init : Inv s)
    (step : ∀ s a s', Inv s → f s a = .ok s' → Inv s')
    (h : l.foldlM f s = .ok s') : Inv s' := by
  induction l generalizing s with
  | nil =>
      cases h
      exact init
  | cons a l ih =>
      rw [List.foldlM_cons, bind_eq_ok] at h
      obtain ⟨s₁, h₁, hrest⟩ := h
      exact ih (step s a s₁ init h₁) hrest

/-! ### The rounds of a loop -/

/-- The rounds a loop enters, each with the state it finds and the value of the counter. -/
def visited (f : σ → α → Except ε σ) : σ → List α → List (σ × α)
  | _, [] => []
  | s, a :: l => (s, a) :: match f s a with
    | .ok s' => visited f s' l
    | .error _ => []

/-- A loop that succeeds enters all its rounds. -/
theorem map_snd_visited_of_ok {l : List α} {s s' : σ} (h : l.foldlM f s = .ok s') :
    (visited f s l).map Prod.snd = l := by
  induction l generalizing s with
  | nil => rfl
  | cons a l ih =>
      rw [List.foldlM_cons, bind_eq_ok] at h
      obtain ⟨s₁, h₁, hrest⟩ := h
      simp only [visited, h₁, List.map_cons, ih hrest]

/-- The rounds after a first part that succeeds. -/
theorem visited_append_of_ok {l : List α} {s s' : σ} (h : l.foldlM f s = .ok s')
    (l' : List α) : visited f s (l ++ l') = visited f s l ++ visited f s' l' := by
  induction l generalizing s with
  | nil =>
      obtain rfl := Except.ok.inj h
      rfl
  | cons a l ih =>
      rw [List.foldlM_cons, bind_eq_ok] at h
      obtain ⟨s₁, h₁, hrest⟩ := h
      simp only [List.cons_append, visited, h₁, ih hrest]

/-- A loop whose first round fails enters no other. -/
theorem visited_of_error {a : α} {l : List α} {s : σ} {e : ε} (h : f s a = .error e) :
    visited f s (a :: l) = [(s, a)] := by
  rw [visited, h]

/-- The counter of a round entered is a value of the loop's counter. -/
theorem snd_mem_of_mem_visited {l : List α} {s : σ} {r : σ × α} (h : r ∈ visited f s l) :
    r.2 ∈ l := by
  induction l generalizing s with
  | nil => cases h
  | cons a l ih =>
      rw [visited] at h
      rcases List.mem_cons.mp h with rfl | h
      · exact List.mem_cons_self
      · cases hf : f s a with
        | error e =>
            rw [hf] at h
            cases h
        | ok s' =>
            rw [hf] at h
            exact List.mem_cons_of_mem a (ih h)

end Fallible
