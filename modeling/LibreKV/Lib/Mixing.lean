import Mathlib.Data.Nat.ModEq
import Mathlib.Data.Nat.Prime.Basic
import Mathlib.Logic.Function.Basic

/-!
# Steps of a hash function that lose nothing

A multiplicative hash mixes a word by multiplying it with an odd constant, by xor with
another word and by xor with itself shifted to the right. Each of these is one-to-one on
words of any width, so a composition of them is. What such a hash makes of two different words
is different, whatever the constants are.

A hash that absorbs its input symbol by symbol is a fold. When each step is one-to-one in the
state and in the symbol (`Reversible`), two inputs that differ in one symbol never collide. When
the steps commute and each cancels itself, all that counts is which symbols occur an odd number
of times.
-/

namespace Mixing

/-! ### Mixing a word -/

section Words

variable {w : ℕ}

/-- The upper bits of `x ^^^ x >>> k` are those of `x`, and they give the bits below. -/
theorem xorShift_injective {k : ℕ} (hk : 0 < k) :
    Function.Injective fun x : BitVec w => x ^^^ (x >>> k) := by
  intro x y h
  have hbit : ∀ i, (x.getLsbD i ^^ x.getLsbD (k + i)) = (y.getLsbD i ^^ y.getLsbD (k + i)) := by
    intro i
    have := congrArg (BitVec.getLsbD · i) h
    simpa only [BitVec.getLsbD_xor, BitVec.getLsbD_ushiftRight] using this
  -- By induction from the top: `n` counts the bits that are known already.
  have htop : ∀ n i, w ≤ i + n → x.getLsbD i = y.getLsbD i := by
    intro n
    induction n with
    | zero =>
        intro i hi
        rw [BitVec.getLsbD_of_ge x i hi, BitVec.getLsbD_of_ge y i hi]
    | succ n ih =>
        intro i hi
        have habove := ih (k + i) (by omega)
        have hxor := hbit i
        rw [habove] at hxor
        exact Bool.xor_left_inj.mp hxor
  exact BitVec.eq_of_getLsbD_eq fun i _ => htop w i (Nat.le_add_left w i)

/-- An odd factor can be cancelled. -/
theorem mul_odd_injective {m : BitVec w} (hm : m.toNat % 2 = 1) :
    Function.Injective fun x : BitVec w => x * m := by
  intro x y h
  have hmod : x.toNat * m.toNat ≡ y.toNat * m.toNat [MOD 2 ^ w] := by
    have := congrArg BitVec.toNat h
    simpa only [Nat.ModEq, BitVec.toNat_mul] using this
  have hcoprime : Nat.gcd (2 ^ w) m.toNat = 1 :=
    Nat.Coprime.pow_left w (Odd.coprime_two_left (Nat.odd_iff.mpr hm))
  have hcancel := Nat.ModEq.cancel_right_of_coprime hcoprime hmod
  exact BitVec.eq_of_toNat_eq (hcancel.eq_of_lt_of_lt x.isLt y.isLt)

theorem xor_injective (v : BitVec w) : Function.Injective fun x : BitVec w => x ^^^ v :=
  fun _ _ h => (BitVec.xor_left_inj v).mp h

end Words

/-! ### Absorbing one symbol after another -/

variable {σ α : Type*}

/-- A step that can be taken back: from its result, the symbol gives the state, and the state
gives the symbol. -/
structure Reversible (step : σ → α → σ) : Prop where
  state : ∀ a, Function.Injective fun s => step s a
  symbol : ∀ s, Function.Injective (step s)

namespace Reversible

variable {step : σ → α → σ}

/-- The same symbols, absorbed from two states, keep the states apart. -/
theorem foldl_injective (h : Reversible step) (l : List α) :
    Function.Injective fun s => l.foldl step s := by
  induction l with
  | nil => exact fun _ _ heq => heq
  | cons a l ih => exact fun s s' heq => h.state a (ih heq)

/-- Two inputs that differ in one symbol are told apart. -/
theorem foldl_ne (h : Reversible step) (before after : List α) {a b : α} (hne : a ≠ b) (s : σ) :
    (before ++ a :: after).foldl step s ≠ (before ++ b :: after).foldl step s := by
  intro heq
  simp only [List.foldl_append, List.foldl_cons] at heq
  exact hne (h.symbol _ (h.foldl_injective after heq))

end Reversible

/-! ### Steps that commute and cancel -/

section Parity

variable {step : σ → α → σ}

/-- Symbols that occur an even number of times leave the state as it is. -/
theorem foldl_of_even [DecidableEq α] (comm : ∀ s a b, step (step s a) b = step (step s b) a)
    (cancel : ∀ s a, step (step s a) a = s) {l : List α} (heven : ∀ a, l.count a % 2 = 0) (s : σ) :
    l.foldl step s = s := by
  -- By induction on the length: the first symbol has a second occurrence, and the two go.
  induction hn : l.length using Nat.strong_induction_on generalizing l with
  | _ n ih =>
      cases l with
      | nil => rfl
      | cons a l =>
          have hodd := heven a
          rw [List.count_cons_self] at hodd
          have hmem : a ∈ l := List.count_pos_iff.mp (by omega)
          have hrest : ∀ b, (l.erase a).count b % 2 = 0 := by
            intro b
            have hb := heven b
            rw [List.count_cons] at hb
            rw [List.count_erase]
            by_cases hba : a = b
            · subst hba
              simp only [beq_self_eq_true, if_true] at hb ⊢
              omega
            · simpa [hba] using hb
          have hlen : (l.erase a).length < n := by
            rw [List.length_erase_of_mem hmem, ← hn, List.length_cons]
            omega
          have hperm := (List.perm_cons_erase hmem).foldl_eq' (fun x _ y _ z => comm z x y)
            (step s a)
          rw [List.foldl_cons, hperm, List.foldl_cons, cancel, ih _ hlen hrest rfl]

/-- Only the parity of the occurrences counts, and no order. -/
theorem foldl_eq_of_parity [DecidableEq α] (comm : ∀ s a b, step (step s a) b = step (step s b) a)
    (cancel : ∀ s a, step (step s a) a = s) {l l' : List α}
    (hparity : ∀ a, l.count a % 2 = l'.count a % 2) (s : σ) : l.foldl step s = l'.foldl step s := by
  have hboth : (l ++ l').foldl step s = s :=
    foldl_of_even comm cancel (fun a => by rw [List.count_append]; have := hparity a; omega) s
  have htwice : (l' ++ l').foldl step (l.foldl step s) = l.foldl step s :=
    foldl_of_even comm cancel (fun a => by rw [List.count_append]; omega) _
  rw [List.foldl_append] at hboth htwice
  rw [← htwice, hboth]

end Parity

end Mixing
