import Mathlib.Algebra.BigOperators.Group.Finset.Basic
import Mathlib.Data.Set.Function
import Mathlib.Logic.Equiv.Basic

/-!
# Exchanging an item in hand with a store

A store has places `S`, each free or holding one item. An algorithm that walks through the
store with one item in hand puts that item into a place and takes out what the place held.
Seen on the places together with the hand (`withHand`), one such exchange only permutes two
places, whether the place was free or not. Whatever is true of the items up to a
permutation of the places, in particular a one-to-one correspondence with a register of the
items (`Matches`), is therefore kept by any number of exchanges.
-/

namespace Exchange

variable {S I α : Type*}

/-- The store `f` with one more place, `none`, for the item in hand. -/
def withHand (f : S → Option α) (hand : Option α) : Option S → Option α
  | none => hand
  | some s => f s

@[simp] theorem withHand_none (f : S → Option α) (hand : Option α) :
    withHand f hand none = hand := rfl

@[simp] theorem withHand_some (f : S → Option α) (hand : Option α) (s : S) :
    withHand f hand (some s) = f s := rfl

/-- Exchanging the hand with the place `s` swaps these two places and moves nothing else. -/
theorem withHand_update [DecidableEq S] (f : S → Option α) (hand : Option α) (s : S) :
    withHand (Function.update f s hand) (f s) =
      withHand f hand ∘ Equiv.swap none (some s) := by
  funext p
  cases p with
  | none => simp
  | some s' =>
      by_cases hs : s' = s
      · subst hs
        simp
      · have hne : (some s' : Option S) ≠ some s := fun h => hs (Option.some.inj h)
        simp [Equiv.swap_apply_of_ne_of_ne (Option.some_ne_none s') hne, hs]

/-- The occupied places of `f` are in one-to-one correspondence with the defined entries of
the register `g`, and each place holds the item its entry records. -/
def Matches (f : S → Option α) (g : I → Option α) : Prop :=
  ∃ e : S → I, Set.BijOn e {s | (f s).isSome} {i | (g i).isSome} ∧
    ∀ s, (f s).isSome → g (e s) = f s

/-- An empty store matches an empty register. -/
theorem matches_empty [Inhabited I] {f : S → Option α} {g : I → Option α}
    (hf : ∀ s, f s = none) (hg : ∀ i, g i = none) : Matches f g := by
  have hS : {s | (f s).isSome} = ∅ := by ext s; simp [hf]
  have hI : {i | (g i).isSome} = ∅ := by ext i; simp [hg]
  refine ⟨fun _ => default, ?_, fun s hs => ?_⟩
  · rw [hS, hI]
    exact Set.bijOn_empty _
  · simp [hf] at hs

/-- A store and a register that match have the same total, whatever is counted. -/
theorem Matches.sum_eq {M : Type*} [AddCommMonoid M] [Fintype S] {f : S → Option α}
    {g : I → Option α} (h : Matches f g) {entries : Finset I}
    (hentries : ∀ i, (g i).isSome → i ∈ entries) {weight : Option α → M}
    (hnone : weight none = 0) :
    ∑ s, weight (f s) = ∑ i ∈ entries, weight (g i) := by
  obtain ⟨e, he, hag⟩ := h
  have hfree : ∀ o : Option α, weight o ≠ 0 → o.isSome := by
    intro o ho
    cases o with
    | none => exact absurd hnone ho
    | some a => rfl
  calc ∑ s, weight (f s) = ∑ s with (f s).isSome, weight (f s) :=
        (Finset.sum_filter_of_ne fun s _ hs => hfree (f s) hs).symm
    _ = ∑ i ∈ entries, weight (g i) := by
        refine Finset.sum_of_injOn e ?_ ?_ ?_ ?_
        · simpa using he.injOn
        · intro s hs
          exact hentries _ (he.mapsTo (by simpa using hs))
        · intro i _ hi
          by_contra hne
          obtain ⟨s, hs, rfl⟩ := he.surjOn (hfree _ hne)
          exact hi ⟨s, by simpa using hs, rfl⟩
        · intro s hs
          rw [hag s (by simpa using hs)]

/-- A permutation of the places keeps the correspondence. -/
theorem Matches.comp_perm {f : S → Option α} {g : I → Option α} (h : Matches f g)
    (π : Equiv.Perm S) : Matches (f ∘ π) g := by
  obtain ⟨e, he, hag⟩ := h
  refine ⟨e ∘ π, he.comp (π.bijOn fun s => Iff.rfl), fun s hs => ?_⟩
  exact hag (π s) hs

/-- A new item, taken into the empty hand and entered in the register under a new index. -/
theorem Matches.take [DecidableEq I] {f : S → Option α} {g : I → Option α} {n : I}
    (h : Matches f g) (hn : g n = none) (a : α) :
    Matches (withHand f (some a)) (Function.update g n (some a)) := by
  obtain ⟨e, he, hag⟩ := h
  have hne : ∀ s, (f s).isSome → e s ≠ n := by
    intro s hs hsn
    have := he.mapsTo hs
    simp [hsn, hn] at this
  refine ⟨fun p => p.elim n e, ⟨?_, ?_, ?_⟩, ?_⟩
  · rintro (_ | s) hs
    · simp
    · have hse : (f s).isSome := hs
      have hmem : (g (e s)).isSome := he.mapsTo hse
      simpa [Function.update_of_ne (hne s hse)] using hmem
  · rintro (_ | s) hs (_ | s') hs' heq
    · rfl
    · exact absurd heq.symm (hne s' hs')
    · exact absurd heq (hne s hs)
    · exact congrArg some (he.injOn hs hs' heq)
  · intro i hi
    by_cases hin : i = n
    · exact ⟨none, by simp, hin.symm⟩
    · have hgi : (g i).isSome := by simpa [Function.update_of_ne hin] using hi
      obtain ⟨s, hs, rfl⟩ := he.surjOn hgi
      exact ⟨some s, hs, rfl⟩
  · rintro (_ | s) hs
    · simp
    · have hse : (f s).isSome := hs
      simpa [Function.update_of_ne (hne s hse)] using hag s hse

/-- With the hand empty again, the store alone matches the register. -/
theorem Matches.of_withHand_none {f : S → Option α} {g : I → Option α}
    (h : Matches (withHand f none) g) : Matches f g := by
  obtain ⟨e, he, hag⟩ := h
  refine ⟨fun s => e (some s), ⟨?_, ?_, ?_⟩, fun s hs => hag (some s) hs⟩
  · intro s hs
    have hp : (withHand f none (some s)).isSome := hs
    exact he.mapsTo hp
  · intro s hs s' hs' heq
    have hp : (withHand f none (some s)).isSome := hs
    have hp' : (withHand f none (some s')).isSome := hs'
    exact Option.some.inj (he.injOn hp hp' heq)
  · intro i hi
    obtain ⟨p, hp, rfl⟩ := he.surjOn hi
    cases p with
    | none => simp at hp
    | some s => exact ⟨s, hp, rfl⟩

end Exchange
