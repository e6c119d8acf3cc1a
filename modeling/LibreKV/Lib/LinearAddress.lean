import Mathlib.Algebra.Order.Ring.Nat
import Mathlib.Tactic.Ring

/-!
# The address function of linear hashing

A table at level `L` with split pointer `s` has the buckets `0` to `2 ^ L + s - 1`: those
below `s` have been split already, and share their hashes with the bucket `2 ^ L` above them.
A hash is addressed by its residue modulo `2 ^ L`, or modulo `2 ^ (L + 1)` when that bucket
has been split.
-/

namespace LinearAddress

variable {L s h : ℕ}

/-- The bucket of the hash `h` at level `L` with split pointer `s`. -/
def address (L s h : ℕ) : ℕ := if s ≤ h % 2 ^ L then h % 2 ^ L else h % 2 ^ (L + 1)

/-- Before the first split of a round the address is the residue of the level. -/
@[simp] theorem address_zero (L h : ℕ) : address L 0 h = h % 2 ^ L := if_pos (Nat.zero_le _)

/-- The next level adds one bit to the residue. -/
theorem mod_succ_cases (L h : ℕ) :
    h % 2 ^ (L + 1) = h % 2 ^ L ∨ h % 2 ^ (L + 1) = h % 2 ^ L + 2 ^ L := by
  rw [Nat.mod_pow_succ]
  rcases Nat.mod_two_eq_zero_or_one (h / 2 ^ L) with hbit | hbit
  · left
    rw [hbit, Nat.mul_zero, Nat.add_zero]
  · right
    rw [hbit, Nat.mul_one]

/-- A residue of the next level in the lower half is the residue of this level. -/
theorem mod_succ_of_lt (hlt : h % 2 ^ (L + 1) < 2 ^ L) : h % 2 ^ (L + 1) = h % 2 ^ L := by
  rcases mod_succ_cases L h with heq | heq
  · exact heq
  · omega

/-- Every address is one of the `2 ^ L + s` buckets of the table. -/
theorem address_lt (L s h : ℕ) : address L s h < 2 ^ L + s := by
  have hlt : h % 2 ^ L < 2 ^ L := Nat.mod_lt _ (Nat.two_pow_pos L)
  rw [address]
  split
  · exact Nat.lt_add_right s hlt
  · next hbelow => rcases mod_succ_cases L h with heq | heq <;> omega

/-! ### Advancing the split pointer -/

/-- An advance of the split pointer changes the address of exactly those hashes of the bucket
that was split which have the next bit set. -/
theorem address_succ (hs : s < 2 ^ L) (h : ℕ) : address L (s + 1) h =
    if address L s h = s ∧ h % 2 ^ (L + 1) = s + 2 ^ L then s + 2 ^ L else address L s h := by
  have hcases := mod_succ_cases L h
  have hlt : h % 2 ^ L < 2 ^ L := Nat.mod_lt _ (Nat.two_pow_pos L)
  rcases lt_trichotomy (h % 2 ^ L) s with hbelow | hat | habove
  · -- The bucket was split before: the hash has its address at the next level already.
    have haddr : address L s h = h % 2 ^ (L + 1) := if_neg (by omega)
    have haddr' : address L (s + 1) h = h % 2 ^ (L + 1) := if_neg (by omega)
    rw [haddr, haddr', if_neg (by omega)]
  · have haddr : address L s h = h % 2 ^ L := if_pos hat.ge
    have haddr' : address L (s + 1) h = h % 2 ^ (L + 1) := if_neg (by omega)
    rw [haddr, haddr']
    split <;> omega
  · have haddr : address L s h = h % 2 ^ L := if_pos habove.le
    have haddr' : address L (s + 1) h = h % 2 ^ L := if_pos habove
    rw [haddr, haddr', if_neg (by omega)]

/-- When every bucket of the round has been split, the next level begins. -/
theorem address_round (L h : ℕ) : address L (2 ^ L) h = address (L + 1) 0 h := by
  have hlt : h % 2 ^ L < 2 ^ L := Nat.mod_lt _ (Nat.two_pow_pos L)
  rw [address_zero, address, if_neg (not_le.mpr hlt)]

end LinearAddress
