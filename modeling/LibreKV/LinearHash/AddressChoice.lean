import LibreKV.LinearHash.Put

/-!
# LibreKV.LinearHash.AddressChoice

The three branches of `librekv_linear_put` against the test by which a split moves entries.

Both are read as the address function of linear hashing: the branches choose the address at
the split pointer, and the split moves the entries whose address changes when the split pointer
advances. A key is therefore looked for where the last split has put it, up to the end of a
round and into the next level. Of the three branches only two are ever taken
(`choice_is_address`).
-/

namespace LibreKV.LinearHash

/-- Before the first split of a round the branches choose the residue, up to level 30. -/
theorem toNat_chosenBucket_zero {level : UInt16} (hlevel : level.toNat ≤ 30)
    (keyHash : UInt64) :
    (chosenBucket level 0 keyHash).toNat = keyHash.toNat % 2 ^ level.toNat := by
  have ht : (truncateHash keyHash level).toNat = keyHash.toNat % 2 ^ level.toNat :=
    toNat_truncateHash keyHash (by omega)
  have hbelow : truncateHash keyHash level < twoToLevel level := by
    rw [UInt64.lt_iff_toNat_lt, ht, toNat_twoToLevel hlevel]
    exact Nat.mod_lt _ (Nat.two_pow_pos _)
  have hbranch : addressBranch level 0 keyHash = .firstInsert :=
    if_pos ⟨UInt64.zero_le, hbelow⟩
  rw [chosenBucket, hbranch, AddressBranch.bucket, ht]

section Round

variable {level : UInt16} (hlevel : level.toNat ≤ 29)
include hlevel

/-- One advance of the split pointer, on addresses. -/
theorem toNat_chosenBucket_succ {s : UInt64} (hs : s.toNat < 2 ^ level.toNat)
    (keyHash : UInt64) : (chosenBucket level (s + 1) keyHash).toNat =
      if (chosenBucket level s keyHash).toNat = s.toNat ∧
          (truncateHash keyHash (level + 1)).toNat = s.toNat + 2 ^ level.toNat
      then s.toNat + 2 ^ level.toNat else (chosenBucket level s keyHash).toNat := by
  have hpow : 2 ^ level.toNat ≤ 2 ^ 29 := Nat.pow_le_pow_right (by omega) hlevel
  have hsucc : (s + 1).toNat = s.toNat + 1 := by
    rw [UInt64.toNat_add]
    exact Nat.mod_eq_of_lt (by simp only [UInt64.reduceToNat]; omega)
  have ht : (truncateHash keyHash (level + 1)).toNat = keyHash.toNat % 2 ^ (level.toNat + 1) :=
    toNat_truncateHash_succ keyHash (by omega)
  rw [toNat_chosenBucket hlevel (by rw [hsucc]; exact hs), toNat_chosenBucket hlevel hs.le, hsucc,
    ht]
  exact LinearAddress.address_succ hs keyHash.toNat

/-- **The branches and the move test agree.** When the split pointer advances over bucket `s`,
the hashes for which the branches now choose the mirror-image bucket are those of bucket `s`
that the split moves there; for all others they choose as before. At the end of the round they
choose as at the start of the next level. -/
theorem choice_follows_split {s : UInt64} (hs : s.toNat < 2 ^ level.toNat) (keyHash : UInt64) :
    (chosenBucket level (s + 1) keyHash = s + twoToLevel level ↔
      chosenBucket level s keyHash = s ∧
        truncateHash keyHash (level + 1) = s + twoToLevel level) ∧
    (¬ (chosenBucket level s keyHash = s ∧
        truncateHash keyHash (level + 1) = s + twoToLevel level) →
      chosenBucket level (s + 1) keyHash = chosenBucket level s keyHash) ∧
    chosenBucket level (twoToLevel level) keyHash = chosenBucket (level + 1) 0 keyHash := by
  have hstep := toNat_chosenBucket_succ hlevel hs keyHash
  have hmirror := toNat_mirror hlevel hs
  have hpow : (twoToLevel level).toNat = 2 ^ level.toNat := toNat_twoToLevel (by omega)
  simp only [← UInt64.toNat_inj, hmirror]
  refine ⟨⟨?_, ?_⟩, ?_, ?_⟩
  · intro hchoice
    by_contra hmoves
    -- Unmoved, the hash would have been in the mirror-image bucket before it existed.
    rw [if_neg hmoves, hchoice] at hstep
    have haddr := toNat_chosenBucket hlevel hs.le keyHash
    rw [← hstep, LinearAddress.address] at haddr
    have hlt : keyHash.toNat % 2 ^ level.toNat < 2 ^ level.toNat :=
      Nat.mod_lt _ (Nat.two_pow_pos _)
    rcases LinearAddress.mod_succ_cases level.toNat keyHash.toNat with h | h <;>
      split at haddr <;> omega
  · intro hmoves
    rw [hstep, if_pos hmoves]
  · intro hmoves
    rw [hstep, if_neg hmoves]
  · have hsucc : (level + 1).toNat = level.toNat + 1 := toNat_level_succ (by omega)
    rw [toNat_chosenBucket hlevel (by rw [hpow]), hpow, LinearAddress.address_round,
      LinearAddress.address_zero, toNat_chosenBucket_zero (by omega), hsucc]

end Round

/-- At level 1, when bucket 0 is split: the hash 2 moves to bucket 2. -/
theorem choice_follows_split_two :
    (chosenBucket 1 (0 + 1) 2 = 0 + twoToLevel 1 ↔
      chosenBucket 1 0 2 = 0 ∧ truncateHash 2 (1 + 1) = 0 + twoToLevel 1) ∧
    (¬ (chosenBucket 1 0 2 = 0 ∧ truncateHash 2 (1 + 1) = 0 + twoToLevel 1) →
      chosenBucket 1 (0 + 1) 2 = chosenBucket 1 0 2) ∧
    chosenBucket 1 (twoToLevel 1) 2 = chosenBucket (1 + 1) 0 2 :=
  choice_follows_split (by decide) (by decide) 2

section Reference

variable {level : UInt16} (hlevel : level.toNat ≤ 29) {s : UInt64}
  (hs : s.toNat ≤ 2 ^ level.toNat)
include hlevel hs

/-- **The branches compute the address of linear hashing.** For every split pointer of the round,
both ends included, the chosen bucket is the reference address and one of the buckets the table
has by then; the branch for a missing mirror-image bucket is never taken, and only a split pointer
of at least 1 is decremented. -/
theorem choice_is_address (keyHash : UInt64) :
    (chosenBucket level s keyHash).toNat =
        (if s.toNat ≤ keyHash.toNat % 2 ^ level.toNat then keyHash.toNat % 2 ^ level.toNat
          else keyHash.toNat % 2 ^ (level.toNat + 1)) ∧
      (chosenBucket level s keyHash).toNat < 2 ^ level.toNat + s.toNat ∧
      addressBranch level s keyHash ≠ .secondInsert ∧
      (addressBranch level s keyHash ≠ .firstInsert → 1 ≤ s.toNat) := by
  have haddr := toNat_chosenBucket hlevel hs keyHash
  refine ⟨haddr, ?_, ?_, ?_⟩
  · rw [haddr]
    exact LinearAddress.address_lt _ _ _
  · rw [addressBranch_eq hlevel hs]
    split
    · exact AddressBranch.noConfusion
    · exact AddressBranch.noConfusion
  · intro hbranch
    rw [addressBranch_eq hlevel hs] at hbranch
    by_contra hzero
    exact hbranch (if_pos (by omega))

end Reference

/-- The hash 2 at level 1 when bucket 0 has been split: its address is bucket 2. -/
theorem choice_is_address_two :
    (chosenBucket 1 1 2).toNat = (if 1 ≤ 2 % 2 ^ 1 then 2 % 2 ^ 1 else 2 % 2 ^ 2) ∧
      (chosenBucket 1 1 2).toNat < 2 ^ 1 + 1 ∧
      addressBranch 1 1 2 ≠ .secondInsert ∧
      (addressBranch 1 1 2 ≠ .firstInsert → 1 ≤ 1) :=
  choice_is_address (by decide) (by decide) 2

end LibreKV.LinearHash
