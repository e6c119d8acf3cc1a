import LibreKV.Lib.LinearAddress
import LibreKV.LinearHash.Move

/-!
# LibreKV.LinearHash.Put

`librekv_linear_put`.

The three branches choose a bucket by the level and the split pointer. When the insertion asks
for a split, the whole chain of the bucket due to be split is walked and its entries are moved
to the mirror-image bucket; no branch makes the bucket array longer.
-/

namespace LibreKV.LinearHash

variable {cap : UInt64}

/-- The branches of `librekv_linear_put`, as it numbers them in what it prints. -/
inductive AddressBranch
  /-- The residue of the level is not below the split pointer. -/
  | firstInsert
  /-- The mirror-image bucket is taken not to exist. -/
  | secondInsert
  /-- The residue of the next level. -/
  | thirdInsert
  deriving Repr, DecidableEq

/-- The branch a hash takes. The comparisons are of `uint64_t`, and the subtraction wraps at zero;
it is part of the second test, which only a hash that fails the first one comes to. -/
def addressBranch (level : UInt16) (next keyHash : UInt64) : AddressBranch :=
  let truncatedKeyHash := truncateHash keyHash level
  if truncatedKeyHash ≥ next ∧ truncatedKeyHash < twoToLevel level then .firstInsert
  else if truncateHash keyHash (level + 1) > (next - 1) + twoToLevel level then .secondInsert
  else .thirdInsert

/-- The bucket index that a branch inserts into. -/
def AddressBranch.bucket (level : UInt16) (keyHash : UInt64) : AddressBranch → UInt64
  | .firstInsert => truncateHash keyHash level
  | .secondInsert => truncateHash keyHash level
  | .thirdInsert => truncateHash keyHash (level + 1)

/-- The bucket that the three branches of `librekv_linear_put` insert into. -/
def chosenBucket (level : UInt16) (next keyHash : UInt64) : UInt64 :=
  (addressBranch level next keyHash).bucket level keyHash

/-- One round of the two loops over the chain of the bucket being split: the slot number
`p.2` of the page number `p.1`. -/
def splitSlot (mirror : UInt64) (T : LinearTable cap) (p : ℕ × ℕ) :
    Except Fault (LinearTable cap) := do
  let e ← T.readSlot T.nextBucketIndexToSplit p.1 p.2
  moveSlot T p.1 p.2 e mirror

/-- The slots of a chain in the order of the loops: an insertion never makes the chain of the
bucket due to be split longer. -/
def LinearBucket.positions (b : LinearBucket cap) : List (ℕ × ℕ) :=
  (List.range b.pages.length).flatMap fun k => (List.range cap.toNat).map fun i => (k, i)

/-- `m_nextBucketIndexToSplit++`, back to 0 at the end of the round. The level stays: the call
that would raise it is commented out. -/
def LinearTable.nextRound (T : LinearTable cap) : LinearTable cap :=
  let next := T.nextBucketIndexToSplit + 1
  { T with
    nextBucketIndexToSplit := if next ≥ twoToLevel T.currentLevel then 0 else next }

/-- The part of `librekv_linear_put` after an insertion that asked for a split. -/
def putSplit (T : LinearTable cap) : Except Fault (LinearTable cap) := do
  let newMirrorImageBucketIndex := T.nextBucketIndexToSplit + twoToLevel T.currentLevel
  let currBucket ← T.bucketAt T.nextBucketIndexToSplit.toNat
  let T ← currBucket.positions.foldlM (splitSlot newMirrorImageBucketIndex) T
  .ok T.nextRound

/-- `librekv_linear_put`. -/
def librekvLinearPut (T : LinearTable cap) (keyHash offset : UInt64) :
    Except Fault (LinearTable cap) := do
  let r ← librekvLinearInsertToBucket T keyHash offset
    (chosenBucket T.currentLevel T.nextBucketIndexToSplit keyHash)
  if r.1 then putSplit r.2 else .ok r.2

/-! ### The chosen bucket -/

section Choice

variable {level : UInt16} (hlevel : level.toNat ≤ 29) {next : UInt64}
  (hnext : next.toNat ≤ 2 ^ level.toNat)
include hlevel hnext

/-- Up to level 29 the residue of the level decides, and the second branch is not taken. -/
theorem addressBranch_eq (keyHash : UInt64) : addressBranch level next keyHash =
    if next.toNat ≤ keyHash.toNat % 2 ^ level.toNat then .firstInsert else .thirdInsert := by
  have hpow : 2 ^ level.toNat ≤ 2 ^ 29 := Nat.pow_le_pow_right (by omega) hlevel
  have ht : (truncateHash keyHash level).toNat = keyHash.toNat % 2 ^ level.toNat :=
    toNat_truncateHash keyHash (by omega)
  have hk : (truncateHash keyHash (level + 1)).toNat = keyHash.toNat % 2 ^ (level.toNat + 1) :=
    toNat_truncateHash_succ keyHash (by omega)
  have hp : (twoToLevel level).toNat = 2 ^ level.toNat := toNat_twoToLevel (by omega)
  have htlt : keyHash.toNat % 2 ^ level.toNat < 2 ^ level.toNat :=
    Nat.mod_lt _ (Nat.two_pow_pos _)
  simp only [addressBranch, ge_iff_le, gt_iff_lt, UInt64.le_iff_toNat_le, UInt64.lt_iff_toNat_lt,
    ht, hk, hp]
  by_cases hge : next.toNat ≤ keyHash.toNat % 2 ^ level.toNat
  · rw [if_pos ⟨hge, htlt⟩, if_pos hge]
  · -- The residue is below the split pointer, which is therefore at least 1.
    rw [if_neg fun h => hge h.1, if_neg hge]
    have hlast : (next - 1 + twoToLevel level).toNat = next.toNat - 1 + 2 ^ level.toNat := by
      have hone : (1 : UInt64) ≤ next := by
        rw [UInt64.le_iff_toNat_le]
        show 1 ≤ next.toNat
        omega
      rw [UInt64.toNat_add, UInt64.toNat_sub_of_le _ _ hone, hp]
      show (next.toNat - 1 + 2 ^ level.toNat) % 2 ^ 64 = _
      exact Nat.mod_eq_of_lt (by omega)
    rw [if_neg]
    rw [hlast]
    rcases LinearAddress.mod_succ_cases level.toNat keyHash.toNat with h | h <;> omega

/-- Up to level 29 the branches choose the address of linear hashing. -/
theorem toNat_chosenBucket (keyHash : UInt64) :
    (chosenBucket level next keyHash).toNat =
      LinearAddress.address level.toNat next.toNat keyHash.toNat := by
  rw [chosenBucket, addressBranch_eq hlevel hnext, LinearAddress.address]
  split
  · exact toNat_truncateHash keyHash (by omega)
  · exact toNat_truncateHash_succ keyHash (by omega)

end Choice

/-- The index of the mirror-image bucket does not wrap. -/
theorem toNat_mirror {level : UInt16} (hlevel : level.toNat ≤ 29) {s : UInt64}
    (hs : s.toNat < 2 ^ level.toNat) :
    (s + twoToLevel level).toNat = s.toNat + 2 ^ level.toNat := by
  have hpow : 2 ^ level.toNat ≤ 2 ^ 29 := Nat.pow_le_pow_right (by omega) hlevel
  rw [UInt64.toNat_add, toNat_twoToLevel (by omega)]
  exact Nat.mod_eq_of_lt (by omega)

end LibreKV.LinearHash
