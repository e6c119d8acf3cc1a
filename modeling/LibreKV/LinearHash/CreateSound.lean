import LibreKV.LinearHash.Table

/-!
# LibreKV.LinearHash.CreateSound

For which parameters `librekv_linear_create` makes a table that fits its own address rule.

The initial level is narrowed to `uint16_t`, the number of buckets is an `int` that is shifted
once for each level, and the mask of `truncateHash` is an `int` too. Up to level 30 the three
agree. Level 31 does not return; from 32 on the bucket count has been shifted out, and from
65536 on the level itself is another one.
-/

namespace LibreKV.LinearHash

variable {cap : UInt64}

/-- `sizeof(struct linearBucket)`, packed: two pointers. -/
def sizeofLinearBucket : ℕ := 16

/-- `sizeof(struct linearHashEntry)`, packed: two words and a `bool`, which is an `int`. -/
def sizeofLinearHashEntry : ℕ := 20

/-- A table as create is to return it for a level. -/
structure Consistent (i_initialLevel : UInt32) (T : LinearTable cap) : Prop where
  level : T.currentLevel.toNat = i_initialLevel.toNat
  num : T.currBucketNum.toNat = 2 ^ i_initialLevel.toNat
  /-- The array has that many buckets, and each is one page of free slots. -/
  size : T.size = T.currBucketNum.toNat
  buckets : ∀ i < T.size, ∃ b, T.bucket? i = some b ∧ b.slots.length = cap.toNat ∧
    ∀ e ∈ b.slots, e.isValid = true
  /-- The byte counts passed to `malloc` do not wrap. -/
  arrayBytes : T.currentMaxBucketsBeforeSplit.toNat * sizeofLinearBucket < 2 ^ 64
  pageBytes : cap.toNat * sizeofLinearHashEntry < 2 ^ 64
  /-- Every key has the residue for its address, and that address is a bucket. -/
  address : ∀ key : UInt64,
    (truncateHash key T.currentLevel).toNat = key.toNat % 2 ^ T.currentLevel.toNat ∧
      (truncateHash key T.currentLevel).toNat < T.currBucketNum.toNat

/-! ### The bucket count of a level -/

/-- A level is a non-negative `int`. -/
theorem toInt_level (level : UInt16) : level.toUInt32.toInt32.toInt = level.toNat := by
  have hlt := level.toNat_lt
  have hval : level.toUInt32.toBitVec.toNat = level.toNat := UInt16.toNat_toUInt32 level
  show level.toUInt32.toBitVec.toInt = _
  rw [BitVec.toInt_eq_toNat_of_lt (by omega), hval]

/-- From level 32 on the one has been shifted out. -/
theorem twoToLevel_of_le {level : UInt16} (h : 32 ≤ level.toNat) : twoToLevel level = 0 := by
  obtain ⟨k, hk⟩ := Nat.exists_eq_add_of_le' h
  have hshift : (fun result : Int32 => result <<< 1)^[level.toNat] 1 = 0 := by
    have h32 : (fun result : Int32 => result <<< 1)^[32] 1 = 0 := by decide
    have hzero : (fun result : Int32 => result <<< 1) 0 = 0 := by decide
    rw [hk, Function.iterate_add_apply, h32]
    exact Function.iterate_fixed hzero k
  rw [twoToLevel, twoToPowerOf, toInt_level, Int.toNat_natCast, hshift]
  rfl

/-! ### What create leaves -/

/-- The slots of a fresh bucket. -/
theorem slots_empty : (⟨.empty cap, []⟩ : LinearBucket cap).slots =
    List.replicate cap.toNat freeEntry := by
  rw [LinearBucket.slots, LinearBucket.pages, List.flatMap_cons, List.flatMap_nil,
    List.append_nil]
  rfl

section Results

variable {c : UInt64} {prior : LinearTable c} {i_initialLevel : UInt32}
  {i_entriesPerBucket : UInt64} {r : Int} {T : LinearTable (capacityOf i_entriesPerBucket)}

/-- Up to level 30 the table is as large as its level says. -/
theorem consistent_of_le (hlevel : i_initialLevel.toNat ≤ 30)
    (h : librekvLinearCreate prior i_initialLevel i_entriesPerBucket = .ok (r, T)) :
    Consistent i_initialLevel T := by
  obtain ⟨-, hinit, hT, hnum, hmax, -⟩ := create_eq_ok h
  have hL : i_initialLevel.toUInt16.toNat = i_initialLevel.toNat := by
    rw [UInt32.toNat_toUInt16]
    omega
  have hpow : (twoToLevel i_initialLevel.toUInt16).toNat = 2 ^ i_initialLevel.toNat := by
    rw [toNat_twoToLevel (by omega), hL]
  have hpos : 0 < (twoToLevel i_initialLevel.toUInt16).toNat := by
    rw [hpow]
    exact Nat.two_pow_pos _
  have hle : 2 ^ i_initialLevel.toNat ≤ 2 ^ 30 := Nat.pow_le_pow_right (by omega) hlevel
  obtain ⟨hcap, htable⟩ := initBuckets_eq_ok hpos hinit
  have hsize : T.size = (twoToLevel i_initialLevel.toUInt16).toNat := by
    rw [LinearTable.size, htable, List.length_replicate]
  refine ⟨by rw [hT, hL], by rw [hnum, hpow], by rw [hnum, hsize], ?_, ?_, ?_, ?_⟩
  · intro i hi
    refine ⟨⟨.empty _, []⟩, ?_, by rw [slots_empty, List.length_replicate], ?_⟩
    · rw [LinearTable.bucket?, htable, List.getElem?_replicate, if_pos (hsize ▸ hi)]
      rfl
    · intro e he
      rw [slots_empty] at he
      rw [List.eq_of_mem_replicate he]
      rfl
  · rw [hmax, hpow, sizeofLinearBucket]
    omega
  · rw [sizeofLinearHashEntry]
    omega
  · intro key
    have hres := @toNat_truncateHash key T.currentLevel (by rw [hT, hL]; omega)
    refine ⟨hres, ?_⟩
    rw [hres, hnum, hpow, hT, hL]
    exact Nat.mod_lt _ (Nat.two_pow_pos _)

/-- Beyond level 30 the table, if there is one, is not consistent. -/
theorem le_of_consistent (hcons : Consistent i_initialLevel T)
    (h : librekvLinearCreate prior i_initialLevel i_entriesPerBucket = .ok (r, T)) :
    i_initialLevel.toNat ≤ 30 := by
  obtain ⟨hint, -, hT, hnum, -⟩ := create_eq_ok h
  have hL : i_initialLevel.toUInt16.toNat = i_initialLevel.toNat := by
    rw [← hT]
    exact hcons.level
  by_contra hgt
  rcases Nat.lt_or_ge 31 i_initialLevel.toNat with h32 | h31
  · have hzero : T.currBucketNum.toNat = 0 := by
      rw [hnum, twoToLevel_of_le (by omega)]
      rfl
    have hpos := Nat.two_pow_pos i_initialLevel.toNat
    have hpow := hcons.num
    omega
  · -- The count of level 31 is the sign bit, and the loop over the buckets does not end.
    have hlevel : i_initialLevel.toUInt16 = 31 := by
      apply UInt16.toNat_inj.mp
      have hval : (31 : UInt16).toNat = 31 := rfl
      omega
    rw [hlevel] at hint
    exact absurd hint (by decide)

/-- **Create is right up to level 30.** Whenever create returns, its table is consistent
exactly when the requested level is at most 30. -/
theorem create_consistent_iff
    (h : librekvLinearCreate prior i_initialLevel i_entriesPerBucket = .ok (r, T)) :
    Consistent i_initialLevel T ↔ i_initialLevel.toNat ≤ 30 :=
  ⟨fun hcons => le_of_consistent hcons h, fun hlevel => consistent_of_le hlevel h⟩

/-- Level 1 with pages of two slots. -/
theorem create_consistent_iff_small : Consistent 1 (smallTable 2) :=
  (create_consistent_iff create_smallTable.2).mpr (by decide)

/-- Level 32 gives a table without buckets, and level 65537 is taken for level 1. -/
theorem large_levels_inconsistent :
    (∃ T, librekvLinearCreate (.zeroed 0) 32 4 = .ok (0, T) ∧ T.size = 0 ∧
        ¬ Consistent 32 T) ∧
      ∃ T, librekvLinearCreate (.zeroed 0) 65537 4 = .ok (0, T) ∧ T.size = 2 ∧
        ¬ Consistent 65537 T := by
  constructor
  · refine ⟨_, rfl, rfl, ?_⟩
    intro hcons
    exact absurd hcons.num (by decide)
  · refine ⟨_, rfl, rfl, ?_⟩
    intro hcons
    exact absurd hcons.level (by decide)

end Results

end LibreKV.LinearHash
