import LibreKV.Lib.Transition
import LibreKV.LinearHash.PutSound

/-!
# LibreKV.LinearHash.PutRuns

Runs of `librekv_linear_put` on a created table: when a call keeps the stored pairs and adds
its own, and when every bucket it dereferences is allocated.
-/

namespace LibreKV.LinearHash

open FirstFit Transition

variable {cap : UInt64}

/-- A call of `librekv_linear_put`. -/
structure PutCall where
  keyHash : UInt64
  offset : UInt64

/-- The pair that a call stores. -/
def PutCall.pair (c : PutCall) : UInt64 × UInt64 := (c.keyHash, c.offset)

/-- A call that returns. -/
def PutStep (T : LinearTable cap) (c : PutCall) (T' : LinearTable cap) : Prop :=
  librekvLinearPut T c.keyHash c.offset = .ok T'

/-! ### Every run keeps the shape -/

variable {L : ℕ} {T T' : LinearTable cap} {c : PutCall}

theorem Created.putShape (h : Created L T) (hcap : 0 < cap.toNat) (hL : L ≤ 29) :
    PutShape L T where
  capacity := ⟨hcap, h.capacity⟩
  bound := hL
  level := h.level
  num := h.num
  size := by rw [LinearTable.size, h.table, List.length_replicate]
  next := by
    rw [h.next]
    exact Nat.two_pow_pos L
  initialised := h.initialised

/-- The end of a split advances the split pointer within the round. -/
theorem PutShape.nextRound_next (h : PutShape L T) : T.nextRound.nextBucketIndexToSplit.toNat =
    if T.nextBucketIndexToSplit.toNat + 1 = 2 ^ L then 0
    else T.nextBucketIndexToSplit.toNat + 1 := by
  have hnext := h.next
  have hpow : 2 ^ L ≤ 2 ^ 29 := Nat.pow_le_pow_right (by omega) h.bound
  have hadv : (T.nextBucketIndexToSplit + 1).toNat = T.nextBucketIndexToSplit.toNat + 1 := by
    rw [UInt64.toNat_add]
    exact Nat.mod_eq_of_lt (by simp only [UInt64.reduceToNat]; omega)
  have hpower : (twoToLevel T.currentLevel).toNat = 2 ^ L := by
    rw [toNat_twoToLevel (by rw [h.level]; exact h.bound.trans (by omega)), h.level]
  have hcond : T.nextBucketIndexToSplit + 1 ≥ twoToLevel T.currentLevel ↔
      T.nextBucketIndexToSplit.toNat + 1 = 2 ^ L := by
    rw [ge_iff_le, UInt64.le_iff_toNat_le, hadv, hpower]
    omega
  simp only [LinearTable.nextRound, hcond]
  split
  · rfl
  · exact hadv

theorem PutShape.nextRound (h : PutShape L T) : PutShape L T.nextRound where
  capacity := h.capacity
  bound := h.bound
  level := h.level
  num := h.num
  size := h.size
  next := by
    have hnext := h.next
    rw [h.nextRound_next]
    split <;> omega
  initialised := h.initialised

theorem PutShape.step (h : PutShape L T) (hstep : PutStep T c T') : PutShape L T' := by
  have hcases := put_cases h c.keyHash c.offset
  rw [hstep] at hcases
  cases hcases with
  | stored b b' _ hb _ _ => exact h.setBucket hb false
  | split b b' _ hb _ _ _ => exact (h.setBucket hb true).nextRound

/-- Runs from a created table. -/
theorem putShape_run {c : UInt64} {prior : LinearTable c} {i_initialLevel : UInt32}
    {i_entriesPerBucket : UInt64} {r : Int} {T₀ T : LinearTable (capacityOf i_entriesPerBucket)}
    {log : List PutCall} (hlevel : i_initialLevel.toNat ≤ 29)
    (hcreate : librekvLinearCreate prior i_initialLevel i_entriesPerBucket = .ok (r, T₀))
    (hrun : Run PutStep T₀ log T) : PutShape i_initialLevel.toNat T :=
  hrun.invariant ((create_created hlevel hcreate).putShape (capacityOf_pos _) hlevel)
    fun _ _ _ h hstep => h.step hstep

/-! ### What a call stores -/

/-- A call that returns adds its own pair once, unless its bucket is full and due to be split,
and nothing else. -/
theorem PutStep.contents (h : PutShape L T) (hstep : PutStep T c T') :
    ∃ n, T'.contents = n • {c.pair} + T.contents ∧
      (n = 1 ↔ (T.FullAt (T.target c.keyHash) →
        T.target c.keyHash ≠ T.nextBucketIndexToSplit.toNat)) := by
  have hcases := put_cases h c.keyHash c.offset
  rw [hstep] at hcases
  cases hcases with
  | stored b b' _ hb hfull hadd =>
      refine ⟨1, ?_, fun _ h => absurd h (LinearTable.not_fullAt hb hfull), fun _ => rfl⟩
      rw [one_nsmul]
      exact LinearTable.contents_setBucket hb (hadd.trans (Multiset.singleton_add _ _).symm)
  | split b b' _ hb hfull _ hadd =>
      have hcontents := LinearTable.contents_setBucket hb hadd
      by_cases hnext : T.target c.keyHash = T.nextBucketIndexToSplit.toNat
      · refine ⟨0, ?_, fun h => absurd h (by decide),
          fun h => absurd hnext (h ⟨b, hb, hfull⟩)⟩
        rw [zero_nsmul]
        rw [if_pos hnext] at hcontents
        exact hcontents
      · refine ⟨1, ?_, fun _ _ => hnext, fun _ => rfl⟩
        rw [one_nsmul]
        rw [if_neg hnext] at hcontents
        exact hcontents

/-- A call returns, or it dereferences a bucket beyond the array. -/
theorem put_returns_iff (h : PutShape L T) (c : PutCall) :
    ((∃ T', PutStep T c T') ↔ T.ChoosesTarget c.keyHash ∧
        (T.FullAt (T.target c.keyHash) → T.NothingToMove)) ∧
      (librekvLinearPut T c.keyHash c.offset ≠ .error .unallocatedBucket ↔
        ∃ T', PutStep T c T') := by
  have hcases := put_cases h c.keyHash c.offset
  unfold PutStep
  generalize librekvLinearPut T c.keyHash c.offset = res at hcases ⊢
  cases hcases with
  | unallocated hcond =>
      refine ⟨⟨?_, fun h => absurd h hcond⟩, fun h => absurd rfl h, ?_⟩
      · intro hret
        obtain ⟨T', hT'⟩ := hret
        cases hT'
      · intro hret
        obtain ⟨T', hT'⟩ := hret
        cases hT'
  | stored b b' hchoose hb hfull _ =>
      exact ⟨⟨fun _ => ⟨hchoose, fun h => absurd h (LinearTable.not_fullAt hb hfull)⟩,
        fun _ => ⟨_, rfl⟩⟩, fun _ => ⟨_, rfl⟩, fun _ h => by cases h⟩
  | split b b' hchoose hb hfull hmove _ =>
      exact ⟨⟨fun _ => ⟨hchoose, fun _ => hmove⟩, fun _ => ⟨_, rfl⟩⟩,
        fun _ => ⟨_, rfl⟩, fun _ h => by cases h⟩

section Results

variable {prior : LinearTable cap} {i_initialLevel : UInt32} {i_entriesPerBucket : UInt64}
  {r : Int} {T₀ T : LinearTable (capacityOf i_entriesPerBucket)} {log : List PutCall}

/-- The call returns, and the table holds the pairs it held before and the call's own. -/
def Conserves (T : LinearTable cap) (c : PutCall) : Prop :=
  ∃ T', PutStep T c T' ∧ T'.contents = c.pair ::ₘ T.contents

/-- **Conservation.** On every table a run reaches, a call adds its pair and keeps the others
iff it chooses the residue of its hash and, where that bucket is full, the bucket is not the
one due to be split, of which nothing has to move. -/
theorem conserves_iff (hlevel : i_initialLevel.toNat ≤ 29)
    (hcreate : librekvLinearCreate prior i_initialLevel i_entriesPerBucket = .ok (r, T₀))
    (hrun : Run PutStep T₀ log T) (c : PutCall) :
    Conserves T c ↔ T.ChoosesTarget c.keyHash ∧ (T.FullAt (T.target c.keyHash) →
      T.target c.keyHash ≠ T.nextBucketIndexToSplit.toNat ∧ T.NothingToMove) := by
  have hshape := putShape_run hlevel hcreate hrun
  have hreturns := (put_returns_iff hshape c).1
  constructor
  · intro hret
    obtain ⟨T', hstep, hadd⟩ := hret
    obtain ⟨hchoose, hmove⟩ := hreturns.mp ⟨T', hstep⟩
    obtain ⟨n, hcontents, hn⟩ := hstep.contents hshape
    have hone : n = 1 := by
      have hcount := congrArg (Multiset.count c.pair) (hcontents.symm.trans hadd)
      rw [Multiset.count_add, Multiset.count_nsmul, Multiset.count_singleton_self,
        Multiset.count_cons_self] at hcount
      omega
    exact ⟨hchoose, fun hfull => ⟨hn.mp hone hfull, hmove hfull⟩⟩
  · intro hcond
    obtain ⟨hchoose, hfull⟩ := hcond
    obtain ⟨T', hstep⟩ := hreturns.mpr ⟨hchoose, fun h => (hfull h).2⟩
    obtain ⟨n, hcontents, hn⟩ := hstep.contents hshape
    refine ⟨T', hstep, ?_⟩
    rw [hcontents, hn.mpr fun h => (hfull h).1, one_nsmul, Multiset.singleton_add]

/-- A second pair for the full bucket 1, which is not due to be split, is stored as well. -/
theorem conserves_iff_example : ∃ T, Run PutStep (smallTable 1) [⟨1, 10⟩] T ∧ T.FullAt 1 ∧
    Conserves T ⟨1, 20⟩ := by
  have hrun : Run PutStep (smallTable 1) [⟨1, 10⟩] _ := .snoc .nil rfl
  refine ⟨_, hrun, ⟨_, rfl, by decide⟩, ?_⟩
  exact (conserves_iff (by decide) create_smallTable.1 hrun ⟨1, 20⟩).mpr
    ⟨Or.inl (by decide), fun _ => ⟨by decide, by decide⟩⟩

/-- A second pair for the full bucket 0, which is due to be split, is not stored. -/
theorem full_next_loses :
    librekvLinearCreate (.zeroed 0) 1 1 = .ok (0, smallTable 1) ∧
      ∃ T T', Run PutStep (smallTable 1) [⟨0, 10⟩] T ∧ PutStep T ⟨0, 20⟩ T' ∧
        T'.contents = T.contents ∧ ¬ Conserves T ⟨0, 20⟩ := by
  have hrun : Run PutStep (smallTable 1) [⟨0, 10⟩] _ := .snoc .nil rfl
  refine ⟨create_smallTable.1, _, _, hrun, rfl, by decide, ?_⟩
  intro hret
  obtain ⟨T', hstep, hadd⟩ := hret
  obtain rfl := Except.ok.inj hstep
  exact absurd hadd (by decide)

/-- No bucket index that the call dereferences, as the insertion target, as the bucket being
split or as its mirror image, is beyond the array. -/
def StaysAllocated (T : LinearTable cap) (c : PutCall) : Prop :=
  librekvLinearPut T c.keyHash c.offset ≠ .error .unallocatedBucket

/-- **Every index is allocated** iff the call chooses the residue of its hash and, where that
bucket is full, nothing has to move to the mirror-image bucket. -/
theorem staysAllocated_iff (hlevel : i_initialLevel.toNat ≤ 29)
    (hcreate : librekvLinearCreate prior i_initialLevel i_entriesPerBucket = .ok (r, T₀))
    (hrun : Run PutStep T₀ log T) (c : PutCall) :
    StaysAllocated T c ↔ T.ChoosesTarget c.keyHash ∧
      (T.FullAt (T.target c.keyHash) → T.NothingToMove) := by
  obtain ⟨hreturns, hfault⟩ := put_returns_iff (putShape_run hlevel hcreate hrun) c
  exact hfault.trans hreturns

/-- A second pair for the full bucket 1: the bucket due to be split is empty. -/
theorem staysAllocated_iff_example : ∃ T, Run PutStep (smallTable 1) [⟨1, 10⟩] T ∧ T.FullAt 1 ∧
    StaysAllocated T ⟨1, 20⟩ := by
  have hrun : Run PutStep (smallTable 1) [⟨1, 10⟩] _ := .snoc .nil rfl
  refine ⟨_, hrun, ⟨_, rfl, by decide⟩, ?_⟩
  exact (staysAllocated_iff (by decide) create_smallTable.1 hrun ⟨1, 20⟩).mpr
    ⟨Or.inl (by decide), fun _ => by decide⟩

/-- The hash 2 of the full bucket 0 belongs to bucket 2, which was never allocated. -/
theorem mirror_not_allocated :
    librekvLinearCreate (.zeroed 0) 1 1 = .ok (0, smallTable 1) ∧
      ∃ T, Run PutStep (smallTable 1) [⟨2, 10⟩] T ∧ T.size = 2 ∧
        librekvLinearPut T 0 20 = .error .unallocatedBucket ∧ ¬ StaysAllocated T ⟨0, 20⟩ := by
  have hrun : Run PutStep (smallTable 1) [⟨2, 10⟩] _ := .snoc .nil rfl
  exact ⟨create_smallTable.1, _, hrun, rfl, rfl, fun h => h rfl⟩

end Results

end LibreKV.LinearHash
