import LibreKV.LinearHash.PutRuns
import LibreKV.LinearHash.Put2Runs

/-!
# LibreKV.LinearHash.Counters

The relation between the level, the split pointer, the bucket counter and the length of the
bucket array. Both put variants keep it as long as they do not split, and neither keeps it when
it does: `librekv_linear_put` advances the split pointer without adding a bucket, and
`librekv_linear_put2` adds a bucket and takes the end of the round to be reached.
-/

namespace LibreKV.LinearHash

open Transition

variable {cap : UInt64}

/-- The split pointer is within the round, and as many buckets are counted and allocated as
the level and the split pointer say. -/
structure LinearTable.CountersAgree (T : LinearTable cap) : Prop where
  next : T.nextBucketIndexToSplit.toNat < 2 ^ T.currentLevel.toNat
  num : T.currBucketNum.toNat = 2 ^ T.currentLevel.toNat + T.nextBucketIndexToSplit.toNat
  size : T.currBucketNum.toNat = T.size

variable {L : ℕ} {T : LinearTable cap}

theorem Created.countersAgree (h : Created L T) : T.CountersAgree where
  next := by
    rw [h.next]
    exact Nat.two_pow_pos _
  num := by
    rw [h.num, h.level, h.next]
    rfl
  size := by rw [h.num, LinearTable.size, h.table, List.length_replicate]

/-- A call of put2 finds room in its bucket: it does not split. -/
def Put2Call.FindsRoom (T : LinearTable cap) (c : Put2Call) : Prop :=
  ¬ T.FullAt (T.target c.keyHash)

instance (T : LinearTable cap) (c : Put2Call) : Decidable (c.FindsRoom T) :=
  inferInstanceAs (Decidable (¬ _))

/-- A call of put finds room in its bucket. -/
def PutCall.FindsRoom (T : LinearTable cap) (c : PutCall) : Prop :=
  ¬ T.FullAt (T.target c.keyHash)

instance (T : LinearTable cap) (c : PutCall) : Decidable (c.FindsRoom T) :=
  inferInstanceAs (Decidable (¬ _))

/-- On a table whose counters agree, exactly the calls of put2 that find room keep this. -/
theorem put2_countersAgree_iff (h : Put2Shape L T) (hpos : 0 < T.currentLevel.toNat)
    (hagree : T.CountersAgree) (c : Put2Call) :
    (∃ T', Put2Step T c T' ∧ T'.CountersAgree) ↔ c.FindsRoom T := by
  have hcases := put2_cases h c.behind c.keyHash c.offset
  unfold Put2Step Put2Call.FindsRoom
  generalize librekvLinearPut2 c.behind T c.keyHash c.offset = res at hcases
  cases hcases with
  | idle hzero => omega
  | unallocated _ hsize =>
      -- As many buckets are allocated as there are residues.
      have hlt : T.target c.keyHash < 2 ^ T.currentLevel.toNat :=
        Nat.mod_lt _ (Nat.two_pow_pos _)
      have hnum := hagree.num
      have hlen := hagree.size
      omega
  | stored b b' _ hb hfull _ =>
      refine ⟨fun _ => LinearTable.not_fullAt hb hfull, fun _ => ⟨_, rfl, ?_⟩⟩
      exact ⟨hagree.next, hagree.num,
        hagree.size.trans (LinearTable.size_setBucket T _ b').symm⟩
  | split b b₀ T' _ hb hfull _ _ hresult =>
      refine ⟨?_, fun hroom => absurd ⟨b, hb, hfull⟩ hroom⟩
      intro hret
      obtain ⟨T₁, hT₁, hagree'⟩ := hret
      obtain rfl := Except.ok.inj hT₁
      -- One bucket more is allocated, but not counted.
      have hsize := hagree'.size
      rw [hresult.num, hresult.size, hagree.size] at hsize
      omega
  | crashed b fault _ hb hfull _ =>
      refine ⟨?_, fun hroom => absurd ⟨b, hb, hfull⟩ hroom⟩
      intro hret
      obtain ⟨T₁, hT₁, -⟩ := hret
      cases hT₁

/-- On a table whose counters agree, exactly the calls of put that find room keep this. -/
theorem put_countersAgree_iff (h : PutShape L T) (hpos : 0 < L) (hagree : T.CountersAgree)
    (c : PutCall) : (∃ T', PutStep T c T' ∧ T'.CountersAgree) ↔ c.FindsRoom T := by
  -- The array has the length of the creation, so the split pointer is still 0.
  have hnext : T.nextBucketIndexToSplit.toNat = 0 := by
    have hnum := hagree.num
    rw [h.num, h.level] at hnum
    omega
  have hcases := put_cases h c.keyHash c.offset
  unfold PutStep PutCall.FindsRoom
  generalize librekvLinearPut T c.keyHash c.offset = res at hcases
  cases hcases with
  | unallocated hcond =>
      refine ⟨?_, fun hroom => ?_⟩
      · intro hret
        obtain ⟨T₁, hT₁, -⟩ := hret
        cases hT₁
      · refine absurd ⟨Or.inl ?_, fun hfull => absurd hfull hroom⟩ hcond
        rw [hnext]
        exact Nat.zero_le _
  | stored b b' _ hb hfull _ =>
      refine ⟨fun _ => LinearTable.not_fullAt hb hfull, fun _ => ⟨_, rfl, ?_⟩⟩
      exact ⟨hagree.next, hagree.num,
        hagree.size.trans (LinearTable.size_setBucket T _ b').symm⟩
  | split b b' _ hb hfull _ _ =>
      refine ⟨?_, fun hroom => absurd ⟨b, hb, hfull⟩ hroom⟩
      intro hret
      obtain ⟨T₁, hT₁, hagree'⟩ := hret
      obtain rfl := Except.ok.inj hT₁
      -- The split pointer is 1 now, and no bucket was added.
      have hshape : PutShape L ((T.setBucket (T.target c.keyHash) b').withSplit true) :=
        h.setBucket hb true
      have hround := hshape.nextRound_next
      have hnum := hagree'.num
      have htwo : 2 ≤ 2 ^ L := Nat.le_self_pow (by omega) 2
      rw [hshape.nextRound.num, hshape.nextRound.level, hround] at hnum
      change 2 ^ L = 2 ^ L + (if T.nextBucketIndexToSplit.toNat + 1 = 2 ^ L then 0
        else T.nextBucketIndexToSplit.toNat + 1) at hnum
      rw [hnext, if_neg (by omega)] at hnum
      omega

section Results

variable {prior : LinearTable cap} {i_initialLevel : UInt32} {i_entriesPerBucket : UInt64}
  {r : Int} {T₀ : LinearTable (capacityOf i_entriesPerBucket)}

/-- **The counters agree as long as nothing splits.** In every run of put2, and in every run of
put, whose calls all find room, the counters agree in every state reached, and there a call
keeps them so exactly if it finds room. -/
theorem countersAgree_iff (hlevel : 1 ≤ i_initialLevel.toNat ∧ i_initialLevel.toNat ≤ 29)
    (hcreate : librekvLinearCreate prior i_initialLevel i_entriesPerBucket = .ok (r, T₀)) :
    (∀ log T, Run (Guarded Put2Step fun T c => Put2Call.FindsRoom T c) T₀ log T →
      T.CountersAgree ∧ ∀ c, (∃ T', Put2Step T c T' ∧ T'.CountersAgree) ↔
        Put2Call.FindsRoom T c) ∧
    (∀ log T, Run (Guarded PutStep fun T c => PutCall.FindsRoom T c) T₀ log T →
      T.CountersAgree ∧ ∀ c, (∃ T', PutStep T c T' ∧ T'.CountersAgree) ↔
        PutCall.FindsRoom T c) := by
  have hcreated := create_created hlevel.2 hcreate
  constructor
  · intro log T hrun
    have hboth : Put2Shape i_initialLevel.toNat T ∧ T.CountersAgree := by
      refine hrun.invariant ⟨hcreated.put2Shape (capacityOf_pos _) hlevel.2,
        hcreated.countersAgree⟩ ?_
      intro S c S' hinv hguard
      obtain ⟨hS, hagree⟩ := hinv
      obtain ⟨hroom, hstep⟩ := hguard
      obtain ⟨S₁, hstep₁, hagree₁⟩ :=
        (put2_countersAgree_iff hS (hS.level_pos hlevel.1) hagree c).mpr hroom
      obtain rfl := Except.ok.inj (hstep₁.symm.trans hstep)
      exact ⟨hS.step hstep, hagree₁⟩
    exact ⟨hboth.2, put2_countersAgree_iff hboth.1 (hboth.1.level_pos hlevel.1) hboth.2⟩
  · intro log T hrun
    have hboth : PutShape i_initialLevel.toNat T ∧ T.CountersAgree := by
      refine hrun.invariant ⟨hcreated.putShape (capacityOf_pos _) hlevel.2,
        hcreated.countersAgree⟩ ?_
      intro S c S' hinv hguard
      obtain ⟨hS, hagree⟩ := hinv
      obtain ⟨hroom, hstep⟩ := hguard
      obtain ⟨S₁, hstep₁, hagree₁⟩ := (put_countersAgree_iff hS hlevel.1 hagree c).mpr hroom
      obtain rfl := Except.ok.inj (hstep₁.symm.trans hstep)
      exact ⟨hS.step hstep, hagree₁⟩
    exact ⟨hboth.2, put_countersAgree_iff hboth.1 hlevel.1 hboth.2⟩

/-- Two calls of put2 and two of put that find room. -/
theorem countersAgree_iff_example :
    (∃ T, Run (Guarded Put2Step fun T c => Put2Call.FindsRoom T c) (smallTable 1)
        [⟨0, 10, freeEntry⟩, ⟨1, 20, freeEntry⟩] T ∧ T.CountersAgree) ∧
      ∃ T, Run (Guarded PutStep fun T c => PutCall.FindsRoom T c) (smallTable 1)
        [⟨0, 10⟩, ⟨1, 20⟩] T ∧ T.CountersAgree := by
  constructor
  · have hfirst : Run (Guarded Put2Step fun T c => Put2Call.FindsRoom T c) (smallTable 1)
        [⟨0, 10, freeEntry⟩] _ := .snoc .nil ⟨by decide, rfl⟩
    have hrun : Run (Guarded Put2Step fun T c => Put2Call.FindsRoom T c) (smallTable 1)
        [⟨0, 10, freeEntry⟩, ⟨1, 20, freeEntry⟩] _ := .snoc hfirst ⟨by decide, rfl⟩
    exact ⟨_, hrun, ((countersAgree_iff (by decide) create_smallTable.1).1 _ _ hrun).1⟩
  · have hfirst : Run (Guarded PutStep fun T c => PutCall.FindsRoom T c) (smallTable 1)
        [⟨0, 10⟩] _ := .snoc .nil ⟨by decide, rfl⟩
    have hrun : Run (Guarded PutStep fun T c => PutCall.FindsRoom T c) (smallTable 1)
        [⟨0, 10⟩, ⟨1, 20⟩] _ := .snoc hfirst ⟨by decide, rfl⟩
    exact ⟨_, hrun, ((countersAgree_iff (by decide) create_smallTable.1).2 _ _ hrun).1⟩

/-- The first split breaks the relation in both variants. -/
theorem split_breaks_counters :
    librekvLinearCreate (.zeroed 0) 1 1 = .ok (0, smallTable 1) ∧
      (∃ T, Run Put2Step (smallTable 1) [⟨0, 10, freeEntry⟩, ⟨0, 20, freeEntry⟩] T ∧
        ¬ T.CountersAgree) ∧
      ∃ T, Run PutStep (smallTable 1) [⟨0, 10⟩, ⟨0, 20⟩] T ∧ ¬ T.CountersAgree := by
  refine ⟨create_smallTable.1, ?_, ?_⟩
  · have hfirst : Run Put2Step (smallTable 1) [⟨0, 10, freeEntry⟩] _ := .snoc .nil rfl
    have hrun : Run Put2Step (smallTable 1) [⟨0, 10, freeEntry⟩, ⟨0, 20, freeEntry⟩] _ :=
      .snoc hfirst rfl
    exact ⟨_, hrun, fun h => absurd h.num (by decide)⟩
  · have hfirst : Run PutStep (smallTable 1) [⟨0, 10⟩] _ := .snoc .nil rfl
    have hrun : Run PutStep (smallTable 1) [⟨0, 10⟩, ⟨0, 20⟩] _ := .snoc hfirst rfl
    exact ⟨_, hrun, fun h => absurd h.num (by decide)⟩

end Results

end LibreKV.LinearHash
