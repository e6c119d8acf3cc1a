import LibreKV.LinearHash.Put

/-!
# LibreKV.LinearHash.PutSound

Every outcome of `librekv_linear_put` on the tables its runs can reach: the array keeps the
`2 ^ L` buckets it was created with and the level stays, while `m_nextBucketIndexToSplit` goes
round. The bucket added by a split in linear hashing never exists, so a call that would use it
ends beyond the array.
-/

namespace LibreKV.LinearHash

open FirstFit Fallible

variable {cap : UInt64}

/-- The tables that runs of `librekv_linear_put` reach from the initial level `L`. -/
structure PutShape (L : ℕ) (T : LinearTable cap) : Prop where
  capacity : 0 < cap.toNat ∧ cap.toNat < 2 ^ 31
  bound : L ≤ 29
  level : T.currentLevel.toNat = L
  num : T.currBucketNum.toNat = 2 ^ L
  size : T.size = 2 ^ L
  next : T.nextBucketIndexToSplit.toNat < 2 ^ L
  initialised : T.Initialised

/-- The chosen bucket is the residue of the hash at the level: that bucket is not below the
split pointer, or the next level does not change the residue. -/
def LinearTable.ChoosesTarget (T : LinearTable cap) (keyHash : UInt64) : Prop :=
  T.nextBucketIndexToSplit.toNat ≤ T.target keyHash ∨ LowHalf T.currentLevel keyHash

/-- No entry of the bucket due to be split belongs to its mirror-image bucket. -/
def LinearTable.NothingToMove (T : LinearTable cap) : Prop :=
  ∀ e ∈ T.entriesAt T.nextBucketIndexToSplit.toNat,
    e.keyHash.toNat % 2 ^ (T.currentLevel.toNat + 1) ≠
      T.nextBucketIndexToSplit.toNat + 2 ^ T.currentLevel.toNat

instance (T : LinearTable cap) : Decidable T.NothingToMove :=
  inferInstanceAs (Decidable (∀ e ∈ T.entriesAt _, _ ≠ _))

/-- The outcomes of `librekv_linear_put(keyHash, offset)` on the table `T`. -/
inductive PutCases (T : LinearTable cap) (keyHash offset : UInt64) :
    Except Fault (LinearTable cap) → Prop
  /-- The chosen bucket, or the mirror-image bucket an entry is moved to, is not there. -/
  | unallocated : ¬ (T.ChoosesTarget keyHash ∧ (T.FullAt (T.target keyHash) → T.NothingToMove)) →
      PutCases T keyHash offset (.error .unallocatedBucket)
  /-- The chain had a free slot. -/
  | stored (b b' : LinearBucket cap) : T.ChoosesTarget keyHash →
      T.bucket? (T.target keyHash) = some b → ¬ b.Full →
      b'.entries = occupiedEntry keyHash offset ::ₘ b.entries →
      PutCases T keyHash offset (.ok ((T.setBucket (T.target keyHash) b').withSplit false))
  /-- The chain was full, and there was nothing to move. -/
  | split (b b' : LinearBucket cap) : T.ChoosesTarget keyHash →
      T.bucket? (T.target keyHash) = some b → b.Full → T.NothingToMove →
      b'.entries = (if T.target keyHash = T.nextBucketIndexToSplit.toNat then 0
        else {occupiedEntry keyHash offset}) + b.entries →
      PutCases T keyHash offset
        (.ok ((T.setBucket (T.target keyHash) b').withSplit true).nextRound)

section Cases

variable {T : LinearTable cap} {L : ℕ} {keyHash offset : UInt64}

theorem PutShape.target_lt (h : PutShape L T) (keyHash : UInt64) : T.target keyHash < T.size := by
  rw [h.size, LinearTable.target, h.level]
  exact Nat.mod_lt _ (Nat.two_pow_pos L)

theorem PutShape.chosenBucket_eq (h : PutShape L T) (keyHash : UInt64) :
    (chosenBucket T.currentLevel T.nextBucketIndexToSplit keyHash).toNat =
      LinearAddress.address L T.nextBucketIndexToSplit.toNat keyHash.toNat := by
  have hbound := h.bound
  rw [toNat_chosenBucket (by rw [h.level]; exact hbound) (by rw [h.level]; exact h.next.le),
    h.level]

/-- The chosen bucket is the residue, or the bucket `2 ^ L` above it, which does not exist. -/
theorem PutShape.chosenBucket_cases (h : PutShape L T) (keyHash : UInt64) :
    (T.ChoosesTarget keyHash ∧
        (chosenBucket T.currentLevel T.nextBucketIndexToSplit keyHash).toNat =
          T.target keyHash) ∨
      (¬ T.ChoosesTarget keyHash ∧
        T.size ≤ (chosenBucket T.currentLevel T.nextBucketIndexToSplit keyHash).toNat) := by
  rw [h.chosenBucket_eq, LinearTable.ChoosesTarget, LowHalf, LinearTable.target, h.level, h.size]
  by_cases hge : T.nextBucketIndexToSplit.toNat ≤ keyHash.toNat % 2 ^ L
  · exact Or.inl ⟨Or.inl hge, by rw [LinearAddress.address, if_pos hge]⟩
  · rw [LinearAddress.address, if_neg hge]
    by_cases hlow : keyHash.toNat % 2 ^ (L + 1) < 2 ^ L
    · exact Or.inl ⟨Or.inr hlow, LinearAddress.mod_succ_of_lt hlow⟩
    · exact Or.inr ⟨fun h => h.elim hge hlow, not_lt.mp hlow⟩

/-- One round of the split loops: nothing happens, or the insertion runs off the array. -/
theorem splitSlot_cases {b : LinearBucket cap} {mirror : UInt64}
    (hb : T.bucket? T.nextBucketIndexToSplit.toNat = some b) (hmirror : T.size ≤ mirror.toNat)
    {k i : ℕ} {p : Page cap} {e : LinearHashEntry} (hp : b.pages[k]? = some p)
    (he : p.slots[i]? = some e) :
    splitSlot mirror T (k, i) =
      if e.movesTo T.currentLevel mirror then .error .unallocatedBucket else .ok T := by
  have hread : T.readSlot T.nextBucketIndexToSplit k i = .ok e := by
    rw [LinearTable.readSlot, LinearTable.bucketAt_eq hb, ok_bind]
    simp only [hp, he]
  rw [splitSlot, hread, ok_bind, moveSlot, insert_of_size_le hmirror, error_bind]

theorem mem_positions {b : LinearBucket cap} {q : ℕ × ℕ} :
    q ∈ b.positions ↔ q.1 < b.pages.length ∧ q.2 < cap.toNat := by
  obtain ⟨k, i⟩ := q
  simp [LinearBucket.positions]

theorem mem_slots_iff {b : LinearBucket cap} {e : LinearHashEntry} :
    e ∈ b.slots ↔
      ∃ (k : ℕ) (p : Page cap) (i : ℕ), b.pages[k]? = some p ∧ p.slots[i]? = some e := by
  rw [LinearBucket.mem_slots]
  constructor
  · intro hmem
    obtain ⟨p, hp, he⟩ := hmem
    obtain ⟨k, hk⟩ := List.mem_iff_getElem?.mp hp
    obtain ⟨i, hi⟩ := List.mem_iff_getElem?.mp he
    exact ⟨k, p, i, hk, hi⟩
  · intro hmem
    obtain ⟨k, p, i, hk, hi⟩ := hmem
    exact ⟨p, List.mem_iff_getElem?.mpr ⟨k, hk⟩, List.mem_iff_getElem?.mpr ⟨i, hi⟩⟩

/-- The two loops over the chain: they return without a change, or an entry is to be moved and
the insertion runs off the array. -/
theorem splitLoop_cases {b : LinearBucket cap} {mirror : UInt64}
    (hb : T.bucket? T.nextBucketIndexToSplit.toNat = some b) (hmirror : T.size ≤ mirror.toNat) :
    ((∀ e ∈ b.slots, ¬ e.movesTo T.currentLevel mirror = true) ∧
        b.positions.foldlM (splitSlot mirror) T = .ok T) ∨
      ((∃ e ∈ b.slots, e.movesTo T.currentLevel mirror = true) ∧
        b.positions.foldlM (splitSlot mirror) T = .error .unallocatedBucket) := by
  have hround : ∀ q ∈ b.positions, ∃ e ∈ b.slots, splitSlot mirror T q =
      if e.movesTo T.currentLevel mirror then .error .unallocatedBucket else .ok T := by
    intro q hq
    obtain ⟨hk, hi⟩ := mem_positions.mp hq
    have hp := List.getElem?_eq_getElem hk
    have he := List.getElem?_eq_getElem (hi.trans_eq (b.pages[q.1]).size.symm)
    exact ⟨_, mem_slots_iff.mpr ⟨_, _, _, hp, he⟩, splitSlot_cases hb hmirror hp he⟩
  have hfixed : ∀ q ∈ b.positions,
      splitSlot mirror T q = .ok T ∨ splitSlot mirror T q = .error .unallocatedBucket := by
    intro q hq
    obtain ⟨e, -, heq⟩ := hround q hq
    rw [heq]
    split
    · exact Or.inr rfl
    · exact Or.inl rfl
  rcases foldlM_fixed hfixed with ⟨hloop, hall⟩ | ⟨hloop, q, hq, herror⟩
  · refine Or.inl ⟨fun e hmem hmove => ?_, hloop⟩
    obtain ⟨k, p, i, hp, he⟩ := mem_slots_iff.mp hmem
    have hi : i < cap.toNat := by
      rw [← p.size]
      exact (List.getElem?_eq_some_iff.mp he).1
    have hq := hall (k, i) (mem_positions.mpr ⟨(List.getElem?_eq_some_iff.mp hp).1, hi⟩)
    rw [splitSlot_cases hb hmirror hp he, if_pos hmove] at hq
    cases hq
  · refine Or.inr ⟨?_, hloop⟩
    obtain ⟨e, hmem, heq⟩ := hround q hq
    by_cases hmove : e.movesTo T.currentLevel mirror = true
    · exact ⟨e, hmem, hmove⟩
    · rw [heq, if_neg hmove] at herror
      cases herror

/-- The index of the mirror-image bucket, as the split computes it, is beyond the array. -/
theorem PutShape.toNat_mirror (h : PutShape L T) :
    (T.nextBucketIndexToSplit + twoToLevel T.currentLevel).toNat =
        T.nextBucketIndexToSplit.toNat + 2 ^ T.currentLevel.toNat ∧
      T.size ≤ (T.nextBucketIndexToSplit + twoToLevel T.currentLevel).toNat := by
  have hmirror : (T.nextBucketIndexToSplit + twoToLevel T.currentLevel).toNat =
      T.nextBucketIndexToSplit.toNat + 2 ^ T.currentLevel.toNat :=
    LinearHash.toNat_mirror (h.level.trans_le h.bound) (h.level ▸ h.next)
  refine ⟨hmirror, ?_⟩
  rw [hmirror, h.level, h.size]
  exact Nat.le_add_left _ _

/-- There is nothing to move iff the move test of the split fails on every slot of the chain. -/
theorem PutShape.nothingToMove_iff (h : PutShape L T) {b : LinearBucket cap}
    (hb : T.bucket? T.nextBucketIndexToSplit.toNat = some b) :
    T.NothingToMove ↔ ∀ e ∈ b.slots, ¬ e.movesTo T.currentLevel
      (T.nextBucketIndexToSplit + twoToLevel T.currentLevel) = true := by
  have hlevel : T.currentLevel.toNat ≤ 30 := (h.level.trans_le h.bound).trans (by omega)
  rw [LinearTable.NothingToMove, LinearTable.entriesAt_of_bucket? hb]
  constructor
  · intro hnothing e hmem hmove
    obtain ⟨hocc, heq⟩ := (movesTo_iff hlevel).mp hmove
    exact hnothing e (mem_occupied.mpr ⟨hmem, hocc⟩) (heq.trans h.toNat_mirror.1)
  · intro hall e hmem heq
    obtain ⟨hslot, hocc⟩ := mem_occupied.mp hmem
    exact hall e hslot ((movesTo_iff hlevel).mpr ⟨hocc, heq.trans h.toNat_mirror.1.symm⟩)

/-- The split of a table without a mirror-image bucket. -/
theorem putSplit_cases (h : PutShape L T) :
    (T.NothingToMove ∧ putSplit T = .ok T.nextRound) ∨
      (¬ T.NothingToMove ∧ putSplit T = .error .unallocatedBucket) := by
  obtain ⟨b, hb⟩ := h.initialised T.nextBucketIndexToSplit.toNat (by rw [h.size]; exact h.next)
  rw [putSplit, LinearTable.bucketAt_eq hb, ok_bind, h.nothingToMove_iff hb]
  rcases splitLoop_cases hb h.toNat_mirror.2 with ⟨hall, hloop⟩ | ⟨hmoves, hloop⟩
  · exact Or.inl ⟨hall, by rw [hloop, ok_bind]⟩
  · refine Or.inr ⟨?_, by rw [hloop, error_bind]⟩
    intro hall
    obtain ⟨e, hmem, hmove⟩ := hmoves
    exact hall e hmem hmove

/-- Replacing a bucket keeps the shape. -/
theorem PutShape.setBucket (h : PutShape L T) {i : ℕ} {b b' : LinearBucket cap}
    (hb : T.bucket? i = some b) (s : Bool) : PutShape L ((T.setBucket i b').withSplit s) where
  capacity := h.capacity
  bound := h.bound
  level := h.level
  num := h.num
  size := (T.size_stored i b' s).trans h.size
  next := h.next
  initialised := by
    intro j hj
    have hj' : j < T.size := hj.trans_eq (T.size_stored i b' s)
    rw [LinearTable.bucket?_stored (LinearTable.lt_size hb), Function.update_apply]
    split
    · exact ⟨b', rfl⟩
    · exact h.initialised j hj'

/-- An insertion into a full chain leaves the bucket due to be split as it is. -/
theorem nothingToMove_stored {e : LinearHashEntry} {i : UInt64} {b b' : LinearBucket cap}
    {r : Bool} (hb : T.bucket? i.toNat = some b) (hfull : b.Full)
    (h : Inserted e T.nextBucketIndexToSplit i b r b') :
    ((T.setBucket i.toNat b').withSplit r).NothingToMove ↔ T.NothingToMove := by
  have hsame : ((T.setBucket i.toNat b').withSplit r).bucket? T.nextBucketIndexToSplit.toNat =
      T.bucket? T.nextBucketIndexToSplit.toNat := by
    rw [LinearTable.bucket?_stored (LinearTable.lt_size hb), Function.update_apply]
    split
    · next heq =>
      rcases (h.of_full hfull).2 with ⟨hne, -⟩ | ⟨-, rfl⟩
      · exact absurd (UInt64.toNat_inj.mp heq) hne
      · rw [heq, hb]
    · rfl
  have hentries : ((T.setBucket i.toNat b').withSplit r).entriesAt
      T.nextBucketIndexToSplit.toNat = T.entriesAt T.nextBucketIndexToSplit.toNat :=
    LinearTable.entriesAt_congr hsame
  show (∀ e ∈ ((T.setBucket i.toNat b').withSplit r).entriesAt T.nextBucketIndexToSplit.toNat,
    _) ↔ _
  rw [hentries]
  rfl

/-- **The outcomes of put.** On every table of the shape a call does one of the three things. -/
theorem put_cases (h : PutShape L T) (keyHash offset : UInt64) :
    PutCases T keyHash offset (librekvLinearPut T keyHash offset) := by
  rcases h.chosenBucket_cases keyHash with ⟨hchoose, htarget⟩ | ⟨hchoose, hbeyond⟩
  · obtain ⟨b, hb⟩ := h.initialised _ (h.target_lt keyHash)
    have hchosen : T.bucket?
        (chosenBucket T.currentLevel T.nextBucketIndexToSplit keyHash).toNat = some b := by
      rw [htarget, hb]
    obtain ⟨r, b', hins, hb'⟩ := insert_eq h.capacity.1 h.capacity.2 hchosen keyHash offset
    by_cases hfull : b.Full
    · obtain rfl := (hb'.of_full hfull).1
      have hnothing := nothingToMove_stored hchosen hfull hb'
      have hentries := hb'.entries_of_full h.capacity.1 rfl hfull
      simp only [← UInt64.toNat_inj, htarget] at hentries
      rw [htarget] at hins hnothing
      rw [librekvLinearPut, hins, ok_bind, if_pos rfl]
      rcases putSplit_cases (h.setBucket hb true) with ⟨hmove, hsplit⟩ | ⟨hmove, hsplit⟩
      · rw [hsplit]
        exact .split b b' hchoose hb hfull (hnothing.mp hmove) hentries
      · rw [hsplit]
        exact .unallocated fun hcond => hmove (hnothing.mpr (hcond.2 ⟨b, hb, hfull⟩))
    · obtain ⟨rfl, hadd⟩ := hb'.of_not_full rfl hfull
      rw [librekvLinearPut, hins, ok_bind, htarget]
      exact .stored b b' hchoose hb hfull hadd
  · rw [librekvLinearPut, insert_of_size_le hbeyond, error_bind]
    exact .unallocated fun hcond => hchoose hcond.1

end Cases

end LibreKV.LinearHash
