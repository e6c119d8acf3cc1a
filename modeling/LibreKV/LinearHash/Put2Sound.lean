import LibreKV.LinearHash.Split

/-!
# LibreKV.LinearHash.Put2Sound

Every outcome of `librekv_linear_put2` on the tables its runs can reach.

A run reaches tables of two shapes. Up to the first split the array has `2 ^ L` buckets and
`m_currBucketNum` counts them. A split adds one bucket, sets `m_currBucketNum` back to
`2 ^ L` by assignment and raises the level; from then on the array has one bucket more than
are counted, and a second split overruns it in the display.
-/

namespace LibreKV.LinearHash

open FirstFit Fallible

variable {cap : UInt64}

/-- The tables that runs of `librekv_linear_put2` reach from the initial level `L₀`. -/
structure Put2Shape (L₀ : ℕ) (T : LinearTable cap) : Prop where
  capacity : 0 < cap.toNat ∧ cap.toNat < 2 ^ 31
  bound : L₀ ≤ 29
  next : T.nextBucketIndexToSplit = 0
  num : T.currBucketNum.toNat = 2 ^ L₀
  initialised : T.Initialised
  phase : (T.currentLevel.toNat = L₀ ∧ T.size = 2 ^ L₀) ∨
    (T.currentLevel.toNat = L₀ + 1 ∧ T.size = 2 ^ L₀ + 1 ∧ 0 < L₀)

/-- A split of the table returns: no bucket was added before, the `int` counter reaches
`m_entriesPerBucket + 1`, and what lies behind the first page of bucket 0 does not look like
an entry to move. -/
def LinearTable.SplitFits (T : LinearTable cap) (behind : LinearHashEntry) : Prop :=
  T.currBucketNum.toNat = T.size ∧ cap.toNat + 1 < 2 ^ 31 ∧
    behind.movesTo T.currentLevel T.currBucketNum = false

instance (T : LinearTable cap) (behind : LinearHashEntry) : Decidable (T.SplitFits behind) :=
  inferInstanceAs (Decidable (_ ∧ _ ∧ _))

/-- A split fits tables of the first shape only. -/
theorem Put2Shape.first_of_fits {L₀ : ℕ} {T : LinearTable cap} {behind : LinearHashEntry}
    (h : Put2Shape L₀ T) (hfits : T.SplitFits behind) :
    T.currentLevel.toNat = L₀ ∧ T.size = 2 ^ L₀ := by
  rcases h.phase with hfirst | ⟨-, hsize, -⟩
  · exact hfirst
  · have hnum := h.num
    have heq := hfits.1
    omega

/-- The truncated hash is the residue at the level of the table. -/
theorem Put2Shape.toNat_truncateHash {L₀ : ℕ} {T : LinearTable cap} (h : Put2Shape L₀ T)
    (keyHash : UInt64) : (truncateHash keyHash T.currentLevel).toNat = T.target keyHash := by
  have hbound := h.bound
  have hphase := h.phase
  exact LinearHash.toNat_truncateHash keyHash (by omega)

/-- Replacing a bucket keeps the shape. -/
theorem Put2Shape.setBucket {L₀ : ℕ} {T : LinearTable cap} (h : Put2Shape L₀ T) (i : ℕ)
    (b : LinearBucket cap) (r : Bool) : Put2Shape L₀ ((T.setBucket i b).withSplit r) where
  capacity := h.capacity
  bound := h.bound
  next := h.next
  num := h.num
  initialised := by
    intro j hj
    have hj' : j < T.size := hj.trans_eq (T.size_stored i b r)
    by_cases hi : i < T.size
    · rw [LinearTable.bucket?_stored hi, Function.update_apply]
      split
      · exact ⟨b, rfl⟩
      · exact h.initialised j hj'
    · obtain ⟨b', hb'⟩ := h.initialised j hj'
      refine ⟨b', ?_⟩
      show ((T.linearHashTable.set i (some b))[j]?).join = some b'
      rw [List.set_eq_of_length_le (not_lt.mp hi)]
      exact hb'
  phase := by
    rw [LinearTable.size_stored]
    exact h.phase

/-- Bucket 0 after the redistribution. -/
def LinearBucket.swept (b₀ : LinearBucket cap) (level : UInt16) (mirror : UInt64) :
    LinearBucket cap :=
  { b₀ with page := b₀.page.sweep (LinearHashEntry.relocated level mirror) cap.toNat }

/-- The entries of the first page that the redistribution moves. -/
def LinearBucket.moved (b₀ : LinearBucket cap) (level : UInt16) (mirror : UInt64) :
    Multiset LinearHashEntry :=
  (occupied LinearHashEntry.isValid b₀.page.slots).filter fun e => e.movesTo level mirror = true

/-- The entries of bucket 0 that the redistribution leaves: the others of the first page, and
all those of the overflow pages. -/
def LinearBucket.stayed (b₀ : LinearBucket cap) (level : UInt16) (mirror : UInt64) :
    Multiset LinearHashEntry :=
  (occupied LinearHashEntry.isValid b₀.page.slots).filter
      (fun e => e.movesTo level mirror = false) +
    occupied LinearHashEntry.isValid (b₀.next.flatMap Page.slots)

theorem LinearBucket.entries_eq (b : LinearBucket cap) :
    b.entries = occupied LinearHashEntry.isValid b.page.slots +
      occupied LinearHashEntry.isValid (b.next.flatMap Page.slots) := by
  rw [entries, slots, pages, List.flatMap_cons, occupied_append]

theorem LinearBucket.entries_swept (b₀ : LinearBucket cap) (level : UInt16) (mirror : UInt64) :
    (b₀.swept level mirror).entries = b₀.stayed level mirror := by
  have hmap : (b₀.page.sweep (LinearHashEntry.relocated level mirror) cap.toNat).slots =
      b₀.page.slots.map fun e => if e.movesTo level mirror then freeEntry else e :=
    sweep_of_length_le _ b₀.page.size.le
  rw [entries_eq, stayed, swept, hmap, occupied_map_free _ rfl]

/-- The redistribution loses nothing. -/
theorem LinearBucket.stayed_add_moved (b₀ : LinearBucket cap) (level : UInt16)
    (mirror : UInt64) : b₀.stayed level mirror + b₀.moved level mirror = b₀.entries := by
  have hnot : ∀ e : LinearHashEntry, e.movesTo level mirror = false ↔
      ¬ e.movesTo level mirror = true := fun e => by simp
  rw [stayed, moved, entries_eq, add_right_comm]
  congr 1
  simp only [hnot]
  rw [add_comm, Multiset.filter_add_not]

/-! ### The split on the first shape -/

/-- The table `T` after the redistribution that follows the addition of a bucket to `S`: bucket
0 is swept, and the new bucket `c` holds what was moved. -/
structure Redistributed (S : LinearTable cap) (b₀ c : LinearBucket cap) (T : LinearTable cap) :
    Prop where
  level : T.currentLevel = S.currentLevel
  next : T.nextBucketIndexToSplit = 0
  size : T.size = S.size + 1
  bucket? : ∀ j < S.size + 1, T.bucket? j =
    if j = 0 then some (b₀.swept S.currentLevel S.currBucketNum)
    else if j = S.size then some c else S.bucket? j
  moved : c.entries = b₀.moved S.currentLevel S.currBucketNum

/-- The buckets after a split of the table `S`, when the second insertion leaves `b₂` in
bucket `t` and the new bucket is `c`. -/
structure SplitBuckets (S : LinearTable cap) (b₀ : LinearBucket cap) (t : ℕ)
    (b₂ c : LinearBucket cap) (T' : LinearTable cap) : Prop where
  level : T'.currentLevel = S.currentLevel + 1
  num : T'.currBucketNum = S.currBucketNum
  next : T'.nextBucketIndexToSplit = 0
  size : T'.size = S.size + 1
  bucket? : ∀ j < T'.size, T'.bucket? j =
    if j = t then some b₂
    else if j = 0 then some (b₀.swept S.currentLevel S.currBucketNum)
    else if j = S.size then some c else S.bucket? j
  moved : c.entries = b₀.moved S.currentLevel S.currBucketNum

theorem SplitBuckets.initialised {S T' : LinearTable cap} {b₀ b₂ c : LinearBucket cap} {t : ℕ}
    (h : SplitBuckets S b₀ t b₂ c T') (hS : S.Initialised) : T'.Initialised := by
  intro j hj
  have hsize := h.size
  rw [h.bucket? j hj]
  split
  · exact ⟨_, rfl⟩
  · split
    · exact ⟨_, rfl⟩
    · split
      · exact ⟨_, rfl⟩
      · next hjn => exact hS j (by omega)

/-- The entries of the buckets after a split. -/
theorem SplitBuckets.entriesAt {S T' : LinearTable cap} {b₀ b₂ c : LinearBucket cap} {t : ℕ}
    (h : SplitBuckets S b₀ t b₂ c T') {j : ℕ} (hj : j < T'.size) : T'.entriesAt j =
      if j = t then b₂.entries
      else if j = 0 then b₀.stayed S.currentLevel S.currBucketNum
      else if j = S.size then b₀.moved S.currentLevel S.currBucketNum else S.entriesAt j := by
  have hbucket := h.bucket? j hj
  by_cases hjt : j = t
  · rw [if_pos hjt] at hbucket ⊢
    exact LinearTable.entriesAt_of_bucket? hbucket
  · rw [if_neg hjt] at hbucket ⊢
    by_cases hj₀ : j = 0
    · rw [if_pos hj₀] at hbucket ⊢
      rw [LinearTable.entriesAt_of_bucket? hbucket, LinearBucket.entries_swept]
    · rw [if_neg hj₀] at hbucket ⊢
      by_cases hjn : j = S.size
      · rw [if_pos hjn] at hbucket ⊢
        rw [LinearTable.entriesAt_of_bucket? hbucket, h.moved]
      · rw [if_neg hjn] at hbucket ⊢
        exact LinearTable.entriesAt_congr hbucket

section Split

variable {S : LinearTable cap} {L : ℕ} {b₀ b₁ : LinearBucket cap}
  {keyHash : UInt64}

/-- Where a split fits, the redistribution of the grown table returns. -/
theorem Grown.redistributed {S₁ : LinearTable cap} {behind : LinearHashEntry}
    (hgrown : Grown S S₁) (hnext : S.nextBucketIndexToSplit = 0) (hpos : 0 < S.size)
    (hfits : S.SplitFits behind) (h₀ : S.bucket? 0 = some b₀) :
    ∃ c S₂, redistribute behind S₁ = .ok S₂ ∧ Redistributed S b₀ c S₂ := by
  obtain ⟨hnum, hcap', hbehind⟩ := hfits
  have hkept₀ : S₁.bucket? 0 = some b₀ := by rw [hgrown.kept 0 (by omega), h₀]
  obtain ⟨S₂, hred, hswept⟩ := redistribute_swept hcap' (hgrown.next.trans hnext) hgrown.mirror
    (by omega) hkept₀ hgrown.added (by rw [hgrown.level]; exact hbehind)
  obtain ⟨c, hc, hmoved⟩ := hswept.fresh
  have hhead := hswept.head
  rw [hgrown.level] at hhead
  rw [hgrown.level, List.take_of_length_le b₀.page.size.le] at hmoved
  refine ⟨c, S₂, hred, hswept.same.level.trans hgrown.level, ?_, ?_, ?_, hmoved⟩
  · exact (hswept.same.next.trans hgrown.next).trans hnext
  · rw [hswept.same.size, hgrown.size, hnum]
  · intro j hj
    by_cases hj₀ : j = 0
    · rw [if_pos hj₀, hj₀]
      exact hhead
    · rw [if_neg hj₀]
      by_cases hjn : j = S.size
      · rw [if_pos hjn, hjn, ← hnum]
        exact hc
      · rw [if_neg hjn, ← hgrown.kept j (by omega)]
        exact hswept.other j hj₀ (by omega)

/-- The split of a table whose `2 ^ L` buckets are all counted. -/
theorem put2Split_eq {behind : LinearHashEntry} (hshape : Put2Shape L S)
    (hfits : S.SplitFits behind) (h₀ : S.bucket? 0 = some b₀)
    (h₁ : S.bucket? (S.target keyHash) = some b₁) (offset : UInt64) :
    ∃ r b₂ c T', put2Split behind S keyHash offset = .ok T' ∧
      Inserted (occupiedEntry keyHash offset) 1 (truncateHash keyHash S.currentLevel)
        (if S.target keyHash = 0 then b₀.swept S.currentLevel S.currBucketNum else b₁) r b₂ ∧
      SplitBuckets S b₀ (S.target keyHash) b₂ c T' := by
  have hbound := hshape.bound
  have hnum := hshape.num
  obtain ⟨hlevel, hsize⟩ := hshape.first_of_fits hfits
  have hpow : 2 ^ L ≤ 2 ^ 29 := Nat.pow_le_pow_right (by omega) hbound
  have ht := hshape.toNat_truncateHash keyHash
  have htlt : S.target keyHash < S.size := LinearTable.lt_size h₁
  obtain ⟨S₁, hadd, hgrown, hstore⟩ := addBucket_grown (T := S) hshape.capacity.2 (by omega)
  obtain ⟨c, S₂, hred, hmid⟩ := hgrown.redistributed hshape.next (by omega) hfits h₀
  -- The second insertion meets the bucket with `m_nextBucketIndexToSplit` already raised.
  have hnext₃ : S₂.advanceNext.nextBucketIndexToSplit = 1 := by
    show S₂.nextBucketIndexToSplit + 1 = 1
    rw [hmid.next]
    rfl
  have htarget : S₂.advanceNext.bucket? (truncateHash keyHash S.currentLevel).toNat =
      some (if S.target keyHash = 0 then b₀.swept S.currentLevel S.currBucketNum else b₁) := by
    rw [ht]
    refine (hmid.bucket? _ (by omega)).trans ?_
    by_cases ht₀ : S.target keyHash = 0
    · rw [if_pos ht₀, if_pos ht₀]
    · rw [if_neg ht₀, if_neg ht₀, if_neg (Nat.ne_of_lt htlt), h₁]
  obtain ⟨r, b₂, hins, hb₂⟩ := insert_eq hshape.capacity.1 hshape.capacity.2 htarget keyHash offset
  rw [ht] at hins
  rw [hnext₃] at hb₂
  let S₄ := (S₂.advanceNext.setBucket (S.target keyHash) b₂).withSplit r
  have hlevel₄ : S₄.currentLevel = S.currentLevel := hmid.level
  have hsize₄ : S₄.size = S.size + 1 := (LinearTable.size_stored _ _ _ _).trans hmid.size
  have hbucket₄ : S₄.bucket? = Function.update S₂.bucket? (S.target keyHash) (some b₂) :=
    LinearTable.bucket?_stored (ht ▸ LinearTable.lt_size htarget) b₂ r
  have hpower : twoToLevel S.currentLevel = S.currBucketNum := by
    apply UInt64.toNat_inj.mp
    rw [toNat_twoToLevel (by omega), hlevel, hnum]
  have hraise := S₄.raiseLevel_eq (by rw [hlevel₄]; omega)
  rw [hlevel₄, hpower] at hraise
  refine ⟨r, b₂, c, S₄.raiseLevel, ?_, hb₂, ?_⟩
  · rw [put2Split, hadd, ok_bind, hstore, ok_bind, hred, ok_bind, hins, ok_bind]
  · rw [hraise]
    refine ⟨rfl, rfl, rfl, hsize₄, fun j hj => ?_, hmid.moved⟩
    show S₄.bucket? j = _
    rw [hbucket₄, Function.update_apply, hmid.bucket? j (hj.trans_eq hsize₄)]

/-- Every outcome of a split: it has added a bucket, run the loop and raised the level. -/
theorem put2Split_inv {behind : LinearHashEntry} {offset : UInt64} {T' : LinearTable cap}
    (hcap : cap.toNat < 2 ^ 31) (hnum : S.currBucketNum.toNat < 2 ^ 59)
    (h : put2Split behind S keyHash offset = .ok T') :
    ∃ S₁ S₂ S₄, Grown S S₁ ∧ redistribute behind S₁ = .ok S₂ ∧
      SameCounters S₂.advanceNext S₄ ∧ T' = S₄.raiseLevel := by
  obtain ⟨S₁, hadd, hgrown, hstore⟩ := addBucket_grown (T := S) hcap hnum
  rw [put2Split, hadd, ok_bind, hstore, ok_bind, bind_eq_ok] at h
  obtain ⟨S₂, hred, h⟩ := h
  rw [bind_eq_ok] at h
  obtain ⟨⟨r, S₄⟩, hins, h⟩ := h
  exact ⟨S₁, S₂, S₄, hgrown, hred, .insert hins, (Except.ok.inj h).symm⟩

end Split

/-! ### The outcomes of a call -/

/-- How often a split stores the entry that asked for it in bucket `t`: once before and once
after the redistribution, except that bucket 0 refuses the first and a full bucket 1 the
second insertion. -/
def copies (cap : UInt64) (t : ℕ) : ℕ := if t = 0 ∨ (t = 1 ∧ cap.toNat = 1) then 1 else 2

/-- The table after a call that split: what every bucket holds. -/
structure SplitResult (T : LinearTable cap) (e : LinearHashEntry) (t : ℕ)
    (b₀ : LinearBucket cap) (T' : LinearTable cap) : Prop where
  level : T'.currentLevel = T.currentLevel + 1
  num : T'.currBucketNum = T.currBucketNum
  next : T'.nextBucketIndexToSplit = 0
  size : T'.size = T.size + 1
  initialised : T'.Initialised
  entriesAt : ∀ j, T'.entriesAt j =
    (if j = 0 then b₀.stayed T.currentLevel T.currBucketNum
      else if j = T.size then b₀.moved T.currentLevel T.currBucketNum else T.entriesAt j) +
    if j = t then copies cap t • {e} else 0

/-- The outcomes of `librekv_linear_put2(keyHash, offset)` on the table `T`. -/
inductive Put2Cases (behind : LinearHashEntry) (T : LinearTable cap) (keyHash offset : UInt64) :
    Except Fault (LinearTable cap) → Prop
  /-- At level 0 the insertion loop has no round. -/
  | idle : T.currentLevel.toNat = 0 →
      Put2Cases behind T keyHash offset (.ok { T with isSplit := false })
  /-- The bucket is not there. -/
  | unallocated : 0 < T.currentLevel.toNat → T.size ≤ T.target keyHash →
      Put2Cases behind T keyHash offset (.error .unallocatedBucket)
  /-- The chain had a free slot. -/
  | stored (b b' : LinearBucket cap) : 0 < T.currentLevel.toNat →
      T.bucket? (T.target keyHash) = some b → ¬ b.Full →
      b'.entries = occupiedEntry keyHash offset ::ₘ b.entries →
      Put2Cases behind T keyHash offset
        (.ok ((T.setBucket (T.target keyHash) b').withSplit false))
  /-- The chain was full, and the split returned. -/
  | split (b b₀ : LinearBucket cap) (T' : LinearTable cap) : 0 < T.currentLevel.toNat →
      T.bucket? (T.target keyHash) = some b → b.Full → T.bucket? 0 = some b₀ →
      T.SplitFits behind →
      SplitResult T (occupiedEntry keyHash offset) (T.target keyHash) b₀ T' →
      Put2Cases behind T keyHash offset (.ok T')
  /-- The chain was full, and the split did not return. -/
  | crashed (b : LinearBucket cap) (fault : Fault) : 0 < T.currentLevel.toNat →
      T.bucket? (T.target keyHash) = some b → b.Full → ¬ T.SplitFits behind →
      Put2Cases behind T keyHash offset (.error fault)

/-- What the bucket of the entry holds after both insertions. -/
theorem entries_of_insertions {keyHash offset i : UInt64} {b b₁ b₂ w : LinearBucket cap}
    {r : Bool} (hcap : 0 < cap.toNat) (hfull : b.Full)
    (h₁ : Inserted (occupiedEntry keyHash offset) 0 i b true b₁)
    (h₂ : Inserted (occupiedEntry keyHash offset) 1 i (if i.toNat = 0 then w else b₁) r b₂) :
    b₂.entries = (if i.toNat = 0 then w.entries else b.entries) +
      copies cap i.toNat • {occupiedEntry keyHash offset} := by
  have he : (occupiedEntry keyHash offset).isValid = false := rfl
  have hval : ∀ n : UInt64, n = i ↔ i.toNat = n.toNat := fun n => by
    rw [← UInt64.toNat_inj, eq_comm]
  have h0 : (0 : UInt64).toNat = 0 := rfl
  have h1 : (1 : UInt64).toNat = 1 := rfl
  by_cases hi₀ : i.toNat = 0
  · rw [if_pos hi₀] at h₂ ⊢
    have hne : (1 : UInt64) ≠ i := by rw [ne_eq, hval]; omega
    rw [h₂.entries_of_ne hcap he hne, copies, if_pos (Or.inl hi₀), one_nsmul, add_comm,
      Multiset.singleton_add]
  · rw [if_neg hi₀] at h₂ ⊢
    have hne₀ : (0 : UInt64) ≠ i := by rw [ne_eq, hval]; omega
    -- The first insertion appended a page, which is full only when pages have one slot.
    obtain ⟨hentries, hfull₁⟩ := h₁.of_full_of_ne hcap he hfull hne₀
    by_cases hrefuse : i.toNat = 1 ∧ cap.toNat = 1
    · have hsame : b₂ = b₁ := by
        rcases (h₂.of_full (hfull₁.mpr hrefuse.2)).2 with ⟨h, -⟩ | ⟨-, h⟩
        · exact absurd ((hval 1).mpr (hrefuse.1.trans h1.symm)) h
        · exact h
      rw [hsame, hentries, copies, if_pos (Or.inr hrefuse), one_nsmul]
    · have hcopies : copies cap i.toNat = 2 := by
        rw [copies, if_neg]
        intro h
        cases h with
        | inl h => exact hi₀ h
        | inr h => exact hrefuse h
      have hstored : b₂.entries = occupiedEntry keyHash offset ::ₘ b₁.entries := by
        by_cases hc : cap.toNat = 1
        · have hne₁ : (1 : UInt64) ≠ i := by
            rw [ne_eq, hval]
            exact fun h => hrefuse ⟨h.trans h1, hc⟩
          exact h₂.entries_of_ne hcap he hne₁
        · exact (h₂.of_not_full he fun h => hc (hfull₁.mp h)).2
      rw [hstored, hentries, hcopies, two_nsmul, ← Multiset.singleton_add, ← add_assoc,
        add_comm {_}, add_assoc]

section Cases

variable {T : LinearTable cap} {L₀ : ℕ} {behind : LinearHashEntry} {keyHash offset : UInt64}

/-- A full bucket changes only in the first insertion; the flags and counters stay. -/
theorem put2Insert_eq {b : LinearBucket cap} (hshape : Put2Shape L₀ T)
    (hpos : 0 < T.currentLevel.toNat) (hb : T.bucket? (T.target keyHash) = some b)
    (offset : UInt64) :
    ∃ r b₁, put2Insert T keyHash offset = .ok ((T.setBucket (T.target keyHash) b₁).withSplit r) ∧
      Inserted (occupiedEntry keyHash offset) 0 (truncateHash keyHash T.currentLevel) b r b₁ := by
  have ht := hshape.toNat_truncateHash keyHash
  obtain ⟨r, b₁, hins, hb₁⟩ :=
    insert_eq hshape.capacity.1 hshape.capacity.2 (ht ▸ hb) keyHash offset
  rw [hshape.next] at hb₁
  refine ⟨r, b₁, ?_, hb₁⟩
  have hpos' : (0 : UInt16) < T.currentLevel := UInt16.lt_iff_toNat_lt.mpr hpos
  rw [put2Insert, if_pos hpos', hins, ok_bind, ht]
  rfl

/-- A split returns only where it fits. -/
theorem splitFits_of_put2Split {S T' : LinearTable cap} (hshape : Put2Shape L₀ S)
    (hsplit : put2Split behind S keyHash offset = .ok T')
    (hdisplay : librekvLinearDisplayHashTable T' = .ok ()) : S.SplitFits behind := by
  have hbound := hshape.bound
  have hnum := hshape.num
  have hphase := hshape.phase
  have hpow : 2 ^ L₀ ≤ 2 ^ 29 := Nat.pow_le_pow_right (by omega) hbound
  have hpow₀ : 0 < 2 ^ L₀ := Nat.two_pow_pos L₀
  obtain ⟨S₁, S₂, S₄, hgrown, hred, hsame, rfl⟩ :=
    put2Split_inv hshape.capacity.2 (by omega) hsplit
  have hcap' : cap.toNat + 1 < 2 ^ 31 := by
    by_contra hge
    rw [redistribute, if_neg hge] at hred
    cases hred
  have hkept : SameCounters S₁ S₂ := .redistribute hred
  have hlevel₄ : S₄.currentLevel = S.currentLevel :=
    (hsame.level.trans hkept.level).trans hgrown.level
  have hsize₄ : S₄.size = 2 ^ L₀ + 1 := by
    rw [hsame.size]
    exact hkept.size.trans (hgrown.size.trans (by rw [hnum]))
  rcases hphase with ⟨hlevel, hsize⟩ | ⟨hlevel, -, hpos⟩
  · refine ⟨hnum.trans hsize.symm, hcap', ?_⟩
    obtain ⟨b₀, h₀⟩ := hshape.initialised 0 (by omega)
    have hkept₀ : S₁.bucket? 0 = some b₀ := by rw [hgrown.kept 0 (by omega), h₀]
    cases hbehind : behind.movesTo S.currentLevel S.currBucketNum with
    | false => rfl
    | true =>
        rw [← hgrown.level] at hbehind
        exact absurd hred (redistribute_crashes hcap' (hgrown.next.trans hshape.next)
          hgrown.mirror (by omega) hkept₀ hgrown.added hbehind S₂)
  · -- The second split counts `2 ^ (L₀ + 1)` buckets, of which `2 ^ L₀ + 1` exist.
    have hone : 2 ≤ 2 ^ L₀ := Nat.le_self_pow (by omega) 2
    refine absurd hdisplay (display_overruns (by rw [hlevel₄]; omega) ?_)
    rw [hsize₄, hlevel₄, hlevel, pow_succ]
    omega

/-- The split seen from the table before the call. -/
theorem SplitBuckets.result {S T' : LinearTable cap} {b b₀ b₁ b₂ c : LinearBucket cap} {r : Bool}
    (h : SplitBuckets S b₀ (T.target keyHash) b₂ c T') (hshape : Put2Shape L₀ T)
    (hb : T.bucket? (T.target keyHash) = some b) (hfull : b.Full)
    (hS : S = (T.setBucket (T.target keyHash) b₁).withSplit true)
    (ht : (truncateHash keyHash T.currentLevel).toNat = T.target keyHash)
    (h₁ : Inserted (occupiedEntry keyHash offset) 0 (truncateHash keyHash T.currentLevel) b
      true b₁)
    (h₂ : Inserted (occupiedEntry keyHash offset) 1 (truncateHash keyHash T.currentLevel)
      (if T.target keyHash = 0 then b₀.swept T.currentLevel T.currBucketNum else b₁) r b₂) :
    SplitResult T (occupiedEntry keyHash offset) (T.target keyHash) b₀ T' := by
  have htlt : T.target keyHash < T.size := LinearTable.lt_size hb
  have hsizeS : S.size = T.size := by rw [hS, LinearTable.size_stored]
  have hbucketS : ∀ j, j ≠ T.target keyHash → S.bucket? j = T.bucket? j := by
    intro j hj
    rw [hS, LinearTable.bucket?_stored htlt, Function.update_of_ne hj]
  have hlevelS : S.currentLevel = T.currentLevel := by rw [hS]; rfl
  have hnumS : S.currBucketNum = T.currBucketNum := by rw [hS]; rfl
  have hsize : T'.size = T.size + 1 := by rw [h.size, hsizeS]
  have hinit : S.Initialised := by
    rw [hS]
    exact (hshape.setBucket _ b₁ true).initialised
  refine ⟨by rw [h.level, hlevelS], by rw [h.num, hnumS], h.next, hsize, h.initialised hinit, ?_⟩
  intro j
  by_cases hj : j < T'.size
  · rw [h.entriesAt hj, hlevelS, hnumS, hsizeS]
    by_cases hjt : j = T.target keyHash
    · have htwice := entries_of_insertions hshape.capacity.1 hfull h₁ (ht.symm ▸ h₂)
      rw [ht, LinearBucket.entries_swept] at htwice
      rw [if_pos hjt, if_pos hjt, htwice, hjt]
      by_cases ht₀ : T.target keyHash = 0
      · rw [if_pos ht₀, if_pos ht₀]
      · rw [if_neg ht₀, if_neg ht₀, if_neg (Nat.ne_of_lt htlt),
          LinearTable.entriesAt_of_bucket? hb]
    · rw [if_neg hjt, if_neg hjt, add_zero, LinearTable.entriesAt_congr (hbucketS j hjt)]
  · rw [if_neg (by omega), if_neg (by omega), if_neg (by omega), add_zero,
      LinearTable.entriesAt_of_size_le (by omega), LinearTable.entriesAt_of_size_le (by omega)]

/-- A call on a full bucket of a table where the split fits. -/
theorem put2_split {b b₁ : LinearBucket cap} (hshape : Put2Shape L₀ T)
    (hb : T.bucket? (T.target keyHash) = some b) (hfull : b.Full)
    (hfits : T.SplitFits behind)
    (hb₁ : Inserted (occupiedEntry keyHash offset) 0 (truncateHash keyHash T.currentLevel) b
      true b₁) :
    ∃ b₀ T', T.bucket? 0 = some b₀ ∧
      put2Split behind ((T.setBucket (T.target keyHash) b₁).withSplit true) keyHash offset =
        .ok T' ∧
      librekvLinearDisplayHashTable T' = .ok () ∧
      SplitResult T (occupiedEntry keyHash offset) (T.target keyHash) b₀ T' := by
  have ht := hshape.toNat_truncateHash keyHash
  obtain ⟨b₀, h₀⟩ := hshape.initialised 0 (Nat.zero_lt_of_lt (LinearTable.lt_size hb))
  let S := (T.setBucket (T.target keyHash) b₁).withSplit true
  have hlook : S.bucket? = Function.update T.bucket? (T.target keyHash) (some b₁) :=
    LinearTable.bucket?_stored (LinearTable.lt_size hb) b₁ true
  -- Bucket 0 is as it was: the first insertion is refused there.
  have hhead : S.bucket? 0 = some b₀ := by
    rw [hlook, Function.update_apply]
    by_cases ht₀ : 0 = T.target keyHash
    · rw [if_pos ht₀, ← h₀, ht₀, hb]
      rcases (hb₁.of_full hfull).2 with ⟨hne, -⟩ | ⟨-, h⟩
      · have hval : (0 : UInt64).toNat = (truncateHash keyHash T.currentLevel).toNat :=
          ht₀.trans ht.symm
        exact absurd (UInt64.toNat_inj.mp hval) hne
      · rw [h]
    · rw [if_neg ht₀, h₀]
  have htarget : S.bucket? (T.target keyHash) = some b₁ := by
    rw [hlook, Function.update_self]
  have hfitsS : S.SplitFits behind := ⟨hfits.1.trans (T.size_stored _ _ _).symm, hfits.2⟩
  obtain ⟨r, b₂, c, T', hput, hb₂, hbuckets⟩ :=
    put2Split_eq (S := S) (hshape.setBucket _ b₁ true) hfitsS hhead htarget offset
  have hresult := SplitBuckets.result (T := T) hbuckets hshape hb hfull rfl ht hb₁ hb₂
  refine ⟨b₀, T', h₀, hput, display_eq_ok.mpr ?_, hresult⟩
  intro i hi
  apply hresult.initialised
  rw [hresult.num, hfits.1] at hi
  rw [hresult.size]
  exact Nat.lt_succ_of_lt hi

/-- **The outcomes of put2.** On every table of the two shapes a call does one of the five
things. -/
theorem put2_cases (hshape : Put2Shape L₀ T) (behind : LinearHashEntry)
    (keyHash offset : UInt64) :
    Put2Cases behind T keyHash offset (librekvLinearPut2 behind T keyHash offset) := by
  have ht := hshape.toNat_truncateHash keyHash
  rcases Nat.eq_zero_or_pos T.currentLevel.toNat with hzero | hpos
  · have hlt : ¬ (0 : UInt16) < T.currentLevel := by
      rw [UInt16.lt_iff_toNat_lt, hzero]
      exact Nat.lt_irrefl 0
    rw [librekvLinearPut2, put2Insert, if_neg hlt, ok_bind]
    exact .idle hzero
  · by_cases hsize : T.size ≤ T.target keyHash
    · have hlt : (0 : UInt16) < T.currentLevel := UInt16.lt_iff_toNat_lt.mpr hpos
      rw [librekvLinearPut2, put2Insert, if_pos hlt, insert_of_size_le (by rw [ht]; exact hsize),
        error_bind, error_bind]
      exact .unallocated hpos hsize
    · obtain ⟨b, hb⟩ := hshape.initialised _ (not_le.mp hsize)
      obtain ⟨r, b₁, hins, hb₁⟩ := put2Insert_eq hshape hpos hb offset
      rw [librekvLinearPut2, hins, ok_bind]
      by_cases hfull : b.Full
      · obtain rfl := (hb₁.of_full hfull).1
        rw [if_pos (show (LinearTable.withSplit _ true).isSplit = true from rfl)]
        by_cases hfits : T.SplitFits behind
        · obtain ⟨b₀, T', h₀, hput, hdisplay, hresult⟩ :=
            put2_split hshape hb hfull hfits hb₁
          rw [hput, ok_bind, hdisplay, ok_bind]
          exact .split b b₀ T' hpos hb hfull h₀ hfits hresult
        · cases hput : put2Split behind _ keyHash offset with
          | error fault => exact .crashed b fault hpos hb hfull hfits
          | ok T' =>
              rw [ok_bind]
              cases hdisplay : librekvLinearDisplayHashTable T' with
              | error fault => exact .crashed b fault hpos hb hfull hfits
              | ok _ =>
                  obtain ⟨hnum, hrest⟩ :=
                    splitFits_of_put2Split (hshape.setBucket _ b₁ true) hput hdisplay
                  exact absurd ⟨hnum.trans (T.size_stored _ _ _), hrest⟩ hfits
      · obtain ⟨rfl, hadd⟩ := hb₁.of_not_full rfl hfull
        exact .stored b b₁ hpos hb hfull hadd

end Cases

end LibreKV.LinearHash
