import Mathlib.Algebra.BigOperators.Group.Finset.Piecewise
import LibreKV.Lib.LinearAddress
import LibreKV.Lib.Transition
import LibreKV.LinearHash.Put2Sound

/-!
# LibreKV.LinearHash.Put2Runs

Runs of `librekv_linear_put2` on a created table: what a call does to the stored pairs, and
when every pair is in the bucket that linear hashing addresses it to.
-/

namespace LibreKV.LinearHash

open FirstFit Transition

variable {cap : UInt64}

/-- A call of `librekv_linear_put2`, with what the heap holds behind the first page of the
bucket due to be split. -/
structure Put2Call where
  keyHash : UInt64
  offset : UInt64
  behind : LinearHashEntry

/-- A call that returns. -/
def Put2Step (T : LinearTable cap) (c : Put2Call) (T' : LinearTable cap) : Prop :=
  librekvLinearPut2 c.behind T c.keyHash c.offset = .ok T'

/-! ### Every run keeps to the two shapes -/

variable {L₀ : ℕ} {T T' : LinearTable cap} {c : Put2Call}

theorem Created.put2Shape (h : Created L₀ T) (hcap : 0 < cap.toNat) (hL₀ : L₀ ≤ 29) :
    Put2Shape L₀ T where
  capacity := ⟨hcap, h.capacity⟩
  bound := hL₀
  next := h.next
  num := h.num
  initialised := h.initialised
  phase := Or.inl ⟨h.level, by rw [LinearTable.size, h.table, List.length_replicate]⟩

theorem Put2Shape.step (h : Put2Shape L₀ T) (hstep : Put2Step T c T') : Put2Shape L₀ T' := by
  have hcases := put2_cases h c.behind c.keyHash c.offset
  rw [hstep] at hcases
  cases hcases with
  | idle _ => exact ⟨h.capacity, h.bound, h.next, h.num, h.initialised, h.phase⟩
  | stored b b' _ _ _ _ => exact h.setBucket _ b' false
  | split b b₀ T' hpos _ _ _ hfits hresult =>
      -- A split fits the first shape only, and leads to the second.
      obtain ⟨hlevel, hsize⟩ := h.first_of_fits hfits
      have hbound := h.bound
      refine ⟨h.capacity, hbound, hresult.next, by rw [hresult.num, h.num],
        hresult.initialised, Or.inr ⟨?_, by rw [hresult.size, hsize], by omega⟩⟩
      rw [hresult.level, toNat_level_succ (by omega), hlevel]

/-- Runs from a created table. -/
theorem put2Shape_run {c : UInt64} {prior : LinearTable c} {i_initialLevel : UInt32}
    {i_entriesPerBucket : UInt64} {r : Int} {T₀ T : LinearTable (capacityOf i_entriesPerBucket)}
    {log : List Put2Call} (hlevel : i_initialLevel.toNat ≤ 29)
    (hcreate : librekvLinearCreate prior i_initialLevel i_entriesPerBucket = .ok (r, T₀))
    (hrun : Run Put2Step T₀ log T) : Put2Shape i_initialLevel.toNat T :=
  hrun.invariant ((create_created hlevel hcreate).put2Shape (capacityOf_pos _) hlevel)
    fun _ _ _ h hstep => h.step hstep

/-! ### What a call stores -/

/-- The part of a sum over the buckets that a redistribution moves is still there. -/
theorem sum_redistributed {f : ℕ → Multiset LinearHashEntry} {n : ℕ}
    {stayed moved : Multiset LinearHashEntry} (hn : 0 < n) (h : stayed + moved = f 0) :
    (∑ j ∈ Finset.range (n + 1), if j = 0 then stayed else if j = n then moved else f j) =
      ∑ j ∈ Finset.range n, f j := by
  obtain ⟨m, rfl⟩ := Nat.exists_eq_succ_of_ne_zero (Nat.pos_iff_ne_zero.mp hn)
  have hmid : ∀ j ∈ Finset.range m, (if j + 1 = 0 then stayed
      else if j + 1 = m.succ then moved else f (j + 1)) = f (j + 1) := by
    intro j hj
    have := Finset.mem_range.mp hj
    rw [if_neg (by omega), if_neg (by omega)]
  rw [Finset.sum_range_succ, Finset.sum_range_succ', Finset.sum_range_succ',
    Finset.sum_congr rfl hmid, if_pos rfl, if_neg (by omega), if_pos rfl, ← h, add_assoc]

theorem SplitResult.entries {e : LinearHashEntry} {t : ℕ} {b₀ : LinearBucket cap}
    (h : SplitResult T e t b₀ T') (h₀ : T.bucket? 0 = some b₀) (ht : t < T.size) :
    T'.entries = copies cap t • {e} + T.entries := by
  have hmem : t ∈ Finset.range (T.size + 1) := Finset.mem_range.mpr (by omega)
  have hsum := sum_redistributed (f := T.entriesAt) (LinearTable.lt_size h₀)
    ((b₀.stayed_add_moved T.currentLevel T.currBucketNum).trans
      (LinearTable.entriesAt_of_bucket? h₀).symm)
  rw [LinearTable.entries, h.size, Finset.sum_congr rfl fun j _ => h.entriesAt j,
    Finset.sum_add_distrib, hsum, Finset.sum_ite_eq' , if_pos hmem, add_comm]
  rfl

/-- The pair that a call stores. -/
def Put2Call.pair (c : Put2Call) : UInt64 × UInt64 := (c.keyHash, c.offset)

/-- A call that returns adds its own pair some number of times and nothing else. -/
theorem Put2Step.contents (h : Put2Shape L₀ T) (hstep : Put2Step T c T') :
    ∃ n, T'.contents = n • {c.pair} + T.contents ∧
      (n = 1 ↔ 0 < T.currentLevel.toNat ∧ (T.FullAt (T.target c.keyHash) →
        T.target c.keyHash = 0 ∨ (T.target c.keyHash = 1 ∧ cap.toNat = 1))) := by
  have hcases := put2_cases h c.behind c.keyHash c.offset
  rw [hstep] at hcases
  cases hcases with
  | idle hzero =>
      refine ⟨0, by rw [zero_nsmul, zero_add]; rfl, by omega, ?_⟩
      intro hcond
      obtain ⟨hpos, -⟩ := hcond
      omega
  | stored b b' hpos hb hfull hadd =>
      refine ⟨1, ?_, fun _ => ⟨hpos, fun h => absurd h (LinearTable.not_fullAt hb hfull)⟩,
        fun _ => rfl⟩
      rw [one_nsmul]
      exact LinearTable.contents_setBucket hb (hadd.trans (Multiset.singleton_add _ _).symm)
  | split b b₀ T' hpos hb hfull h₀ _ hresult =>
      refine ⟨copies cap (T.target c.keyHash), ?_, ?_⟩
      · rw [LinearTable.contents, hresult.entries h₀ (LinearTable.lt_size hb), Multiset.map_add,
          Multiset.map_nsmul, Multiset.map_singleton]
        rfl
      · unfold copies
        constructor
        · intro hone
          refine ⟨hpos, fun _ => ?_⟩
          by_contra hno
          rw [if_neg hno] at hone
          omega
        · intro hcond
          obtain ⟨-, hone⟩ := hcond
          exact if_pos (hone ⟨b, hb, hfull⟩)

/-- A call returns iff its bucket is there and has a free slot, or the split fits. -/
theorem put2_returns_iff (h : Put2Shape L₀ T) (hpos : 0 < T.currentLevel.toNat)
    (c : Put2Call) :
    (∃ T', Put2Step T c T') ↔ T.target c.keyHash < T.size ∧
      (T.FullAt (T.target c.keyHash) → T.SplitFits c.behind) := by
  have hcases := put2_cases h c.behind c.keyHash c.offset
  unfold Put2Step
  generalize librekvLinearPut2 c.behind T c.keyHash c.offset = res at hcases
  cases hcases with
  | idle hzero => omega
  | unallocated _ hsize =>
      refine ⟨?_, fun hlt => absurd hlt.1 (not_lt.mpr hsize)⟩
      intro hret
      obtain ⟨T', hT'⟩ := hret
      cases hT'
  | stored b b' _ hb hfull _ =>
      exact ⟨fun _ => ⟨LinearTable.lt_size hb,
        fun h => absurd h (LinearTable.not_fullAt hb hfull)⟩, fun _ => ⟨_, rfl⟩⟩
  | split b b₀ T' _ hb hfull _ hfits _ =>
      exact ⟨fun _ => ⟨LinearTable.lt_size hb, fun _ => hfits⟩, fun _ => ⟨T', rfl⟩⟩
  | crashed b fault _ hb hfull hfits =>
      refine ⟨?_, fun hlt => absurd (hlt.2 ⟨b, hb, hfull⟩) hfits⟩
      intro hret
      obtain ⟨T', hT'⟩ := hret
      cases hT'

theorem Put2Shape.level_pos (h : Put2Shape L₀ T) (hL₀ : 0 < L₀) : 0 < T.currentLevel.toNat := by
  rcases h.phase with ⟨hlevel, -⟩ | ⟨hlevel, -, -⟩ <;> omega

/-! ### Where a call stores -/

/-- Every occupied entry, on whichever page of a chain, is in the bucket that linear hashing
addresses it to. -/
def LinearTable.Addressed (T : LinearTable cap) : Prop :=
  ∀ i, ∀ e ∈ T.entriesAt i, i = LinearAddress.address T.currentLevel.toNat
    T.nextBucketIndexToSplit.toNat e.keyHash.toNat

/-- The entry is stored in the table, and not on the page that the redistribution sweeps. -/
def LinearTable.OutsideFirstPage (T : LinearTable cap) (e : LinearHashEntry) : Prop :=
  (∃ j, j ≠ 0 ∧ e ∈ T.entriesAt j) ∨
    ∃ b₀, T.bucket? 0 = some b₀ ∧
      e ∈ occupied LinearHashEntry.isValid (b₀.next.flatMap Page.slots)

/-- Only entries of the first page of bucket 0 change their bucket with the level. -/
def LinearTable.OnlyFirstPageMoves (T : LinearTable cap) (keyHash : UInt64) : Prop :=
  LowHalf T.currentLevel keyHash ∧ ∀ e, T.OutsideFirstPage e → LowHalf T.currentLevel e.keyHash

/-- Only the buckets of the array have to be looked at. -/
theorem onlyFirstPageMoves_iff {keyHash : UInt64} : T.OnlyFirstPageMoves keyHash ↔
    LowHalf T.currentLevel keyHash ∧
      (∀ j < T.size, j ≠ 0 → ∀ e ∈ T.entriesAt j, LowHalf T.currentLevel e.keyHash) ∧
      ∀ b₀ ∈ T.bucket? 0, ∀ e ∈ occupied LinearHashEntry.isValid (b₀.next.flatMap Page.slots),
        LowHalf T.currentLevel e.keyHash := by
  refine and_congr_right fun _ => ⟨fun h => ⟨?_, ?_⟩, fun h => ?_⟩
  · intro j _ hj e he
    exact h e (Or.inl ⟨j, hj, he⟩)
  · intro b₀ hb e he
    exact h e (Or.inr ⟨b₀, hb, he⟩)
  · rintro e (⟨j, hj, he⟩ | ⟨b₀, hb, he⟩)
    · refine h.1 j ?_ hj e he
      by_contra hge
      rw [LinearTable.entriesAt_of_size_le (not_lt.mp hge)] at he
      exact Multiset.notMem_zero e he
    · exact h.2 b₀ hb e he

instance (T : LinearTable cap) (keyHash : UInt64) : Decidable (T.OnlyFirstPageMoves keyHash) :=
  decidable_of_iff _ onlyFirstPageMoves_iff.symm

theorem Addressed_iff_of_next (hnext : T.nextBucketIndexToSplit = 0) :
    T.Addressed ↔ ∀ i, ∀ e ∈ T.entriesAt i, i = e.keyHash.toNat % 2 ^ T.currentLevel.toNat := by
  have hzero : T.nextBucketIndexToSplit.toNat = 0 := by rw [hnext]; rfl
  simp only [LinearTable.Addressed, hzero, LinearAddress.address_zero]

section Moves

variable {e : LinearHashEntry} {keyHash : UInt64} {b₀ : LinearBucket cap}

/-- In an addressed table after a split, every entry outside the first page is where it was
before, so the new level does not change its residue. -/
theorem SplitResult.moves_of_addressed (h : SplitResult T e (T.target keyHash) b₀ T')
    (he : e.keyHash = keyHash) (h₀ : T.bucket? 0 = some b₀) (hlevel : T.currentLevel.toNat ≤ 29)
    (hsize : T.size = 2 ^ T.currentLevel.toNat) (hT' : T'.Addressed) :
    T.OnlyFirstPageMoves keyHash := by
  have hlevel' : T'.currentLevel.toNat = T.currentLevel.toNat + 1 := by
    rw [h.level, toNat_level_succ (by omega)]
  have hcopies : copies cap (T.target keyHash) ≠ 0 := by
    unfold copies
    split <;> omega
  rw [Addressed_iff_of_next h.next, hlevel'] at hT'
  refine ⟨?_, ?_⟩
  · have hself : e ∈ T'.entriesAt (T.target keyHash) := by
      rw [h.entriesAt, if_pos rfl]
      exact Multiset.mem_add.mpr (Or.inr (Multiset.mem_nsmul.mpr
        ⟨hcopies, Multiset.mem_singleton_self e⟩))
    rw [LowHalf, ← he, ← hT' _ e hself]
    exact Nat.mod_lt _ (Nat.two_pow_pos _)
  · rintro e' (⟨j, hj₀, hj⟩ | ⟨b, hb, hmem⟩)
    · have hjlt : j < T.size := by
        by_contra hge
        rw [LinearTable.entriesAt_of_size_le (not_lt.mp hge)] at hj
        exact Multiset.notMem_zero e' hj
      have hmem : e' ∈ T'.entriesAt j := by
        rw [h.entriesAt, if_neg hj₀, if_neg (Nat.ne_of_lt hjlt)]
        exact Multiset.mem_add.mpr (Or.inl hj)
      rw [LowHalf, ← hT' j e' hmem, ← hsize]
      exact hjlt
    · obtain rfl := Option.some.inj (h₀.symm.trans hb)
      have hmem' : e' ∈ T'.entriesAt 0 := by
        rw [h.entriesAt, if_pos rfl]
        exact Multiset.mem_add.mpr (Or.inl (Multiset.mem_add.mpr (Or.inr hmem)))
      rw [LowHalf, ← hT' 0 e' hmem']
      exact Nat.two_pow_pos _

/-- If only entries of the first page move, the new level finds every entry: those the
redistribution left on the first page, those it moved, and the others. -/
theorem SplitResult.addressed_of_moves (h : SplitResult T e (T.target keyHash) b₀ T')
    (he : e.keyHash = keyHash) (h₀ : T.bucket? 0 = some b₀) (hlevel : T.currentLevel.toNat ≤ 29)
    (hnext : T.nextBucketIndexToSplit = 0) (hsize : T.size = 2 ^ T.currentLevel.toNat)
    (hnum : T.currBucketNum.toNat = T.size) (hT : T.Addressed)
    (hmoves : T.OnlyFirstPageMoves keyHash) : T'.Addressed := by
  have hlevel' : T'.currentLevel.toNat = T.currentLevel.toNat + 1 := by
    rw [h.level, toNat_level_succ (by omega)]
  rw [Addressed_iff_of_next hnext] at hT
  rw [Addressed_iff_of_next h.next, hlevel']
  intro j e' hmem
  obtain ⟨hkey, hout⟩ := hmoves
  rw [h.entriesAt, Multiset.mem_add] at hmem
  rcases hmem with hmem | hmem
  · by_cases hj₀ : j = 0
    · rw [if_pos hj₀, LinearBucket.stayed, Multiset.mem_add] at hmem
      have hin : e' ∈ T.entriesAt 0 := by
        rw [LinearTable.entriesAt_of_bucket? h₀, LinearBucket.entries_eq]
        exact Multiset.mem_add.mpr (hmem.imp (fun h => (Multiset.mem_filter.mp h).1) id)
      have hzero := hT 0 e' hin
      rcases hmem with hmem | hmem
      · -- Left on the first page: its residue at the next level is not the new bucket.
        obtain ⟨hocc, hstay⟩ := Multiset.mem_filter.mp hmem
        have hne : ¬ e'.keyHash.toNat % 2 ^ (T.currentLevel.toNat + 1) =
            T.currBucketNum.toNat := fun heq => by
          rw [(movesTo_iff (by omega)).mpr ⟨(mem_occupied.mp hocc).2, heq⟩] at hstay
          cases hstay
        rcases LinearAddress.mod_succ_cases T.currentLevel.toNat e'.keyHash.toNat with h | h <;>
          omega
      · rw [hj₀, LinearAddress.mod_succ_of_lt (hout e' (Or.inr ⟨b₀, h₀, hmem⟩)), ← hzero]
    · rw [if_neg hj₀] at hmem
      by_cases hjn : j = T.size
      · rw [if_pos hjn] at hmem
        obtain ⟨-, hmove⟩ := Multiset.mem_filter.mp hmem
        rw [((movesTo_iff (by omega)).mp hmove).2, hnum, hjn]
      · rw [if_neg hjn] at hmem
        rw [LinearAddress.mod_succ_of_lt (hout e' (Or.inl ⟨j, hj₀, hmem⟩))]
        exact hT j e' hmem
  · by_cases hjt : j = T.target keyHash
    · rw [if_pos hjt] at hmem
      obtain rfl := Multiset.mem_singleton.mp (Multiset.mem_nsmul.mp hmem).2
      rw [he, LinearAddress.mod_succ_of_lt hkey, hjt]
      rfl
    · rw [if_neg hjt] at hmem
      exact absurd hmem (Multiset.notMem_zero e')

end Moves

/-- A call keeps the table addressed: its bucket is allocated, and if that is full the split
fits and only entries of the first page of bucket 0 move. -/
def KeepsAddresses (T : LinearTable cap) (c : Put2Call) : Prop :=
  T.target c.keyHash < T.size ∧ (T.FullAt (T.target c.keyHash) →
    T.SplitFits c.behind ∧ T.OnlyFirstPageMoves c.keyHash)

instance (T : LinearTable cap) (c : Put2Call) : Decidable (KeepsAddresses T c) :=
  inferInstanceAs (Decidable (_ ∧ _))

/-- Storing an entry in the bucket of its residue keeps the table addressed. -/
theorem Addressed.setBucket {keyHash offset : UInt64} {b b' : LinearBucket cap} {s : Bool}
    (hT : T.Addressed) (hnext : T.nextBucketIndexToSplit = 0)
    (hb : T.bucket? (T.target keyHash) = some b)
    (hadd : b'.entries = occupiedEntry keyHash offset ::ₘ b.entries) :
    ((T.setBucket (T.target keyHash) b').withSplit s).Addressed := by
  rw [Addressed_iff_of_next hnext] at hT
  refine (Addressed_iff_of_next
    (T := (T.setBucket (T.target keyHash) b').withSplit s) hnext).mpr fun j e hmem => ?_
  have hlook := LinearTable.bucket?_stored (LinearTable.lt_size hb) b' s
  by_cases hj : j = T.target keyHash
  · subst hj
    rw [LinearTable.entriesAt_of_bucket? (by rw [hlook, Function.update_self]), hadd,
      Multiset.mem_cons] at hmem
    rcases hmem with rfl | hmem
    · rfl
    · exact hT _ e (by rw [LinearTable.entriesAt_of_bucket? hb]; exact hmem)
  · rw [LinearTable.entriesAt_congr (T := T) (by rw [hlook, Function.update_of_ne hj])] at hmem
    exact hT j e hmem

theorem addressed_step_iff (h : Put2Shape L₀ T) (hpos : 0 < T.currentLevel.toNat)
    (hT : T.Addressed) (c : Put2Call) :
    (∃ T', Put2Step T c T' ∧ T'.Addressed) ↔ KeepsAddresses T c := by
  have hcases := put2_cases h c.behind c.keyHash c.offset
  unfold Put2Step KeepsAddresses
  generalize librekvLinearPut2 c.behind T c.keyHash c.offset = res at hcases
  cases hcases with
  | idle hzero => omega
  | unallocated _ hsize =>
      refine ⟨?_, fun hlt => absurd hlt.1 (not_lt.mpr hsize)⟩
      intro hret
      obtain ⟨T', hT', -⟩ := hret
      cases hT'
  | stored b b' _ hb hfull hadd =>
      exact ⟨fun _ => ⟨LinearTable.lt_size hb,
        fun h => absurd h (LinearTable.not_fullAt hb hfull)⟩,
        fun _ => ⟨_, rfl, Addressed.setBucket hT h.next hb hadd⟩⟩
  | split b b₀ T' _ hb hfull h₀ hfits hresult =>
      have hbound := h.bound
      obtain ⟨hlevel, hsize⟩ := h.first_of_fits hfits
      have hsize' : T.size = 2 ^ T.currentLevel.toNat := by rw [hsize, hlevel]
      constructor
      · intro hret
        obtain ⟨T₁, hT₁, haddr⟩ := hret
        obtain rfl := Except.ok.inj hT₁
        exact ⟨LinearTable.lt_size hb, fun _ => ⟨hfits,
          hresult.moves_of_addressed rfl h₀ (by omega) hsize' haddr⟩⟩
      · intro hcond
        obtain ⟨-, hmoves⟩ := hcond
        exact ⟨T', rfl, hresult.addressed_of_moves rfl h₀ (by omega) h.next hsize' hfits.1 hT
          (hmoves ⟨b, hb, hfull⟩).2⟩
  | crashed b fault _ hb hfull hfits =>
      refine ⟨?_, fun hlt => absurd (hlt.2 ⟨b, hb, hfull⟩).1 hfits⟩
      intro hret
      obtain ⟨T', hT', -⟩ := hret
      cases hT'

theorem Created.addressed (h : Created L₀ T) : T.Addressed := by
  intro i e hmem
  rw [LinearTable.entriesAt, LinearTable.bucket?, h.table, List.getElem?_replicate] at hmem
  split at hmem
  · rw [Option.join_some, Option.elim_some, LinearBucket.entries_empty] at hmem
    exact absurd hmem (Multiset.notMem_zero e)
  · exact absurd hmem (Multiset.notMem_zero e)

section Results

variable {prior : LinearTable cap} {i_initialLevel : UInt32} {i_entriesPerBucket : UInt64}
  {r : Int} {T₀ T : LinearTable (capacityOf i_entriesPerBucket)} {log : List Put2Call}

/-- The call returns, and every pair but its own is held by as many slots as before. -/
def KeepsOthers (T : LinearTable cap) (c : Put2Call) : Prop :=
  ∃ T', Put2Step T c T' ∧ ∀ p ≠ c.pair, T'.contents.count p = T.contents.count p

/-- **Stored entries survive exactly the calls that return.** On every table a run reaches, a
call keeps the other pairs iff its bucket is allocated and either has a free slot or the split
fits. -/
theorem keepsOthers_iff (hlevel : 1 ≤ i_initialLevel.toNat ∧ i_initialLevel.toNat ≤ 29)
    (hcreate : librekvLinearCreate prior i_initialLevel i_entriesPerBucket = .ok (r, T₀))
    (hrun : Run Put2Step T₀ log T) (c : Put2Call) :
    KeepsOthers T c ↔ T.target c.keyHash < T.size ∧
      (T.FullAt (T.target c.keyHash) → T.SplitFits c.behind) := by
  have hshape := put2Shape_run hlevel.2 hcreate hrun
  rw [← put2_returns_iff hshape (hshape.level_pos hlevel.1)]
  constructor
  · intro hret
    obtain ⟨T', hstep, -⟩ := hret
    exact ⟨T', hstep⟩
  · intro hret
    obtain ⟨T', hstep⟩ := hret
    obtain ⟨n, hcontents, -⟩ := hstep.contents hshape
    refine ⟨T', hstep, fun p hp => ?_⟩
    rw [hcontents, Multiset.count_add, Multiset.count_nsmul, Multiset.count_singleton,
      if_neg hp, Nat.mul_zero, Nat.zero_add]

/-- After one call, on the call that splits. -/
theorem keepsOthers_iff_example : ∃ T, Run Put2Step (smallTable 1) [⟨1, 10, freeEntry⟩] T ∧
    (KeepsOthers T ⟨3, 30, freeEntry⟩ ↔ T.target 3 < T.size ∧
      (T.FullAt (T.target 3) → T.SplitFits freeEntry)) := by
  have hrun : Run Put2Step (smallTable 1) [⟨1, 10, freeEntry⟩] _ := .snoc .nil rfl
  exact ⟨_, hrun, keepsOthers_iff (by decide) create_smallTable.1 hrun ⟨3, 30, freeEntry⟩⟩

/-- The second split assigns a new bucket over the one the first split added: the pair moved
there is gone before the display overruns the array. -/
theorem second_split_loses :
    librekvLinearCreate (.zeroed 0) 1 1 = .ok (0, smallTable 1) ∧ ∃ T,
      Run Put2Step (smallTable 1) [⟨2, 20, freeEntry⟩, ⟨0, 10, freeEntry⟩] T ∧
      T.contents.count (2, 20) = 1 ∧
      (∃ S S', put2Insert T 4 40 = .ok S ∧ put2Split freeEntry S 4 40 = .ok S' ∧
        S'.contents.count (2, 20) = 0) ∧
      ¬ KeepsOthers T ⟨4, 40, freeEntry⟩ := by
  have hfirst : Run Put2Step (smallTable 1) [⟨2, 20, freeEntry⟩] _ := .snoc .nil rfl
  have hrun : Run Put2Step (smallTable 1) [⟨2, 20, freeEntry⟩, ⟨0, 10, freeEntry⟩] _ :=
    .snoc hfirst rfl
  refine ⟨create_smallTable.1, _, hrun, by decide, ⟨_, _, rfl, rfl, by decide⟩, ?_⟩
  intro hret
  obtain ⟨T', hstep, -⟩ := hret
  cases hstep

/-- The call returns, and its pair is held by one slot more than before. -/
def StoresOnce (T : LinearTable cap) (c : Put2Call) : Prop :=
  ∃ T', Put2Step T c T' ∧ T'.contents.count c.pair = T.contents.count c.pair + 1

/-- **A call stores its own pair once** iff the level is not 0, its bucket is allocated, and
either that bucket has a free slot, or the split fits and the bucket is bucket 0, or bucket 1
of a table with one slot a page. -/
theorem storesOnce_iff (hlevel : i_initialLevel.toNat ≤ 29)
    (hcreate : librekvLinearCreate prior i_initialLevel i_entriesPerBucket = .ok (r, T₀))
    (hrun : Run Put2Step T₀ log T) (c : Put2Call) :
    StoresOnce T c ↔ 0 < T.currentLevel.toNat ∧ T.target c.keyHash < T.size ∧
      (T.FullAt (T.target c.keyHash) → T.SplitFits c.behind ∧ (T.target c.keyHash = 0 ∨
        (T.target c.keyHash = 1 ∧ (capacityOf i_entriesPerBucket).toNat = 1))) := by
  have hshape := put2Shape_run hlevel hcreate hrun
  have hcount : ∀ T', Put2Step T c T' →
      (T'.contents.count c.pair = T.contents.count c.pair + 1 ↔ 0 < T.currentLevel.toNat ∧
        (T.FullAt (T.target c.keyHash) → T.target c.keyHash = 0 ∨
          (T.target c.keyHash = 1 ∧ (capacityOf i_entriesPerBucket).toNat = 1))) := by
    intro T' hstep
    obtain ⟨n, hcontents, hn⟩ := hstep.contents hshape
    rw [← hn, hcontents, Multiset.count_add, Multiset.count_nsmul, Multiset.count_singleton_self,
      Nat.mul_one]
    omega
  constructor
  · intro hret
    obtain ⟨T', hstep, hone⟩ := hret
    obtain ⟨hpos, honce⟩ := (hcount T' hstep).mp hone
    obtain ⟨hlt, hfits⟩ := (put2_returns_iff hshape hpos c).mp ⟨T', hstep⟩
    exact ⟨hpos, hlt, fun hfull => ⟨hfits hfull, honce hfull⟩⟩
  · intro hcond
    obtain ⟨hpos, hlt, hfull⟩ := hcond
    obtain ⟨T', hstep⟩ :=
      (put2_returns_iff hshape hpos c).mpr ⟨hlt, fun h => (hfull h).1⟩
    exact ⟨T', hstep, (hcount T' hstep).mpr ⟨hpos, fun h => (hfull h).2⟩⟩

/-- A second pair for the full bucket 1 of a table with one slot a page. -/
theorem storesOnce_iff_example : ∃ T,
    Run Put2Step (smallTable 1) [⟨1, 10, freeEntry⟩] T ∧ T.FullAt 1 ∧
      StoresOnce T ⟨1, 20, freeEntry⟩ := by
  have hrun : Run Put2Step (smallTable 1) [⟨1, 10, freeEntry⟩] _ := .snoc .nil rfl
  refine ⟨_, hrun, ⟨_, rfl, by decide⟩, ?_⟩
  refine (storesOnce_iff (by decide) create_smallTable.1 hrun ⟨1, 20, freeEntry⟩).mpr
    ⟨by decide, by decide, fun _ => ⟨⟨by decide, by decide, by decide⟩, Or.inr ⟨?_, ?_⟩⟩⟩
  · decide
  · decide

/-- The third entry of bucket 1 goes to an overflow page, and after the split again to the next
slot of that page. -/
theorem overflow_stores_twice :
    librekvLinearCreate (.zeroed 0) 1 2 = .ok (0, smallTable 2) ∧ ∃ T T',
      Run Put2Step (smallTable 2) [⟨1, 10, freeEntry⟩, ⟨1, 20, freeEntry⟩] T ∧
      Put2Step T ⟨1, 30, freeEntry⟩ T' ∧ T.contents.count (1, 30) = 0 ∧
      T'.contents.count (1, 30) = 2 ∧ ¬ StoresOnce T ⟨1, 30, freeEntry⟩ := by
  have hfirst : Run Put2Step (smallTable 2) [⟨1, 10, freeEntry⟩] _ := .snoc .nil rfl
  have hrun : Run Put2Step (smallTable 2) [⟨1, 10, freeEntry⟩, ⟨1, 20, freeEntry⟩] _ :=
    .snoc hfirst rfl
  refine ⟨create_smallTable.2, _, _, hrun, rfl, by decide, by decide, ?_⟩
  intro hret
  obtain ⟨T', hstep, hone⟩ := hret
  obtain rfl := Except.ok.inj hstep
  exact absurd hone (by decide)

/-- **Entries stay where they are addressed** in every run whose calls all meet
`KeepsAddresses`; and in the states of these runs the calls that meet it are exactly those
that return an addressed table. -/
theorem addressed_iff (hlevel : 1 ≤ i_initialLevel.toNat ∧ i_initialLevel.toNat ≤ 29)
    (hcreate : librekvLinearCreate prior i_initialLevel i_entriesPerBucket = .ok (r, T₀))
    (hrun : Run (Guarded Put2Step KeepsAddresses) T₀ log T) :
    T.Addressed ∧ ∀ c, (∃ T', Put2Step T c T' ∧ T'.Addressed) ↔ KeepsAddresses T c := by
  have hshape : Put2Shape i_initialLevel.toNat T :=
    put2Shape_run hlevel.2 hcreate hrun.of_guarded
  have hboth : Put2Shape i_initialLevel.toNat T ∧ T.Addressed := by
    have hcreated := create_created hlevel.2 hcreate
    refine hrun.invariant
      ⟨hcreated.put2Shape (capacityOf_pos _) hlevel.2, hcreated.addressed⟩ ?_
    intro S c S' hinv hguard
    obtain ⟨hS, haddr⟩ := hinv
    obtain ⟨hkeeps, hstep⟩ := hguard
    obtain ⟨S₁, hstep₁, haddr₁⟩ :=
      (addressed_step_iff hS (hS.level_pos hlevel.1) haddr c).mpr hkeeps
    obtain rfl := Except.ok.inj (hstep₁.symm.trans hstep)
    exact ⟨hS.step hstep, haddr₁⟩
  exact ⟨hboth.2, addressed_step_iff hshape (hshape.level_pos hlevel.1) hboth.2⟩

/-- Two calls that find a free slot, and one that splits bucket 0 and moves none of it. -/
theorem addressed_iff_example : ∃ T,
    Run (Guarded Put2Step KeepsAddresses) (smallTable 1)
      [⟨1, 10, freeEntry⟩, ⟨0, 20, freeEntry⟩, ⟨4, 30, freeEntry⟩] T ∧
      T.currentLevel = 2 ∧ T.Addressed := by
  have hfirst : Run (Guarded Put2Step KeepsAddresses) (smallTable 1) [⟨1, 10, freeEntry⟩] _ :=
    .snoc .nil ⟨by decide, rfl⟩
  have hsecond : Run (Guarded Put2Step KeepsAddresses) (smallTable 1)
      [⟨1, 10, freeEntry⟩, ⟨0, 20, freeEntry⟩] _ := .snoc hfirst ⟨by decide, rfl⟩
  have hrun : Run (Guarded Put2Step KeepsAddresses) (smallTable 1)
      [⟨1, 10, freeEntry⟩, ⟨0, 20, freeEntry⟩, ⟨4, 30, freeEntry⟩] _ :=
    .snoc hsecond ⟨by decide, rfl⟩
  exact ⟨_, hrun, rfl, (addressed_iff (by decide) create_smallTable.1 hrun).1⟩

/-- The key that asks for a split of another bucket raises the level, and its own entry, like
every entry outside bucket 0, is left at the address of the level before. -/
theorem split_misplaces :
    librekvLinearCreate (.zeroed 0) 1 1 = .ok (0, smallTable 1) ∧ ∃ T,
      Run Put2Step (smallTable 1) [⟨1, 10, freeEntry⟩, ⟨3, 30, freeEntry⟩] T ∧
      ¬ T.Addressed := by
  have hfirst : Run Put2Step (smallTable 1) [⟨1, 10, freeEntry⟩] _ := .snoc .nil rfl
  have hrun : Run Put2Step (smallTable 1) [⟨1, 10, freeEntry⟩, ⟨3, 30, freeEntry⟩] _ :=
    .snoc hfirst rfl
  refine ⟨create_smallTable.1, _, hrun, fun h => ?_⟩
  exact absurd (h 1 (occupiedEntry 3 30) (by decide)) (by decide)

end Results

end LibreKV.LinearHash
