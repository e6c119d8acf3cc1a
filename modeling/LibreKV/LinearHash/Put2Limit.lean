import Mathlib.Algebra.BigOperators.Ring.Finset
import Mathlib.Algebra.Order.BigOperators.Group.Finset
import LibreKV.LinearHash.InsertSound
import LibreKV.LinearHash.Put2Runs

/-!
# LibreKV.LinearHash.Put2Limit

How long a program can use `librekv_linear_put2`, and what becomes of the one that does.

A run has at most one split: a second one overruns the array. The split adds a page for the new
bucket and at most two for the entry that asked for it, no other call adds one, and every call
that returns fills a slot. So the slots bound the calls, and the loop of `main`, whose test for
the end of the input never holds, runs into a fault.
-/

namespace LibreKV.LinearHash

open FirstFit Fallible Transition

variable {cap : UInt64}

/-! ### Counting pages -/

/-- The pages of the bucket at index `i`. -/
def LinearTable.pagesAt (T : LinearTable cap) (i : ℕ) : ℕ :=
  (T.bucket? i).elim 0 fun b => b.pages.length

/-- The pages of all chains. -/
def LinearTable.pageCount (T : LinearTable cap) : ℕ :=
  ∑ i ∈ Finset.range T.size, T.pagesAt i

namespace LinearBucket

theorem length_pages_append (b : LinearBucket cap) (p : Page cap) :
    (b.append p).pages.length = b.pages.length + 1 := by
  simp [pages, append]

theorem length_pages_setPage (b : LinearBucket cap) (k : ℕ) (p : Page cap) :
    (b.setPage k p).pages.length = b.pages.length := by
  cases k with
  | zero => rfl
  | succ k => simp [pages, setPage]

theorem card_entries_le (b : LinearBucket cap) :
    b.entries.card ≤ b.pages.length * cap.toNat := by
  rw [← length_flatMap_pages Page.size]
  exact card_occupied_le _

end LinearBucket

/-- An insertion into a chain adds a page only when the chain is full, and not to the bucket
that is due to be split. -/
theorem Inserted.length_pages {e : LinearHashEntry} {next i : UInt64} {b b' : LinearBucket cap}
    {r : Bool} (h : Inserted e next i b r b') : b'.pages.length =
      b.pages.length + if b.Full ∧ next ≠ i then 1 else 0 := by
  cases h with
  | placed b' hplace =>
      have hfull : ¬ b.Full := by
        rw [← LinearBucket.place_eq_none_iff (e := e), hplace]
        exact Option.some_ne_none b'
      rw [LinearBucket.length_pages_place hplace, if_neg fun h => hfull h.1, Nat.add_zero]
  | overflowed hfull hne => rw [LinearBucket.length_pages_append, if_pos ⟨hfull, hne⟩]
  | refused _ hnext => rw [if_neg fun h => h.2 hnext, Nat.add_zero]

namespace LinearTable

variable {T T' : LinearTable cap}

theorem pagesAt_of_bucket? {i : ℕ} {b : LinearBucket cap} (h : T.bucket? i = some b) :
    T.pagesAt i = b.pages.length := by
  rw [pagesAt, h, Option.elim_some]

/-- What one chain gains, the table gains. -/
theorem pageCount_setBucket {i n : ℕ} {b b' : LinearBucket cap} (hb : T.bucket? i = some b)
    (hn : b'.pages.length = b.pages.length + n) :
    (T.setBucket i b').pageCount = T.pageCount + n := by
  have hmem : i ∈ Finset.range T.size := Finset.mem_range.mpr (lt_size hb)
  have hlook := bucket?_setBucket (lt_size hb) b'
  have hself : (T.setBucket i b').pagesAt i = T.pagesAt i + n := by
    rw [pagesAt_of_bucket? hb, ← hn]
    exact pagesAt_of_bucket? (by rw [hlook, Function.update_self])
  have hrest : ∀ j ∈ (Finset.range T.size).erase i,
      (T.setBucket i b').pagesAt j = T.pagesAt j := by
    intro j hj
    rw [pagesAt, pagesAt, hlook, Function.update_of_ne (Finset.ne_of_mem_erase hj)]
  rw [pageCount, pageCount, size_setBucket, ← Finset.add_sum_erase _ _ hmem,
    ← Finset.add_sum_erase _ T.pagesAt hmem, Finset.sum_congr rfl hrest, hself, Nat.add_right_comm]

/-- Every entry has a slot. -/
theorem card_contents_le (T : LinearTable cap) :
    T.contents.card ≤ T.pageCount * cap.toNat := by
  rw [contents, Multiset.card_map, entries, Multiset.card_sum, pageCount, Finset.sum_mul]
  refine Finset.sum_le_sum fun i _ => ?_
  cases hb : T.bucket? i with
  | none => simp [entriesAt, pagesAt, hb]
  | some b =>
      rw [entriesAt_of_bucket? hb, pagesAt_of_bucket? hb]
      exact b.card_entries_le

end LinearTable

/-! ### The pages that the steps of a call add -/

section Steps

variable {T T' S : LinearTable cap} {keyHash offset : UInt64}

theorem insert_pageCount (hcap : 0 < cap.toNat ∧ cap.toNat < 2 ^ 31) {i : UInt64} {r : Bool}
    {b : LinearBucket cap} (hb : T.bucket? i.toNat = some b)
    (h : librekvLinearInsertToBucket T keyHash offset i = .ok (r, T')) :
    T'.pageCount = T.pageCount + if b.Full ∧ T.nextBucketIndexToSplit ≠ i then 1 else 0 := by
  obtain ⟨r', b', hins, hb'⟩ := insert_eq hcap.1 hcap.2 hb keyHash offset
  rw [hins] at h
  obtain ⟨-, rfl⟩ := Prod.mk.inj (Except.ok.inj h)
  exact LinearTable.pageCount_setBucket hb hb'.length_pages

theorem clearSlot_pageCount {index : UInt64} {k i : ℕ} (h : T.clearSlot index k i = .ok T') :
    T'.pageCount = T.pageCount := by
  obtain ⟨b, hb, h⟩ := bind_eq_ok.mp h
  rw [LinearTable.bucketAt_eq_ok] at hb
  cases hk : b.pages[k]? with
  | none =>
      simp only [hk] at h
      cases h
  | some p =>
      simp only [hk] at h
      obtain ⟨p', -, h⟩ := bind_eq_ok.mp h
      obtain rfl := Except.ok.inj h
      exact LinearTable.pageCount_setBucket (n := 0) hb (b.length_pages_setPage k p')

/-- Moving an entry to a bucket with a free slot adds no page. -/
theorem moveSlot_pageCount (hcap : 0 < cap.toNat ∧ cap.toNat < 2 ^ 31) {mirror : UInt64}
    {c : LinearBucket cap} (hc : T.bucket? mirror.toNat = some c) (hroom : ¬ c.Full) {k i : ℕ}
    {e : LinearHashEntry} (h : moveSlot T k i e mirror = .ok T') :
    T'.pageCount = T.pageCount := by
  rw [moveSlot] at h
  by_cases hm : e.movesTo T.currentLevel mirror = true
  · rw [if_pos hm] at h
    obtain ⟨⟨r, T₁⟩, hins, hclear⟩ := bind_eq_ok.mp h
    rw [clearSlot_pageCount hclear, insert_pageCount hcap hc hins, if_neg fun h => hroom h.1,
      Nat.add_zero]
  · rw [if_neg hm] at h
    obtain rfl := Except.ok.inj h
    rfl

/-- The array grows by a bucket of one page. -/
theorem Grown.pageCount (h : Grown T T') (hnum : T.currBucketNum.toNat = T.size) :
    T'.pageCount = T.pageCount + 1 := by
  have hkept : ∀ j ∈ Finset.range T.size, T'.pagesAt j = T.pagesAt j := by
    intro j hj
    rw [LinearTable.pagesAt, LinearTable.pagesAt,
      h.kept j (by rw [hnum]; exact Finset.mem_range.mp hj)]
  rw [LinearTable.pageCount, LinearTable.pageCount, h.size, hnum, Finset.sum_range_succ,
    Finset.sum_congr rfl hkept, ← hnum, LinearTable.pagesAt_of_bucket? h.added]
  rfl

/-- The redistribution adds no page: the mirror-image bucket never fills up before the loop has
passed the page. -/
theorem redistribute_pageCount {b₀ : LinearBucket cap} {mirror : UInt64}
    {behind : LinearHashEntry} (hcap : 0 < cap.toNat ∧ cap.toNat + 1 < 2 ^ 31)
    (hnext : S.nextBucketIndexToSplit = 0) (hmirror : S.currBucketNum - 1 = mirror)
    (hne : mirror.toNat ≠ 0) (h₀ : S.bucket? 0 = some b₀)
    (hm : S.bucket? mirror.toNat = some ⟨.empty cap, []⟩)
    (hbehind : behind.movesTo S.currentLevel mirror = false)
    (h : redistribute behind S = .ok T') : T'.pageCount = S.pageCount := by
  have hround : ∀ k < cap.toNat, ∀ T, (Swept S b₀ mirror k T ∧ T.pageCount = S.pageCount) →
      ∃ T₁, redistributeSlot behind T k = .ok T₁ ∧
        (Swept S b₀ mirror (k + 1) T₁ ∧ T₁.pageCount = S.pageCount) := by
    intro k hk T hinv
    obtain ⟨hswept, hpages⟩ := hinv
    obtain ⟨T₁, hslot, hswept₁⟩ :=
      hswept.step (Nat.lt_of_succ_lt hcap.2) hnext hmirror hne hk behind
    obtain ⟨c, hc, -⟩ := hswept.fresh
    obtain ⟨e, -, hmove⟩ := bind_eq_ok.mp hslot
    rw [hswept.same.num, hmirror] at hmove
    refine ⟨T₁, hslot, hswept₁, ?_⟩
    rw [moveSlot_pageCount ⟨hcap.1, Nat.lt_of_succ_lt hcap.2⟩ hc (hswept.room hk hc) hmove, hpages]
  have hloop : ∃ T, (List.range cap.toNat).foldlM (redistributeSlot behind) S = .ok T ∧
      (Swept S b₀ mirror cap.toNat T ∧ T.pageCount = S.pageCount) := by
    refine foldlM_range_ok ?_ hround
    exact ⟨Swept.zero h₀ hm, rfl⟩
  obtain ⟨T, hT, hswept, hpages⟩ := hloop
  -- The last round reads behind the page and leaves the table alone.
  rw [redistribute, if_pos hcap.2, foldlM_range_succ, hT, ok_bind, redistributeSlot,
    readFirstPage, if_neg (Nat.lt_irrefl _), ok_bind, hswept.same.num, hmirror, moveSlot,
    hswept.same.level, hbehind] at h
  obtain rfl := Except.ok.inj h
  exact hpages

theorem raiseLevel_pageCount (T : LinearTable cap) : T.raiseLevel.pageCount = T.pageCount := by
  unfold LinearTable.raiseLevel
  dsimp only
  split <;> rfl

theorem Put2Shape.ne_truncateHash_iff {L : ℕ} (h : Put2Shape L S) (n : UInt64) :
    n ≠ truncateHash keyHash S.currentLevel ↔ S.target keyHash ≠ n.toNat := by
  rw [← h.toNat_truncateHash keyHash, ne_eq, ne_eq, ← UInt64.toNat_inj, eq_comm]

/-- A split adds a page for the new bucket, and one more if the second insertion meets a full
chain that is not bucket 1. -/
theorem put2Split_pageCount {L : ℕ} {b₀ b₁ : LinearBucket cap} {behind : LinearHashEntry}
    (hshape : Put2Shape L S) (hfits : S.SplitFits behind) (h₀ : S.bucket? 0 = some b₀)
    (h₁ : S.bucket? (S.target keyHash) = some b₁)
    (h : put2Split behind S keyHash offset = .ok T') :
    T'.pageCount = S.pageCount + 1 + if
      (if S.target keyHash = 0 then b₀.swept S.currentLevel S.currBucketNum else b₁).Full ∧
        S.target keyHash ≠ 1 then 1 else 0 := by
  have hbound := hshape.bound
  have hnum := hshape.num
  have hsize := (hshape.first_of_fits hfits).2
  have hpow : 2 ^ L ≤ 2 ^ 29 := Nat.pow_le_pow_right (by omega) hbound
  have hpos : 0 < 2 ^ L := Nat.two_pow_pos L
  have ht := hshape.toNat_truncateHash keyHash
  have htlt : S.target keyHash < S.size := LinearTable.lt_size h₁
  obtain ⟨S₁, hadd, hgrown, hstore⟩ := addBucket_grown (T := S) hshape.capacity.2 (by omega)
  obtain ⟨c, S₂, hred, hmid⟩ := hgrown.redistributed hshape.next (by omega) hfits h₀
  have hpages₂ : S₂.pageCount = S.pageCount + 1 := by
    rw [redistribute_pageCount ⟨hshape.capacity.1, hfits.2.1⟩ (hgrown.next.trans hshape.next)
      hgrown.mirror (by omega) ((hgrown.kept 0 (by omega)).trans h₀) hgrown.added
      (by rw [hgrown.level]; exact hfits.2.2) hred, hgrown.pageCount (hnum.trans hsize.symm)]
  -- The second insertion goes by the old level, and bucket 1 is due now.
  have hnext₃ : S₂.advanceNext.nextBucketIndexToSplit = 1 := by
    show S₂.nextBucketIndexToSplit + 1 = 1
    rw [hmid.next]
    rfl
  have htarget : S₂.advanceNext.bucket? (truncateHash keyHash S.currentLevel).toNat =
      some (if S.target keyHash = 0 then b₀.swept S.currentLevel S.currBucketNum else b₁) := by
    rw [ht]
    refine (hmid.bucket? _ (by omega)).trans ?_
    by_cases ht₀ : S.target keyHash = 0
    · rw [if_pos ht₀, if_pos ht₀]
    · rw [if_neg ht₀, if_neg ht₀, if_neg (Nat.ne_of_lt htlt), h₁]
  rw [put2Split, hadd, ok_bind, hstore, ok_bind, hred, ok_bind, bind_eq_ok] at h
  obtain ⟨⟨r, S₄⟩, hins, h⟩ := h
  obtain rfl := Except.ok.inj h
  have hpages₄ := insert_pageCount hshape.capacity htarget hins
  rw [hnext₃, if_congr (and_congr_right' (hshape.ne_truncateHash_iff 1)) rfl rfl] at hpages₄
  rw [raiseLevel_pageCount, hpages₄, ← hpages₂]
  rfl

end Steps

/-! ### What a call does -/

section Calls

variable {L₀ : ℕ} {T T' : LinearTable cap} {c : Put2Call}

/-- The arithmetic of a split: the pages that were added and the entry that was stored. -/
theorem split_pages {cap i P n m : ℕ} (hcap : 0 < cap) {F : Prop} [Decidable F]
    (hn : n = P + if i ≠ 0 then 1 else 0) (hF : i ≠ 0 → (F ↔ cap = 1))
    (hm : m = n + 1 + if F ∧ i ≠ 1 then 1 else 0) :
    m * cap + 1 ≤ (P + 2) * cap + if i = 0 ∨ (i = 1 ∧ cap = 1) then 1 else 2 := by
  by_cases hi : i = 0
  -- The first insertion was refused, so the pair is stored once.
  · have hle : m * cap ≤ (P + 2) * cap := by
      refine Nat.mul_le_mul_right cap ?_
      rw [hm, hn, if_neg (not_not.mpr hi)]
      split <;> omega
    rw [if_pos (Or.inl hi)]
    omega
  · rw [if_pos hi] at hn
    by_cases hone : cap = 1
    · -- With one slot a page the overflow page of the first insertion is full at once.
      subst hone
      by_cases hi₁ : i = 1
      · rw [if_neg fun h => h.2 hi₁] at hm
        rw [if_pos (Or.inr ⟨hi₁, rfl⟩)]
        omega
      · rw [if_pos ⟨(hF hi).mpr rfl, hi₁⟩] at hm
        rw [if_neg (by omega)]
        omega
    -- The pair is stored twice on two new pages.
    · rw [if_neg fun h => hone ((hF hi).mp h.1)] at hm
      have hpages : m = P + 2 := by omega
      rw [if_neg (by omega), hpages]
      omega

/-- What a call that returns does to the pages and the pairs. -/
inductive Put2Effect (T : LinearTable cap) (c : Put2Call) (T' : LinearTable cap) : Prop
  /-- It fills a slot. -/
  | stored : T'.currentLevel = T.currentLevel → T'.size = T.size →
      T'.pageCount = T.pageCount → T'.contents = {c.pair} + T.contents → Put2Effect T c T'
  /-- It splits, and stores its pair once or twice. The slots it adds, less those it fills, are
  two pages but for one slot. -/
  | split (n : ℕ) : n = 1 ∨ n = 2 → T.SplitFits c.behind →
      T'.currentLevel.toNat = T.currentLevel.toNat + 1 → T'.size = T.size + 1 →
      T'.pageCount * cap.toNat + 1 ≤ (T.pageCount + 2) * cap.toNat + n →
      T'.contents = n • {c.pair} + T.contents → Put2Effect T c T'

/-- The pages after the first insertion of a call. -/
theorem pageCount_first {e : LinearHashEntry} {keyHash : UInt64} {b b₁ : LinearBucket cap}
    {r : Bool} (h : Put2Shape L₀ T) (hb : T.bucket? (T.target keyHash) = some b)
    (hb₁ : Inserted e 0 (truncateHash keyHash T.currentLevel) b r b₁) :
    ((T.setBucket (T.target keyHash) b₁).withSplit r).pageCount =
      T.pageCount + if b.Full ∧ T.target keyHash ≠ 0 then 1 else 0 := by
  refine (LinearTable.pageCount_setBucket hb hb₁.length_pages).trans ?_
  rw [if_congr (and_congr_right' (h.ne_truncateHash_iff 0)) rfl rfl]
  rfl

theorem effect_of_stored {b : LinearBucket cap} (h : Put2Shape L₀ T)
    (hpos : 0 < T.currentLevel.toNat) (hb : T.bucket? (T.target c.keyHash) = some b)
    (hfull : ¬ b.Full) (hstep : Put2Step T c T') : Put2Effect T c T' := by
  obtain ⟨r, b₁, hins, hb₁⟩ := put2Insert_eq h hpos hb c.offset
  obtain ⟨rfl, hadd⟩ := hb₁.of_not_full rfl hfull
  rw [Put2Step, librekvLinearPut2, hins, ok_bind] at hstep
  obtain rfl := Except.ok.inj hstep
  refine .stored rfl (T.size_stored _ _ _) ?_ ?_
  · rw [pageCount_first h hb hb₁, if_neg fun h => hfull h.1, Nat.add_zero]
  · exact LinearTable.contents_setBucket hb (hadd.trans (Multiset.singleton_add _ _).symm)

/-- A call on a full bucket went through the split. -/
theorem put2Split_of_step {b : LinearBucket cap} (h : Put2Shape L₀ T)
    (hpos : 0 < T.currentLevel.toNat) (hb : T.bucket? (T.target c.keyHash) = some b)
    (hfull : b.Full) (hstep : Put2Step T c T') :
    ∃ b₁, Inserted (occupiedEntry c.keyHash c.offset) 0 (truncateHash c.keyHash T.currentLevel) b
        true b₁ ∧
      put2Split c.behind ((T.setBucket (T.target c.keyHash) b₁).withSplit true) c.keyHash
        c.offset = .ok T' := by
  obtain ⟨r, b₁, hins, hb₁⟩ := put2Insert_eq h hpos hb c.offset
  obtain rfl := (hb₁.of_full hfull).1
  rw [Put2Step, librekvLinearPut2, hins, ok_bind,
    if_pos (show (LinearTable.withSplit _ true).isSplit = true from rfl), bind_eq_ok] at hstep
  obtain ⟨T₁, hput, hstep⟩ := hstep
  obtain ⟨-, -, hstep⟩ := bind_eq_ok.mp hstep
  obtain rfl := Except.ok.inj hstep
  exact ⟨b₁, hb₁, hput⟩

theorem pages_of_split {b : LinearBucket cap} (h : Put2Shape L₀ T)
    (hpos : 0 < T.currentLevel.toNat) (hb : T.bucket? (T.target c.keyHash) = some b)
    (hfull : b.Full) (hfits : T.SplitFits c.behind) (hstep : Put2Step T c T') :
    T'.pageCount * cap.toNat + 1 ≤
      (T.pageCount + 2) * cap.toNat + copies cap (T.target c.keyHash) := by
  have htlt := LinearTable.lt_size hb
  obtain ⟨b₁, hb₁, hput⟩ := put2Split_of_step h hpos hb hfull hstep
  have hshape := h.setBucket (T.target c.keyHash) b₁ true
  have htarget : ((T.setBucket (T.target c.keyHash) b₁).withSplit true).bucket?
      (T.target c.keyHash) = some b₁ := by
    rw [LinearTable.bucket?_stored htlt, Function.update_self]
  obtain ⟨b₀, h₀⟩ := hshape.initialised 0 (by
    rw [LinearTable.size_stored]
    exact Nat.zero_lt_of_lt htlt)
  have hpages := put2Split_pageCount hshape ⟨hfits.1.trans (T.size_stored _ _ _).symm, hfits.2⟩
    h₀ htarget hput
  refine split_pages h.capacity.1 ?_ ?_ hpages
  · rw [pageCount_first h hb hb₁, if_congr (and_iff_right hfull) rfl rfl]
  · intro ht₀
    have hne := (h.ne_truncateHash_iff 0).mpr ht₀
    have ht₁ : ((T.setBucket (T.target c.keyHash) b₁).withSplit true).target c.keyHash ≠ 0 := ht₀
    rw [if_neg ht₁]
    exact (hb₁.of_full_of_ne h.capacity.1 rfl hfull hne).2

theorem effect_of_split {b b₀ : LinearBucket cap} (h : Put2Shape L₀ T)
    (hpos : 0 < T.currentLevel.toNat) (hb : T.bucket? (T.target c.keyHash) = some b)
    (hfull : b.Full) (h₀ : T.bucket? 0 = some b₀) (hfits : T.SplitFits c.behind)
    (hresult : SplitResult T (occupiedEntry c.keyHash c.offset) (T.target c.keyHash) b₀ T')
    (hstep : Put2Step T c T') : Put2Effect T c T' := by
  have hbound := h.bound
  have hlevel := (h.first_of_fits hfits).1
  refine .split (copies cap (T.target c.keyHash)) ?_ hfits ?_ hresult.size
    (pages_of_split h hpos hb hfull hfits hstep) ?_
  · unfold copies
    split <;> simp
  · rw [hresult.level, toNat_level_succ (by omega)]
  · rw [LinearTable.contents, hresult.entries h₀ (LinearTable.lt_size hb), Multiset.map_add,
      Multiset.map_nsmul, Multiset.map_singleton]
    rfl

theorem Put2Step.effect (h : Put2Shape L₀ T) (hpos : 0 < T.currentLevel.toNat)
    (hstep : Put2Step T c T') : Put2Effect T c T' := by
  have hcases := put2_cases h c.behind c.keyHash c.offset
  rw [show librekvLinearPut2 c.behind T c.keyHash c.offset = .ok T' from hstep] at hcases
  cases hcases with
  | idle hzero => omega
  | stored b b' _ hb hfull hadd => exact effect_of_stored h hpos hb hfull hstep
  | split b b₀ T' _ hb hfull h₀ hfits hresult =>
      exact effect_of_split h hpos hb hfull h₀ hfits hresult hstep

/-- The slots that runs from the table can still fill: before the split those of two more pages
count as well. -/
def LinearTable.slotsLeft (L : ℕ) (T : LinearTable cap) : ℕ :=
  (if T.currentLevel.toNat = L then 2 ^ L + 2 else T.pageCount) * cap.toNat - T.contents.card

/-- The shape of the table with the number of its pages before the split. -/
structure Limited (L : ℕ) (T : LinearTable cap) : Prop where
  shape : Put2Shape L T
  pages : T.currentLevel.toNat = L → T.pageCount = 2 ^ L

theorem Created.size_eq {L : ℕ} (h : Created L T) : T.size = 2 ^ L := by
  rw [LinearTable.size, h.table, List.length_replicate]

theorem Created.pageCount {L : ℕ} (h : Created L T) : T.pageCount = 2 ^ L := by
  have hone : ∀ i ∈ Finset.range T.size, T.pagesAt i = 1 := by
    intro i hi
    rw [Finset.mem_range, h.size_eq] at hi
    refine LinearTable.pagesAt_of_bucket? (b := ⟨.empty cap, []⟩) ?_
    rw [LinearTable.bucket?, h.table, List.getElem?_replicate, if_pos hi]
    rfl
  rw [LinearTable.pageCount, Finset.sum_congr rfl hone, ← Finset.card_eq_sum_ones,
    Finset.card_range, h.size_eq]

/-- Every call that returns uses up a slot. -/
theorem Limited.step {L : ℕ} (h : Limited L T) (hL : 0 < L) (hstep : Put2Step T c T') :
    Limited L T' ∧ T'.slotsLeft L + 1 ≤ T.slotsLeft L := by
  have hshape' := h.shape.step hstep
  have hle := T'.card_contents_le
  cases hstep.effect h.shape (h.shape.level_pos hL) with
  | stored hlevel hsize hpages hcontents =>
      have hcard : T'.contents.card = T.contents.card + 1 := by
        rw [hcontents, Multiset.card_add, Multiset.card_singleton, Nat.add_comm]
      refine ⟨⟨hshape', fun hL' => by rw [hpages, h.pages (hlevel ▸ hL')]⟩, ?_⟩
      rw [LinearTable.slotsLeft, LinearTable.slotsLeft, hlevel, hpages, hcard]
      rw [hpages, hcard] at hle
      -- The subtraction does not stop at zero: the entries have slots.
      by_cases hL' : T.currentLevel.toNat = L
      · rw [h.pages hL'] at hle
        have hmul := Nat.add_mul (2 ^ L) 2 cap.toNat
        rw [if_pos hL']
        omega
      · rw [if_neg hL']
        omega
  | split n hn hfits hlevel hsize hpages hcontents =>
      have hcard : T'.contents.card = T.contents.card + n := by
        rw [hcontents, Multiset.card_add, Multiset.card_nsmul, Multiset.card_singleton,
          Nat.mul_one, Nat.add_comm]
      have hL' := (h.shape.first_of_fits hfits).1
      rw [hcard] at hle
      rw [h.pages hL'] at hpages
      refine ⟨⟨hshape', fun hL'' => by omega⟩, ?_⟩
      rw [LinearTable.slotsLeft, LinearTable.slotsLeft, if_pos hL', if_neg (by omega), hcard]
      omega

/-! ### What the calls of a run stored -/

/-- The pairs of the calls of a run. -/
def pairsOf (log : List Put2Call) : Multiset (UInt64 × UInt64) :=
  Multiset.ofList (log.map Put2Call.pair)

theorem pairsOf_append (log : List Put2Call) (c : Put2Call) :
    pairsOf (log ++ [c]) = pairsOf log + {c.pair} := by
  rw [pairsOf, List.map_append, ← Multiset.coe_add]
  rfl

/-- The table holds the pair of each call, and what was stored a second time, which is at most
the pair of the one call that split. -/
structure Put2Ledger (L : ℕ) (log : List Put2Call) (T : LinearTable cap) : Prop where
  shape : Put2Shape L T
  contents : ∃ twice : Multiset (UInt64 × UInt64), twice.card ≤ 1 ∧
    twice ≤ pairsOf log ∧ (T.size = 2 ^ L → twice = 0) ∧ T.contents = pairsOf log + twice

theorem Created.put2Ledger {L : ℕ} (h : Created L T) (hcap : 0 < cap.toNat) (hL : L ≤ 29) :
    Put2Ledger L [] T := by
  refine ⟨h.put2Shape hcap hL, 0, Nat.zero_le 1, le_rfl, fun _ => rfl, ?_⟩
  rw [contents_of_replicate h.table]
  rfl

theorem Put2Ledger.step {L : ℕ} {log : List Put2Call} (h : Put2Ledger L log T) (hL : 0 < L)
    (hstep : Put2Step T c T') : Put2Ledger L (log ++ [c]) T' := by
  refine ⟨h.shape.step hstep, ?_⟩
  obtain ⟨twice, hone, hsub, hfirst, hT⟩ := h.contents
  rw [pairsOf_append]
  cases hstep.effect h.shape (h.shape.level_pos hL) with
  | stored hlevel hsize hpages hcontents =>
      refine ⟨twice, hone, hsub.trans (Multiset.le_add_right _ _), fun hL' => ?_, ?_⟩
      · exact hfirst (hsize.symm.trans hL')
      · rw [hcontents, hT, ← add_assoc, add_comm (pairsOf log)]
  | split n hn hfits hlevel hsize hpages hcontents =>
      have hsize₀ := (h.shape.first_of_fits hfits).2
      rw [hfirst hsize₀, add_zero] at hT
      refine ⟨(n - 1) • {c.pair}, ?_, ?_, fun hL' => by omega, ?_⟩
      · rw [Multiset.card_nsmul, Multiset.card_singleton]
        omega
      · rcases hn with rfl | rfl
        · exact Multiset.zero_le _
        · rw [one_nsmul]
          exact Multiset.le_add_left _ _
      · rw [hcontents, hT, add_assoc, add_comm]
        rcases hn with rfl | rfl
        · rw [one_nsmul, zero_nsmul, add_zero]
        · rw [two_nsmul, one_nsmul]

/-! ### The first calls -/

/-- Before the split every bucket that is counted is there. -/
theorem Put2Shape.display {L : ℕ} (h : Put2Shape L T) (hsize : T.size = 2 ^ L) :
    librekvLinearDisplayHashTable T = .ok () := by
  refine display_eq_ok.mpr fun i hi => h.initialised i ?_
  rw [hsize, ← h.num]
  exact hi

theorem card_entries_le_contents {i : ℕ} {b : LinearBucket cap} (hb : T.bucket? i = some b) :
    b.entries.card ≤ T.contents.card := by
  rw [LinearTable.contents, Multiset.card_map, LinearTable.entries, Multiset.card_sum,
    ← LinearTable.entriesAt_of_bucket? hb]
  exact Finset.single_le_sum (f := fun j => (T.entriesAt j).card) (fun _ _ => Nat.zero_le _)
    (Finset.mem_range.mpr (LinearTable.lt_size hb))

/-- A call returns, without a split, as long as fewer were made than a page has slots: no chain
can be full yet. -/
theorem Put2Ledger.first {L : ℕ} {log : List Put2Call} (h : Put2Ledger L log T) (hL : 0 < L)
    (hsize : T.size = 2 ^ L) (hlen : log.length < cap.toNat) (c : Put2Call) :
    ∃ T', Put2Step T c T' ∧ T'.size = 2 ^ L := by
  have hlevel : T.currentLevel.toNat = L := by
    rcases h.shape.phase with ⟨hlevel, -⟩ | ⟨-, hgrown, -⟩ <;> omega
  have hcard : T.contents.card = log.length := by
    obtain ⟨twice, -, -, hfirst, hT⟩ := h.contents
    rw [hT, hfirst hsize, add_zero, pairsOf, Multiset.coe_card, List.length_map]
  have hroom : ∀ {i b}, T.bucket? i = some b → ¬ b.Full := by
    intro i b hb
    refine LinearBucket.not_full_of_card_lt ((card_entries_le_contents hb).trans_lt ?_)
    rw [hcard]
    exact hlen
  have hcases := put2_cases h.shape c.behind c.keyHash c.offset
  unfold Put2Step
  generalize librekvLinearPut2 c.behind T c.keyHash c.offset = res at hcases
  cases hcases with
  | idle hzero => omega
  | unallocated _ hbeyond =>
      -- all the buckets of the level are there
      rw [hsize, LinearTable.target, hlevel] at hbeyond
      exact absurd hbeyond (not_le.mpr (Nat.mod_lt _ (Nat.two_pow_pos L)))
  | stored b b' _ hb _ _ => exact ⟨_, rfl, (T.size_stored _ _ _).trans hsize⟩
  | split b b₀ T' _ hb hfull _ _ _ => exact absurd hfull (hroom hb)
  | crashed b fault _ hb hfull _ => exact absurd hfull (hroom hb)

end Calls

section Results

variable {prior : LinearTable cap} {i_initialLevel : UInt32} {i_entriesPerBucket : UInt64}
  {r : Int} {T₀ T : LinearTable (capacityOf i_entriesPerBucket)} {log : List Put2Call}

theorem length_add_slotsLeft_le
    (hlevel : 1 ≤ i_initialLevel.toNat ∧ i_initialLevel.toNat ≤ 29)
    (hcreate : librekvLinearCreate prior i_initialLevel i_entriesPerBucket = .ok (r, T₀))
    (hrun : Run Put2Step T₀ log T) : log.length + T.slotsLeft i_initialLevel.toNat ≤
      (2 ^ i_initialLevel.toNat + 2) * (capacityOf i_entriesPerBucket).toNat := by
  have hcreated := create_created hlevel.2 hcreate
  have hlimited : Limited i_initialLevel.toNat T₀ :=
    ⟨hcreated.put2Shape (capacityOf_pos _) hlevel.2, fun _ => hcreated.pageCount⟩
  have hstep : ∀ (S : LinearTable (capacityOf i_entriesPerBucket)) c S',
      Limited i_initialLevel.toNat S → Put2Step S c S' → Limited i_initialLevel.toNat S' ∧
        S'.slotsLeft i_initialLevel.toNat + 1 ≤ S.slotsLeft i_initialLevel.toNat :=
    fun _ _ _ h hstep => h.step hlevel.1 hstep
  refine (hrun.length_add_le hlimited hstep).trans ?_
  rw [LinearTable.slotsLeft, if_pos hcreated.level]
  exact Nat.sub_le _ _

/-- **How long put2 can be used.** From a table created with level `L ≥ 1`, no more than
`2 ^ L + 2` pages' worth of calls return, whatever the keys. -/
theorem put2_calls_le (hlevel : 1 ≤ i_initialLevel.toNat ∧ i_initialLevel.toNat ≤ 29)
    (hcreate : librekvLinearCreate prior i_initialLevel i_entriesPerBucket = .ok (r, T₀))
    (hrun : Run Put2Step T₀ log T) :
    log.length ≤ (2 ^ i_initialLevel.toNat + 2) * (capacityOf i_entriesPerBucket).toNat :=
  (Nat.le_add_right _ _).trans (length_add_slotsLeft_le hlevel hcreate hrun)

/-- Level 1 with one slot a page: the fourth call is the last that returns. -/
theorem put2_calls_le_example : ∃ T, Run Put2Step (smallTable 1)
    [⟨0, 10, freeEntry⟩, ⟨1, 20, freeEntry⟩, ⟨0, 30, freeEntry⟩, ⟨2, 40, freeEntry⟩] T ∧
      4 ≤ (2 ^ 1 + 2) * (capacityOf 1).toNat := by
  have h₁ : Run Put2Step (smallTable 1) [⟨0, 10, freeEntry⟩] _ := .snoc .nil rfl
  have h₂ : Run Put2Step (smallTable 1) [⟨0, 10, freeEntry⟩, ⟨1, 20, freeEntry⟩] _ := .snoc h₁ rfl
  have h₃ : Run Put2Step (smallTable 1)
      [⟨0, 10, freeEntry⟩, ⟨1, 20, freeEntry⟩, ⟨0, 30, freeEntry⟩] _ := .snoc h₂ rfl
  have h₄ : Run Put2Step (smallTable 1)
      [⟨0, 10, freeEntry⟩, ⟨1, 20, freeEntry⟩, ⟨0, 30, freeEntry⟩, ⟨2, 40, freeEntry⟩] _ :=
    .snoc h₃ rfl
  exact ⟨_, h₄, put2_calls_le (by decide) create_smallTable.1 h₄⟩

/-- **What the calls of a run stored.** Every call of a run stored its own pair; one of them at
most stored it twice, and only after it the array is longer than it was created. -/
theorem put2_ledger (hlevel : 1 ≤ i_initialLevel.toNat ∧ i_initialLevel.toNat ≤ 29)
    (hcreate : librekvLinearCreate prior i_initialLevel i_entriesPerBucket = .ok (r, T₀))
    (hrun : Run Put2Step T₀ log T) :
    ∃ twice : Multiset (UInt64 × UInt64), twice.card ≤ 1 ∧ twice ≤ pairsOf log ∧
      (T.size = 2 ^ i_initialLevel.toNat → twice = 0) ∧ T.contents = pairsOf log + twice := by
  have hcreated := create_created hlevel.2 hcreate
  have hledger := hcreated.put2Ledger (capacityOf_pos _) hlevel.2
  exact (hrun.invariantLog hledger fun _ _ _ _ h hstep => h.step hlevel.1 hstep).contents

/-- Two calls, of which the second splits. -/
theorem put2_ledger_example : ∃ T, Run Put2Step (smallTable 1)
    [⟨2, 20, freeEntry⟩, ⟨0, 10, freeEntry⟩] T ∧
      ∃ twice : Multiset (UInt64 × UInt64), twice.card ≤ 1 ∧ twice ≤ {(2, 20), (0, 10)} ∧
        (T.size = 2 ^ 1 → twice = 0) ∧ T.contents = {(2, 20), (0, 10)} + twice := by
  have hfirst : Run Put2Step (smallTable 1) [⟨2, 20, freeEntry⟩] _ := .snoc .nil rfl
  have hrun : Run Put2Step (smallTable 1) [⟨2, 20, freeEntry⟩, ⟨0, 10, freeEntry⟩] _ :=
    .snoc hfirst rfl
  exact ⟨_, hrun, put2_ledger (by decide) create_smallTable.1 hrun⟩

/-- **The first calls return.** On a table created with level `L ≥ 1` as many calls as a page has
slots return, whatever the keys and whatever the heap holds. -/
theorem put2_first_calls_return (hlevel : 1 ≤ i_initialLevel.toNat ∧ i_initialLevel.toNat ≤ 29)
    (hcreate : librekvLinearCreate prior i_initialLevel i_entriesPerBucket = .ok (r, T₀))
    (hrun : Run Put2Step T₀ log T) (hlen : log.length < (capacityOf i_entriesPerBucket).toNat)
    (c : Put2Call) : ∃ T', Put2Step T c T' := by
  have hcreated := create_created hlevel.2 hcreate
  have hboth : Put2Ledger i_initialLevel.toNat log T ∧ T.size = 2 ^ i_initialLevel.toNat := by
    induction hrun with
    | nil => exact ⟨hcreated.put2Ledger (capacityOf_pos _) hlevel.2, hcreated.size_eq⟩
    | @snoc log S S' c' _ hstep ih =>
        rw [List.length_append, List.length_singleton] at hlen
        obtain ⟨hledger, hsize⟩ := ih (by omega)
        obtain ⟨S₁, hstep₁, hsize₁⟩ := hledger.first hlevel.1 hsize (by omega) c'
        obtain rfl := Except.ok.inj (hstep₁.symm.trans hstep)
        exact ⟨hledger.step hlevel.1 hstep, hsize₁⟩
  obtain ⟨T', hstep, -⟩ := hboth.1.first hlevel.1 hboth.2 hlen c
  exact ⟨T', hstep⟩

/-- The call after one other. -/
theorem put2_first_calls_return_example : ∃ T,
    Run Put2Step (smallTable 2) [⟨1, 10, freeEntry⟩] T ∧
      ∃ T', Put2Step T ⟨1, 20, freeEntry⟩ T' := by
  have hrun : Run Put2Step (smallTable 2) [⟨1, 10, freeEntry⟩] _ := .snoc .nil rfl
  exact ⟨_, hrun, put2_first_calls_return (by decide) create_smallTable.2 hrun (by decide) _⟩

/-! ### The test program -/

/-- What a round of the loop in `main` meets: the number in `keyHash` after `scanf`, and what the
heap holds behind the first page of the bucket due to be split. -/
structure Round where
  keyHash : UInt64
  behind : LinearHashEntry

/-- The body of the loop in `main`. -/
def mainRound (T : LinearTable cap) (c : Round) : Except Fault (LinearTable cap) := do
  let T ← librekvLinearPut2 c.behind T c.keyHash 10000
  let _ ← librekvLinearDisplayHashTable T
  .ok T

/-- The loop of `main`, as far as the given rounds. `keyHash` is unsigned, so the test that is
meant to end the loop always fails. -/
def mainLoop (T : LinearTable cap) : List Round → Except Fault (LinearTable cap)
  | [] => .ok T
  | c :: rounds => if c.keyHash < 0 then .ok T else do
      let T ← mainRound T c
      mainLoop T rounds

/-- `main` of `linearhash_test.c`, as far as the given rounds of its loop. -/
def main (rounds : List Round) : Except Fault (LinearTable (capacityOf 4)) := do
  let (_, T) ← librekvLinearCreate (.zeroed 0) 1 4
  let _ ← librekvLinearDisplayHashTable T
  mainLoop T rounds

theorem mainLoop_run {T₀ T T' : LinearTable cap} {log : List Put2Call} {rounds : List Round}
    (hrun : Run Put2Step T₀ log T) (h : mainLoop T rounds = .ok T') :
    ∃ log', log'.length = log.length + rounds.length ∧ Run Put2Step T₀ log' T' := by
  induction rounds generalizing T log with
  | nil =>
      obtain rfl := Except.ok.inj h
      exact ⟨log, rfl, hrun⟩
  | cons c rounds ih =>
      rw [mainLoop, if_neg UInt64.not_lt_zero, mainRound, bind_eq_ok] at h
      obtain ⟨T₁, hround, h⟩ := h
      obtain ⟨T₂, hput, hround⟩ := bind_eq_ok.mp hround
      obtain ⟨-, -, hround⟩ := bind_eq_ok.mp hround
      obtain rfl := Except.ok.inj hround
      have hstep : Put2Step T ⟨c.keyHash, 10000, c.behind⟩ T₂ := hput
      obtain ⟨log', hlen, hrun'⟩ := ih (hrun.snoc hstep) h
      refine ⟨log', ?_, hrun'⟩
      rw [hlen, List.length_append, List.length_singleton, Nat.add_right_comm]
      rfl

/-- The loop gets through as many rounds as a page has slots. -/
theorem mainLoop_first {L : ℕ} {T : LinearTable cap} {log : List Put2Call} {rounds : List Round}
    (h : Put2Ledger L log T) (hL : 0 < L) (hsize : T.size = 2 ^ L)
    (hlen : log.length + rounds.length ≤ cap.toNat) : ∃ T', mainLoop T rounds = .ok T' := by
  induction rounds generalizing T log with
  | nil => exact ⟨T, rfl⟩
  | cons c rounds ih =>
      rw [List.length_cons] at hlen
      obtain ⟨T₁, hstep, hsize₁⟩ := h.first hL hsize (by omega) ⟨c.keyHash, 10000, c.behind⟩
      have h₁ := h.step hL hstep
      have hshow := h₁.shape.display hsize₁
      have hput : librekvLinearPut2 c.behind T c.keyHash 10000 = .ok T₁ := hstep
      obtain ⟨T', hloop⟩ := ih h₁ hsize₁ (by
        rw [List.length_append, List.length_singleton]
        omega)
      refine ⟨T', ?_⟩
      rw [mainLoop, if_neg UInt64.not_lt_zero, mainRound, hput, ok_bind, hshow, ok_bind, ok_bind,
        hloop]

/-- **The test program takes four keys and does not get past its seventeenth**, whatever is typed
and whatever the heap holds. -/
theorem main_rounds (input : ℕ → Round) :
    (∀ n ≤ 4, ∃ T, main ((List.range n).map input) = .ok T) ∧
      ∃ fault, main ((List.range 17).map input) = .error fault := by
  constructor
  · intro n hn
    obtain ⟨T, hcreate⟩ : ∃ T, librekvLinearCreate (.zeroed 0) 1 4 = .ok (0, T) := ⟨_, rfl⟩
    have hcreated : Created 1 T := create_created (by decide) hcreate
    have hledger := hcreated.put2Ledger (by decide) (by decide)
    have hsize := hcreated.size_eq
    have hshow := hledger.shape.display hsize
    have hlen : ([] : List Put2Call).length + ((List.range n).map input).length ≤
        (capacityOf 4).toNat := by
      rw [List.length_nil, List.length_map, List.length_range, Nat.zero_add]
      exact hn
    obtain ⟨T', hloop⟩ := mainLoop_first hledger (by decide) hsize hlen
    refine ⟨T', ?_⟩
    rw [main, hcreate, ok_bind]
    simp only [hshow, ok_bind]
    exact hloop
  · cases hmain : main ((List.range 17).map input) with
    | error fault => exact ⟨fault, rfl⟩
    | ok T =>
        obtain ⟨⟨r, T₀⟩, hcreate, hloop⟩ := bind_eq_ok.mp hmain
        obtain ⟨-, -, hloop⟩ := bind_eq_ok.mp hloop
        obtain ⟨log, hlen, hrun⟩ := mainLoop_run .nil hloop
        have hle : log.length + T.slotsLeft 1 ≤ 16 :=
          length_add_slotsLeft_le (by decide) hcreate hrun
        rw [hlen, List.length_map, List.length_range, List.length_nil] at hle
        omega

end Results

end LibreKV.LinearHash
