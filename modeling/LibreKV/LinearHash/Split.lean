import LibreKV.LinearHash.Put2

/-!
# LibreKV.LinearHash.Split

What the steps of a split do: the array grows by one empty bucket, the redistribution loop
moves entries out of the first page of the bucket being split, and the display dereferences
every bucket that `m_currBucketNum` counts.
-/

namespace LibreKV.LinearHash

open FirstFit Fallible

variable {cap : UInt64}

theorem SameCounters.redistribute {behind : LinearHashEntry} {T T' : LinearTable cap}
    (h : LinearHash.redistribute behind T = .ok T') : SameCounters T T' := by
  unfold LinearHash.redistribute at h
  split at h
  · refine foldlM_invariant (SameCounters.refl T) ?_ h
    intro T₁ i T₂ hsame hstep
    rw [redistributeSlot, bind_eq_ok] at hstep
    obtain ⟨e, -, hmove⟩ := hstep
    exact hsame.trans (.moveSlot hmove)
  · cases h

/-! ### The array grows -/

/-- `T'` is `T` with one empty bucket at index `m_currBucketNum`, after which the array ends. -/
structure Grown (T T' : LinearTable cap) : Prop where
  size : T'.size = T.currBucketNum.toNat + 1
  num : T'.currBucketNum = T.currBucketNum + 1
  level : T'.currentLevel = T.currentLevel
  next : T'.nextBucketIndexToSplit = T.nextBucketIndexToSplit
  kept : ∀ j < T.currBucketNum.toNat, T'.bucket? j = T.bucket? j
  added : T'.bucket? T.currBucketNum.toNat = some ⟨.empty cap, []⟩

/-- Below `2 ^ 60` buckets the byte count does not wrap. -/
theorem realloc_bytes {num : UInt64} (h : num.toNat < 2 ^ 60) :
    (num * 16).toNat / 16 = num.toNat := by
  rw [UInt64.toNat_mul]
  simp only [UInt64.reduceToNat]
  omega

theorem length_reallocBuckets (table : List (Option (LinearBucket cap))) {num : UInt64}
    (h : num.toNat < 2 ^ 60) : (reallocBuckets table num).length = num.toNat := by
  simp only [reallocBuckets, realloc_bytes h, List.length_append, List.length_take,
    List.length_replicate]
  omega

/-- The elements that exist before and after `realloc` keep their value. -/
theorem getElem?_reallocBuckets (table : List (Option (LinearBucket cap))) {num : UInt64}
    (h : num.toNat < 2 ^ 60) {j : ℕ} (hj : j < num.toNat) :
    ((reallocBuckets table num)[j]?).join = (table[j]?).join := by
  simp only [reallocBuckets, realloc_bytes h]
  by_cases hlen : j < table.length
  · rw [List.getElem?_append_left (by rw [List.length_take]; omega), List.getElem?_take_of_lt hj]
  · rw [List.getElem?_append_right (by rw [List.length_take]; omega),
      List.getElem?_eq_none (by omega : table.length ≤ j), List.getElem?_replicate]
    split <;> rfl

/-- As long as the byte count does not wrap, the array grows by one empty bucket. -/
theorem addBucket_grown_of_bytes {T : LinearTable cap} (hcap : cap.toNat < 2 ^ 31)
    (hnum : T.currBucketNum.toNat + 1 < 2 ^ 60) :
    ∃ T', librekvLinearAddBucket T = .ok (⟨.empty cap, []⟩, T') ∧ Grown T T' ∧
      T'.store (T'.currBucketNum - 1) ⟨.empty cap, []⟩ = .ok T' := by
  have hsucc : (T.currBucketNum + 1).toNat = T.currBucketNum.toNat + 1 := by
    rw [UInt64.toNat_add]
    simp only [UInt64.reduceToNat]
    omega
  have hpred : (T.resize (T.currBucketNum + 1)).currBucketNum - 1 = T.currBucketNum :=
    UInt64.add_sub_cancel _ _
  have hlen : (T.resize (T.currBucketNum + 1)).size = T.currBucketNum.toNat + 1 :=
    (length_reallocBuckets _ (by omega)).trans hsucc
  have hlt : T.currBucketNum.toNat < (T.resize (T.currBucketNum + 1)).size := by omega
  let T' := (T.resize (T.currBucketNum + 1)).setBucket T.currBucketNum.toNat ⟨.empty cap, []⟩
  have hadded : T'.bucket? T.currBucketNum.toNat = some ⟨.empty cap, []⟩ := by
    rw [LinearTable.bucket?_setBucket hlt, Function.update_self]
  refine ⟨T', ?_, ⟨?_, rfl, rfl, rfl, ?_, hadded⟩, ?_⟩
  · rw [librekvLinearAddBucket, librekvLinearInitNewBucket, if_pos hcap, ok_bind]
    simp only [LinearTable.store, hpred, if_pos hlt, ok_bind, T']
  · exact (LinearTable.size_setBucket _ _ _).trans hlen
  · intro j hj
    rw [LinearTable.bucket?_setBucket hlt, Function.update_of_ne (by omega)]
    exact getElem?_reallocBuckets _ (by omega) (by omega)
  · have hpred' : T'.currBucketNum - 1 = T.currBucketNum := hpred
    have hlt' : T.currBucketNum.toNat < T'.size := by
      rw [LinearTable.size_setBucket]
      exact hlt
    rw [LinearTable.store, hpred', if_pos hlt', LinearTable.setBucket_self hadded]

theorem addBucket_grown {T : LinearTable cap} (hcap : cap.toNat < 2 ^ 31)
    (hnum : T.currBucketNum.toNat < 2 ^ 59) :
    ∃ T', librekvLinearAddBucket T = .ok (⟨.empty cap, []⟩, T') ∧ Grown T T' ∧
      T'.store (T'.currBucketNum - 1) ⟨.empty cap, []⟩ = .ok T' :=
  addBucket_grown_of_bytes hcap (by omega)

/-- The split inserts into the bucket that was added. -/
theorem Grown.mirror {T T' : LinearTable cap} (h : Grown T T') :
    T'.currBucketNum - 1 = T.currBucketNum := by
  rw [h.num]
  exact UInt64.add_sub_cancel _ _

/-! ### The end of a split -/

/-- Up to level 30 the assigned power is not zero, so every split raises the level. -/
theorem LinearTable.raiseLevel_eq {T : LinearTable cap} (h : T.currentLevel.toNat ≤ 30) :
    T.raiseLevel = { T with
      currBucketNum := twoToLevel T.currentLevel
      currentLevel := T.currentLevel + 1
      nextBucketIndexToSplit := 0
      isSplit := false } := by
  have hnz : twoToLevel T.currentLevel ≠ 0 := by
    intro hzero
    have hpow := toNat_twoToLevel h
    rw [hzero] at hpow
    exact absurd hpow (Nat.two_pow_pos _).ne
  rw [LinearTable.raiseLevel]
  simp only [ne_eq, hnz, not_false_eq_true, if_true]

/-! ### The display -/

theorem displayBuckets_eq_ok {T : LinearTable cap} {is : List ℕ} :
    displayBuckets T is = .ok () ↔ ∀ i ∈ is, ∃ b, T.bucket? i = some b := by
  induction is with
  | nil => simp [displayBuckets]
  | cons i is ih =>
      rw [displayBuckets, bind_eq_ok, List.forall_mem_cons, ← ih]
      simp only [LinearTable.bucketAt_eq_ok, exists_and_right]

/-- The display returns iff every bucket counted is there. -/
theorem display_eq_ok {T : LinearTable cap} :
    librekvLinearDisplayHashTable T = .ok () ↔
      ∀ i < T.currBucketNum.toNat, ∃ b, T.bucket? i = some b := by
  rw [librekvLinearDisplayHashTable, displayBuckets_eq_ok]
  simp only [List.mem_range]

/-- After a split of a table with fewer buckets than its level asks for, the display overruns
the array. -/
theorem display_overruns {T : LinearTable cap} (hlevel : T.currentLevel.toNat ≤ 30)
    (hsize : T.size < 2 ^ T.currentLevel.toNat) :
    librekvLinearDisplayHashTable T.raiseLevel ≠ .ok () := by
  intro h
  rw [T.raiseLevel_eq hlevel] at h
  obtain ⟨b, hb⟩ := display_eq_ok.mp h T.size (hsize.trans_eq (toNat_twoToLevel hlevel).symm)
  exact Nat.lt_irrefl T.size (LinearTable.lt_size hb)

/-! ### The redistribution loop -/

/-- What the loop leaves in a slot of the page. -/
def LinearHashEntry.relocated (level : UInt16) (mirror : UInt64) (e : LinearHashEntry) :
    LinearHashEntry :=
  if e.movesTo level mirror then freeEntry else e

/-- The page after a pass of `f` over its first `k` slots. -/
def Page.sweep (f : LinearHashEntry → LinearHashEntry) (k : ℕ) (p : Page cap) : Page cap :=
  ⟨FirstFit.sweep f k p.slots, by rw [length_sweep, p.size]⟩

namespace Page

variable (f : LinearHashEntry → LinearHashEntry) (p : Page cap) {k : ℕ} {e : LinearHashEntry}

theorem sweep_zero : p.sweep f 0 = p := Page.ext (FirstFit.sweep_zero f p.slots)

theorem sweep_succ (h : p.slots[k]? = some e) : (p.sweep f k).set k (f e) = p.sweep f (k + 1) :=
  Page.ext (FirstFit.sweep_succ f h)

theorem sweep_succ_of_fixed (h : p.slots[k]? = some e) (hf : f e = e) :
    p.sweep f (k + 1) = p.sweep f k :=
  Page.ext (FirstFit.sweep_succ_of_fixed f h hf)

end Page

/-- The invariant of the redistribution loop after `k` rounds, from the table `S` on: the
entries that belong to the mirror-image bucket are gone from the first `k` slots of the page,
and the mirror-image bucket holds exactly these. -/
structure Swept (S : LinearTable cap) (b₀ : LinearBucket cap) (mirror : UInt64) (k : ℕ)
    (T : LinearTable cap) : Prop where
  same : SameCounters S T
  head : T.bucket? 0 =
    some { b₀ with page := b₀.page.sweep (LinearHashEntry.relocated S.currentLevel mirror) k }
  fresh : ∃ c, T.bucket? mirror.toNat = some c ∧
    c.entries = (occupied LinearHashEntry.isValid (b₀.page.slots.take k)).filter
      fun e => e.movesTo S.currentLevel mirror = true
  other : ∀ j, j ≠ 0 → j ≠ mirror.toNat → T.bucket? j = S.bucket? j

section Loop

variable {S T : LinearTable cap} {b₀ : LinearBucket cap} {mirror : UInt64} {k : ℕ}

/-- One more slot of the page adds its entry to those that move, if it moves. -/
theorem moved_take_succ {e : LinearHashEntry} (he : b₀.page.slots[k]? = some e)
    (moves : LinearHashEntry → Bool) (hocc : moves e = true → e.isValid = false) :
    (occupied LinearHashEntry.isValid (b₀.page.slots.take (k + 1))).filter
        (fun e => moves e = true) =
      (occupied LinearHashEntry.isValid (b₀.page.slots.take k)).filter
        (fun e => moves e = true) + if moves e then {e} else 0 := by
  rw [List.take_add_one, he, Option.toList_some, occupied_append, Multiset.filter_add]
  congr 1
  cases hm : moves e with
  | true =>
      rw [occupied_cons_of_not_free (hocc hm), occupied_nil, if_pos rfl,
        Multiset.filter_cons_of_pos (p := fun e => moves e = true) _ hm, Multiset.filter_zero]
      rfl
  | false =>
      have hno : ∀ a ∈ occupied LinearHashEntry.isValid [e], ¬ moves a = true := by
        intro a ha
        obtain rfl := List.mem_singleton.mp (mem_occupied.mp ha).1
        simp [hm]
      rw [Multiset.filter_eq_nil.mpr hno]
      rfl

/-- Before the loop. -/
theorem Swept.zero (h₀ : S.bucket? 0 = some b₀)
    (hm : S.bucket? mirror.toNat = some ⟨.empty cap, []⟩) : Swept S b₀ mirror 0 S where
  same := .refl S
  head := by
    rw [h₀, Page.sweep_zero]
  fresh := by
    refine ⟨_, hm, ?_⟩
    rw [LinearBucket.entries_empty]
    rfl
  other := fun _ _ _ => rfl

theorem Swept.next (h : Swept S b₀ mirror k T) (hnext : S.nextBucketIndexToSplit = 0) :
    T.nextBucketIndexToSplit.toNat = 0 := by
  rw [h.same.next, hnext]
  rfl

/-- What the loop reads in its next round. -/
theorem Swept.read (h : Swept S b₀ mirror k T) (hnext : S.nextBucketIndexToSplit = 0)
    (hk : k < cap.toNat) {e : LinearHashEntry} (he : b₀.page.slots[k]? = some e)
    (behind : LinearHashEntry) : readFirstPage behind T k = .ok e := by
  have hslot : (b₀.page.sweep (LinearHashEntry.relocated S.currentLevel mirror) k).slots[k]? =
      some e := (getElem?_sweep _ _ _).trans he
  rw [readFirstPage, if_pos hk, LinearTable.readSlot, h.next hnext, LinearTable.bucketAt_eq h.head,
    ok_bind]
  simp only [LinearBucket.pages, List.getElem?_cons_zero, hslot]

/-- The mirror-image bucket has room as long as fewer entries than a page has slots came. -/
theorem Swept.room (h : Swept S b₀ mirror k T) (hk : k < cap.toNat) {c : LinearBucket cap}
    (hc : T.bucket? mirror.toNat = some c) : ¬ c.Full := by
  obtain ⟨c', hc', hentries⟩ := h.fresh
  obtain rfl := Option.some.inj (hc.symm.trans hc')
  apply LinearBucket.not_full_of_card_lt
  calc c.entries.card
      ≤ (occupied LinearHashEntry.isValid (b₀.page.slots.take k)).card := by
        rw [hentries]
        exact Multiset.card_le_card (Multiset.filter_le _ _)
    _ ≤ (b₀.page.slots.take k).length := card_occupied_le _
    _ ≤ k := List.length_take_le k _
    _ < cap.toNat := hk

/-- A round over an entry that stays changes nothing. -/
theorem Swept.keep (h : Swept S b₀ mirror k T) {e : LinearHashEntry}
    (he : b₀.page.slots[k]? = some e) (hm : e.movesTo S.currentLevel mirror = false) :
    Swept S b₀ mirror (k + 1) T := by
  have htake := moved_take_succ he (LinearHashEntry.movesTo S.currentLevel mirror)
    fun hm => (movesTo_eq_true.mp hm).1
  have hfix : e.relocated S.currentLevel mirror = e := by
    rw [LinearHashEntry.relocated, hm]
    rfl
  obtain ⟨c, hc, hentries⟩ := h.fresh
  refine ⟨h.same, ?_, ⟨c, hc, ?_⟩, h.other⟩
  · rw [h.head, Page.sweep_succ_of_fixed _ _ he hfix]
  · rw [htake, hm, hentries]
    exact (add_zero _).symm

/-- A round over an entry that moves takes it from the page to the mirror-image bucket. -/
theorem Swept.move (h : Swept S b₀ mirror k T) (hcap' : cap.toNat < 2 ^ 31)
    (hnext : S.nextBucketIndexToSplit = 0) (hne : mirror.toNat ≠ 0) (hk : k < cap.toNat)
    {e : LinearHashEntry} (he : b₀.page.slots[k]? = some e)
    (hm : e.movesTo S.currentLevel mirror = true) :
    ∃ T', moveSlot T 0 k e mirror = .ok T' ∧ Swept S b₀ mirror (k + 1) T' := by
  have htake := moved_take_succ he (LinearHashEntry.movesTo S.currentLevel mirror)
    fun hm => (movesTo_eq_true.mp hm).1
  have hocc : e.isValid = false := (movesTo_eq_true.mp hm).1
  have hentry : occupiedEntry e.keyHash e.offset = e := by rw [occupiedEntry, ← hocc]
  obtain ⟨c, hc, hentries⟩ := h.fresh
  obtain ⟨r, c', hins, hc'⟩ := insert_eq (Nat.zero_lt_of_lt hk) hcap' hc e.keyHash e.offset
  have hadd : c'.entries = e ::ₘ c.entries := by
    have := (hc'.of_not_full rfl (h.room hk hc)).2
    rwa [hentry] at this
  -- The insertion replaced the mirror-image bucket only.
  have hlook := LinearTable.bucket?_stored (LinearTable.lt_size hc) c' r
  have hhead : ((T.setBucket mirror.toNat c').withSplit r).bucket? 0 = T.bucket? 0 := by
    rw [hlook, Function.update_of_ne (Ne.symm hne)]
  rw [h.head] at hhead
  have hfree : e.relocated S.currentLevel mirror = freeEntry := by
    rw [LinearHashEntry.relocated, hm]
    rfl
  have hsweep := b₀.page.sweep_succ (LinearHashEntry.relocated S.currentLevel mirror) he
  rw [hfree] at hsweep
  have hlook' := LinearTable.bucket?_setBucket (LinearTable.lt_size hhead) { b₀ with
    page := b₀.page.sweep (LinearHashEntry.relocated S.currentLevel mirror) (k + 1) }
  refine ⟨((T.setBucket mirror.toNat c').withSplit r).setBucket 0 { b₀ with
    page := b₀.page.sweep (LinearHashEntry.relocated S.currentLevel mirror) (k + 1) },
    ?_, ?_, ?_, ⟨c', ?_, ?_⟩, ?_⟩
  · rw [moveSlot, h.same.level, if_pos hm, hins, ok_bind, LinearTable.clearSlot, h.next hnext,
      LinearTable.bucketAt_eq hhead, ok_bind]
    simp only [LinearBucket.pages, List.getElem?_cons_zero, Page.write, if_pos hk, ok_bind,
      LinearBucket.setPage, hsweep]
  · exact h.same.trans ((SameCounters.insert hins).trans (.setBucket _ _ _))
  · rw [hlook', Function.update_self]
  · rw [hlook', Function.update_of_ne hne, hlook, Function.update_self]
  · rw [htake, hm, hadd, hentries, if_pos rfl, add_comm, Multiset.singleton_add]
  · intro j hj₀ hj
    rw [hlook', Function.update_of_ne hj₀, hlook, Function.update_of_ne hj]
    exact h.other j hj₀ hj

/-- One round of the loop over a slot of the page. -/
theorem Swept.step (h : Swept S b₀ mirror k T) (hcap' : cap.toNat < 2 ^ 31)
    (hnext : S.nextBucketIndexToSplit = 0) (hmirror : S.currBucketNum - 1 = mirror)
    (hne : mirror.toNat ≠ 0) (hk : k < cap.toNat) (behind : LinearHashEntry) :
    ∃ T', redistributeSlot behind T k = .ok T' ∧ Swept S b₀ mirror (k + 1) T' := by
  have hklen : k < b₀.page.slots.length := by rw [b₀.page.size]; exact hk
  obtain ⟨e, he⟩ : ∃ e, b₀.page.slots[k]? = some e := ⟨_, List.getElem?_eq_getElem hklen⟩
  rw [redistributeSlot, h.read hnext hk he, ok_bind, h.same.num, hmirror]
  cases hm : e.movesTo S.currentLevel mirror with
  | false =>
      refine ⟨T, ?_, h.keep he hm⟩
      rw [moveSlot, h.same.level, hm]
      rfl
  | true => exact h.move hcap' hnext hne hk he hm

variable (hcap' : cap.toNat + 1 < 2 ^ 31) (hnext : S.nextBucketIndexToSplit = 0)
  (hmirror : S.currBucketNum - 1 = mirror) (hne : mirror.toNat ≠ 0)
  (h₀ : S.bucket? 0 = some b₀) (hm : S.bucket? mirror.toNat = some ⟨.empty cap, []⟩)
include hcap' hnext hmirror hne h₀ hm

/-- The rounds over the slots of the page. -/
theorem redistribute_page (behind : LinearHashEntry) :
    ∃ T', redistribute behind S = redistributeSlot behind T' cap.toNat ∧
      Swept S b₀ mirror cap.toNat T' := by
  obtain ⟨T', hT', hswept⟩ := foldlM_range_ok (f := redistributeSlot behind)
    (Swept.zero h₀ hm) fun k hk T h =>
      h.step (Nat.lt_of_succ_lt hcap') hnext hmirror hne hk behind
  refine ⟨T', ?_, hswept⟩
  rw [redistribute, if_pos hcap', foldlM_range_succ, hT', ok_bind]

/-- If what lies behind the page does not look like an entry to move, the loop ends with the
page swept. -/
theorem redistribute_swept {behind : LinearHashEntry}
    (hbehind : behind.movesTo S.currentLevel mirror = false) :
    ∃ T', redistribute behind S = .ok T' ∧ Swept S b₀ mirror cap.toNat T' := by
  obtain ⟨T', hT', hswept⟩ := redistribute_page hcap' hnext hmirror hne h₀ hm behind
  refine ⟨T', ?_, hswept⟩
  rw [hT', redistributeSlot, readFirstPage, if_neg (Nat.lt_irrefl _), ok_bind, hswept.same.num,
    hmirror, moveSlot, hswept.same.level, hbehind]
  rfl

/-- Otherwise the loop writes behind the page. -/
theorem redistribute_crashes {behind : LinearHashEntry}
    (hbehind : behind.movesTo S.currentLevel mirror = true) (T' : LinearTable cap) :
    redistribute behind S ≠ .ok T' := by
  obtain ⟨T₁, hT₁, hswept⟩ := redistribute_page hcap' hnext hmirror hne h₀ hm behind
  rw [hT₁, redistributeSlot, readFirstPage, if_neg (Nat.lt_irrefl _), ok_bind, hswept.same.num,
    hmirror, moveSlot, hswept.same.level, hbehind, if_pos rfl]
  intro h
  obtain ⟨r, -, hclear⟩ := bind_eq_ok.mp h
  rw [LinearTable.clearSlot, bind_eq_ok] at hclear
  obtain ⟨b, -, hclear⟩ := hclear
  split at hclear
  · cases hclear
  · rw [Page.write, if_neg (Nat.lt_irrefl _)] at hclear
    cases hclear

end Loop

end LibreKV.LinearHash
