import Mathlib.Algebra.Order.BigOperators.Group.Finset
import LibreKV.LinearHash.Compact
import LibreKV.LinearHash.Put
import LibreKV.LinearHash.Put2Runs

/-!
# LibreKV.LinearHash.Api

The functions of `linearhash.h` that change the table, in any order and on any state.

Mixed calls lead to tables of no particular shape: entries out of their place, buckets without
contents, a level that the array does not have. What holds all the same is that no call makes
entries up or copies those of others. An entry moves by an insertion elsewhere and the freeing of
its slot, and the insertion cannot have touched that slot, since it only takes free ones.
-/

namespace LibreKV.LinearHash

open FirstFit Fallible Transition

variable {cap : UInt64}

/-! ### The slots of a chain by page and subscript -/

/-- The slot `i` of the page number `k`. -/
def LinearBucket.slot? (b : LinearBucket cap) (k i : ℕ) : Option LinearHashEntry :=
  b.pages[k]?.bind fun p => p.slots[i]?

namespace LinearBucket

variable {b b' : LinearBucket cap} {k i : ℕ} {e x : LinearHashEntry}

theorem lt_of_slot? (h : b.slot? k i = some x) : i < cap.toNat := by
  obtain ⟨p, -, hx⟩ := Option.bind_eq_some_iff.mp h
  rw [← p.size]
  exact (List.getElem?_eq_some_iff.mp hx).1

theorem slot?_eq (hi : i < cap.toNat) : b.slot? k i = b.slots[k * cap.toNat + i]? :=
  (getElem?_flatMap_pages Page.size hi b.pages k).symm

theorem pages_setPage (b : LinearBucket cap) (k : ℕ) (p : Page cap) :
    (b.setPage k p).pages = b.pages.set k p := by
  cases k with
  | zero => rfl
  | succ k => rfl

/-- Freeing an occupied slot takes its entry out of the chain. -/
theorem entries_free {p : Page cap} (hp : b.pages[k]? = some p) (hx : b.slot? k i = some x)
    (hocc : x.isValid = false) :
    b.entries = {x} + (b.setPage k (p.set i freeEntry)).entries := by
  have hi := lt_of_slot? hx
  have hfree : freeEntry.isValid = true := rfl
  rw [slot?_eq hi] at hx
  rw [Multiset.singleton_add, entries, occupied_set_free hx hocc hfree, entries, slots, slots,
    pages_setPage, flatMap_set_page Page.size hi hp rfl]

/-- An insertion leaves the occupied slots of its chain as they are. -/
theorem slot?_of_inserted {next j : UInt64} {r : Bool} (h : Inserted e next j b r b')
    (hx : b.slot? k i = some x) (hocc : x.isValid = false) : b'.slot? k i = some x := by
  have hi := lt_of_slot? hx
  rw [slot?_eq hi] at hx ⊢
  cases h with
  | placed b' hplace =>
      -- the slot that was taken was free, and `x` is not
      have hslots := b.place_slots e
      rw [hplace, Option.map_some] at hslots
      obtain ⟨n, -, ⟨a, ha, hfree⟩, hset⟩ := place_eq_set hslots.symm
      have hne : n ≠ k * cap.toNat + i := by
        rintro rfl
        obtain rfl := Option.some.inj (ha.symm.trans hx)
        rw [hocc] at hfree
        cases hfree
      rw [hset, List.getElem?_set_ne hne, hx]
  | overflowed _ _ =>
      rw [slots_append, List.getElem?_append_left (List.getElem?_eq_some_iff.mp hx).1, hx]
  | refused _ _ => exact hx

end LinearBucket

namespace LinearTable

variable {T : LinearTable cap}

/-! ### Comparing the contents of two tables -/

theorem entries_eq_sum {n : ℕ} (h : T.size ≤ n) :
    T.entries = ∑ i ∈ Finset.range n, T.entriesAt i := by
  refine Finset.sum_subset (Finset.range_subset_range.mpr h) fun i _ hi => ?_
  exact entriesAt_of_size_le (not_lt.mp fun hlt => hi (Finset.mem_range.mpr hlt))

/-- When no bucket gains anything, the table does not. -/
theorem contents_le {T' : LinearTable cap} (h : ∀ i, T'.entriesAt i ≤ T.entriesAt i) :
    T'.contents ≤ T.contents := by
  refine Multiset.map_le_map ?_
  rw [entries_eq_sum (le_max_left T.size T'.size), entries_eq_sum (le_max_right T.size T'.size)]
  exact Finset.sum_le_sum fun i _ => h i

/-- What one bucket loses, the table loses. -/
theorem contents_setBucket_lose {i : ℕ} {b b' : LinearBucket cap}
    {x : Multiset LinearHashEntry} (hb : T.bucket? i = some b)
    (hx : b.entries = x + b'.entries) :
    T.contents = x.map (fun e => (e.keyHash, e.offset)) + (T.setBucket i b').contents := by
  have hb' : (T.setBucket i b').bucket? i = some b' := by
    rw [bucket?_setBucket (lt_size hb), Function.update_self]
  have hback : (T.setBucket i b').setBucket i b = T := by
    have hset : (T.setBucket i b').setBucket i b = T.setBucket i b := by
      simp [setBucket]
    rw [hset, setBucket_self hb]
  conv_lhs => rw [← hback]
  exact contents_setBucket hb' hx

end LinearTable

/-! ### What the functions can add -/

section Steps

variable {T T' : LinearTable cap} {keyHash offset : UInt64}

theorem write_eq_ok {p q : Page cap} {i : ℕ} {e : LinearHashEntry} (h : p.write i e = .ok q) :
    i < cap.toNat ∧ q = p.set i e := by
  rw [Page.write] at h
  by_cases hi : i < cap.toNat
  · rw [if_pos hi] at h
    exact ⟨hi, (Except.ok.inj h).symm⟩
  · rw [if_neg hi] at h
    cases h

theorem initNewBucket_eq_ok {b : LinearBucket cap} (h : librekvLinearInitNewBucket cap = .ok b) :
    b = ⟨.empty cap, []⟩ := by
  rw [librekvLinearInitNewBucket, if_pos (lt_of_initNewBucket h)] at h
  exact (Except.ok.inj h).symm

/-- An insertion that returns, on any table. -/
theorem insert_inv {i : UInt64} {r : Bool}
    (h : librekvLinearInsertToBucket T keyHash offset i = .ok (r, T')) :
    ∃ b b', T.bucket? i.toNat = some b ∧ T' = (T.setBucket i.toNat b').withSplit r ∧
      Inserted (occupiedEntry keyHash offset) T.nextBucketIndexToSplit i b r b' := by
  rw [librekvLinearInsertToBucket, bind_eq_ok] at h
  obtain ⟨b, hb, h⟩ := h
  rw [LinearTable.bucketAt_eq_ok] at hb
  cases hplace : b.place (occupiedEntry keyHash offset) with
  | some b' =>
      rw [hplace] at h
      obtain ⟨rfl, rfl⟩ := Prod.mk.inj (Except.ok.inj h)
      exact ⟨b, b', hb, rfl, .placed b' hplace⟩
  | none =>
      have hfull := LinearBucket.place_eq_none_iff.mp hplace
      simp only [hplace] at h
      by_cases hne : T.nextBucketIndexToSplit ≠ i
      · rw [if_pos hne, bind_eq_ok] at h
        obtain ⟨page, hpage, h⟩ := h
        obtain ⟨p, hp, h⟩ := bind_eq_ok.mp h
        obtain ⟨rfl, rfl⟩ := Prod.mk.inj (Except.ok.inj h)
        obtain rfl := initNewBucket_eq_ok hpage
        obtain ⟨-, rfl⟩ := write_eq_ok hp
        exact ⟨b, _, hb, rfl, .overflowed hfull hne⟩
      -- the bucket due to be split: nothing is stored, a split is asked for
      · rw [if_neg hne] at h
        obtain ⟨rfl, rfl⟩ := Prod.mk.inj (Except.ok.inj h)
        refine ⟨b, b, hb, ?_, .refused hfull (not_not.mp hne)⟩
        rw [LinearTable.setBucket_self hb]

theorem occupied_single_le {e : LinearHashEntry} (he : e.isValid = false) :
    occupied LinearHashEntry.isValid (Page.single e : Page cap).slots ≤ {e} := by
  rcases Nat.eq_zero_or_pos cap.toNat with hzero | hpos
  · rw [List.eq_nil_of_length_eq_zero ((Page.single e : Page cap).size.trans hzero)]
    exact Multiset.zero_le _
  · rw [occupied_single hpos he]

/-- What an insertion adds to its chain. -/
theorem Inserted.entries_le {e : LinearHashEntry} {next i : UInt64} {b b' : LinearBucket cap}
    {r : Bool} (h : Inserted e next i b r b') (he : e.isValid = false) :
    ∃ x ≤ ({e} : Multiset LinearHashEntry), b'.entries = x + b.entries := by
  cases h with
  | placed b' hplace =>
      exact ⟨{e}, le_rfl, by rw [LinearBucket.entries_place he hplace, Multiset.singleton_add]⟩
  | overflowed _ _ =>
      exact ⟨_, occupied_single_le he, by rw [LinearBucket.entries_append, add_comm]⟩
  | refused _ _ => exact ⟨0, Multiset.zero_le _, (zero_add _).symm⟩

/-- The pair that an insertion can add. -/
theorem insert_contents_le {i : UInt64} {r : Bool}
    (h : librekvLinearInsertToBucket T keyHash offset i = .ok (r, T')) :
    T'.contents ≤ {(keyHash, offset)} + T.contents := by
  obtain ⟨b, b', hb, rfl, hins⟩ := insert_inv h
  obtain ⟨x, hx, hentries⟩ := hins.entries_le rfl
  refine (LinearTable.contents_setBucket hb hentries).trans_le ?_
  exact Multiset.add_le_add_right (Multiset.map_le_map hx)

theorem readSlot_eq_ok {index : UInt64} {k i : ℕ} {e : LinearHashEntry}
    (h : T.readSlot index k i = .ok e) :
    ∃ b, T.bucket? index.toNat = some b ∧ b.slot? k i = some e := by
  obtain ⟨b, hb, h⟩ := bind_eq_ok.mp h
  rw [LinearTable.bucketAt_eq_ok] at hb
  refine ⟨b, hb, ?_⟩
  cases hp : b.pages[k]? with
  | none =>
      simp only [hp] at h
      cases h
  | some p =>
      simp only [hp] at h
      cases he : p.slots[i]? with
      | none =>
          simp only [he] at h
          cases h
      | some e' =>
          simp only [he] at h
          obtain rfl := Except.ok.inj h
          rw [LinearBucket.slot?, hp]
          exact he

/-- Freeing the slot of an entry takes its pair out of the table. -/
theorem clearSlot_contents {index : UInt64} {k i : ℕ} {b : LinearBucket cap} {e : LinearHashEntry}
    (hb : T.bucket? index.toNat = some b) (he : b.slot? k i = some e) (hocc : e.isValid = false)
    (h : T.clearSlot index k i = .ok T') :
    T.contents = {(e.keyHash, e.offset)} + T'.contents := by
  obtain ⟨b₁, hb₁, h⟩ := bind_eq_ok.mp h
  rw [LinearTable.bucketAt_eq_ok] at hb₁
  obtain rfl := Option.some.inj (hb.symm.trans hb₁)
  cases hp : b.pages[k]? with
  | none =>
      simp only [hp] at h
      cases h
  | some p =>
      simp only [hp] at h
      obtain ⟨p', hp', h⟩ := bind_eq_ok.mp h
      obtain ⟨-, rfl⟩ := write_eq_ok hp'
      obtain rfl := Except.ok.inj h
      exact LinearTable.contents_setBucket_lose hb (LinearBucket.entries_free hp he hocc)

/-- Moving an entry adds none: the insertion cannot have touched the slot that is freed. -/
theorem moveSlot_contents_le {k i : ℕ} {e : LinearHashEntry} {mirror : UInt64}
    (hread : T.readSlot T.nextBucketIndexToSplit k i = .ok e)
    (h : moveSlot T k i e mirror = .ok T') : T'.contents ≤ T.contents := by
  rw [moveSlot] at h
  by_cases hm : e.movesTo T.currentLevel mirror = true
  · rw [if_pos hm] at h
    obtain ⟨⟨r, T₁⟩, hins, hclear⟩ := bind_eq_ok.mp h
    have hocc := (movesTo_eq_true.mp hm).1
    have hadded := insert_contents_le hins
    obtain ⟨b, hb, he⟩ := readSlot_eq_ok hread
    obtain ⟨c, c', hc, rfl, hc'⟩ := insert_inv hins
    have hlook := LinearTable.bucket?_stored (LinearTable.lt_size hc) c' r
    have hkept : ∃ b₁, ((T.setBucket mirror.toNat c').withSplit r).bucket?
        T.nextBucketIndexToSplit.toNat = some b₁ ∧ b₁.slot? k i = some e := by
      rw [hlook, Function.update_apply]
      -- on an inconsistent table an entry may be moved within its bucket
      by_cases hsame : T.nextBucketIndexToSplit.toNat = mirror.toNat
      · rw [if_pos hsame]
        rw [← hsame, hb] at hc
        obtain rfl := Option.some.inj hc
        exact ⟨c', rfl, LinearBucket.slot?_of_inserted hc' he hocc⟩
      · rw [if_neg hsame]
        exact ⟨b, hb, he⟩
    obtain ⟨b₁, hb₁, he₁⟩ := hkept
    rw [clearSlot_contents hb₁ he₁ hocc hclear] at hadded
    exact le_of_add_le_add_left hadded
  · rw [if_neg hm] at h
    obtain rfl := Except.ok.inj h
    exact le_rfl

/-- A loop whose rounds add nothing. -/
theorem loop_contents_le {α : Type} {f : LinearTable cap → α → Except Fault (LinearTable cap)}
    {l : List α} (hround : ∀ S a S', f S a = .ok S' → S'.contents ≤ S.contents)
    (h : l.foldlM f T = .ok T') : T'.contents ≤ T.contents := by
  have hrule := @foldlM_invariant _ _ _ f (fun S => S.contents ≤ T.contents) l T T'
  exact hrule le_rfl (fun S a S' hle hstep => (hround S a S' hstep).trans hle) h

/-- A round of the redistribution. The slot behind the page is read but cannot be freed. -/
theorem redistributeSlot_contents_le {behind : LinearHashEntry} {i : ℕ}
    (h : redistributeSlot behind T i = .ok T') : T'.contents ≤ T.contents := by
  obtain ⟨e, hread, h⟩ := bind_eq_ok.mp h
  rw [readFirstPage] at hread
  by_cases hi : i < cap.toNat
  · rw [if_pos hi] at hread
    exact moveSlot_contents_le hread h
  · rw [moveSlot] at h
    by_cases hm : e.movesTo T.currentLevel (T.currBucketNum - 1) = true
    · rw [if_pos hm] at h
      obtain ⟨r, -, hclear⟩ := bind_eq_ok.mp h
      obtain ⟨b, -, hclear⟩ := bind_eq_ok.mp hclear
      cases hp : b.pages[0]? with
      | none =>
          simp only [hp] at hclear
          cases hclear
      | some p =>
          simp only [hp] at hclear
          obtain ⟨p', hp', -⟩ := bind_eq_ok.mp hclear
          exact absurd (write_eq_ok hp').1 hi
    · rw [if_neg hm] at h
      obtain rfl := Except.ok.inj h
      exact le_rfl

theorem redistribute_contents_le {behind : LinearHashEntry}
    (h : redistribute behind T = .ok T') : T'.contents ≤ T.contents := by
  rw [redistribute] at h
  by_cases hcap : cap.toNat + 1 < 2 ^ 31
  · rw [if_pos hcap] at h
    exact loop_contents_le (fun _ _ _ => redistributeSlot_contents_le) h
  · rw [if_neg hcap] at h
    cases h

/-- The array keeps some of its buckets, and the new elements hold nothing. -/
theorem resize_contents_le (T : LinearTable cap) (num : UInt64) :
    (T.resize num).contents ≤ T.contents := by
  refine LinearTable.contents_le fun i => ?_
  have hget : (T.resize num).bucket? i = T.bucket? i ∨ (T.resize num).bucket? i = none := by
    show ((reallocBuckets T.linearHashTable num)[i]?).join = _ ∨
      ((reallocBuckets T.linearHashTable num)[i]?).join = none
    rw [reallocBuckets, List.getElem?_append, List.getElem?_take, List.getElem?_replicate]
    split
    · split
      · exact Or.inl rfl
      · exact Or.inr rfl
    · split
      · exact Or.inr rfl
      · exact Or.inr rfl
  rcases hget with hsame | hnone
  · exact (LinearTable.entriesAt_congr hsame).le
  · rw [LinearTable.entriesAt, hnone]
    exact Multiset.zero_le _

/-- A new bucket takes the place of another. -/
theorem store_contents_le {i : UInt64} (h : T.store i ⟨.empty cap, []⟩ = .ok T') :
    T'.contents ≤ T.contents := by
  rw [LinearTable.store] at h
  by_cases hi : i.toNat < T.size
  · rw [if_pos hi] at h
    obtain rfl := Except.ok.inj h
    refine LinearTable.contents_le fun j => ?_
    rw [LinearTable.entriesAt, LinearTable.bucket?_setBucket hi, Function.update_apply]
    by_cases hj : j = i.toNat
    · rw [if_pos hj, Option.elim_some, LinearBucket.entries_empty]
      exact Multiset.zero_le _
    · rw [if_neg hj]
      exact le_rfl
  · rw [if_neg hi] at h
    cases h

theorem addBucket_contents_le {b : LinearBucket cap}
    (h : librekvLinearAddBucket T = .ok (b, T')) :
    b = ⟨.empty cap, []⟩ ∧ T'.contents ≤ T.contents := by
  obtain ⟨c, hc, h⟩ := bind_eq_ok.mp h
  obtain ⟨T₁, hstore, h⟩ := bind_eq_ok.mp h
  obtain ⟨rfl, rfl⟩ := Prod.mk.inj (Except.ok.inj h)
  obtain rfl := initNewBucket_eq_ok hc
  exact ⟨rfl, (store_contents_le hstore).trans (resize_contents_le T _)⟩

theorem put2Insert_contents_le (h : put2Insert T keyHash offset = .ok T') :
    T'.contents ≤ {(keyHash, offset)} + T.contents := by
  rw [put2Insert] at h
  by_cases hlevel : 0 < T.currentLevel
  · rw [if_pos hlevel] at h
    obtain ⟨⟨r, S⟩, hins, h⟩ := bind_eq_ok.mp h
    obtain rfl := Except.ok.inj h
    show S.contents ≤ _
    exact insert_contents_le hins
  · rw [if_neg hlevel] at h
    obtain rfl := Except.ok.inj h
    exact Multiset.le_add_left _ _

theorem put2Split_contents_le {behind : LinearHashEntry}
    (h : put2Split behind T keyHash offset = .ok T') :
    T'.contents ≤ {(keyHash, offset)} + T.contents := by
  obtain ⟨⟨b, S₁⟩, hadd, h⟩ := bind_eq_ok.mp h
  obtain ⟨rfl, hadded⟩ := addBucket_contents_le hadd
  obtain ⟨S₂, hstore, h⟩ := bind_eq_ok.mp h
  obtain ⟨S₃, hred, h⟩ := bind_eq_ok.mp h
  obtain ⟨⟨r, S₄⟩, hins, h⟩ := bind_eq_ok.mp h
  obtain rfl := Except.ok.inj h
  have hraise : S₄.raiseLevel.contents = S₄.contents := by
    unfold LinearTable.raiseLevel
    dsimp only
    split <;> rfl
  have hmoved : S₃.contents ≤ T.contents :=
    (redistribute_contents_le hred).trans ((store_contents_le hstore).trans hadded)
  calc S₄.raiseLevel.contents
      = S₄.contents := hraise
    _ ≤ {(keyHash, offset)} + S₃.advanceNext.contents := insert_contents_le hins
    _ ≤ {(keyHash, offset)} + T.contents := Multiset.add_le_add_left hmoved

/-- `librekv_linear_put2` adds its pair at most twice. -/
theorem put2_contents_le {behind : LinearHashEntry}
    (h : librekvLinearPut2 behind T keyHash offset = .ok T') :
    T'.contents ≤ 2 • {(keyHash, offset)} + T.contents := by
  obtain ⟨S, hfirst, h⟩ := bind_eq_ok.mp h
  have hle := put2Insert_contents_le hfirst
  rw [two_nsmul, add_assoc]
  by_cases hsplit : S.isSplit = true
  · rw [if_pos hsplit] at h
    obtain ⟨S', hsecond, h⟩ := bind_eq_ok.mp h
    obtain ⟨-, -, h⟩ := bind_eq_ok.mp h
    obtain rfl := Except.ok.inj h
    exact (put2Split_contents_le hsecond).trans (Multiset.add_le_add_left hle)
  · rw [if_neg hsplit] at h
    obtain rfl := Except.ok.inj h
    exact hle.trans (Multiset.le_add_left _ _)

theorem putSplit_contents_le (h : putSplit T = .ok T') : T'.contents ≤ T.contents := by
  obtain ⟨b, -, h⟩ := bind_eq_ok.mp h
  obtain ⟨S, hloop, h⟩ := bind_eq_ok.mp h
  obtain rfl := Except.ok.inj h
  have hle : S.contents ≤ T.contents := by
    refine loop_contents_le (fun R p R' hslot => ?_) hloop
    obtain ⟨e, hread, hmove⟩ := bind_eq_ok.mp hslot
    exact moveSlot_contents_le hread hmove
  exact hle

/-- `librekv_linear_put` adds its pair at most once. -/
theorem put_contents_le (h : librekvLinearPut T keyHash offset = .ok T') :
    T'.contents ≤ {(keyHash, offset)} + T.contents := by
  obtain ⟨⟨r, S⟩, hins, h⟩ := bind_eq_ok.mp h
  have hle := insert_contents_le hins
  by_cases hr : r = true
  · rw [if_pos hr] at h
    exact (putSplit_contents_le h).trans hle
  · rw [if_neg hr] at h
    obtain rfl := Except.ok.inj h
    exact hle

/-- A chain without occupied entries. -/
def LinearBucket.AllFree (b : LinearBucket cap) : Prop := ∀ e ∈ b.slots, e.isValid = true

theorem LinearBucket.AllFree.entries {b : LinearBucket cap} (h : b.AllFree) : b.entries = 0 := by
  rw [LinearBucket.entries, occupied, Multiset.filter_eq_nil]
  intro e he
  simp [h e he]

theorem turnPage_allFree {s s' : Compacted cap} (hs : s.compactedBucket.AllFree)
    (h : s.turnPage = .ok s') : s'.compactedBucket.AllFree := by
  rw [Compacted.turnPage] at h
  by_cases hfull : s.nextIndexToInsertTo ≥ cap.toNat
  · rw [if_pos hfull] at h
    obtain ⟨b, hb, h⟩ := bind_eq_ok.mp h
    obtain rfl := initNewBucket_eq_ok hb
    obtain rfl := Except.ok.inj h
    intro e he
    rw [LinearBucket.slots_append, List.mem_append] at he
    rcases he with he | he
    · exact hs e he
    · exact mem_slots_empty he
  · rw [if_neg hfull] at h
    obtain rfl := Except.ok.inj h
    exact hs

/-- A compaction copies free entries only. -/
theorem compactRound_allFree {s s' : Compacted cap} {r : ℕ × LinearHashEntry}
    (hs : s.compactedBucket.AllFree) (h : compactRound s r = .ok s') :
    s'.compactedBucket.AllFree := by
  rw [compactRound] at h
  by_cases hvalid : r.2.isValid = true
  · rw [if_pos hvalid] at h
    obtain ⟨s₁, hturn, h⟩ := bind_eq_ok.mp h
    obtain ⟨p, hwrite, h⟩ := bind_eq_ok.mp h
    obtain ⟨-, rfl⟩ := write_eq_ok hwrite
    obtain rfl := Except.ok.inj h
    have hs₁ := turnPage_allFree hs hturn
    intro e he
    rcases LinearBucket.mem_slots_setPage he with he | he
    · exact hs₁ e he
    · rcases List.mem_or_eq_of_mem_set he with he | rfl
      · exact hs₁ e (LinearBucket.mem_slots.mpr ⟨_, s₁.compactedBucket.lastPage_mem, he⟩)
      · exact hvalid
  · rw [if_neg hvalid] at h
    obtain rfl := Except.ok.inj h
    exact hs

/-- `librekv_linear_compactBucket` adds nothing: what it copies is free. -/
theorem compact_contents_le {behind : Behind} {i : UInt64}
    (h : librekvLinearCompactBucket behind T i = .ok T') : T'.contents ≤ T.contents := by
  obtain ⟨b, hb, h⟩ := bind_eq_ok.mp h
  obtain ⟨c, hc, h⟩ := bind_eq_ok.mp h
  obtain ⟨s, hloop, h⟩ := bind_eq_ok.mp h
  obtain rfl := Except.ok.inj h
  obtain rfl := initNewBucket_eq_ok hc
  have hstart : (⟨.empty cap, []⟩ : LinearBucket cap).AllFree := by
    intro e he
    obtain ⟨p, hp, he⟩ := LinearBucket.mem_slots.mp he
    obtain rfl := List.mem_singleton.mp hp
    exact mem_slots_empty he
  -- the test on `isValid` is the wrong way round: occupied entries are left behind
  have hrule := @foldlM_invariant _ _ _ (@compactRound cap) (fun s => s.compactedBucket.AllFree)
  have hfree := hrule hstart (fun _ _ _ hs hround => compactRound_allFree hs hround) hloop
  rw [LinearTable.bucketAt_eq_ok] at hb
  have hlose : b.entries = b.entries + s.compactedBucket.entries := by
    rw [hfree.entries, add_zero]
  rw [LinearTable.contents_setBucket_lose hb hlose]
  exact Multiset.le_add_left _ _

theorem create_contents {c : UInt64} {prior : LinearTable c} {i_initialLevel : UInt32}
    {i_entriesPerBucket : UInt64} {r : Int} {T : LinearTable (capacityOf i_entriesPerBucket)}
    (h : librekvLinearCreate prior i_initialLevel i_entriesPerBucket = .ok (r, T)) :
    T.contents = 0 := by
  obtain ⟨-, hinit, -⟩ := create_eq_ok h
  have htable : ∃ n, T.linearHashTable = List.replicate n (some ⟨.empty _, []⟩) := by
    rcases Nat.eq_zero_or_pos (twoToLevel i_initialLevel.toUInt16).toNat with hzero | hpos
    · rw [hzero] at hinit
      exact ⟨0, (Except.ok.inj hinit).symm⟩
    · exact ⟨_, (initBuckets_eq_ok hpos hinit).2⟩
  obtain ⟨n, hn⟩ := htable
  exact contents_of_replicate hn

end Steps

/-! ### Any calls in any order -/

/-- A call of the interface with its arguments, and with what the heap holds behind a page where
the function reads there. -/
inductive Call
  | create (i_initialLevel : UInt32) (i_entriesPerBucket : UInt64)
  | put (keyHash offset : UInt64)
  | put2 (keyHash offset : UInt64) (behind : LinearHashEntry)
  | insertToBucket (keyHash offset bucketIndex : UInt64)
  | addBucket
  | compactBucket (i_bucketIndex : UInt64) (behind : Behind)
  | displayHashTable

/-- The globals, of which a create may change `m_entriesPerBucket`. -/
abbrev State := (cap : UInt64) × LinearTable cap

/-- At program start. -/
def State.initial : State := ⟨0, .zeroed 0⟩

/-- A call that returns. -/
inductive ApiStep : State → Call → State → Prop
  | create {cap : UInt64} {T : LinearTable cap} {i_initialLevel : UInt32}
      {i_entriesPerBucket : UInt64} {r : Int} {T' : LinearTable (capacityOf i_entriesPerBucket)} :
      librekvLinearCreate T i_initialLevel i_entriesPerBucket = .ok (r, T') →
      ApiStep ⟨cap, T⟩ (.create i_initialLevel i_entriesPerBucket) ⟨_, T'⟩
  | put {cap : UInt64} {T T' : LinearTable cap} {keyHash offset : UInt64} :
      librekvLinearPut T keyHash offset = .ok T' → ApiStep ⟨cap, T⟩ (.put keyHash offset) ⟨cap, T'⟩
  | put2 {cap : UInt64} {T T' : LinearTable cap} {keyHash offset : UInt64}
      {behind : LinearHashEntry} :
      librekvLinearPut2 behind T keyHash offset = .ok T' →
      ApiStep ⟨cap, T⟩ (.put2 keyHash offset behind) ⟨cap, T'⟩
  | insertToBucket {cap : UInt64} {T T' : LinearTable cap} {keyHash offset bucketIndex : UInt64}
      {r : Bool} :
      librekvLinearInsertToBucket T keyHash offset bucketIndex = .ok (r, T') →
      ApiStep ⟨cap, T⟩ (.insertToBucket keyHash offset bucketIndex) ⟨cap, T'⟩
  | addBucket {cap : UInt64} {T T' : LinearTable cap} {b : LinearBucket cap} :
      librekvLinearAddBucket T = .ok (b, T') → ApiStep ⟨cap, T⟩ .addBucket ⟨cap, T'⟩
  | compactBucket {cap : UInt64} {T T' : LinearTable cap} {i_bucketIndex : UInt64}
      {behind : Behind} :
      librekvLinearCompactBucket behind T i_bucketIndex = .ok T' →
      ApiStep ⟨cap, T⟩ (.compactBucket i_bucketIndex behind) ⟨cap, T'⟩
  | displayHashTable {cap : UInt64} {T : LinearTable cap} :
      librekvLinearDisplayHashTable T = .ok () → ApiStep ⟨cap, T⟩ .displayHashTable ⟨cap, T⟩

/-- The pairs that a call may store: put2 stores its own once before and once after a split. -/
def Call.given : Call → Multiset (UInt64 × UInt64)
  | .put keyHash offset => {(keyHash, offset)}
  | .put2 keyHash offset _ => 2 • {(keyHash, offset)}
  | .insertToBucket keyHash offset _ => {(keyHash, offset)}
  | _ => 0

theorem ApiStep.contents_le {S S' : State} {c : Call} (h : ApiStep S c S') :
    S'.2.contents ≤ c.given + S.2.contents := by
  cases h with
  | create hcreate =>
      rw [create_contents hcreate]
      exact Multiset.zero_le _
  | put hput => exact put_contents_le hput
  | put2 hput => exact put2_contents_le hput
  | insertToBucket hinsert => exact insert_contents_le hinsert
  | addBucket hadd => exact (addBucket_contents_le hadd).2.trans (zero_add _).ge
  | compactBucket hcompact => exact (compact_contents_le hcompact).trans (zero_add _).ge
  | displayHashTable _ => exact (zero_add _).ge

/-- **No call makes pairs up.** After any calls of the interface in any order, on however
inconsistent a table, each pair is held at most once for every put and insertion that was given
it and twice for every put2 that was. -/
theorem contents_le_given {log : List Call} {S : State} (hrun : Run ApiStep .initial log S) :
    S.2.contents ≤ (log.map Call.given).sum := by
  induction hrun with
  | nil => exact Multiset.zero_le _
  | snoc _ hstep ih =>
      rw [List.map_append, List.sum_append, List.map_singleton, List.sum_singleton, add_comm]
      exact hstep.contents_le.trans (Multiset.add_le_add_left ih)

/-- An entry is put, its bucket compacted by a copy of the free slots, and the entry put again. -/
theorem contents_le_given_example : ∃ S, Run ApiStep .initial
    [.create 1 5, .insertToBucket 0 10 0, .compactBucket 0 fun _ _ => freeEntry,
      .put2 0 10 freeEntry] S ∧ S.2.contents ≤ {(0, 10)} + 2 • {(0, 10)} := by
  have hcreate : Run ApiStep .initial [.create 1 5] ⟨_, smallTable 5⟩ := .snoc .nil (.create rfl)
  have hinsert : Run ApiStep .initial [.create 1 5, .insertToBucket 0 10 0] ⟨_, oneEntryTable⟩ :=
    .snoc hcreate (.insertToBucket rfl)
  have hcompact : Run ApiStep .initial
      [.create 1 5, .insertToBucket 0 10 0, .compactBucket 0 fun _ _ => freeEntry] ⟨_, _⟩ :=
    .snoc hinsert (.compactBucket rfl)
  have hrun : Run ApiStep .initial [.create 1 5, .insertToBucket 0 10 0,
      .compactBucket 0 fun _ _ => freeEntry, .put2 0 10 freeEntry] ⟨_, _⟩ :=
    .snoc hcompact (.put2 rfl)
  refine ⟨_, hrun, (contents_le_given hrun).trans_eq ?_⟩
  simp [Call.given]

end LibreKV.LinearHash
