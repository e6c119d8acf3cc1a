import LibreKV.LinearHash.Insert

/-!
# LibreKV.LinearHash.InsertSound

The three outcomes of `librekv_linear_insertToBucket`, slot by slot.

`insert_eq` says which bucket an insertion leaves; here the bucket is compared with the one
before, in every slot of the chain and in the number of its pages. Two of the outcomes return
the same value, and only one of these stores the pair.
-/

namespace LibreKV.LinearHash

variable {cap : UInt64}

theorem length_placePages {e : LinearHashEntry} {ps qs : List (Page cap)}
    (h : placePages e ps = some qs) : qs.length = ps.length := by
  induction ps generalizing qs with
  | nil => cases h
  | cons p ps ih =>
      rw [placePages] at h
      cases hp : p.place e with
      | some p' =>
          rw [hp] at h
          obtain rfl := Option.some.inj h
          rfl
      | none =>
          rw [hp, Option.map_eq_some_iff] at h
          obtain ⟨qs', hqs, rfl⟩ := h
          rw [List.length_cons, ih hqs, List.length_cons]

namespace LinearBucket

/-- Storing an entry adds no page. -/
theorem length_pages_place {e : LinearHashEntry} {b b' : LinearBucket cap}
    (h : b.place e = some b') : b'.pages.length = b.pages.length := by
  rw [place] at h
  cases hp : b.page.place e with
  | some p =>
      rw [hp] at h
      obtain rfl := Option.some.inj h
      rfl
  | none =>
      rw [hp, Option.map_eq_some_iff] at h
      obtain ⟨qs, hqs, rfl⟩ := h
      rw [pages, pages, List.length_cons, length_placePages hqs, List.length_cons]

/-- The first free slot of the chain, in chain order, receives `e`; no other slot changes. -/
def FirstFreeSet (b : LinearBucket cap) (e : LinearHashEntry) (b' : LinearBucket cap) : Prop :=
  ∃ k, (∀ j < k, ∀ a, b.slots[j]? = some a → a.isValid = false) ∧
    (∃ a, b.slots[k]? = some a ∧ a.isValid = true) ∧
    b'.slots = b.slots.set k e ∧ b'.pages.length = b.pages.length

/-- One page is appended, which holds `e` in slot 0 and is free otherwise. -/
def PageAppended (b : LinearBucket cap) (e : LinearHashEntry) (b' : LinearBucket cap) : Prop :=
  ∃ p : Page cap, b'.pages = b.pages ++ [p] ∧
    p.slots = e :: List.replicate (cap.toNat - 1) freeEntry

theorem firstFreeSet_of_place {e : LinearHashEntry} {b b' : LinearBucket cap}
    (h : b.place e = some b') : b.FirstFreeSet e b' := by
  have hslots := b.place_slots e
  rw [h, Option.map_some] at hslots
  obtain ⟨k, hbefore, hfree, hset⟩ := FirstFit.place_eq_set hslots.symm
  exact ⟨k, hbefore, hfree, hset, length_pages_place h⟩

theorem pageAppended_append (hcap : 0 < cap.toNat) (e : LinearHashEntry)
    (b : LinearBucket cap) : b.PageAppended e (b.append (.single e)) :=
  ⟨.single e, rfl, single_slots hcap e⟩

end LinearBucket

/-- The three outcomes for the bucket `b` with index `i`: the returned value, and the bucket
afterwards. -/
inductive InsertOutcome (e : LinearHashEntry) (next i : UInt64) (b : LinearBucket cap) :
    Bool → LinearBucket cap → Prop
  /-- There is a free slot: the first one receives the pair. -/
  | stored (b' : LinearBucket cap) : ¬ b.Full → b.FirstFreeSet e b' →
      InsertOutcome e next i b false b'
  /-- The chain is full and not due to be split: a page with the pair is appended. -/
  | overflowed (b' : LinearBucket cap) : b.Full → i ≠ next → b.PageAppended e b' →
      InsertOutcome e next i b true b'
  /-- The chain is full and due to be split: nothing is stored. -/
  | refused : b.Full → i = next → InsertOutcome e next i b true b

/-- What an insertion does not touch. -/
structure InsertFrame (T T' : LinearTable cap) (i : ℕ) : Prop where
  others : ∀ j, j ≠ i → T'.bucket? j = T.bucket? j
  size : T'.size = T.size
  level : T'.currentLevel = T.currentLevel
  next : T'.nextBucketIndexToSplit = T.nextBucketIndexToSplit
  num : T'.currBucketNum = T.currBucketNum

/-- A chain that an entry was placed in had a free slot. -/
theorem Inserted.outcome {e : LinearHashEntry} {next i : UInt64} {b b' : LinearBucket cap}
    {r : Bool} (hcap : 0 < cap.toNat) (h : Inserted e next i b r b') :
    InsertOutcome e next i b r b' := by
  cases h with
  | placed b' hplace =>
      refine .stored b' ?_ (LinearBucket.firstFreeSet_of_place hplace)
      intro hfull
      rw [LinearBucket.place_eq_none_iff.mpr hfull] at hplace
      cases hplace
  | overflowed hfull hne =>
      exact .overflowed _ hfull (Ne.symm hne) (LinearBucket.pageAppended_append hcap e b)
  | refused hfull heq => exact .refused hfull heq.symm

section Results

/-- **An insertion does one of three things.** In every table whose pages can be initialised,
for every bucket that is there, an insertion returns; it stores the pair in the first free
slot, appends a page with it, or stores nothing, and leaves everything else as it was. -/
theorem insert_one_of_three {T : LinearTable cap} {page₀ b : LinearBucket cap}
    (hcap : 1 ≤ cap) (hpage : librekvLinearInitNewBucket cap = .ok page₀)
    {bucketIndex : UInt64} (hb : T.bucket? bucketIndex.toNat = some b)
    (keyHash offset : UInt64) :
    ∃ r b' T', librekvLinearInsertToBucket T keyHash offset bucketIndex = .ok (r, T') ∧
      T'.bucket? bucketIndex.toNat = some b' ∧
      InsertOutcome (occupiedEntry keyHash offset) T.nextBucketIndexToSplit bucketIndex b r b' ∧
      InsertFrame T T' bucketIndex.toNat ∧ T'.isSplit = r := by
  have hpos : 0 < cap.toNat := UInt64.le_iff_toNat_le.mp hcap
  have hcap' := lt_of_initNewBucket hpage
  obtain ⟨r, b', hins, hout⟩ := insert_eq hpos hcap' hb keyHash offset
  have hlook := LinearTable.bucket?_stored (LinearTable.lt_size hb) b' r
  refine ⟨r, b', _, hins, ?_, hout.outcome hpos, ⟨?_, ?_, rfl, rfl, rfl⟩, rfl⟩
  · rw [hlook, Function.update_self]
  · intro j hj
    rw [hlook, Function.update_of_ne hj]
  · exact LinearTable.size_stored T _ b' r

/-- Three insertions into bucket 1: the second has added a page, so the third finds a chain of two
full pages. -/
theorem insert_one_of_three_two_pages : ∃ T₁ T₂ b,
    librekvLinearInsertToBucket (smallTable 1) 1 10 1 = .ok (false, T₁) ∧
      librekvLinearInsertToBucket T₁ 3 20 1 = .ok (true, T₂) ∧
      T₂.bucket? 1 = some b ∧ b.pages.length = 2 ∧ b.Full ∧
      ∃ r b' T', librekvLinearInsertToBucket T₂ 5 30 1 = .ok (r, T') ∧ T'.bucket? 1 = some b' ∧
        InsertOutcome (occupiedEntry 5 30) T₂.nextBucketIndexToSplit 1 b r b' ∧
        InsertFrame T₂ T' 1 ∧ T'.isSplit = r := by
  have hpage : librekvLinearInitNewBucket (capacityOf 1) = .ok ⟨.empty _, []⟩ := rfl
  refine ⟨_, _, _, rfl, rfl, rfl, rfl, by decide, ?_⟩
  exact insert_one_of_three (by decide) hpage rfl 5 30

end Results

end LibreKV.LinearHash
