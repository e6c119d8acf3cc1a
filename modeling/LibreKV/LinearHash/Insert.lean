import LibreKV.LinearHash.Table

/-!
# LibreKV.LinearHash.Insert

`librekv_linear_insertToBucket`.

The two loops over the pages of a chain and over the slots of a page are one first fit on the
slots of the chain. When the chain is full, the pair goes to a new page at its end, unless the
bucket is the one due to be split: then nothing is stored at all. In both cases the return
value asks the caller for a split.
-/

namespace LibreKV.LinearHash

open FirstFit

variable {cap : UInt64}

/-- `m_isSplit` and `m_isOverflow` as an insertion leaves them. -/
def LinearTable.withSplit (T : LinearTable cap) (isSplit : Bool) : LinearTable cap :=
  { T with isSplit := isSplit, isOverflow := false }

/-- `librekv_linear_insertToBucket`. -/
def librekvLinearInsertToBucket (T : LinearTable cap) (keyHash offset bucketIndex : UInt64) :
    Except Fault (Bool × LinearTable cap) := do
  let currBucket ← T.bucketAt bucketIndex.toNat
  match currBucket.place (occupiedEntry keyHash offset) with
  | some b => .ok (false, (T.setBucket bucketIndex.toNat b).withSplit false)
  | none =>
    if T.nextBucketIndexToSplit ≠ bucketIndex then do
      let overflowBucket ← librekvLinearInitNewBucket cap
      let page ← overflowBucket.page.write 0 (occupiedEntry keyHash offset)
      .ok (true, (T.setBucket bucketIndex.toNat (currBucket.append page)).withSplit true)
    else .ok (true, T.withSplit true)

/-! ### Pages and chains as lists of slots -/

theorem Page.place_slots (e : LinearHashEntry) (p : Page cap) :
    (p.place e).map Page.slots = FirstFit.place LinearHashEntry.isValid e p.slots := by
  unfold Page.place
  split
  · next h => exact h.symm
  · next h => exact h.symm

theorem placePages_slots (e : LinearHashEntry) (ps : List (Page cap)) :
    (placePages e ps).map (fun qs => qs.flatMap Page.slots) =
      place LinearHashEntry.isValid e (ps.flatMap Page.slots) := by
  induction ps with
  | nil => rfl
  | cons p ps ih =>
      have hp := p.place_slots e
      rw [placePages, List.flatMap_cons]
      cases hpl : p.place e with
      | some p' =>
          rw [hpl, Option.map_some] at hp
          rw [place_append_of_some hp.symm]
          rfl
      | none =>
          rw [hpl, Option.map_none] at hp
          rw [place_append_of_full (place_eq_none_iff.mp hp.symm), ← ih, Option.map_map,
            Option.map_map]
          rfl

namespace LinearBucket

/-- Storing in a chain is first fit on its slots in chain order. -/
theorem place_slots (e : LinearHashEntry) (b : LinearBucket cap) :
    (b.place e).map slots = FirstFit.place LinearHashEntry.isValid e b.slots := by
  have h := placePages_slots e b.pages
  rw [slots, ← h, pages, placePages, place]
  cases b.page.place e with
  | some p => rfl
  | none =>
      rw [Option.map_map, Option.map_map]
      rfl

theorem place_eq_none_iff {e : LinearHashEntry} {b : LinearBucket cap} :
    b.place e = none ↔ b.Full := by
  rw [Full, ← FirstFit.place_eq_none_iff (x := e), ← b.place_slots e, Option.map_eq_none_iff]

/-- A stored entry is one more entry of the chain. -/
theorem entries_place {e : LinearHashEntry} (he : e.isValid = false) {b b' : LinearBucket cap}
    (h : b.place e = some b') : b'.entries = e ::ₘ b.entries := by
  have hslots := b.place_slots e
  rw [h, Option.map_some] at hslots
  exact occupied_place he hslots.symm

theorem slots_append (b : LinearBucket cap) (p : Page cap) :
    (b.append p).slots = b.slots ++ p.slots := by
  simp [slots, pages, append]

theorem entries_append (b : LinearBucket cap) (p : Page cap) :
    (b.append p).entries = b.entries + occupied LinearHashEntry.isValid p.slots := by
  rw [entries, slots_append, occupied_append, entries]

theorem full_append (b : LinearBucket cap) (p : Page cap) :
    (b.append p).Full ↔ b.Full ∧ FirstFit.Full LinearHashEntry.isValid p.slots := by
  rw [Full, slots_append, FirstFit.full_append, Full]

theorem length_slots_ge (b : LinearBucket cap) : cap.toNat ≤ b.slots.length := by
  rw [slots, pages, List.flatMap_cons, List.length_append, b.page.size]
  exact Nat.le_add_right _ _

/-- A chain with fewer entries than one page has slots is not full. -/
theorem not_full_of_card_lt {b : LinearBucket cap} (h : b.entries.card < cap.toNat) :
    ¬ b.Full :=
  FirstFit.not_full_of_card_lt (h.trans_le b.length_slots_ge)

end LinearBucket

/-! ### The overflow page -/

/-- A new page with one entry in slot 0. -/
def Page.single (e : LinearHashEntry) : Page cap := (Page.empty cap).set 0 e

theorem occupied_empty : occupied LinearHashEntry.isValid (Page.empty cap).slots = 0 := by
  refine Multiset.filter_eq_nil.mpr fun e he => ?_
  have : e = freeEntry := List.eq_of_mem_replicate he
  simp [this, freeEntry]

/-- A new bucket holds nothing. -/
theorem LinearBucket.entries_empty : LinearBucket.entries ⟨.empty cap, []⟩ = 0 := by
  rw [entries, slots, pages, List.flatMap_cons, List.flatMap_nil, List.append_nil, occupied_empty]

/-- A table of new buckets holds nothing. -/
theorem contents_of_replicate {T : LinearTable cap} {n : ℕ}
    (h : T.linearHashTable = List.replicate n (some ⟨.empty cap, []⟩)) : T.contents = 0 := by
  have hentries : ∀ i ∈ Finset.range T.size, T.entriesAt i = 0 := by
    intro i _
    rw [LinearTable.entriesAt, LinearTable.bucket?, h, List.getElem?_replicate]
    split
    · rw [Option.join_some, Option.elim_some, LinearBucket.entries_empty]
    · rfl
  rw [LinearTable.contents, LinearTable.entries, Finset.sum_congr rfl hentries,
    Finset.sum_const_zero, Multiset.map_zero]

theorem single_slots (hcap : 0 < cap.toNat) (e : LinearHashEntry) :
    (Page.single e : Page cap).slots = e :: List.replicate (cap.toNat - 1) freeEntry := by
  obtain ⟨n, hn⟩ := Nat.exists_eq_succ_of_ne_zero (Nat.pos_iff_ne_zero.mp hcap)
  show (List.replicate cap.toNat freeEntry).set 0 e = _
  rw [hn, List.replicate_succ, List.set_cons_zero, Nat.succ_sub_one]

theorem occupied_single (hcap : 0 < cap.toNat) {e : LinearHashEntry} (he : e.isValid = false) :
    occupied LinearHashEntry.isValid (Page.single e : Page cap).slots = {e} := by
  rw [single_slots hcap, occupied_cons_of_not_free he]
  have hrest : occupied LinearHashEntry.isValid (List.replicate (cap.toNat - 1) freeEntry) = 0 := by
    refine Multiset.filter_eq_nil.mpr fun e' he' => ?_
    rw [List.eq_of_mem_replicate he']
    exact Bool.noConfusion
  rw [hrest]
  rfl

/-- The overflow page has room for another entry unless pages have one slot. -/
theorem full_single (hcap : 0 < cap.toNat) {e : LinearHashEntry} (he : e.isValid = false) :
    Full LinearHashEntry.isValid (Page.single e : Page cap).slots ↔ cap.toNat = 1 := by
  rw [single_slots hcap]
  constructor
  · intro h
    by_contra hne
    have hmem : freeEntry ∈ List.replicate (cap.toNat - 1) freeEntry :=
      List.mem_replicate.mpr ⟨by omega, rfl⟩
    exact Bool.noConfusion (h freeEntry (List.mem_cons_of_mem e hmem))
  · intro h a ha
    rw [h, List.mem_cons] at ha
    rcases ha with rfl | ha
    · exact he
    · cases ha

/-! ### What an insertion does -/

/-- What an insertion returns and leaves of the bucket `b`. -/
inductive Inserted (e : LinearHashEntry) (next i : UInt64) (b : LinearBucket cap) :
    Bool → LinearBucket cap → Prop
  /-- The first free slot of the chain took the entry. -/
  | placed (b' : LinearBucket cap) : b.place e = some b' → Inserted e next i b false b'
  /-- The chain was full, and a page with the entry was appended. -/
  | overflowed : b.Full → next ≠ i → Inserted e next i b true (b.append (.single e))
  /-- The chain was full and due to be split: nothing was stored. -/
  | refused : b.Full → next = i → Inserted e next i b true b

theorem LinearTable.setBucket_self {T : LinearTable cap} {i : ℕ} {b : LinearBucket cap}
    (h : T.bucket? i = some b) : T.setBucket i b = T := by
  rw [bucket?, Option.join_eq_some_iff] at h
  obtain ⟨hi, hb⟩ := List.getElem?_eq_some_iff.mp h
  rw [setBucket, ← hb, List.set_getElem_self]

@[simp] theorem LinearTable.size_stored (T : LinearTable cap) (i : ℕ) (b : LinearBucket cap)
    (s : Bool) : ((T.setBucket i b).withSplit s).size = T.size := T.size_setBucket i b

/-- The buckets after an insertion. -/
theorem LinearTable.bucket?_stored {T : LinearTable cap} {i : ℕ} (h : i < T.size)
    (b : LinearBucket cap) (s : Bool) :
    ((T.setBucket i b).withSplit s).bucket? = Function.update T.bucket? i (some b) :=
  bucket?_setBucket h b

theorem insert_of_size_le {T : LinearTable cap} {keyHash offset i : UInt64}
    (h : T.size ≤ i.toNat) :
    librekvLinearInsertToBucket T keyHash offset i = .error .unallocatedBucket := by
  rw [librekvLinearInsertToBucket, LinearTable.bucketAt_of_size_le h]
  rfl

/-- **The insert contract.** An insertion replaces the one bucket it is given, and sets
`m_isSplit` to what it returns. -/
theorem insert_eq {T : LinearTable cap} {i : UInt64} {b : LinearBucket cap}
    (hcap : 0 < cap.toNat) (hcap' : cap.toNat < 2 ^ 31) (hb : T.bucket? i.toNat = some b)
    (keyHash offset : UInt64) :
    ∃ r b', librekvLinearInsertToBucket T keyHash offset i =
        .ok (r, (T.setBucket i.toNat b').withSplit r) ∧
      Inserted (occupiedEntry keyHash offset) T.nextBucketIndexToSplit i b r b' := by
  rw [librekvLinearInsertToBucket, LinearTable.bucketAt_eq hb, Fallible.ok_bind]
  cases hplace : b.place (occupiedEntry keyHash offset) with
  | some b' => exact ⟨false, b', rfl, .placed b' hplace⟩
  | none =>
      have hfull : b.Full := LinearBucket.place_eq_none_iff.mp hplace
      by_cases hne : T.nextBucketIndexToSplit = i
      · refine ⟨true, b, ?_, .refused hfull hne⟩
        rw [LinearTable.setBucket_self hb]
        simp only [hne, ne_eq, not_true_eq_false, if_false]
      · refine ⟨true, _, ?_, .overflowed hfull hne⟩
        simp only [ne_eq, hne, not_false_eq_true, if_true, librekvLinearInitNewBucket,
          if_pos hcap', Page.write, if_pos hcap, Fallible.ok_bind, Page.single]

namespace Inserted

variable {e : LinearHashEntry} {next i : UInt64} {b b' : LinearBucket cap} {r : Bool}

/-- Unless it is refused, the entry is stored once. -/
theorem entries_of_ne (h : Inserted e next i b r b') (hcap : 0 < cap.toNat)
    (he : e.isValid = false) (hne : next ≠ i) : b'.entries = e ::ₘ b.entries := by
  cases h with
  | placed b' hplace => exact LinearBucket.entries_place he hplace
  | overflowed _ _ =>
      rw [LinearBucket.entries_append, occupied_single hcap he, add_comm,
        Multiset.singleton_add]
  | refused _ hnext => exact absurd hnext hne

/-- A chain with a free slot stores the entry once and asks for no split. -/
theorem of_not_full (h : Inserted e next i b r b') (he : e.isValid = false)
    (hfull : ¬ b.Full) : r = false ∧ b'.entries = e ::ₘ b.entries := by
  cases h with
  | placed b' hplace => exact ⟨rfl, LinearBucket.entries_place he hplace⟩
  | overflowed h _ => exact absurd h hfull
  | refused h _ => exact absurd h hfull

/-- A full chain asks for a split. -/
theorem of_full (h : Inserted e next i b r b') (hfull : b.Full) :
    r = true ∧ ((next ≠ i ∧ b' = b.append (.single e)) ∨ (next = i ∧ b' = b)) := by
  cases h with
  | placed b' hplace =>
      rw [LinearBucket.place_eq_none_iff.mpr hfull] at hplace
      cases hplace
  | overflowed _ hne => exact ⟨rfl, Or.inl ⟨hne, rfl⟩⟩
  | refused _ hnext => exact ⟨rfl, Or.inr ⟨hnext, rfl⟩⟩

/-- A full chain gains the entry unless it is due to be split. -/
theorem entries_of_full (h : Inserted e next i b r b') (hcap : 0 < cap.toNat)
    (he : e.isValid = false) (hfull : b.Full) :
    b'.entries = (if i = next then 0 else {e}) + b.entries := by
  obtain ⟨-, ⟨hne, rfl⟩ | ⟨heq, rfl⟩⟩ := h.of_full hfull
  · rw [if_neg (Ne.symm hne), LinearBucket.entries_append, occupied_single hcap he, add_comm]
  · rw [if_pos heq.symm, zero_add]

/-- A full chain that is not due to be split gets a page with the entry; this leaves no free
slot only when pages have one slot. -/
theorem of_full_of_ne (h : Inserted e next i b r b') (hcap : 0 < cap.toNat)
    (he : e.isValid = false) (hfull : b.Full) (hne : next ≠ i) :
    b'.entries = b.entries + {e} ∧ (b'.Full ↔ cap.toNat = 1) := by
  obtain ⟨-, ⟨-, rfl⟩ | ⟨hnext, -⟩⟩ := h.of_full hfull
  · constructor
    · rw [LinearBucket.entries_append, occupied_single hcap he]
    · rw [LinearBucket.full_append, full_single hcap he]
      exact and_iff_right hfull
  · exact absurd hnext hne

end Inserted

end LibreKV.LinearHash
