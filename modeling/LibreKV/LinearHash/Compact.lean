import LibreKV.LinearHash.Move

/-!
# LibreKV.LinearHash.Compact

`librekv_linear_compactBucket`, given storage for the head of the compacted chain.

The two loops read the old chain and write the new one only, so what they read is a list
(`compactRounds`) and the copying is one pass over it. The rounds of a page are five whatever
the capacity is; a subscript from the capacity on reads what lies behind the page. The entries
copied are those with `isValid` set, which are the *free* ones.
-/

namespace LibreKV.LinearHash

open FirstFit Fallible

variable {cap : UInt64}

/-- The bound 5 of the loop over the slots, beside the `m_entriesPerBucket` commented out. -/
def compactLoopBound : ℕ := 5

/-- What the heap holds behind page number `k` of a chain, at the subscript `i`. -/
abbrev Behind := ℕ → ℕ → LinearHashEntry

/-- Read `m_linearHashEntry[i]` of page number `k`. -/
def readBehind (behind : Behind) (p : Page cap) (k i : ℕ) : LinearHashEntry :=
  (p.slots[i]?).getD (behind k i)

/-- The rounds of the two loops in order: the subscript and the entry read there. -/
def compactRounds (behind : Behind) (b : LinearBucket cap) : List (ℕ × LinearHashEntry) :=
  b.pages.zipIdx.flatMap fun pk =>
    (List.range compactLoopBound).map fun i => (i, readBehind behind pk.1 pk.2 i)

/-- The compacted chain while it is built. `nextBucketToInsertTo` is its last page. -/
structure Compacted (cap : UInt64) where
  compactedBucket : LinearBucket cap
  nextIndexToInsertTo : ℕ

/-- The last page of a chain. -/
def LinearBucket.lastPage (b : LinearBucket cap) : Page cap := b.next.getLastD b.page

/-- Replace the last page of a chain. -/
def LinearBucket.setLastPage (b : LinearBucket cap) (p : Page cap) : LinearBucket cap :=
  b.setPage b.next.length p

/-- Append a page when the next index points beyond the last one. -/
def Compacted.turnPage (s : Compacted cap) : Except Fault (Compacted cap) :=
  if s.nextIndexToInsertTo ≥ cap.toNat then do
    let newBucket ← librekvLinearInitNewBucket cap
    .ok { compactedBucket := s.compactedBucket.append newBucket.page, nextIndexToInsertTo := 0 }
  else .ok s

/-- Copy an entry into the compacted chain. -/
def Compacted.copy (s : Compacted cap) (e : LinearHashEntry) : Except Fault (Compacted cap) := do
  let s ← s.turnPage
  let p ← s.compactedBucket.lastPage.write s.nextIndexToInsertTo e
  .ok { compactedBucket := s.compactedBucket.setLastPage p
        nextIndexToInsertTo := s.nextIndexToInsertTo + 1 }

/-- One round of the loops. -/
def compactRound (s : Compacted cap) (r : ℕ × LinearHashEntry) : Except Fault (Compacted cap) :=
  if r.2.isValid then s.copy r.2 else .ok s

/-- `librekv_linear_compactBucket`. -/
def librekvLinearCompactBucket (behind : Behind) (T : LinearTable cap) (i_bucketIndex : UInt64) :
    Except Fault (LinearTable cap) := do
  let currBucket ← T.bucketAt i_bucketIndex.toNat
  let compactedBucket ← librekvLinearInitNewBucket cap
  let s ← (compactRounds behind currBucket).foldlM compactRound ⟨compactedBucket, 0⟩
  .ok (T.setBucket i_bucketIndex.toNat s.compactedBucket)

/-! ### What compaction is for -/

/-- The occupied entries of a chain, in chain order. -/
def LinearBucket.occupiedList (b : LinearBucket cap) : List LinearHashEntry :=
  b.slots.filter fun e => !e.isValid

/-- The compaction of the bucket `b` at index `i` returns; it leaves the occupied entries in
their order, every page but the last full, and the other buckets alone. -/
def Compacts (behind : Behind) (T : LinearTable cap) (i : UInt64) (b : LinearBucket cap) : Prop :=
  ∃ T' b', librekvLinearCompactBucket behind T i = .ok T' ∧ T'.bucket? i.toNat = some b' ∧
    b'.occupiedList = b.occupiedList ∧
    (∀ p ∈ b'.pages.dropLast, Full LinearHashEntry.isValid p.slots) ∧
    ∀ j, j ≠ i.toNat → T'.bucket? j = T.bucket? j

/-- The number of entries that the loops copy: those read with `isValid` set. -/
def copied (behind : Behind) (b : LinearBucket cap) : ℕ :=
  (compactRounds behind b).countP fun r => r.2.isValid

/-! ### The last page -/

/-- A replaced page brings its own slots, and the others stay. -/
theorem LinearBucket.mem_slots_setPage {b : LinearBucket cap} {k : ℕ} {p : Page cap}
    {e : LinearHashEntry} (h : e ∈ (b.setPage k p).slots) : e ∈ b.slots ∨ e ∈ p.slots := by
  obtain ⟨q, hq, he⟩ := mem_slots.mp h
  cases k with
  | zero =>
      rcases List.mem_cons.mp hq with rfl | hq
      · exact Or.inr he
      · exact Or.inl (mem_slots.mpr ⟨q, List.mem_cons_of_mem _ hq, he⟩)
  | succ k =>
      rcases List.mem_cons.mp hq with rfl | hq
      · exact Or.inl (mem_slots.mpr ⟨_, List.mem_cons_self, he⟩)
      · rcases List.mem_or_eq_of_mem_set hq with hq | rfl
        · exact Or.inl (mem_slots.mpr ⟨q, List.mem_cons_of_mem _ hq, he⟩)
        · exact Or.inr he

theorem LinearBucket.lastPage_mem (b : LinearBucket cap) : b.lastPage ∈ b.pages := by
  rw [lastPage, pages, List.getLastD_eq_getLast?]
  cases h : b.next.getLast? with
  | none => exact List.mem_cons_self
  | some p => exact List.mem_cons_of_mem _ (List.mem_of_getLast? h)

@[simp] theorem LinearBucket.length_next_setPage (b : LinearBucket cap) (k : ℕ) (p : Page cap) :
    (b.setPage k p).next.length = b.next.length := by
  cases k with
  | zero => rfl
  | succ k => exact List.length_set

/-! ### The copying -/

/-- The chain after `n` entries were copied: all of them are free, and the last page has at
least one of them unless it is the only one. -/
structure Packed (s : Compacted cap) (n : ℕ) : Prop where
  free : ∀ e ∈ s.compactedBucket.slots, e.isValid = true
  count : s.compactedBucket.next.length * cap.toNat + s.nextIndexToInsertTo = n
  within : s.nextIndexToInsertTo ≤ cap.toNat
  started : s.compactedBucket.next ≠ [] → 0 < s.nextIndexToInsertTo

theorem mem_slots_empty {e : LinearHashEntry} (h : e ∈ (Page.empty cap).slots) :
    e.isValid = true := by
  rw [List.eq_of_mem_replicate h]
  rfl

theorem packed_zero : Packed (⟨⟨.empty cap, []⟩, 0⟩ : Compacted cap) 0 where
  free := by
    intro e he
    obtain ⟨p, hp, he⟩ := LinearBucket.mem_slots.mp he
    obtain rfl := List.mem_singleton.mp hp
    exact mem_slots_empty he
  count := by simp
  within := Nat.zero_le _
  started := fun h => absurd rfl h

section Copy

variable {behind : Behind} {s : Compacted cap} {n : ℕ}

/-- Turning the page leaves the next index inside the last page. -/
theorem Packed.turnPage (h : Packed s n) (hcap : 0 < cap.toNat) (hcap' : cap.toNat < 2 ^ 31) :
    ∃ s', s.turnPage = .ok s' ∧ (∀ e ∈ s'.compactedBucket.slots, e.isValid = true) ∧
      s'.compactedBucket.next.length * cap.toNat + s'.nextIndexToInsertTo = n ∧
      s'.nextIndexToInsertTo < cap.toNat := by
  by_cases hge : s.nextIndexToInsertTo ≥ cap.toNat
  · refine ⟨⟨s.compactedBucket.append (.empty cap), 0⟩, ?_, ?_, ?_, hcap⟩
    · rw [Compacted.turnPage, if_pos hge, librekvLinearInitNewBucket, if_pos hcap', ok_bind]
    · intro e he
      rw [LinearBucket.slots_append, List.mem_append] at he
      rcases he with he | he
      · exact h.free e he
      · exact mem_slots_empty he
    · have hidx : s.nextIndexToInsertTo = cap.toNat := Nat.le_antisymm h.within hge
      have hcount := h.count
      rw [hidx] at hcount
      simp only [LinearBucket.append, List.length_append, List.length_singleton]
      rw [Nat.succ_mul, Nat.add_zero]
      exact hcount
  · refine ⟨s, ?_, h.free, h.count, not_le.mp hge⟩
    rw [Compacted.turnPage, if_neg hge]

/-- Copying a free entry. -/
theorem Packed.copy (h : Packed s n) (hcap : 0 < cap.toNat) (hcap' : cap.toNat < 2 ^ 31)
    {e : LinearHashEntry} (he : e.isValid = true) :
    ∃ s', s.copy e = .ok s' ∧ Packed s' (n + 1) := by
  obtain ⟨s₁, hturn, hfree, hcount, hlt⟩ := h.turnPage hcap hcap'
  let p := s₁.compactedBucket.lastPage.set s₁.nextIndexToInsertTo e
  refine ⟨⟨s₁.compactedBucket.setLastPage p, s₁.nextIndexToInsertTo + 1⟩, ?_, ?_, ?_, hlt,
    fun _ => Nat.succ_pos _⟩
  · rw [Compacted.copy, hturn, ok_bind, Page.write, if_pos hlt, ok_bind]
  · intro a ha
    rcases LinearBucket.mem_slots_setPage ha with ha | ha
    · exact hfree a ha
    · rcases List.mem_or_eq_of_mem_set ha with ha | rfl
      · exact hfree a (LinearBucket.mem_slots.mpr ⟨_, LinearBucket.lastPage_mem _, ha⟩)
      · exact he
  · show (s₁.compactedBucket.setLastPage p).next.length * cap.toNat + _ = _
    rw [LinearBucket.setLastPage, LinearBucket.length_next_setPage, ← Nat.add_assoc, hcount]

/-- The whole pass copies exactly the entries read as free. -/
theorem Packed.rounds (hcap : 0 < cap.toNat) (hcap' : cap.toNat < 2 ^ 31)
    (rs : List (ℕ × LinearHashEntry)) {s : Compacted cap} {n : ℕ} (h : Packed s n) :
    ∃ s', rs.foldlM compactRound s = .ok s' ∧ Packed s' (n + rs.countP fun r => r.2.isValid) := by
  induction rs generalizing s n with
  | nil => exact ⟨s, rfl, h⟩
  | cons r rs ih =>
      rw [List.foldlM_cons, compactRound]
      cases hr : r.2.isValid with
      | true =>
          obtain ⟨s₁, hcopy, h₁⟩ := h.copy hcap hcap' hr
          obtain ⟨s', hrun, h'⟩ := ih h₁
          refine ⟨s', ?_, ?_⟩
          · rw [if_pos rfl, hcopy, ok_bind, hrun]
          · rw [List.countP_cons_of_pos (by simpa using hr)]
            rwa [Nat.add_assoc, Nat.add_comm 1] at h'
      | false =>
          obtain ⟨s', hrun, h'⟩ := ih h
          refine ⟨s', ?_, ?_⟩
          · rw [if_neg Bool.false_ne_true, ok_bind, hrun]
          · rw [List.countP_cons_of_neg (by simpa using hr)]
            exact h'

/-- One page is enough iff the copies fit it. -/
theorem Packed.next_eq_nil_iff (h : Packed s n) :
    s.compactedBucket.next = [] ↔ n ≤ cap.toNat := by
  have hcount := h.count
  constructor
  · intro hnil
    rw [hnil, List.length_nil, Nat.zero_mul, Nat.zero_add] at hcount
    exact hcount ▸ h.within
  · intro hle
    by_contra hne
    have hidx := h.started hne
    have hlen : 1 ≤ s.compactedBucket.next.length := List.length_pos_of_ne_nil hne
    have hmul : 1 * cap.toNat ≤ s.compactedBucket.next.length * cap.toNat :=
      Nat.mul_le_mul_right _ hlen
    omega

end Copy

section Results

variable {behind : Behind} {T : LinearTable cap} {i : UInt64} {b page₀ : LinearBucket cap}

/-- A compaction returns, and leaves nothing but the copied free entries. -/
theorem compact_packed (behind : Behind) (hcap : 1 ≤ cap)
    (hpage : librekvLinearInitNewBucket cap = .ok page₀) (hb : T.bucket? i.toNat = some b) :
    ∃ s, librekvLinearCompactBucket behind T i = .ok (T.setBucket i.toNat s.compactedBucket) ∧
      Packed s (copied behind b) := by
  have hpos : 0 < cap.toNat := UInt64.le_iff_toNat_le.mp hcap
  have hcap' := lt_of_initNewBucket hpage
  obtain ⟨s, hrun, hs⟩ := packed_zero.rounds hpos hcap' (compactRounds behind b)
  refine ⟨s, ?_, ?_⟩
  · rw [librekvLinearCompactBucket, LinearTable.bucketAt_eq hb, ok_bind,
      librekvLinearInitNewBucket, if_pos hcap', ok_bind, hrun, ok_bind]
  · rwa [Nat.zero_add] at hs

theorem occupiedList_eq_nil {b : LinearBucket cap} (h : ∀ e ∈ b.slots, e.isValid = true) :
    b.occupiedList = [] := by
  rw [LinearBucket.occupiedList, List.filter_eq_nil_iff]
  intro e he
  simp [h e he]

/-- A bucket with occupied entries is not compacted. -/
theorem occupiedList_of_compacts (hcap : 1 ≤ cap)
    (hpage : librekvLinearInitNewBucket cap = .ok page₀) (hb : T.bucket? i.toNat = some b)
    (h : Compacts behind T i b) : b.occupiedList = [] ∧ copied behind b ≤ cap.toNat := by
  obtain ⟨s, hrun, hs⟩ := compact_packed behind hcap hpage hb
  obtain ⟨T', b', hcompact, hb', hlist, hfull, -⟩ := h
  rw [hrun] at hcompact
  obtain rfl := Except.ok.inj hcompact
  rw [LinearTable.bucket?_setBucket (LinearTable.lt_size hb), Function.update_self] at hb'
  obtain rfl := Option.some.inj hb'
  refine ⟨by rw [← hlist, occupiedList_eq_nil hs.free], hs.next_eq_nil_iff.mp ?_⟩
  by_contra hne
  -- With a second page the first one has to be full, but all its slots are free.
  have hmem : s.compactedBucket.page ∈ s.compactedBucket.pages.dropLast := by
    rw [LinearBucket.pages, List.dropLast_cons_of_ne_nil hne]
    exact List.mem_cons_self
  have hpos : 0 < s.compactedBucket.page.slots.length := by
    rw [s.compactedBucket.page.size]
    exact UInt64.le_iff_toNat_le.mp hcap
  have hslot := List.getElem_mem hpos
  have hnot := hfull _ hmem _ hslot
  rw [hs.free _ (LinearBucket.mem_slots.mpr ⟨_, List.mem_cons_self, hslot⟩)] at hnot
  cases hnot

/-- **Compaction keeps nothing.** For every bucket that is there, the compaction does what it
is for iff the bucket holds no occupied entry and the free entries it copies instead fit one
page. -/
theorem compacts_iff (hcap : 1 ≤ cap) (hpage : librekvLinearInitNewBucket cap = .ok page₀)
    (hb : T.bucket? i.toNat = some b) :
    Compacts behind T i b ↔ b.occupiedList = [] ∧ copied behind b ≤ cap.toNat := by
  constructor
  · exact occupiedList_of_compacts hcap hpage hb
  · intro h
    obtain ⟨hempty, hfits⟩ := h
    obtain ⟨s, hrun, hs⟩ := compact_packed behind hcap hpage hb
    have hnil := hs.next_eq_nil_iff.mpr hfits
    have hlook := LinearTable.bucket?_setBucket (LinearTable.lt_size hb) s.compactedBucket
    refine ⟨_, s.compactedBucket, hrun, by rw [hlook, Function.update_self], ?_, ?_, ?_⟩
    · rw [hempty, occupiedList_eq_nil hs.free]
    · rw [LinearBucket.pages, hnil]
      intro p hp
      cases hp
    · intro j hj
      rw [hlook, Function.update_of_ne hj]

/-- A chain of two empty pages of ten slots is compacted, since five entries of each are copied;
a chain of two full pages, made by two insertions, is not. -/
theorem compacts_iff_two_pages :
    Compacts (fun _ _ => freeEntry) ((smallTable 10).setBucket 0 ⟨.empty _, [.empty _]⟩) 0
        ⟨.empty (capacityOf 10), [.empty _]⟩ ∧
      ∃ T₁ T₂ b, librekvLinearInsertToBucket (smallTable 1) 1 10 1 = .ok (false, T₁) ∧
        librekvLinearInsertToBucket T₁ 3 20 1 = .ok (true, T₂) ∧ T₂.bucket? 1 = some b ∧
        b.pages.length = 2 ∧ ¬ Compacts (fun _ _ => freeEntry) T₂ 1 b := by
  have hten : librekvLinearInitNewBucket (capacityOf 10) = .ok ⟨.empty _, []⟩ := rfl
  have hone : librekvLinearInitNewBucket (capacityOf 1) = .ok ⟨.empty _, []⟩ := rfl
  refine ⟨(compacts_iff (by decide) hten rfl).mpr ⟨rfl, by decide⟩, _, _, _, rfl, rfl, rfl, rfl, ?_⟩
  rw [compacts_iff (by decide) hone rfl]
  exact fun h => absurd h.1 (by decide)

/-- The table after one entry was inserted into a page of five slots. -/
def oneEntryTable : LinearTable (capacityOf 5) :=
  ((smallTable 5).setBucket 0 ⟨.single (occupiedEntry 0 10), []⟩).withSplit false

/-- The compaction discards this entry. -/
theorem compaction_discards : ∃ b,
    librekvLinearCreate (.zeroed 0) 1 5 = .ok (0, smallTable 5) ∧
      librekvLinearInsertToBucket (smallTable 5) 0 10 0 = .ok (false, oneEntryTable) ∧
      oneEntryTable.bucket? 0 = some b ∧ b.occupiedList = [occupiedEntry 0 10] ∧
      ∀ behind : Behind, ¬ Compacts behind oneEntryTable 0 b ∧
        ∃ T' b', librekvLinearCompactBucket behind oneEntryTable 0 = .ok T' ∧
          T'.bucket? 0 = some b' ∧ b'.occupiedList = [] := by
  have hpage : librekvLinearInitNewBucket (capacityOf 5) = .ok ⟨.empty _, []⟩ := rfl
  have hb : oneEntryTable.bucket? (0 : UInt64).toNat =
      some ⟨.single (occupiedEntry 0 10), []⟩ := rfl
  refine ⟨_, rfl, rfl, hb, rfl, fun behind => ⟨?_, ?_⟩⟩
  · intro h
    have hempty := (occupiedList_of_compacts (by decide) hpage hb h).1
    cases hempty
  · obtain ⟨s, hrun, hs⟩ := compact_packed behind (by decide) hpage hb
    exact ⟨_, s.compactedBucket, hrun, rfl, occupiedList_eq_nil hs.free⟩

end Results

end LibreKV.LinearHash
