import LibreKV.Cuckoo.PutRuns

/-!
# LibreKV.Cuckoo.Undo

A put that gives up leaves no trace.

The undo loop saves no tag: it rebuilds each one from the bucket visited one step later. That
this is exact, for any number of evictions and however often the walk comes back to a slot,
is the last part of `kickLoop_spec`: in front of the records of a walk, one more eviction and
its record cancel (`restoreVictim_evict`). Here the walk is given its length, and the result
is stated for the whole call and for the two loops alone.
-/

namespace LibreKV.Cuckoo

/-- A walk that gives up has recorded one eviction a round. -/
theorem length_undo_of_exhausted {maxIndex : UInt16} {rand : ℕ → ℕ} :
    ∀ (fuel n : ℕ) (t : CuckooHashTable) (c : Hand) (undo : List UndoRecord)
      (t' : CuckooHashTable) (c' : Hand) (undo' : List UndoRecord),
      kickLoop maxIndex rand fuel n t c undo = .ok (.exhausted t' c' undo') →
      undo'.length = undo.length + fuel
  | 0, _, _, _, undo, t', c', undo', h => by
      obtain ⟨-, -, rfl⟩ := KickResult.exhausted.inj (Except.ok.inj h)
      rfl
  | fuel + 1, n, t, c, undo, t', c', undo', h => by
      rw [kickLoop, Fallible.bind_eq_ok] at h
      obtain ⟨way, -, h⟩ := h
      by_cases hway : way.toNat < associativity
      · rw [if_pos hway, Fallible.bind_eq_ok] at h
        obtain ⟨t₁, -, h⟩ := h
        cases h
      · rw [if_neg hway, Fallible.bind_eq_ok] at h
        obtain ⟨r, -, h⟩ := h
        have ih := length_undo_of_exhausted fuel (n + 1) _ _ _ t' c' undo' h
        rw [ih, List.length_cons]
        omega

/-- The undo loop after a walk that gave up: the table is the one the walk started with, and
the entry in hand is the one it started with. -/
theorem undoLoop_of_exhausted {maxIndex : UInt16} (hM : maxIndex.toNat = bucketsPerTable)
    {rand : ℕ → ℕ} {count n : ℕ} {t t' : CuckooHashTable} {c c' : Hand}
    {undo : List UndoRecord} (hc : c.InRange)
    (h : kickLoop maxIndex rand count n t c [] = .ok (.exhausted t' c' undo)) :
    modMaxIndex c'.index.toUInt32 maxIndex = .ok c'.index ∧
      undoLoop maxIndex undo t' c'.forUndo = .ok (t, c.forUndo) := by
  rcases kickLoop_spec hM rand count n t c [] hc with
    ⟨t₁, hk, -⟩ | ⟨t₁, c₁, undo₁, hk, hin, hundo⟩
  · rw [hk] at h
    cases h
  · rw [hk] at h
    obtain ⟨rfl, rfl, rfl⟩ := KickResult.exhausted.inj (Except.ok.inj h)
    exact ⟨hin.modMaxIndex_index hM, hundo⟩

section Results

variable {CityHash64 : List UInt8 → UInt64} {m : Module} {a : ℕ} {t : CuckooHashTable}

/-- **A failing put changes nothing.** Whatever the slots of the table hold, a put that
returns -1 leaves the table and the counters as they were. For every number `N` of
evictions, a walk that gives up has `N` records, and the undo loop over them gives the table
back and ends with the hash and the offset of the new key in hand. -/
theorem failed_put_undone (hheap : m.heap a = some t)
    (hM : m.maxIndex.toNat = bucketsPerTable) (key value : UInt64) (rand : ℕ → ℕ) :
    (∀ m', librekvCuckooPut CityHash64 m (.addr a) key value rand = .ok (-1, m') → m' = m) ∧
      ∀ (N fn : ℕ) (c c' : Hand) (t' : CuckooHashTable) (undo : List UndoRecord),
        fn < numHash →
        handFor m.maxIndex key fn (hash CityHash64 key) value = .ok c →
        kickLoop m.maxIndex rand N 0 t c [] = .ok (.exhausted t' c' undo) →
        undo.length = N ∧ ∃ tag r, modMaxIndex c'.index.toUInt32 m.maxIndex = .ok tag ∧
          undoLoop m.maxIndex undo t' ⟨tag, c'.hash, c'.offset⟩ = .ok (t, r) ∧
          r.hash = hash CityHash64 key ∧ r.offset = value := by
  constructor
  · intro m' hput
    have hcases : PutCases CityHash64 m a t key value
        (librekvCuckooPut CityHash64 m (.addr a) key value rand) :=
      cuckooPut_cases_of_heap hheap hM maxCuckooCount key value rand
    rw [hput] at hcases
    cases hcases with
    | rejected _ => rfl
    | undone _ _ => rfl
  · intro N fn c c' t' undo hfn hhand hkick
    have hkey : 8 ≤ key := by
      by_contra hlt
      rw [handFor_of_lt (UInt64.not_le.mp hlt)] at hhand
      cases hhand
    obtain ⟨c₀, hhand₀, hc, hhash, hoffset, -⟩ :=
      handFor_eq hM hkey hfn (hash CityHash64 key) value
    rw [hhand₀] at hhand
    obtain rfl := Except.ok.inj hhand
    have hlength := length_undo_of_exhausted N 0 t c₀ [] t' c' undo hkick
    rw [List.length_nil, Nat.zero_add] at hlength
    obtain ⟨hmod, hundo⟩ := undoLoop_of_exhausted hM hc hkick
    exact ⟨hlength, c'.index, c₀.forUndo, hmod, hundo, hhash, hoffset⟩

/-- A table whose slots are all valid. -/
def fullTable : CuckooHashTable where
  bucketArray := fun _ => ⟨validBitMask, 0, 0⟩
  numBuckets := 0
  fixFlag := false

/-- The state in which the created table is full. -/
def fullModule : Module := createdModule.save (.addr 0) fullTable

/-- On a full table a put gives up and is undone; so are three evictions alone. -/
theorem failed_put_undone_full :
    (∃ m', librekvCuckooPut hashLen4to8 fullModule (.addr 0) 0x10008 5 (fun _ => 0) =
        .ok (-1, m') ∧ m' = fullModule) ∧
      ∃ c' t' undo, kickLoop fullModule.maxIndex (fun _ => 0) 3 0 fullTable
          ⟨⟨8, hash hashLen4to8 0x10008, 5⟩, 2⟩ [] = .ok (.exhausted t' c' undo) ∧
        undo.length = 3 ∧ ∃ tag r, modMaxIndex c'.index.toUInt32 fullModule.maxIndex = .ok tag ∧
          undoLoop fullModule.maxIndex undo t' ⟨tag, c'.hash, c'.offset⟩ =
            .ok (fullTable, r) ∧
          r.hash = hash hashLen4to8 0x10008 ∧ r.offset = 5 := by
  have hheap : fullModule.heap 0 = some fullTable := by simp [fullModule]
  obtain ⟨hfail, hwalk⟩ :=
    @failed_put_undone hashLen4to8 fullModule 0 fullTable hheap rfl 0x10008 5 (fun _ => 0)
  constructor
  · have hlive : Live fullModule 0 fullTable := ⟨hheap, rfl, rfl, rfl⟩
    have hfull : fullTable.validSlots = Finset.univ := by
      ext s
      simp only [mem_validSlots, Finset.mem_univ, iff_true]
      show HashEntry.isValid ⟨validBitMask, 0, 0⟩ = true
      decide
    rcases @put_of_full hashLen4to8 0 _ _ hlive hfull firstPut with h | ⟨-, hlt, -⟩
    · exact ⟨fullModule, h, hfail _ h⟩
    · exact absurd hlt (by decide)
  · exact ⟨_, _, _, rfl, hwalk 3 1 _ _ _ _ (by decide) rfl rfl⟩

end Results

end LibreKV.Cuckoo
