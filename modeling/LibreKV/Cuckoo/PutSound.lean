import LibreKV.Cuckoo.Walk

/-!
# LibreKV.Cuckoo.PutSound

What one call of `librekv_cuckoo_put` can do to a live table (`cuckooPut_cases`), for every
number of evictions: the argument check fails, `keyfrag`'s assertion fails, the key is
placed, or nothing changes. Everything proved about runs of puts is read off this
statement.
-/

namespace LibreKV.Cuckoo

/-- The key fragment number `id` of a key that passes `keyfrag`'s assertion. -/
def fragment (key : UInt64) (id : UInt32) : ℕ :=
  match keyfrag key id with
  | .ok f => f.toNat
  | .error _ => 0

/-- The item a put of `key` and `value` is to store. -/
def keyItem (CityHash64 : List UInt8 → UInt64) (key value : UInt64) : Item :=
  ⟨s(fragment key 0, fragment key 1), hash CityHash64 key, value⟩

theorem fragment_eq {key : UInt64} {id f : UInt32} (h : keyfrag key id = .ok f) :
    fragment key id = f.toNat := by
  rw [fragment, h]

section Hand

variable {maxIndex : UInt16} (hM : maxIndex.toNat = bucketsPerTable)
include hM

/-- Both hash numbers give the same item, with the two buckets in opposite roles. -/
theorem handFor_eq {key : UInt64} (hkey : 8 ≤ key) {fn : ℕ} (hfn : fn < numHash)
    (h o : UInt64) :
    ∃ c, handFor maxIndex key fn h o = .ok c ∧ c.InRange ∧ c.hash = h ∧ c.offset = o ∧
      c.item = ⟨s(fragment key 0, fragment key 1), h, o⟩ := by
  obtain ⟨f, hf⟩ := keyfrag_ok hkey (UInt32.ofNat fn)
  obtain ⟨g, hg⟩ := keyfrag_ok hkey (UInt32.ofNat ((fn + 1) % numHash))
  have hfl := keyfrag_lt hf
  have hgl := keyfrag_lt hg
  have hf16 : f.toUInt16.toNat = f.toNat := by
    rw [UInt32.toNat_toUInt16, Nat.mod_eq_of_lt (Nat.lt_trans hfl (by decide))]
  have hg16 : g.toUInt16.toNat = g.toNat := by
    rw [UInt32.toNat_toUInt16, Nat.mod_eq_of_lt (Nat.lt_trans hgl (by decide))]
  refine ⟨{ index := f.toUInt16, tag := g.toUInt16, hash := h, offset := o }, ?_, ?_, rfl, rfl,
    ?_⟩
  · simp only [handFor, hf, hg, modMaxIndex_eq hM hfl, modMaxIndex_eq hM hgl,
      Fallible.ok_bind]
  · exact ⟨by rw [hf16]; exact hfl, by rw [hg16]; exact hgl⟩
  · simp only [Hand.item, hf16, hg16, ← fragment_eq hf, ← fragment_eq hg]
    rcases eq_zero_or_one hfn with rfl | rfl
    · rfl
    · rw [Sym2.eq_swap]
      rfl

/-- The hand goes to the bucket of the key's fragment with that number. -/
theorem handFor_index {key : UInt64} {fn : ℕ} {h o : UInt64} {c : Hand}
    (hhand : handFor maxIndex key fn h o = .ok c) :
    c.index.toNat = fragment key (UInt32.ofNat fn) := by
  simp only [handFor, Fallible.bind_eq_ok] at hhand
  obtain ⟨f, hf, index, hindex, g, -, tag, -, hc⟩ := hhand
  obtain rfl := Except.ok.inj hc
  have hlt := keyfrag_lt hf
  rw [modMaxIndex_eq hM hlt] at hindex
  obtain rfl := Except.ok.inj hindex
  rw [fragment_eq hf, UInt32.toNat_toUInt16, Nat.mod_eq_of_lt (Nat.lt_trans hlt (by decide))]

end Hand

/-- A key below the asserted bound aborts in `keyfrag`. -/
theorem handFor_of_lt {maxIndex : UInt16} {key : UInt64} (hkey : key < 8) (fn : ℕ)
    (h o : UInt64) : handFor maxIndex key fn h o = .error .assertionFailed := by
  rw [handFor, keyfrag, if_pos hkey]
  rfl

/-- A key that `keyfrag` accepts is not null. -/
theorem args_not_null {key value : UInt64} (hvalue : value ≠ 0) (hkey : 8 ≤ key) :
    ¬ (key = 0 ∨ value = 0) := by
  intro hnull
  rcases hnull with rfl | rfl
  · exact absurd hkey (by decide)
  · exact hvalue rfl

/-- The ways a put on the live table `t` at `a` can end. -/
inductive PutCases (CityHash64 : List UInt8 → UInt64) (m : Module) (a : ℕ)
    (t : CuckooHashTable) (key value : UInt64) : Except Fault (Int × Module) → Prop
  /-- A null argument. -/
  | rejected : key = 0 ∨ value = 0 → PutCases CityHash64 m a t key value (.ok (-1, m))
  /-- A key pointer that `keyfrag`'s assertion does not accept. -/
  | aborted : key ≠ 0 → value ≠ 0 → key < 8 →
      PutCases CityHash64 m a t key value (.error .assertionFailed)
  /-- The key was placed. -/
  | stored (t' : CuckooHashTable) : value ≠ 0 → 8 ≤ key →
      Placed t t' (keyItem CityHash64 key value) →
      PutCases CityHash64 m a t key value
        (.ok (1, { m.save (.addr a) t' with currentEntries := m.currentEntries + 1 }))
  /-- No free slot was met, and everything is as before. -/
  | undone : value ≠ 0 → 8 ≤ key → PutCases CityHash64 m a t key value (.ok (-1, m))

section Put

variable {CityHash64 : List UInt8 → UInt64} {m : Module} {a : ℕ} {t : CuckooHashTable}
  {key value : UInt64} (hheap : m.heap a = some t) (hM : m.maxIndex.toNat = bucketsPerTable)
  (hvalue : value ≠ 0) (hkey : 8 ≤ key) (count : ℕ) (rand : ℕ → ℕ)
include hheap hM hvalue hkey

/-- A first candidate bucket with a free slot takes the key. -/
theorem cuckooPut_of_room
    (hroom : ¬ t.BucketFull (fragment key (UInt32.ofNat (rand 0 % numHash)))) :
    ∃ t', cuckooPut count CityHash64 m (.addr a) key value rand =
        .ok (1, { m.save (.addr a) t' with currentEntries := m.currentEntries + 1 }) ∧
      Placed t t' (keyItem CityHash64 key value) := by
  obtain ⟨c, hhand, hc, -, -, hitem⟩ :=
    handFor_eq hM hkey (mod_numHash_lt (rand 0)) (hash CityHash64 key) value
  rw [← handFor_index hM hhand] at hroom
  obtain ⟨w, hw, hfs, hfree⟩ := freeslot_of_not_full hc.1 hroom
  refine ⟨t.set (⟨c.index.toNat, hc.1⟩, ⟨w.toNat, hw⟩) c.entry, ?_, ?_⟩
  · rw [cuckooPut, if_neg (args_not_null hvalue hkey)]
    simp only [hhand, Module.load_addr hheap, hfs, Fallible.ok_bind, if_pos hw, store_eq hc.1 hw]
    rfl
  · rw [keyItem, ← hitem]
    exact placed_of_free hc rfl hfree

/-- When the first candidate bucket is full, the walk from the second one decides: it places
the key, or the undo loop leads back to the table it started with. -/
theorem cuckooPut_of_full
    (hfull : t.BucketFull (fragment key (UInt32.ofNat (rand 0 % numHash)))) {c : Hand}
    (hhand : handFor m.maxIndex key ((rand 0 % numHash + 1) % numHash) (hash CityHash64 key)
      value = .ok c) :
    (∃ t', kickLoop m.maxIndex rand count 0 t c [] = .ok (.stored t') ∧
        Placed t t' (keyItem CityHash64 key value) ∧
        cuckooPut count CityHash64 m (.addr a) key value rand =
          .ok (1, { m.save (.addr a) t' with currentEntries := m.currentEntries + 1 })) ∨
      (∃ t' c' undo, kickLoop m.maxIndex rand count 0 t c [] = .ok (.exhausted t' c' undo) ∧
        cuckooPut count CityHash64 m (.addr a) key value rand = .ok (-1, m)) := by
  obtain ⟨c₀, hhand₀, hc₀, -⟩ :=
    handFor_eq hM hkey (mod_numHash_lt (rand 0)) (hash CityHash64 key) value
  obtain ⟨c₁, hhand₁, hc, -, -, hitem⟩ :=
    handFor_eq hM hkey (mod_numHash_lt (rand 0 % numHash + 1)) (hash CityHash64 key) value
  obtain rfl := Except.ok.inj (hhand₁.symm.trans hhand)
  rw [← handFor_index hM hhand₀] at hfull
  rw [cuckooPut, if_neg (args_not_null hvalue hkey)]
  simp only [hhand₀, Module.load_addr hheap, freeslot_of_full hc₀.1 hfull, Fallible.ok_bind,
    if_neg not_lt_associativity, hhand]
  rcases kickLoop_spec hM rand count 0 t c₁ [] hc with
    ⟨t', hk, hpl⟩ | ⟨t', c', undo, hk, hin, hundo⟩
  · rw [hitem] at hpl
    exact Or.inl ⟨t', hk, hpl, by simp only [hk, Fallible.ok_bind]⟩
  · have hback : undoLoop m.maxIndex undo t' ⟨c'.index, c'.hash, c'.offset⟩ =
        .ok (t, c₁.forUndo) := hundo
    refine Or.inr ⟨t', c', undo, hk, ?_⟩
    simp only [hk, Fallible.ok_bind, hin.modMaxIndex_index hM, hback, Module.save_self hheap]

/-- When both candidate buckets belong to saturated ones, nothing can be stored. -/
theorem cuckooPut_of_saturated {B : Finset ℕ} (hB : t.Saturated B)
    (hfirst : fragment key 0 ∈ B) (hsecond : fragment key 1 ∈ B) :
    cuckooPut count CityHash64 m (.addr a) key value rand = .ok (-1, m) := by
  obtain ⟨c, hhand, hc, -, -, hitem⟩ :=
    handFor_eq hM hkey (mod_numHash_lt (rand 0 % numHash + 1)) (hash CityHash64 key) value
  have hwithin : c.Within B := by
    have hbuckets : s(c.index.toNat, c.tag.toNat) = s(fragment key 0, fragment key 1) :=
      congrArg Item.buckets hitem
    rcases Sym2.eq_iff.mp hbuckets with ⟨hindex, htag⟩ | ⟨hindex, htag⟩
    · exact ⟨hindex ▸ hfirst, htag ▸ hsecond⟩
    · exact ⟨hindex ▸ hsecond, htag ▸ hfirst⟩
  have hfull : t.BucketFull (fragment key (UInt32.ofNat (rand 0 % numHash))) := by
    rcases eq_zero_or_one (mod_numHash_lt (rand 0)) with hzero | hone
    · rw [hzero]
      exact hB.full _ hfirst
    · rw [hone]
      exact hB.full _ hsecond
  obtain ⟨t', c', undo, hwalk⟩ := kickLoop_of_saturated hM rand count 0 t c [] hB hc hwithin
  rcases cuckooPut_of_full hheap hM hvalue hkey count rand hfull hhand with
    ⟨t₁, hk, -⟩ | ⟨t₁, c₁, undo₁, -, hput⟩
  · rw [hwalk] at hk
    cases hk
  · exact hput

end Put

/-- **The put contract.** On an allocated table, with `max_index` the number of buckets, every
call, with any number of evictions and any outcomes of `rand()`, ends in one of the four
ways. -/
theorem cuckooPut_cases_of_heap {CityHash64 : List UInt8 → UInt64} {m : Module} {a : ℕ}
    {t : CuckooHashTable} (hheap : m.heap a = some t)
    (hM : m.maxIndex.toNat = bucketsPerTable) (count : ℕ) (key value : UInt64)
    (rand : ℕ → ℕ) :
    PutCases CityHash64 m a t key value
      (cuckooPut count CityHash64 m (.addr a) key value rand) := by
  by_cases hnull : key = 0 ∨ value = 0
  · rw [cuckooPut, if_pos hnull]
    exact .rejected hnull
  · have hkey0 : key ≠ 0 := fun h => hnull (Or.inl h)
    have hvalue : value ≠ 0 := fun h => hnull (Or.inr h)
    by_cases hlt : key < 8
    · rw [cuckooPut, if_neg hnull]
      simp only [handFor_of_lt hlt, Fallible.error_bind]
      exact .aborted hkey0 hvalue hlt
    · have hkey : 8 ≤ key := UInt64.not_lt.mp hlt
      by_cases hfull : t.BucketFull (fragment key (UInt32.ofNat (rand 0 % numHash)))
      · obtain ⟨c, hhand, -⟩ :=
          handFor_eq hM hkey (mod_numHash_lt (rand 0 % numHash + 1)) (hash CityHash64 key) value
        rcases cuckooPut_of_full hheap hM hvalue hkey count rand hfull hhand with
          ⟨t', -, hpl, hput⟩ | ⟨t', c', undo, -, hput⟩
        · rw [hput]
          exact .stored t' hvalue hkey hpl
        · rw [hput]
          exact .undone hvalue hkey
      · obtain ⟨t', hput, hpl⟩ :=
          @cuckooPut_of_room CityHash64 _ _ _ _ _ hheap hM hvalue hkey count rand hfull
        rw [hput]
        exact .stored t' hvalue hkey hpl

/-- The put contract on a live table. -/
theorem cuckooPut_cases {CityHash64 : List UInt8 → UInt64} {m : Module} {a : ℕ}
    {t : CuckooHashTable} (hlive : Live m a t) (count : ℕ) (key value : UInt64)
    (rand : ℕ → ℕ) :
    PutCases CityHash64 m a t key value
      (cuckooPut count CityHash64 m (.addr a) key value rand) :=
  cuckooPut_cases_of_heap hlive.heap hlive.maxIndex count key value rand

end LibreKV.Cuckoo
