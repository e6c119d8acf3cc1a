import Mathlib.Algebra.BigOperators.Fin
import Mathlib.Algebra.Order.BigOperators.Group.Finset
import Mathlib.Data.Fintype.BigOperators
import LibreKV.Lib.Buckets
import LibreKV.Hash.Collisions
import LibreKV.Cuckoo.KeyIdentity
import LibreKV.Cuckoo.PutRuns

/-!
# LibreKV.Cuckoo.Multimap

The cuckoo table as a multimap.

The repository has no lookup, but a put fixes what one can rely on: a key has two candidate
buckets, and an entry carries the hash of its key and, as its tag, the other of the two
buckets. Such a search (`CuckooHashTable.found`) finds what the puts of the key stored,
however often their entries were moved, because a walk never changes the pair of buckets of an
entry. The same count of entries by their buckets bounds how many puts can succeed.
-/

namespace LibreKV.Cuckoo

open Transition Exchange

/-! ### The items of a bucket -/

/-- What a search compares: the two buckets and the hash. -/
def Item.key (x : Item) : Sym2 ℕ × UInt64 := (x.buckets, x.keyHash)

/-- The contents of a slot as a multiset. -/
def slotItems : Option Item → Multiset Item
  | some x => {x}
  | none => 0

/-- The valid entries of a bucket. -/
def CuckooHashTable.itemsIn (t : CuckooHashTable) (bucket : ℕ) : Multiset Item :=
  if h : bucket < bucketsPerTable then
    ∑ way : Fin associativity, slotItems (t.item (⟨bucket, h⟩, way))
  else 0

/-- The buckets where a key is looked for. -/
def candidates (k : Sym2 ℕ × UInt64) : Finset ℕ := k.1.toFinset

/-- The offsets that a search of the candidate buckets of `key` finds. -/
def CuckooHashTable.found (CityHash64 : List UInt8 → UInt64) (t : CuckooHashTable)
    (key : UInt64) : Multiset UInt64 :=
  let k := (keyItem CityHash64 key 0).key
  (Buckets.search Item.key t.itemsIn (candidates k) k).map Item.offset

theorem mem_slotItems {o : Option Item} {x : Item} : x ∈ slotItems o ↔ o = some x := by
  cases o with
  | none => simp [slotItems]
  | some y => simp [slotItems, eq_comm]

/-- The item of a slot has the slot's bucket among its two. -/
theorem mem_buckets_of_item {t : CuckooHashTable} {s : Slot} {x : Item}
    (h : t.item s = some x) : s.1.val ∈ x.buckets := by
  unfold CuckooHashTable.item at h
  by_cases hv : (t.bucketArray s).isValid = true
  · rw [if_pos hv] at h
    obtain rfl := Option.some.inj h
    exact Sym2.mem_mk_left _ _
  · rw [if_neg hv] at h
    cases h

/-- Every entry is in one of its candidate buckets. -/
theorem placed_itemsIn (t : CuckooHashTable) :
    Buckets.Placed Item.key candidates t.itemsIn := by
  intro bucket x hx
  unfold CuckooHashTable.itemsIn at hx
  by_cases h : bucket < bucketsPerTable
  · rw [dif_pos h, Multiset.mem_sum] at hx
    obtain ⟨way, -, hway⟩ := hx
    exact Sym2.mem_toFinset.mpr (mem_buckets_of_item (mem_slotItems.mp hway))
  · rw [dif_neg h] at hx
    exact absurd hx (Multiset.notMem_zero x)

/-- The buckets together hold the items of all the slots. -/
theorem sum_itemsIn (t : CuckooHashTable) :
    ∑ bucket ∈ Finset.range bucketsPerTable, t.itemsIn bucket =
      ∑ s : Slot, slotItems (t.item s) := by
  rw [Finset.sum_range, Fintype.sum_prod_type]
  refine Finset.sum_congr rfl fun bucket _ => ?_
  rw [CuckooHashTable.itemsIn, dif_pos bucket.isLt]

/-! ### What the puts of a run stored -/

/-- The puts of a run that returned 1. -/
def stored (log : List (PutCall × Int)) : List PutCall :=
  (log.filter fun p => p.2 = 1).map Prod.fst

theorem mem_stored {log : List (PutCall × Int)} {c : PutCall} :
    c ∈ stored log ↔ (c, 1) ∈ log := by
  simp [stored]

section Totals

variable {CityHash64 : List UInt8 → UInt64} {M : Type*} [AddCommMonoid M]
  {w : Option Item → M}

/-- The total over the register is the total over the puts that returned 1. -/
theorem sum_register (hnone : w none = 0) (log : List (PutCall × Int)) :
    ∑ i ∈ Finset.range log.length, w (register CityHash64 log i) =
      ((stored log).map fun c => w (some (keyItem CityHash64 c.key c.value))).sum := by
  induction log using List.reverseRecOn with
  | nil => rfl
  | append_singleton log p ih =>
      obtain ⟨c, r⟩ := p
      -- the last put changes only its own line of the register
      have hbefore : ∀ i ∈ Finset.range log.length,
          w (register CityHash64 (log ++ [(c, r)]) i) = w (register CityHash64 log i) := by
        intro i hi
        rw [register_snoc, Function.update_of_ne (Nat.ne_of_lt (Finset.mem_range.mp hi))]
      rw [List.length_append, List.length_singleton, Finset.sum_range_succ,
        Finset.sum_congr rfl hbefore, ih, register_snoc, Function.update_self]
      by_cases hr : r = 1
      · simp [stored, hr]
      · simp [stored, hr, hnone]

/-- Whatever is counted, the slots and the puts that returned 1 have the same total. -/
theorem Ledger.sum_eq {a : ℕ} {log : List (PutCall × Int)} {m : Module}
    (h : Ledger CityHash64 a log m) (hnone : w none = 0) :
    ∃ t, Live m a t ∧ ∑ s : Slot, w (t.item s) =
      ((stored log).map fun c => w (some (keyItem CityHash64 c.key c.value))).sum := by
  obtain ⟨t, hlive, hmatch⟩ := h.matched
  have hentries : ∀ i, (register CityHash64 log i).isSome → i ∈ Finset.range log.length := by
    intro i hi
    by_contra hlen
    rw [register_of_le (by simpa using hlen)] at hi
    cases hi
  exact ⟨t, hlive, (hmatch.sum_eq hentries hnone).trans (sum_register hnone log)⟩

end Totals

/-! ### Searching for a key -/

/-- The puts of a run that returned 1 and whose key the table cannot tell from `key`. -/
def storedUnder (CityHash64 : List UInt8 → UInt64) (log : List (PutCall × Int)) (key : UInt64) :
    List PutCall :=
  (stored log).filter fun c =>
    (keyItem CityHash64 c.key c.value).key = (keyItem CityHash64 key 0).key

/-- A search finds what was stored under keys with the same two buckets and the same hash. -/
theorem Ledger.found_eq {CityHash64 : List UInt8 → UInt64} {a : ℕ} {log : List (PutCall × Int)}
    {m : Module} (h : Ledger CityHash64 a log m) :
    ∃ t, Live m a t ∧ ∀ key, t.found CityHash64 key =
      ((storedUnder CityHash64 log key).map PutCall.value : List _) := by
  obtain ⟨t, hlive, hsum⟩ := h.sum_eq (w := slotItems) rfl
  refine ⟨t, hlive, fun key => ?_⟩
  have hout : ∀ bucket ∉ Finset.range bucketsPerTable, t.itemsIn bucket = 0 := by
    intro bucket hb
    rw [CuckooHashTable.itemsIn, dif_neg (by simpa using hb)]
  have hitems : ∑ bucket ∈ Finset.range bucketsPerTable, t.itemsIn bucket =
      ((stored log).map fun c => keyItem CityHash64 c.key c.value : List _) := by
    rw [sum_itemsIn, hsum]
    induction stored log with
    | nil => rfl
    | cons c cs ih =>
        rw [List.map_cons, List.sum_cons, ih, List.map_cons, ← Multiset.cons_coe]
        rfl
  rw [CuckooHashTable.found, (placed_itemsIn t).search_candidates hout, Buckets.search, hitems,
    Multiset.filter_coe, Multiset.map_coe, List.filter_map, List.map_map]
  rfl

/-! ### Keys of one region -/

/-- `CityHash64` of a whole buffer, as a function of its bytes. -/
def cityHash (bytes : List UInt8) : UInt64 :=
  match Hash.cityHash64 ⟨bytes, 0⟩ (UInt64.ofNat bytes.length) with
  | .ok h => h
  | .error _ => 0

/-- On the bytes of a pointer CityHash64 returns, and its result is the hash a put stores. -/
theorem cityHash64_pointerBytes (p : UInt64) :
    Hash.cityHash64 ⟨pointerBytes p, 0⟩ 8 = .ok (hash cityHash p) := by
  have hlen : UInt64.ofNat (pointerBytes p).length = 8 := rfl
  rw [hash, cityHash, hlen, Hash.cityHash64_pointer]

/-- Addresses of one 4 GiB region with the same hash are the same. -/
theorem hash_inj_of_region {p q : UInt64} (hregion : p.toNat / 2 ^ 32 = q.toNat / 2 ^ 32)
    (h : hash cityHash p = hash cityHash q) : p = q := by
  apply Hash.cityHash64_pointer_inj hregion
  rw [cityHash64_pointerBytes, cityHash64_pointerBytes, h]

/-- In a region, what the table cannot tell from a key is the key. -/
theorem storedUnder_of_region {log : List (PutCall × Int)} {key : UInt64}
    (hregion : ∀ c ∈ stored log, c.key.toNat / 2 ^ 32 = key.toNat / 2 ^ 32) :
    storedUnder cityHash log key = (stored log).filter fun c => c.key = key := by
  refine List.filter_congr fun c hc => ?_
  rw [decide_eq_decide]
  constructor
  · intro h
    exact hash_inj_of_region (hregion c hc) (congrArg Prod.snd h)
  · rintro rfl
    rfl

section Results

variable {a : ℕ} {m₀ m₁ m : Module} {log : List (PutCall × Int)}

/-- **A search finds what was put.** After a create and any puts, a search for a key in its two
candidate buckets finds the values of the puts that returned 1 and whose key has the same two
buckets and the same hash, each as often as it was put. With keys from one 4 GiB region these
are the puts of this very key. -/
theorem found_eq_puts (hcreate : librekvCuckooCreate m₀ = (.addr a, m₁))
    (hrun : Run (PutStep cityHash a) m₁ log m) : ∃ t, m.heap a = some t ∧ ∀ key,
      t.found cityHash key = ((storedUnder cityHash log key).map PutCall.value : List _) ∧
      ((∀ c ∈ stored log, c.key.toNat / 2 ^ 32 = key.toNat / 2 ^ 32) →
        storedUnder cityHash log key = (stored log).filter fun c => c.key = key) := by
  obtain ⟨t, hlive, hfound⟩ := (Ledger.of_run hcreate hrun).found_eq
  exact ⟨t, hlive.heap, fun key => ⟨hfound key, storedUnder_of_region⟩⟩

/-- The five puts of a key, one of them moved by an eviction, are found under this key, and the one
that was undone is not. -/
theorem found_eq_puts_example : ∃ m, Run (PutStep cityHash 0) createdModule manyPuts m ∧
    ∃ t, m.heap 0 = some t ∧ t.found cityHash firstPut.key = {5, 5, 5, 5, 5} := by
  have hfilled : ∃ t ∈ tableAfter cityHash fillingPuts, t.Saturated {8, 2, 3} := by
    decide +kernel
  obtain ⟨m, hrun, -⟩ := run_of_saturated hfilled
  obtain ⟨t, hheap, hfound⟩ := found_eq_puts create_initial hrun
  obtain ⟨hvalues, hregion⟩ := hfound firstPut.key
  refine ⟨m, hrun, t, hheap, ?_⟩
  rw [hvalues, hregion (by decide)]
  rfl

variable {CityHash64 : List UInt8 → UInt64}

/-- The entries that belong into the buckets `B` and to no other. -/
def within (B : Finset ℕ) : Option Item → ℕ
  | some x => if x.buckets.toFinset ⊆ B then 1 else 0
  | none => 0

theorem within_le (B : Finset ℕ) (t : CuckooHashTable) (s : Slot) :
    within B (t.item s) ≤ if s.1.val ∈ B then 1 else 0 := by
  cases h : t.item s with
  | none => exact Nat.zero_le _
  | some x =>
      rw [within]
      by_cases hB : x.buckets.toFinset ⊆ B
      · rw [if_pos hB, if_pos (hB (Sym2.mem_toFinset.mpr (mem_buckets_of_item h)))]
      · rw [if_neg hB]
        exact Nat.zero_le _

/-- A set of buckets has four slots a bucket. -/
theorem sum_within_le (B : Finset ℕ) (t : CuckooHashTable) :
    ∑ s : Slot, within B (t.item s) ≤ associativity * B.card := by
  have hbuckets : (Finset.univ.filter fun bucket : Fin bucketsPerTable => bucket.val ∈ B).card ≤
      B.card :=
    Finset.card_le_card_of_injOn Fin.val (by simp [Set.MapsTo]) Fin.val_injective.injOn
  calc ∑ s : Slot, within B (t.item s)
      ≤ ∑ s : Slot, if s.1.val ∈ B then 1 else 0 := Finset.sum_le_sum fun s _ => within_le B t s
    _ = ∑ bucket : Fin bucketsPerTable, associativity * if bucket.val ∈ B then 1 else 0 := by
        rw [Fintype.sum_prod_type]
        refine Finset.sum_congr rfl fun bucket _ => ?_
        by_cases hbucket : bucket.val ∈ B
        · simp [hbucket]
        · simp [hbucket]
    _ = associativity *
          (Finset.univ.filter fun bucket : Fin bucketsPerTable => bucket.val ∈ B).card := by
        rw [← Finset.mul_sum, Finset.card_filter]
    _ ≤ associativity * B.card := Nat.mul_le_mul_left _ hbuckets

/-- **No set of buckets is overfilled.** In every run and for every set of buckets, the puts
that returned 1 and whose two candidate buckets both lie in the set are at most four times the
number of its buckets. In particular a key is put at most eight times. -/
theorem stored_within_le (hcreate : librekvCuckooCreate m₀ = (.addr a, m₁))
    (hrun : Run (PutStep CityHash64 a) m₁ log m) (B : Finset ℕ) :
    ((stored log).filter fun c => fragment c.key 0 ∈ B ∧ fragment c.key 1 ∈ B).length ≤
      associativity * B.card := by
  obtain ⟨t, -, hsum⟩ := (Ledger.of_run hcreate hrun).sum_eq (w := within B) rfl
  refine le_trans (le_of_eq ?_) (hsum ▸ sum_within_le B t)
  induction stored log with
  | nil => rfl
  | cons c cs ih =>
      have hpair : (keyItem CityHash64 c.key c.value).buckets.toFinset ⊆ B ↔
          fragment c.key 0 ∈ B ∧ fragment c.key 1 ∈ B := by
        simp [keyItem, Sym2.toFinset_mk_eq, Finset.insert_subset_iff]
      rw [List.map_cons, List.sum_cons, within, ← ih, List.filter_cons]
      by_cases hc : fragment c.key 0 ∈ B ∧ fragment c.key 1 ∈ B
      · simp [hpair, hc, Nat.add_comm]
      · simp [hpair, hc]

/-- Twelve puts fill the buckets 8, 2 and 3. -/
theorem stored_within_le_example : ∃ m,
    Run (PutStep hashLen4to8 0) createdModule manyPuts m ∧
      ((stored manyPuts).filter fun c =>
        fragment c.key 0 ∈ ({8, 2, 3} : Finset ℕ) ∧
          fragment c.key 1 ∈ ({8, 2, 3} : Finset ℕ)).length ≤ 12 := by
  obtain ⟨m, hrun, -⟩ := manyPuts_run
  exact ⟨m, hrun, stored_within_le create_initial hrun {8, 2, 3}⟩

end Results

end LibreKV.Cuckoo
