import Mathlib.Algebra.BigOperators.Group.Finset.Basic
import Mathlib.Algebra.Order.Group.Multiset
import Mathlib.Data.Nat.Bitwise
import Mathlib.Logic.Function.Iterate
import LibreKV.Fault
import LibreKV.Lib.FirstFit

/-!
# LibreKV.LinearHash.Table

The linear hash table of `linearhash.h`: entries, pages, bucket chains and the module-wide
state, with `twoToPowerOf`, `truncateHash`, `librekv_linear_initNewBucket` and
`librekv_linear_create`.

A bucket is a chain of pages, each of `m_entriesPerBucket` slots; the capacity is an index of
the types, so that a page of another size cannot be built. The flag `isValid` of an entry has
the meaning the source gives it: it is set while the slot is *free*.
-/

namespace LibreKV.LinearHash

/-- `DEFAULT_MAX_BUCKET_CAPACITY`. -/
def defaultMaxBucketCapacity : UInt64 := 4

/-- An `int` converted to `uint64_t`. -/
def intToUInt64 (i : Int32) : UInt64 := i.toInt64.toUInt64

/-- `twoToPowerOf`: `power` shifts by one. The `int` result wraps. -/
def twoToPowerOf (power : Int32) : Int32 :=
  (fun result : Int32 => result <<< 1)^[power.toInt.toNat] 1

/-- `twoToPowerOf(m_currentLevel)` as the callers use it: the level is an `int`, and the
result is compared with and assigned to `uint64_t`. -/
def twoToLevel (level : UInt16) : UInt64 := intToUInt64 (twoToPowerOf level.toUInt32.toInt32)

/-- `truncateHash`. The mask is an `int`, shifted modulo 32 and extended by its sign. -/
def truncateHash (key : UInt64) (level : UInt16) : UInt64 :=
  let keyfragmask := intToUInt64 (((1 : Int32) <<< level.toUInt32.toInt32) - 1)
  key &&& keyfragmask

/-! ### Entries, pages and chains -/

/-- `struct linearHashEntry`. -/
structure LinearHashEntry where
  keyHash : UInt64
  offset : UInt64
  /-- Set while the slot is free. -/
  isValid : Bool
  deriving Repr, DecidableEq

/-- What the source writes into a slot to free it. -/
def freeEntry : LinearHashEntry := ⟨-1, -10, true⟩

/-- What the source writes into a slot to store a pair. -/
def occupiedEntry (keyHash offset : UInt64) : LinearHashEntry := ⟨keyHash, offset, false⟩

/-- The slots of one page. -/
@[ext]
structure Page (cap : UInt64) where
  slots : List LinearHashEntry
  size : slots.length = cap.toNat
  deriving DecidableEq

/-- `struct linearBucket`: a page and, through its `next` pointers, the pages after it. -/
structure LinearBucket (cap : UInt64) where
  page : Page cap
  next : List (Page cap)
  deriving DecidableEq

variable {cap : UInt64}

namespace Page

/-- A page on which every slot is free. -/
def empty (cap : UInt64) : Page cap :=
  ⟨List.replicate cap.toNat freeEntry, List.length_replicate⟩

/-- Overwrite a slot. -/
def set (p : Page cap) (i : ℕ) (e : LinearHashEntry) : Page cap :=
  ⟨p.slots.set i e, by rw [List.length_set, p.size]⟩

/-- Write a slot; a subscript from the capacity on is beyond the page. -/
def write (p : Page cap) (i : ℕ) (e : LinearHashEntry) : Except Fault (Page cap) :=
  if i < cap.toNat then .ok (p.set i e) else .error .outOfBounds

/-- Store an entry in the first free slot of the page. -/
def place (e : LinearHashEntry) (p : Page cap) : Option (Page cap) :=
  match h : FirstFit.place LinearHashEntry.isValid e p.slots with
  | none => none
  | some slots => some ⟨slots, by rw [FirstFit.length_place h, p.size]⟩

end Page

/-- Store an entry in the first free slot of the pages. -/
def placePages (e : LinearHashEntry) : List (Page cap) → Option (List (Page cap))
  | [] => none
  | p :: ps =>
    match p.place e with
    | some p' => some (p' :: ps)
    | none => (placePages e ps).map (p :: ·)

namespace LinearBucket

/-- The pages in chain order. -/
def pages (b : LinearBucket cap) : List (Page cap) := b.page :: b.next

/-- The slots in chain order. -/
def slots (b : LinearBucket cap) : List LinearHashEntry := b.pages.flatMap Page.slots

/-- Store an entry in the first free slot of the chain. -/
def place (e : LinearHashEntry) (b : LinearBucket cap) : Option (LinearBucket cap) :=
  match b.page.place e with
  | some p => some { b with page := p }
  | none => (placePages e b.next).map fun ps => { b with next := ps }

/-- Append a page at the end of the chain. -/
def append (b : LinearBucket cap) (p : Page cap) : LinearBucket cap :=
  { b with next := b.next ++ [p] }

/-- No slot of the chain is free. -/
def Full (b : LinearBucket cap) : Prop := FirstFit.Full LinearHashEntry.isValid b.slots

instance (b : LinearBucket cap) : Decidable b.Full :=
  inferInstanceAs (Decidable (FirstFit.Full _ _))

/-- The occupied entries of the chain. -/
def entries (b : LinearBucket cap) : Multiset LinearHashEntry :=
  FirstFit.occupied LinearHashEntry.isValid b.slots

end LinearBucket

theorem LinearBucket.mem_slots {b : LinearBucket cap} {e : LinearHashEntry} :
    e ∈ b.slots ↔ ∃ p ∈ b.pages, e ∈ p.slots := List.mem_flatMap

/-- `librekv_linear_initNewBucket`. The slot counter is an `int`. -/
def librekvLinearInitNewBucket (cap : UInt64) : Except Fault (LinearBucket cap) :=
  if cap.toNat < 2 ^ 31 then .ok ⟨.empty cap, []⟩ else .error .intOverflow

/-! ### The module state -/

/-- The globals of `linearhash.h`, for one value `cap` of `m_entriesPerBucket`. An element
`none` of the bucket array is allocated and not initialised. -/
structure LinearTable (cap : UInt64) where
  linearHashTable : List (Option (LinearBucket cap))
  currBucketNum : UInt64
  currentLevel : UInt16
  currentMaxBucketsBeforeSplit : UInt64
  nextBucketIndexToSplit : UInt64
  isOverflow : Bool
  isSplit : Bool
  deriving DecidableEq

namespace LinearTable

/-- The number of buckets allocated. -/
def size (T : LinearTable cap) : ℕ := T.linearHashTable.length

/-- The bucket at index `i`, if one is there. -/
def bucket? (T : LinearTable cap) (i : ℕ) : Option (LinearBucket cap) :=
  (T.linearHashTable[i]?).join

/-- Dereference `m_linear_hashTable[i]`. -/
def bucketAt (T : LinearTable cap) (i : ℕ) : Except Fault (LinearBucket cap) :=
  match T.linearHashTable[i]? with
  | none => .error .unallocatedBucket
  | some none => .error .indeterminateBucket
  | some (some b) => .ok b

/-- Overwrite the bucket at index `i`. -/
def setBucket (T : LinearTable cap) (i : ℕ) (b : LinearBucket cap) : LinearTable cap :=
  { T with linearHashTable := T.linearHashTable.set i (some b) }

/-- The occupied entries of the bucket at index `i`. -/
def entriesAt (T : LinearTable cap) (i : ℕ) : Multiset LinearHashEntry :=
  (T.bucket? i).elim 0 LinearBucket.entries

end LinearTable

/-- `m_entriesPerBucket` as `librekv_linear_create` sets it. -/
def capacityOf (i_entriesPerBucket : UInt64) : UInt64 :=
  if i_entriesPerBucket > 0 then i_entriesPerBucket else defaultMaxBucketCapacity

/-- The loop of `librekv_linear_create` over the buckets. -/
def initBuckets (cap : UInt64) : ℕ → Except Fault (List (Option (LinearBucket cap)))
  | 0 => .ok []
  | n + 1 => do
    let b ← librekvLinearInitNewBucket cap
    let bs ← initBuckets cap n
    .ok (some b :: bs)

/-- `librekv_linear_create`. An unsigned level is always `>= 0`, so the default level is
never taken; the level is narrowed to `uint16_t`. The bucket counter is an `int`. -/
def librekvLinearCreate {c : UInt64} (prior : LinearTable c) (i_initialLevel : UInt32)
    (i_entriesPerBucket : UInt64) :
    Except Fault (Int × LinearTable (capacityOf i_entriesPerBucket)) :=
  let currentLevel := i_initialLevel.toUInt16
  let buckets := twoToLevel currentLevel
  if buckets.toNat < 2 ^ 31 then do
    let table ← initBuckets (capacityOf i_entriesPerBucket) buckets.toNat
    .ok (0, { linearHashTable := table
              currBucketNum := buckets
              currentLevel := currentLevel
              currentMaxBucketsBeforeSplit := buckets
              nextBucketIndexToSplit := 0
              isOverflow := prior.isOverflow
              isSplit := prior.isSplit })
  else .error .intOverflow

/-- The globals at program start. -/
def LinearTable.zeroed (cap : UInt64) : LinearTable cap where
  linearHashTable := []
  currBucketNum := 0
  currentLevel := 0
  currentMaxBucketsBeforeSplit := 0
  nextBucketIndexToSplit := 0
  isOverflow := false
  isSplit := false

/-! ### Powers of two and residues -/

theorem twoToLevel_ofNat : ∀ n : Fin 31, (twoToLevel (UInt16.ofNat n.val)).toNat = 2 ^ n.val := by
  decide

theorem keyfragmask_ofNat : ∀ n : Fin 32,
    (intToUInt64 (((1 : Int32) <<< (UInt16.ofNat n.val).toUInt32.toInt32) - 1)).toNat =
      2 ^ n.val - 1 := by
  decide

/-- Up to level 30 the power fits the `int`. -/
theorem toNat_twoToLevel {level : UInt16} (h : level.toNat ≤ 30) :
    (twoToLevel level).toNat = 2 ^ level.toNat := by
  simpa using twoToLevel_ofNat ⟨level.toNat, by omega⟩

/-- Up to level 31 the mask keeps the residue. -/
theorem toNat_truncateHash (key : UInt64) {level : UInt16} (h : level.toNat ≤ 31) :
    (truncateHash key level).toNat = key.toNat % 2 ^ level.toNat := by
  have hmask := keyfragmask_ofNat ⟨level.toNat, by omega⟩
  simp only [UInt16.ofNat_toNat] at hmask
  rw [truncateHash, UInt64.toNat_and, hmask, Nat.and_two_pow_sub_one_eq_mod]

theorem toNat_level_succ {level : UInt16} (h : level.toNat ≤ 30) :
    (level + 1).toNat = level.toNat + 1 := by
  rw [UInt16.toNat_add]
  simp only [UInt16.reduceToNat]
  omega

/-- The residue one level up. -/
theorem toNat_truncateHash_succ (key : UInt64) {level : UInt16} (h : level.toNat ≤ 30) :
    (truncateHash key (level + 1)).toNat = key.toNat % 2 ^ (level.toNat + 1) := by
  have hsucc := toNat_level_succ h
  rw [toNat_truncateHash key (by omega), hsucc]

/-! ### Creation -/

/-- The counter of the loop over the slots of a page is an `int`. -/
theorem lt_of_initNewBucket {b : LinearBucket cap} (h : librekvLinearInitNewBucket cap = .ok b) :
    cap.toNat < 2 ^ 31 := by
  by_contra hge
  rw [librekvLinearInitNewBucket, if_neg hge] at h
  cases h

theorem capacityOf_pos (i_entriesPerBucket : UInt64) :
    0 < (capacityOf i_entriesPerBucket).toNat := by
  unfold capacityOf
  by_cases h : i_entriesPerBucket > 0
  · rw [if_pos h]
    exact UInt64.lt_iff_toNat_lt.mp h
  · rw [if_neg h]
    decide

theorem initBuckets_eq_ok {n : ℕ} (hn : 0 < n) {bs : List (Option (LinearBucket cap))}
    (h : initBuckets cap n = .ok bs) :
    cap.toNat < 2 ^ 31 ∧ bs = List.replicate n (some ⟨.empty cap, []⟩) := by
  have hcap : cap.toNat < 2 ^ 31 := by
    cases n with
    | zero => exact absurd hn (Nat.lt_irrefl 0)
    | succ n =>
        rw [initBuckets, Fallible.bind_eq_ok] at h
        obtain ⟨b, hb, -⟩ := h
        exact lt_of_initNewBucket hb
  refine ⟨hcap, ?_⟩
  have heq : ∀ n, initBuckets cap n = .ok (List.replicate n (some ⟨.empty cap, []⟩)) := by
    intro n
    induction n with
    | zero => rfl
    | succ n ih =>
        rw [initBuckets, librekvLinearInitNewBucket, if_pos hcap, ih]
        rfl
  rw [heq] at h
  exact (Except.ok.inj h).symm

/-- The table that `librekv_linear_create` leaves: `2 ^ L` buckets of one free page each. -/
structure Created (L : ℕ) (T : LinearTable cap) : Prop where
  level : T.currentLevel.toNat = L
  num : T.currBucketNum.toNat = 2 ^ L
  next : T.nextBucketIndexToSplit = 0
  table : T.linearHashTable = List.replicate (2 ^ L) (some ⟨.empty cap, []⟩)
  capacity : cap.toNat < 2 ^ 31

section Create

variable {c : UInt64} {prior : LinearTable c} {i_initialLevel : UInt32}
  {i_entriesPerBucket : UInt64} {r : Int} {T : LinearTable (capacityOf i_entriesPerBucket)}

/-- A create that returned: the bucket count passed the `int` loop, and the array was
initialised bucket by bucket. -/
theorem create_eq_ok
    (h : librekvLinearCreate prior i_initialLevel i_entriesPerBucket = .ok (r, T)) :
    (twoToLevel i_initialLevel.toUInt16).toNat < 2 ^ 31 ∧
      initBuckets (capacityOf i_entriesPerBucket)
        (twoToLevel i_initialLevel.toUInt16).toNat = .ok T.linearHashTable ∧
      T.currentLevel = i_initialLevel.toUInt16 ∧
      T.currBucketNum = twoToLevel i_initialLevel.toUInt16 ∧
      T.currentMaxBucketsBeforeSplit = twoToLevel i_initialLevel.toUInt16 ∧
      T.nextBucketIndexToSplit = 0 := by
  rw [librekvLinearCreate] at h
  by_cases hint : (twoToLevel i_initialLevel.toUInt16).toNat < 2 ^ 31
  · simp only [if_pos hint, Fallible.bind_eq_ok] at h
    obtain ⟨bs, hbs, heq⟩ := h
    obtain ⟨-, rfl⟩ := Prod.mk.inj (Except.ok.inj heq)
    exact ⟨hint, hbs, rfl, rfl, rfl, rfl⟩
  · simp only [if_neg hint] at h
    cases h

theorem create_created (hlevel : i_initialLevel.toNat ≤ 29)
    (h : librekvLinearCreate prior i_initialLevel i_entriesPerBucket = .ok (r, T)) :
    Created i_initialLevel.toNat T := by
  obtain ⟨-, hinit, hT, hnum, -, hnext⟩ := create_eq_ok h
  have hL : i_initialLevel.toUInt16.toNat = i_initialLevel.toNat := by
    rw [UInt32.toNat_toUInt16]
    omega
  have hpow : (twoToLevel i_initialLevel.toUInt16).toNat = 2 ^ i_initialLevel.toNat := by
    rw [toNat_twoToLevel (by omega), hL]
  rw [hpow] at hinit
  obtain ⟨hcap, htable⟩ := initBuckets_eq_ok (Nat.two_pow_pos _) hinit
  exact ⟨by rw [hT, hL], by rw [hnum, hpow], hnext, htable, hcap⟩

end Create

/-- The table after `librekv_linear_create(1, capacity)` in a fresh process. -/
def smallTable (capacity : UInt64) : LinearTable (capacityOf capacity) where
  linearHashTable := [some ⟨.empty _, []⟩, some ⟨.empty _, []⟩]
  currBucketNum := 2
  currentLevel := 1
  currentMaxBucketsBeforeSplit := 2
  nextBucketIndexToSplit := 0
  isOverflow := false
  isSplit := false

theorem create_smallTable :
    librekvLinearCreate (.zeroed 0) 1 1 = .ok (0, smallTable 1) ∧
      librekvLinearCreate (.zeroed 0) 1 2 = .ok (0, smallTable 2) := ⟨rfl, rfl⟩

/-- Bit number `level` of the hash is clear: the next level leaves its residue as it is. -/
def LowHalf (level : UInt16) (keyHash : UInt64) : Prop :=
  keyHash.toNat % 2 ^ (level.toNat + 1) < 2 ^ level.toNat

instance (level : UInt16) (keyHash : UInt64) : Decidable (LowHalf level keyHash) :=
  inferInstanceAs (Decidable (_ < _))

/-! ### The bucket array -/

namespace LinearTable

theorem bucketAt_eq {T : LinearTable cap} {i : ℕ} {b : LinearBucket cap}
    (h : T.bucket? i = some b) : T.bucketAt i = .ok b := by
  rw [bucket?, Option.join_eq_some_iff] at h
  rw [bucketAt, h]

theorem bucketAt_of_size_le {T : LinearTable cap} {i : ℕ} (h : T.size ≤ i) :
    T.bucketAt i = .error .unallocatedBucket := by
  rw [bucketAt, List.getElem?_eq_none h]

theorem bucketAt_eq_ok {T : LinearTable cap} {i : ℕ} {b : LinearBucket cap} :
    T.bucketAt i = .ok b ↔ T.bucket? i = some b := by
  refine ⟨fun h => ?_, bucketAt_eq⟩
  rw [bucket?, Option.join_eq_some_iff]
  unfold bucketAt at h
  split at h
  · cases h
  · cases h
  · next b' hb =>
    cases h
    exact hb

theorem lt_size {T : LinearTable cap} {i : ℕ} {b : LinearBucket cap}
    (h : T.bucket? i = some b) : i < T.size := by
  rw [bucket?, Option.join_eq_some_iff] at h
  exact (List.getElem?_eq_some_iff.mp h).1

@[simp] theorem size_setBucket (T : LinearTable cap) (i : ℕ) (b : LinearBucket cap) :
    (T.setBucket i b).size = T.size := List.length_set

theorem bucket?_setBucket {T : LinearTable cap} {i : ℕ} (h : i < T.size)
    (b : LinearBucket cap) :
    (T.setBucket i b).bucket? = Function.update T.bucket? i (some b) := by
  funext j
  by_cases hj : j = i
  · subst hj
    rw [Function.update_self, bucket?, setBucket, List.getElem?_set_self h, Option.join_some]
  · rw [Function.update_of_ne hj, bucket?, bucket?, setBucket, List.getElem?_set_ne (Ne.symm hj)]

theorem entriesAt_of_bucket? {T : LinearTable cap} {i : ℕ} {b : LinearBucket cap}
    (h : T.bucket? i = some b) : T.entriesAt i = b.entries := by
  rw [entriesAt, h, Option.elim_some]

theorem entriesAt_of_size_le {T : LinearTable cap} {i : ℕ} (h : T.size ≤ i) :
    T.entriesAt i = 0 := by
  rw [entriesAt, bucket?, List.getElem?_eq_none h, Option.join_none, Option.elim_none]

theorem entriesAt_congr {T T' : LinearTable cap} {i : ℕ} (h : T'.bucket? i = T.bucket? i) :
    T'.entriesAt i = T.entriesAt i := by
  rw [entriesAt, entriesAt, h]

/-- Every allocated bucket is initialised. -/
def Initialised (T : LinearTable cap) : Prop := ∀ i < T.size, ∃ b, T.bucket? i = some b

end LinearTable

theorem Created.initialised {L : ℕ} {T : LinearTable cap} (h : Created L T) : T.Initialised := by
  intro i hi
  rw [LinearTable.size, h.table, List.length_replicate] at hi
  refine ⟨⟨.empty cap, []⟩, ?_⟩
  rw [LinearTable.bucket?, h.table, List.getElem?_replicate, if_pos hi]
  rfl

namespace LinearTable

/-- The bucket at index `i` has no free slot. -/
def FullAt (T : LinearTable cap) (i : ℕ) : Prop := ∃ b, T.bucket? i = some b ∧ b.Full

instance (T : LinearTable cap) (i : ℕ) : Decidable (T.FullAt i) :=
  decidable_of_iff (∃ b ∈ T.bucket? i, b.Full) Iff.rfl

theorem not_fullAt {T : LinearTable cap} {i : ℕ} {b : LinearBucket cap}
    (hb : T.bucket? i = some b) (hfull : ¬ b.Full) : ¬ T.FullAt i := by
  intro h
  obtain ⟨b', hb', hfull'⟩ := h
  obtain rfl := Option.some.inj (hb.symm.trans hb')
  exact hfull hfull'

/-- The residue of a hash at the level of the table. -/
def target (T : LinearTable cap) (keyHash : UInt64) : ℕ :=
  keyHash.toNat % 2 ^ T.currentLevel.toNat

/-- The occupied entries of all chains. -/
def entries (T : LinearTable cap) : Multiset LinearHashEntry :=
  ∑ i ∈ Finset.range T.size, T.entriesAt i

/-- The `(keyHash, offset)` pairs held by the occupied slots of all chains. -/
def contents (T : LinearTable cap) : Multiset (UInt64 × UInt64) :=
  T.entries.map fun e => (e.keyHash, e.offset)

/-- What one bucket gains, the table gains. -/
theorem entries_setBucket {T : LinearTable cap} {i : ℕ} {b b' : LinearBucket cap}
    {x : Multiset LinearHashEntry} (hb : T.bucket? i = some b)
    (hx : b'.entries = x + b.entries) : (T.setBucket i b').entries = x + T.entries := by
  have hmem : i ∈ Finset.range T.size := Finset.mem_range.mpr (lt_size hb)
  have hlook := bucket?_setBucket (lt_size hb) b'
  have hself : (T.setBucket i b').entriesAt i = x + T.entriesAt i := by
    rw [entriesAt_of_bucket? hb, ← hx]
    exact entriesAt_of_bucket? (by rw [hlook, Function.update_self])
  have hrest : ∀ j ∈ (Finset.range T.size).erase i,
      (T.setBucket i b').entriesAt j = T.entriesAt j := fun j hj =>
    entriesAt_congr (by rw [hlook, Function.update_of_ne (Finset.ne_of_mem_erase hj)])
  rw [entries, entries, size_setBucket, ← Finset.add_sum_erase _ _ hmem,
    ← Finset.add_sum_erase _ T.entriesAt hmem, Finset.sum_congr rfl hrest, hself, add_assoc]

theorem contents_setBucket {T : LinearTable cap} {i : ℕ} {b b' : LinearBucket cap}
    {x : Multiset LinearHashEntry} (hb : T.bucket? i = some b)
    (hx : b'.entries = x + b.entries) :
    (T.setBucket i b').contents = x.map (fun e => (e.keyHash, e.offset)) + T.contents := by
  rw [contents, entries_setBucket hb hx, Multiset.map_add, contents]

end LinearTable

end LibreKV.LinearHash
