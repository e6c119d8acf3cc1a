import Mathlib.Logic.Function.Basic
import Mathlib.Data.Nat.Bitwise
import LibreKV.Fault

/-!
# LibreKV.Cuckoo.Table

The cuckoo hash table of `cuckoo.h` and the leaf functions of `cuckoo.c` that read and
write one slot: `keyfrag`, `valid`, `freeslot` and `store`.

A table is 2¹⁵ buckets of four slots. A slot's `keyTag` is a 15-bit key fragment with the
valid bit above it. Indices and tags are `uint16_t` as in the source, so a subscript is
checked (`slotAt`) and not true by typing; that no call ever fails the check is proved, not
assumed.
-/

namespace LibreKV.Cuckoo

/-! ### Constants -/

/-- `KEYFRAGBITS`; `valid` and `store` assert that it is 15. -/
def keyfragBits : UInt32 := 15

/-- `KEYFRAGMASK`, `(1 << KEYFRAGBITS) - 1`. -/
def keyfragMask : UInt16 := ((1 : UInt16) <<< (15 : UInt16)) - 1

/-- `VALIDBITMASK`, `KEYFRAGMASK + 1`. -/
def validBitMask : UInt16 := keyfragMask + 1

/-- `BUCKETS_PER_TABLE`, `1 << KEYFRAGBITS`. -/
def bucketsPerTable : ℕ := 32768

/-- `ASSOCIATIVITY`, the slots of a bucket. -/
def associativity : ℕ := 4

/-- `NUMHASH`, the candidate buckets of a key. -/
def numHash : ℕ := 2

/-- `MAX_CUCKOO_COUNT`, the evictions after which a put gives up. -/
def maxCuckooCount : ℕ := 128

/-! ### Tables -/

/-- `struct HashEntry`. -/
structure HashEntry where
  keyTag : UInt16
  keyHash : UInt64
  offset : UInt64
  deriving Repr, DecidableEq

/-- A subscript pair `bucketArray[index].entryArray[way]`. -/
abbrev Slot := Fin bucketsPerTable × Fin associativity

/-- `struct CuckooHashTable`. -/
structure CuckooHashTable where
  bucketArray : Slot → HashEntry
  numBuckets : Int32
  fixFlag : Bool

/-- The table `memset` to zero. -/
def CuckooHashTable.zeroed : CuckooHashTable where
  bucketArray := fun _ => ⟨0, 0, 0⟩
  numBuckets := 0
  fixFlag := false

/-- Is the valid bit of the entry's tag set? -/
def HashEntry.isValid (e : HashEntry) : Bool := e.keyTag &&& validBitMask != 0

/-- The key fragment of the entry's tag, without the valid bit. -/
def HashEntry.keyfragment (e : HashEntry) : UInt16 := e.keyTag &&& keyfragMask

/-! ### Functions of `cuckoo.c` -/

/-- `keyfrag`. The parameter is the key *pointer*: the source converts the pointer itself
to 32 bits and never reads through it. -/
def keyfrag (key : UInt64) (keyfragId : UInt32) : Except Fault UInt32 :=
  if key < 8 then .error .assertionFailed
  else .ok ((key.toUInt32 >>> (keyfragId * keyfragBits)) &&& keyfragMask.toUInt32)

/-- The slot at a pair of subscripts. -/
def slotAt (index way : UInt16) : Except Fault Slot :=
  if h : index.toNat < bucketsPerTable ∧ way.toNat < associativity then
    .ok (⟨index.toNat, h.1⟩, ⟨way.toNat, h.2⟩)
  else .error .outOfBounds

/-- `valid`: read the valid bit of a slot. -/
def valid (t : CuckooHashTable) (index way : UInt16) : Except Fault Bool := do
  let s ← slotAt index way
  .ok (t.bucketArray s).isValid

/-- The loop of `freeslot` over the ways not yet checked. -/
def freeslotLoop (t : CuckooHashTable) (index : UInt16) : List UInt16 → Except Fault UInt16
  | [] => .ok 4
  | way :: rest => do
    let used ← valid t index way
    if used then freeslotLoop t index rest else .ok way

/-- `freeslot`: the first way of the bucket whose slot is free, or `ASSOCIATIVITY`. -/
def freeslot (t : CuckooHashTable) (index : UInt16) : Except Fault UInt16 :=
  freeslotLoop t index [0, 1, 2, 3]

/-- `store`: overwrite one slot. -/
def store (t : CuckooHashTable) (index way : UInt16) (e : HashEntry) :
    Except Fault CuckooHashTable :=
  if way.toNat < associativity then do
    let s ← slotAt index way
    .ok { t with bucketArray := Function.update t.bucketArray s e }
  else .error .assertionFailed

/-! ### Hash numbers and ways -/

theorem mod_numHash_lt (n : ℕ) : n % numHash < numHash := Nat.mod_lt _ (by decide)

theorem eq_zero_or_one {fn : ℕ} (h : fn < numHash) : fn = 0 ∨ fn = 1 := by
  have : fn < 2 := h
  omega

/-- The way `freeslot` returns for a full bucket is none. -/
theorem not_lt_associativity : ¬ (4 : UInt16).toNat < associativity := by decide

/-! ### Tags: the fragment and the valid bit -/

theorem keyfragMask_toNat : keyfragMask.toNat = 2 ^ 15 - 1 := rfl

theorem validBitMask_toNat : validBitMask.toNat = 2 ^ 15 := rfl

theorem keyfragment_lt (e : HashEntry) : e.keyfragment.toNat < bucketsPerTable := by
  have h : (e.keyTag &&& keyfragMask).toNat ≤ 2 ^ 15 - 1 := by
    rw [UInt16.toNat_and, keyfragMask_toNat]
    exact Nat.and_le_right
  have hb : bucketsPerTable = 2 ^ 15 := rfl
  simp only [HashEntry.keyfragment]
  omega

/-- Stripping the valid bit from a marked fragment gives the fragment back. -/
theorem and_keyfragMask_of_lt {tag : UInt16} (h : tag.toNat < bucketsPerTable) :
    (tag ||| validBitMask) &&& keyfragMask = tag := by
  apply UInt16.toNat_inj.mp
  have hlt : tag.toNat < 2 ^ 15 := h
  rw [UInt16.toNat_and, UInt16.toNat_or, keyfragMask_toNat, validBitMask_toNat,
    Nat.and_or_distrib_right, Nat.and_two_pow_sub_one_of_lt_two_pow hlt]
  simp

/-- A marked tag is valid. -/
theorem or_validBitMask_ne (tag : UInt16) : (tag ||| validBitMask) &&& validBitMask ≠ 0 := by
  intro h
  have h' := congrArg UInt16.toNat h
  rw [UInt16.toNat_and, UInt16.toNat_or, Nat.and_or_distrib_right, Nat.and_self,
    validBitMask_toNat] at h'
  have hle : 2 ^ 15 ≤ (tag.toNat &&& 2 ^ 15) ||| 2 ^ 15 := Nat.right_le_or
  have h0 : (0 : UInt16).toNat = 0 := rfl
  omega

/-- The tag of a valid entry is its fragment, marked: the 16 bits hold nothing else. -/
theorem keyfragment_or_validBitMask {e : HashEntry} (h : e.isValid = true) :
    e.keyfragment ||| validBitMask = e.keyTag := by
  have hne : e.keyTag &&& validBitMask ≠ 0 := by simpa [HashEntry.isValid] using h
  have hbit : e.keyTag.toNat.testBit 15 = true := by
    by_contra hb
    apply hne
    apply UInt16.toNat_inj.mp
    rw [UInt16.toNat_and, validBitMask_toNat, Nat.and_two_pow, Bool.eq_false_of_not_eq_true hb]
    rfl
  apply UInt16.toNat_inj.mp
  rw [HashEntry.keyfragment, UInt16.toNat_or, UInt16.toNat_and, keyfragMask_toNat,
    validBitMask_toNat]
  apply Nat.eq_of_testBit_eq
  intro i
  rw [Nat.testBit_or, Nat.testBit_and, Nat.testBit_two_pow_sub_one, Nat.testBit_two_pow]
  rcases lt_trichotomy i 15 with hi | rfl | hi
  · simp [hi, show ¬ 15 = i by omega]
  · simp [hbit]
  · have htop : e.keyTag.toNat.testBit i = false := by
      apply Nat.testBit_lt_two_pow
      calc e.keyTag.toNat < 2 ^ 16 := e.keyTag.toNat_lt
        _ ≤ 2 ^ i := Nat.pow_le_pow_right (by omega) hi
    simp [htop, show ¬ 15 = i by omega]

/-- The entry `put` builds from a fragment carries that fragment. -/
theorem keyfragment_mk {tag : UInt16} (h : tag.toNat < bucketsPerTable) (k o : UInt64) :
    (HashEntry.mk (tag ||| validBitMask) k o).keyfragment = tag :=
  and_keyfragMask_of_lt h

theorem isValid_mk (tag : UInt16) (k o : UInt64) :
    (HashEntry.mk (tag ||| validBitMask) k o).isValid = true := by
  simpa [HashEntry.isValid] using or_validBitMask_ne tag

/-- A cleared table has no valid slot. -/
theorem zeroed_isValid (s : Slot) : (CuckooHashTable.zeroed.bucketArray s).isValid = false := by
  show HashEntry.isValid ⟨0, 0, 0⟩ = false
  decide

/-! ### What the leaf functions compute -/

theorem slotAt_eq {index way : UInt16} (hi : index.toNat < bucketsPerTable)
    (hw : way.toNat < associativity) :
    slotAt index way = .ok (⟨index.toNat, hi⟩, ⟨way.toNat, hw⟩) := by
  unfold slotAt
  rw [dif_pos ⟨hi, hw⟩]

theorem store_eq {t : CuckooHashTable} {index way : UInt16} {e : HashEntry}
    (hi : index.toNat < bucketsPerTable) (hw : way.toNat < associativity) :
    store t index way e = .ok { t with
      bucketArray := Function.update t.bucketArray (⟨index.toNat, hi⟩, ⟨way.toNat, hw⟩) e } := by
  unfold store
  rw [if_pos hw, slotAt_eq hi hw]
  rfl

/-- A fragment is below the number of buckets, whatever the key. -/
theorem keyfrag_lt {key : UInt64} {id f : UInt32} (h : keyfrag key id = .ok f) :
    f.toNat < bucketsPerTable := by
  unfold keyfrag at h
  by_cases hk : key < 8
  · rw [if_pos hk] at h
    cases h
  · rw [if_neg hk] at h
    obtain rfl := Except.ok.inj h
    rw [UInt32.toNat_and]
    exact Nat.lt_of_le_of_lt Nat.and_le_right (by decide)

/-- A key at or above the asserted bound has both its fragments. -/
theorem keyfrag_ok {key : UInt64} (h : 8 ≤ key) (id : UInt32) :
    ∃ f, keyfrag key id = .ok f := by
  unfold keyfrag
  rw [if_neg (by simpa using h)]
  exact ⟨_, rfl⟩

/-- One step of the search inverted: a result below `ASSOCIATIVITY` is a free way that was
still to be checked, and any other result means that all of them are used. -/
theorem freeslotLoop_spec {t : CuckooHashTable} {index : UInt16}
    (hi : index.toNat < bucketsPerTable) :
    ∀ ways : List UInt16, (∀ w ∈ ways, w.toNat < associativity) →
      (∃ w, ∃ hw : w.toNat < associativity, freeslotLoop t index ways = .ok w ∧
          (t.bucketArray (⟨index.toNat, hi⟩, ⟨w.toNat, hw⟩)).isValid = false) ∨
        (freeslotLoop t index ways = .ok 4 ∧ ∀ w ∈ ways, ∀ hw : w.toNat < associativity,
          (t.bucketArray (⟨index.toNat, hi⟩, ⟨w.toNat, hw⟩)).isValid = true)
  | [], _ => Or.inr ⟨rfl, fun w hw => absurd hw List.not_mem_nil⟩
  | way :: rest, hways => by
      have hw : way.toNat < associativity := hways way List.mem_cons_self
      have hvalid : valid t index way =
          .ok (t.bucketArray (⟨index.toNat, hi⟩, ⟨way.toNat, hw⟩)).isValid := by
        rw [valid, slotAt_eq hi hw]
        rfl
      rw [freeslotLoop, hvalid, Fallible.ok_bind]
      cases hused : (t.bucketArray (⟨index.toNat, hi⟩, ⟨way.toNat, hw⟩)).isValid with
      | false => exact Or.inl ⟨way, hw, by simp, hused⟩
      | true =>
          rw [if_pos rfl]
          rcases freeslotLoop_spec hi rest
            (fun w h => hways w (List.mem_cons_of_mem _ h)) with h | ⟨hr, hall⟩
          · exact Or.inl h
          · refine Or.inr ⟨hr, fun w hmem hw' => ?_⟩
            rcases List.mem_cons.mp hmem with rfl | hmem
            · exact hused
            · exact hall w hmem hw'

/-- `freeslot` finds a free slot of the bucket, or every slot of it is valid. -/
theorem freeslot_cases (t : CuckooHashTable) {index : UInt16}
    (hi : index.toNat < bucketsPerTable) :
    (∃ w, ∃ hw : w.toNat < associativity, freeslot t index = .ok w ∧
        (t.bucketArray (⟨index.toNat, hi⟩, ⟨w.toNat, hw⟩)).isValid = false) ∨
      (freeslot t index = .ok 4 ∧ ∀ way : Fin associativity,
        (t.bucketArray (⟨index.toNat, hi⟩, way)).isValid = true) := by
  have hways : ∀ w ∈ ([0, 1, 2, 3] : List UInt16), w.toNat < associativity := by
    intro w hw
    simp only [List.mem_cons, List.not_mem_nil, or_false] at hw
    rcases hw with rfl | rfl | rfl | rfl <;> decide
  rcases freeslotLoop_spec (t := t) hi [0, 1, 2, 3] hways with h | ⟨hr, hall⟩
  · exact Or.inl h
  · refine Or.inr ⟨hr, fun way => ?_⟩
    have hmem : UInt16.ofNat way.val ∈ ([0, 1, 2, 3] : List UInt16) := by
      revert way
      decide
    have hval : (UInt16.ofNat way.val).toNat = way.val := by
      revert way
      decide
    have hlt : (UInt16.ofNat way.val).toNat < associativity := by
      rw [hval]
      exact way.isLt
    have := hall _ hmem hlt
    simpa only [hval] using this

/-- Every slot of the bucket is valid. -/
def CuckooHashTable.BucketFull (t : CuckooHashTable) (bucket : ℕ) : Prop :=
  ∀ (h : bucket < bucketsPerTable) (way : Fin associativity),
    (t.bucketArray (⟨bucket, h⟩, way)).isValid = true

instance (t : CuckooHashTable) (bucket : ℕ) : Decidable (t.BucketFull bucket) :=
  inferInstanceAs (Decidable (∀ (h : bucket < bucketsPerTable) (way : Fin associativity),
    (t.bucketArray (⟨bucket, h⟩, way)).isValid = true))

/-- In a full bucket `freeslot` finds nothing. -/
theorem freeslot_of_full {t : CuckooHashTable} {index : UInt16}
    (hi : index.toNat < bucketsPerTable) (hfull : t.BucketFull index.toNat) :
    freeslot t index = .ok 4 := by
  rcases freeslot_cases t hi with ⟨w, hw, -, hfree⟩ | ⟨hfs, -⟩
  · rw [hfull hi ⟨w.toNat, hw⟩] at hfree
    cases hfree
  · exact hfs

/-- In any other bucket `freeslot` finds a free slot. -/
theorem freeslot_of_not_full {t : CuckooHashTable} {index : UInt16}
    (hi : index.toNat < bucketsPerTable) (hroom : ¬ t.BucketFull index.toNat) :
    ∃ w, ∃ hw : w.toNat < associativity, freeslot t index = .ok w ∧
      (t.bucketArray (⟨index.toNat, hi⟩, ⟨w.toNat, hw⟩)).isValid = false := by
  rcases freeslot_cases t hi with h | ⟨-, hall⟩
  · exact h
  · exact absurd (fun _ way => hall way) hroom

end LibreKV.Cuckoo
