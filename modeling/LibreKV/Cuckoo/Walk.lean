import Mathlib.Data.Sym.Sym2
import LibreKV.Lib.Exchange
import LibreKV.Cuckoo.Put

/-!
# LibreKV.Cuckoo.Walk

The eviction walk of `librekv_cuckoo_put` as a sequence of exchanges.

An entry is abstracted to an `Item`: its *unordered* pair of candidate buckets with its hash
and its offset. A slot of bucket `b` with tag `t` holds an item with the buckets `{b, t}`, a
hand for bucket `b` with tag `t` likewise. On items, one eviction is an exchange of the hand
with a slot (`Exchange.withHand_update`): rewriting the victim's tag to its old bucket is
exactly what keeps its pair of buckets. The undo loop is the exact inverse of the walk, step
by step, down to the 16 bits of every tag. A walk never leaves buckets that are full of entries
for one another (`CuckooHashTable.Saturated`), so there it finds no free slot.
-/

namespace LibreKV.Cuckoo

open Exchange

/-- What an entry is for, wherever it sits. -/
structure Item where
  /-- The two candidate buckets. -/
  buckets : Sym2 ℕ
  keyHash : UInt64
  offset : UInt64

/-- The item in a slot, if the slot is valid. -/
def CuckooHashTable.item (t : CuckooHashTable) (s : Slot) : Option Item :=
  let e := t.bucketArray s
  if e.isValid then some ⟨s(s.1.val, e.keyfragment.toNat), e.keyHash, e.offset⟩ else none

/-- The item in hand. -/
def Hand.item (c : Hand) : Item := ⟨s(c.index.toNat, c.tag.toNat), c.hash, c.offset⟩

/-- Bucket and tag of the hand are buckets of the table. -/
def Hand.InRange (c : Hand) : Prop :=
  c.index.toNat < bucketsPerTable ∧ c.tag.toNat < bucketsPerTable

/-- What the undo loop needs of the hand: the entry is to get the tag of the bucket it came
from. -/
def Hand.forUndo (c : Hand) : InHand := { tag := c.index, hash := c.hash, offset := c.offset }

/-- The table with one slot overwritten. -/
def CuckooHashTable.set (t : CuckooHashTable) (s : Slot) (e : HashEntry) : CuckooHashTable :=
  { t with bucketArray := Function.update t.bucketArray s e }

theorem set_bucketArray_self (t : CuckooHashTable) (s : Slot) (e : HashEntry) :
    (t.set s e).bucketArray s = e := by
  simp [CuckooHashTable.set]

theorem item_isSome {t : CuckooHashTable} {s : Slot} :
    (t.item s).isSome = (t.bucketArray s).isValid := by
  simp only [CuckooHashTable.item]
  cases (t.bucketArray s).isValid <;> simp

theorem item_eq_none {t : CuckooHashTable} {s : Slot}
    (h : (t.bucketArray s).isValid = false) : t.item s = none := by
  rw [← Option.isNone_iff_eq_none, ← Option.not_isSome, item_isSome, h]
  rfl

/-- Storing the hand into a slot of its bucket puts the item in hand there. -/
theorem set_item {t : CuckooHashTable} {c : Hand} (hc : c.InRange) {s : Slot}
    (hs : s.1.val = c.index.toNat) :
    (t.set s c.entry).item = Function.update t.item s (some c.item) := by
  funext s'
  by_cases h : s' = s
  · subst h
    rw [Function.update_self]
    have hf : c.entry.keyfragment = c.tag := keyfragment_mk hc.2 c.hash c.offset
    have hv : c.entry.isValid = true := isValid_mk c.tag c.hash c.offset
    simp only [CuckooHashTable.item, set_bucketArray_self, hv, hf, if_true, hs]
    rfl
  · rw [Function.update_of_ne h]
    simp only [CuckooHashTable.item, CuckooHashTable.set, Function.update_of_ne h]

/-! ### One eviction -/

section Steps

variable {maxIndex : UInt16} (hM : maxIndex.toNat = bucketsPerTable)
include hM

theorem modMaxIndex_eq {x : UInt32} (hx : x.toNat < bucketsPerTable) :
    modMaxIndex x maxIndex = .ok x.toUInt16 := by
  have hne : maxIndex ≠ 0 := by
    rintro rfl
    cases hM
  have hmod : x % maxIndex.toUInt32 = x := by
    apply UInt32.toNat_inj.mp
    rw [UInt32.toNat_mod, UInt16.toNat_toUInt32, hM, Nat.mod_eq_of_lt hx]
  rw [modMaxIndex, if_neg hne, hmod]

/-- The bucket a hand is to go to is its own residue. -/
theorem Hand.InRange.modMaxIndex_index {c : Hand} (hc : c.InRange) :
    modMaxIndex c.index.toUInt32 maxIndex = .ok c.index := by
  rw [modMaxIndex_eq hM (by simpa using hc.1)]
  simp

/-- The slot, the hand and the record after an eviction. -/
theorem evict_eq {t : CuckooHashTable} {c : Hand} {w : UInt16} (hc : c.InRange)
    (hw : w.toNat < associativity) :
    evict maxIndex t c w =
      let s : Slot := (⟨c.index.toNat, hc.1⟩, ⟨w.toNat, hw⟩)
      let victim := t.bucketArray s
      .ok (t.set s c.entry, victim.toHand c.index,
        { index := c.index.toUInt32, way := w.toUInt8 }) := by
  simp only [evict, slotAt_eq hc.1 hw, store_eq hc.1 hw, hc.modMaxIndex_index hM,
    Fallible.ok_bind]
  rfl

/-- Undoing an eviction: with the evicted entry in hand, the recorded slot gets it back with
all 16 bits of its tag, and the entry that took the slot comes into hand again. -/
theorem restoreVictim_evict {t : CuckooHashTable} {c : Hand} {w : UInt16} (hc : c.InRange)
    (hw : w.toNat < associativity)
    (hv : (t.bucketArray (⟨c.index.toNat, hc.1⟩, ⟨w.toNat, hw⟩)).isValid = true) :
    let s : Slot := (⟨c.index.toNat, hc.1⟩, ⟨w.toNat, hw⟩)
    restoreVictim maxIndex (t.set s c.entry) ((t.bucketArray s).toHand c.index).forUndo
        { index := c.index.toUInt32, way := w.toUInt8 } =
      .ok (t, c.forUndo) := by
  intro s
  have hway : w.toUInt8.toUInt16 = w := by
    apply UInt16.toNat_inj.mp
    have hlt : w.toNat < 256 := Nat.lt_trans hw (by decide)
    simp [Nat.mod_eq_of_lt hlt]
  have hentry : ((t.bucketArray s).toHand c.index).forUndo.entry = t.bucketArray s := by
    show HashEntry.mk ((t.bucketArray s).keyfragment ||| validBitMask) _ _ = _
    rw [keyfragment_or_validBitMask hv]
    rfl
  have hback : (t.set s c.entry).set s (t.bucketArray s) = t := by
    simp [CuckooHashTable.set]
  calc restoreVictim maxIndex (t.set s c.entry) ((t.bucketArray s).toHand c.index).forUndo
        { index := c.index.toUInt32, way := w.toUInt8 }
      = .ok ((t.set s c.entry).set s (t.bucketArray s),
          ⟨c.index, ((t.set s c.entry).bucketArray s).keyHash,
            ((t.set s c.entry).bucketArray s).offset⟩) := by
        simp only [restoreVictim, UInt16.toUInt16_toUInt32, hway, slotAt_eq hc.1 hw,
          store_eq hc.1 hw, hc.modMaxIndex_index hM, Fallible.ok_bind, hentry]
        rfl
    _ = .ok (t, c.forUndo) := by
        rw [hback, set_bucketArray_self]
        rfl

end Steps

/-- The victim comes into hand as the item it was: its tag is its other bucket, and the
bucket it leaves becomes its tag. -/
theorem item_eq_victim {t : CuckooHashTable} {s : Slot} {c : Hand}
    (hs : s.1.val = c.index.toNat) (hv : (t.bucketArray s).isValid = true) :
    t.item s = some ((t.bucketArray s).toHand c.index).item := by
  simp only [CuckooHashTable.item, hv, if_true, Hand.item, HashEntry.toHand, hs, Sym2.eq_swap]

/-! ### The whole walk -/

/-- From `t` to `t'` the slots are exchanged with the hand, which starts with the item `x`
and ends empty: `x` and nothing else was put into the table, in a slot that was free. -/
structure Placed (t t' : CuckooHashTable) (x : Item) : Prop where
  /-- The items of `t'` are those of `t` and `x`, each in one place. -/
  exchanged : ∃ π : Equiv.Perm (Option Slot),
    withHand t'.item none = withHand t.item (some x) ∘ π
  /-- One free slot became valid, and every valid slot stayed valid. -/
  occupied : ∃ s, (t.bucketArray s).isValid = false ∧ ∀ s',
    (t'.bucketArray s').isValid = true ↔ s' = s ∨ (t.bucketArray s').isValid = true
  numBuckets : t'.numBuckets = t.numBuckets
  fixFlag : t'.fixFlag = t.fixFlag

/-- Storing the hand into a free slot of its bucket. -/
theorem placed_of_free {t : CuckooHashTable} {c : Hand} (hc : c.InRange) {s : Slot}
    (hs : s.1.val = c.index.toNat) (hfree : (t.bucketArray s).isValid = false) :
    Placed t (t.set s c.entry) c.item := by
  refine ⟨⟨Equiv.swap none (some s), ?_⟩, ⟨s, hfree, fun s' => ?_⟩, rfl, rfl⟩
  · rw [← withHand_update, set_item hc hs, item_eq_none hfree]
  · by_cases h : s' = s
    · subst h
      have hv : c.entry.isValid = true := isValid_mk c.tag c.hash c.offset
      simp [set_bucketArray_self, hv]
    · simp [CuckooHashTable.set, h]

/-- An eviction in front of a walk that places the victim places the item in hand. -/
theorem Placed.of_evict {t t' : CuckooHashTable} {c : Hand} (hc : c.InRange) {s : Slot}
    (hs : s.1.val = c.index.toNat) (hv : (t.bucketArray s).isValid = true)
    (h : Placed (t.set s c.entry) t' ((t.bucketArray s).toHand c.index).item) :
    Placed t t' c.item := by
  obtain ⟨⟨π, hπ⟩, ⟨s₁, hfree, hocc⟩, hnum, hfix⟩ := h
  have hcv : c.entry.isValid = true := isValid_mk c.tag c.hash c.offset
  have hsame : ∀ s', ((t.set s c.entry).bucketArray s').isValid =
      (t.bucketArray s').isValid := by
    intro s'
    by_cases h : s' = s
    · subst h
      rw [set_bucketArray_self, hcv, hv]
    · simp only [CuckooHashTable.set, Function.update_of_ne h]
  refine ⟨⟨π.trans (Equiv.swap none (some s)), ?_⟩, ⟨s₁, ?_, fun s' => ?_⟩, hnum, hfix⟩
  · rw [hπ, set_item hc hs, ← item_eq_victim hs hv, withHand_update]
    rfl
  · rw [← hsame, hfree]
  · rw [hocc s', hsame]

/-- The way of the victim of eviction number `n`. -/
def victimWay (rand : ℕ → ℕ) (n : ℕ) : Fin associativity :=
  ⟨rand (n + 1) % associativity, Nat.mod_lt _ (by decide)⟩

theorem toNat_victimWay (rand : ℕ → ℕ) (n : ℕ) :
    (UInt16.ofNat (rand (n + 1) % associativity)).toNat = (victimWay rand n).val := by
  have hlt : rand (n + 1) % associativity < associativity := Nat.mod_lt _ (by decide)
  have hsmall : rand (n + 1) % associativity < 2 ^ 16 := Nat.lt_trans hlt (by decide)
  rw [UInt16.toNat_ofNat', Nat.mod_eq_of_lt hsmall]
  rfl

theorem victimWay_lt (rand : ℕ → ℕ) (n : ℕ) :
    (UInt16.ofNat (rand (n + 1) % associativity)).toNat < associativity := by
  rw [toNat_victimWay]
  exact (victimWay rand n).isLt

theorem victimWay_eq (rand : ℕ → ℕ) (n : ℕ) : victimWay rand n = ⟨_, victimWay_lt rand n⟩ :=
  Fin.ext (toNat_victimWay rand n).symm

/-- The record of eviction number `n`, made with `c` in hand. -/
def victimRecord (rand : ℕ → ℕ) (n : ℕ) (c : Hand) : UndoRecord where
  index := c.index.toUInt32
  way := (UInt16.ofNat (rand (n + 1) % associativity)).toUInt8

/-- The table and the hand after an eviction of the given way. -/
def kick (t : CuckooHashTable) (c : Hand) (way : Fin associativity) : CuckooHashTable × Hand :=
  if h : c.index.toNat < bucketsPerTable then
    (t.set (⟨c.index.toNat, h⟩, way) c.entry,
      (t.bucketArray (⟨c.index.toNat, h⟩, way)).toHand c.index)
  else (t, c)

theorem kick_eq (t : CuckooHashTable) {c : Hand} (hc : c.InRange) (way : Fin associativity) :
    kick t c way = (t.set (⟨c.index.toNat, hc.1⟩, way) c.entry,
      (t.bucketArray (⟨c.index.toNat, hc.1⟩, way)).toHand c.index) :=
  dif_pos hc.1

/-- The victim is on its way to a bucket of the table, and so was the entry that took its
place. -/
theorem Hand.InRange.kick {c : Hand} (hc : c.InRange) (t : CuckooHashTable)
    (way : Fin associativity) : (kick t c way).2.InRange := by
  rw [kick_eq t hc]
  exact ⟨keyfragment_lt _, hc.1⟩

/-- An eviction from a full bucket leaves every slot valid that was, and no other. -/
theorem bucketFull_kick {t : CuckooHashTable} {c : Hand} (hc : c.InRange)
    (hfull : t.BucketFull c.index.toNat) (way : Fin associativity) (bucket : ℕ) :
    (kick t c way).1.BucketFull bucket ↔ t.BucketFull bucket := by
  have hsame : ∀ s, ((kick t c way).1.bucketArray s).isValid = (t.bucketArray s).isValid := by
    intro s
    rw [kick_eq t hc]
    by_cases hs : s = (⟨c.index.toNat, hc.1⟩, way)
    · rw [hs, set_bucketArray_self, hfull hc.1 way]
      exact isValid_mk c.tag c.hash c.offset
    · simp only [CuckooHashTable.set, Function.update_of_ne hs]
  simp only [CuckooHashTable.BucketFull, hsame]

section Loop

variable {maxIndex : UInt16} (hM : maxIndex.toNat = bucketsPerTable) (rand : ℕ → ℕ)

/-- A bucket with a free slot takes the entry in hand. -/
theorem kickLoop_of_room {t : CuckooHashTable} {c : Hand} (hc : c.InRange)
    (hroom : ¬ t.BucketFull c.index.toNat) (fuel n : ℕ) (undo : List UndoRecord) :
    ∃ t', kickLoop maxIndex rand (fuel + 1) n t c undo = .ok (.stored t') ∧
      Placed t t' c.item := by
  obtain ⟨w, hw, hfs, hfree⟩ := freeslot_of_not_full hc.1 hroom
  refine ⟨t.set (⟨c.index.toNat, hc.1⟩, ⟨w.toNat, hw⟩) c.entry, ?_, placed_of_free hc rfl hfree⟩
  simp only [kickLoop, hfs, Fallible.ok_bind, if_pos hw, store_eq hc.1 hw]
  rfl

include hM

/-- An eviction and its record, with the way `rand()` chose. -/
theorem evict_kick {t : CuckooHashTable} {c : Hand} (hc : c.InRange) (n : ℕ) :
    evict maxIndex t c (UInt16.ofNat (rand (n + 1) % associativity)) =
      .ok ((kick t c (victimWay rand n)).1, (kick t c (victimWay rand n)).2,
        victimRecord rand n c) := by
  rw [evict_eq hM hc (victimWay_lt rand n), kick_eq t hc, victimWay_eq]
  rfl

/-- The record of an eviction undoes it. -/
theorem restoreVictim_kick {t : CuckooHashTable} {c : Hand} (hc : c.InRange) (n : ℕ)
    (hfull : t.BucketFull c.index.toNat) :
    restoreVictim maxIndex (kick t c (victimWay rand n)).1
        (kick t c (victimWay rand n)).2.forUndo (victimRecord rand n c) =
      .ok (t, c.forUndo) := by
  rw [kick_eq t hc, victimWay_eq]
  exact restoreVictim_evict hM hc (victimWay_lt rand n) (hfull hc.1 _)

/-- In a full bucket the loop evicts, and goes on with the victim in hand. -/
theorem kickLoop_of_full {t : CuckooHashTable} {c : Hand} (hc : c.InRange)
    (hfull : t.BucketFull c.index.toNat) (fuel n : ℕ) (undo : List UndoRecord) :
    kickLoop maxIndex rand (fuel + 1) n t c undo =
      kickLoop maxIndex rand fuel (n + 1) (kick t c (victimWay rand n)).1
        (kick t c (victimWay rand n)).2 (victimRecord rand n c :: undo) := by
  simp only [kickLoop, freeslot_of_full hc.1 hfull, Fallible.ok_bind,
    if_neg not_lt_associativity, evict_kick hM rand hc]

/-- The eviction loop either places the item in hand, or it ends with records that undo it:
reading them back gives the table and the hand the loop started with. -/
theorem kickLoop_spec : ∀ (fuel n : ℕ) (t : CuckooHashTable) (c : Hand)
    (undo : List UndoRecord), c.InRange →
    (∃ t', kickLoop maxIndex rand fuel n t c undo = .ok (.stored t') ∧ Placed t t' c.item) ∨
      (∃ t' c' undo', kickLoop maxIndex rand fuel n t c undo = .ok (.exhausted t' c' undo') ∧
        c'.InRange ∧
        undoLoop maxIndex undo' t' c'.forUndo = undoLoop maxIndex undo t c.forUndo)
  | 0, _, t, c, undo, hc => Or.inr ⟨t, c, undo, rfl, hc, rfl⟩
  | fuel + 1, n, t, c, undo, hc => by
      by_cases hfull : t.BucketFull c.index.toNat
      · rw [kickLoop_of_full hM rand hc hfull]
        -- The loop goes on from the kicked table; its records begin with this eviction.
        rcases kickLoop_spec fuel (n + 1) (kick t c (victimWay rand n)).1
            (kick t c (victimWay rand n)).2 (victimRecord rand n c :: undo) (hc.kick t _) with
          ⟨t', hk, hpl⟩ | ⟨t', c', undo', hk, hin, hundo⟩
        · rw [kick_eq t hc] at hpl
          exact Or.inl ⟨t', hk, hpl.of_evict hc rfl (hfull hc.1 _)⟩
        · refine Or.inr ⟨t', c', undo', hk, hin, hundo.trans ?_⟩
          rw [undoLoop, restoreVictim_kick hM rand hc n hfull]
          rfl
      · exact Or.inl (kickLoop_of_room rand hc hfull fuel n undo)

end Loop

/-! ### Saturated buckets -/

/-- The buckets in `B` are full, and the other bucket of every entry in them is in `B` too. -/
structure CuckooHashTable.Saturated (t : CuckooHashTable) (B : Finset ℕ) : Prop where
  full : ∀ bucket ∈ B, t.BucketFull bucket
  closed : ∀ bucket ∈ B, ∀ (h : bucket < bucketsPerTable) (way : Fin associativity),
    (t.bucketArray (⟨bucket, h⟩, way)).keyfragment.toNat ∈ B

instance (t : CuckooHashTable) (B : Finset ℕ) : Decidable (t.Saturated B) :=
  decidable_of_iff ((∀ bucket ∈ B, t.BucketFull bucket) ∧
    ∀ bucket ∈ B, ∀ (h : bucket < bucketsPerTable) (way : Fin associativity),
      (t.bucketArray (⟨bucket, h⟩, way)).keyfragment.toNat ∈ B)
    ⟨fun h => ⟨h.1, h.2⟩, fun h => ⟨h.full, h.closed⟩⟩

/-- The hand is on its way between two buckets of `B`. -/
def Hand.Within (c : Hand) (B : Finset ℕ) : Prop := c.index.toNat ∈ B ∧ c.tag.toNat ∈ B

/-- Evictions do not lead out of saturated buckets. -/
theorem CuckooHashTable.Saturated.kick {t : CuckooHashTable} {B : Finset ℕ} {c : Hand}
    (h : t.Saturated B) (hc : c.InRange) (hB : c.Within B) (way : Fin associativity) :
    (kick t c way).1.Saturated B ∧ (kick t c way).2.Within B := by
  have hfull := h.full _ hB.1
  refine ⟨⟨fun bucket hbucket => ?_, fun bucket hbucket hlt way' => ?_⟩, ?_⟩
  · rw [bucketFull_kick hc hfull]
    exact h.full bucket hbucket
  · rw [kick_eq t hc]
    by_cases hs : ((⟨bucket, hlt⟩, way') : Slot) = (⟨c.index.toNat, hc.1⟩, way)
    -- the slot that was overwritten has the tag of the hand
    · have htag : c.entry.keyfragment = c.tag := keyfragment_mk hc.2 c.hash c.offset
      rw [hs, set_bucketArray_self, htag]
      exact hB.2
    · simp only [CuckooHashTable.set, Function.update_of_ne hs]
      exact h.closed bucket hbucket hlt way'
  · rw [kick_eq t hc]
    exact ⟨h.closed _ hB.1 hc.1 way, hB.1⟩

/-- A walk in saturated buckets uses up all its evictions. -/
theorem kickLoop_of_saturated {maxIndex : UInt16} (hM : maxIndex.toNat = bucketsPerTable)
    (rand : ℕ → ℕ) {B : Finset ℕ} : ∀ (fuel n : ℕ) (t : CuckooHashTable) (c : Hand)
    (undo : List UndoRecord), t.Saturated B → c.InRange → c.Within B →
    ∃ t' c' undo', kickLoop maxIndex rand fuel n t c undo = .ok (.exhausted t' c' undo')
  | 0, _, t, c, undo, _, _, _ => ⟨t, c, undo, rfl⟩
  | fuel + 1, n, t, c, undo, h, hc, hB => by
      obtain ⟨hnext, hB'⟩ := h.kick hc hB (victimWay rand n)
      rw [kickLoop_of_full hM rand hc (h.full _ hB.1)]
      exact kickLoop_of_saturated hM rand fuel (n + 1) _ _ _ hnext (hc.kick t _) hB'

end LibreKV.Cuckoo
