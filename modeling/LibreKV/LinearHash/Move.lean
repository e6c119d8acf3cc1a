import LibreKV.LinearHash.Insert

/-!
# LibreKV.LinearHash.Move

The step that both put variants take while they split a bucket: read a slot, insert its entry
into the mirror-image bucket if it belongs there, and free the slot.
-/

namespace LibreKV.LinearHash

open Fallible

variable {cap : UInt64}

/-- Read `m_linearHashEntry[i]` of the page number `k` of a bucket. -/
def LinearTable.readSlot (T : LinearTable cap) (index : UInt64) (k i : ℕ) :
    Except Fault LinearHashEntry := do
  let b ← T.bucketAt index.toNat
  match b.pages[k]? with
  | none => .error .badPointer
  | some p =>
    match p.slots[i]? with
    | none => .error .outOfBounds
    | some e => .ok e

/-- Replace the page number `k` of a chain. -/
def LinearBucket.setPage (b : LinearBucket cap) : ℕ → Page cap → LinearBucket cap
  | 0, p => { b with page := p }
  | k + 1, p => { b with next := b.next.set k p }

/-- Free `m_linearHashEntry[i]` of the page number `k` of a bucket. -/
def LinearTable.clearSlot (T : LinearTable cap) (index : UInt64) (k i : ℕ) :
    Except Fault (LinearTable cap) := do
  let b ← T.bucketAt index.toNat
  match b.pages[k]? with
  | none => .error .badPointer
  | some p => do
    let p ← p.write i freeEntry
    .ok (T.setBucket index.toNat (b.setPage k p))

/-- The entry is occupied and belongs to the mirror-image bucket at the next level. -/
def LinearHashEntry.movesTo (level : UInt16) (mirror : UInt64) (e : LinearHashEntry) : Bool :=
  !e.isValid && truncateHash e.keyHash (level + 1) == mirror

/-- One step of splitting the bucket `m_nextBucketIndexToSplit`: the entry `e`, read from the
slot `i` of its page number `k`, is inserted into the mirror-image bucket and its slot freed,
if it belongs there. -/
def moveSlot (T : LinearTable cap) (k i : ℕ) (e : LinearHashEntry) (mirror : UInt64) :
    Except Fault (LinearTable cap) :=
  if e.movesTo T.currentLevel mirror then do
    let r ← librekvLinearInsertToBucket T e.keyHash e.offset mirror
    r.2.clearSlot T.nextBucketIndexToSplit k i
  else .ok T

/-- `m_nextBucketIndexToSplit++`. -/
def LinearTable.advanceNext (T : LinearTable cap) : LinearTable cap :=
  { T with nextBucketIndexToSplit := T.nextBucketIndexToSplit + 1 }

theorem movesTo_eq_true {level : UInt16} {mirror : UInt64} {e : LinearHashEntry} :
    e.movesTo level mirror = true ↔
      e.isValid = false ∧ truncateHash e.keyHash (level + 1) = mirror := by
  simp [LinearHashEntry.movesTo]

theorem movesTo_iff {level : UInt16} (hlevel : level.toNat ≤ 30) {mirror : UInt64}
    {e : LinearHashEntry} : e.movesTo level mirror = true ↔
      e.isValid = false ∧ e.keyHash.toNat % 2 ^ (level.toNat + 1) = mirror.toNat := by
  rw [movesTo_eq_true, ← UInt64.toNat_inj, toNat_truncateHash_succ _ hlevel]

/-! ### What a step leaves alone -/

/-- Same array length and same counters. -/
structure SameCounters (T T' : LinearTable cap) : Prop where
  size : T'.size = T.size
  num : T'.currBucketNum = T.currBucketNum
  level : T'.currentLevel = T.currentLevel
  next : T'.nextBucketIndexToSplit = T.nextBucketIndexToSplit

namespace SameCounters

theorem refl (T : LinearTable cap) : SameCounters T T := ⟨rfl, rfl, rfl, rfl⟩

theorem trans {T₁ T₂ T₃ : LinearTable cap} (h₁ : SameCounters T₁ T₂)
    (h₂ : SameCounters T₂ T₃) : SameCounters T₁ T₃ :=
  ⟨h₂.size.trans h₁.size, h₂.num.trans h₁.num, h₂.level.trans h₁.level,
    h₂.next.trans h₁.next⟩

theorem setBucket (T : LinearTable cap) (i : ℕ) (b : LinearBucket cap) :
    SameCounters T (T.setBucket i b) := ⟨T.size_setBucket i b, rfl, rfl, rfl⟩

theorem withSplit (T : LinearTable cap) (s : Bool) : SameCounters T (T.withSplit s) :=
  ⟨rfl, rfl, rfl, rfl⟩

theorem insert {T T' : LinearTable cap} {keyHash offset i : UInt64} {r : Bool}
    (h : librekvLinearInsertToBucket T keyHash offset i = .ok (r, T')) : SameCounters T T' := by
  rw [librekvLinearInsertToBucket, bind_eq_ok] at h
  obtain ⟨b, -, h⟩ := h
  split at h
  · cases h
    exact (setBucket T _ _).trans (withSplit _ _)
  · split at h
    · rw [bind_eq_ok] at h
      obtain ⟨_, -, h⟩ := h
      rw [bind_eq_ok] at h
      obtain ⟨_, -, h⟩ := h
      cases h
      exact (setBucket T _ _).trans (withSplit _ _)
    · cases h
      exact withSplit T true

theorem clearSlot {T T' : LinearTable cap} {index : UInt64} {k i : ℕ}
    (h : T.clearSlot index k i = .ok T') : SameCounters T T' := by
  rw [LinearTable.clearSlot, bind_eq_ok] at h
  obtain ⟨b, -, h⟩ := h
  split at h
  · cases h
  · rw [bind_eq_ok] at h
    obtain ⟨p, -, h⟩ := h
    cases h
    exact setBucket T _ _

theorem moveSlot {T T' : LinearTable cap} {k i : ℕ} {e : LinearHashEntry} {mirror : UInt64}
    (h : LinearHash.moveSlot T k i e mirror = .ok T') : SameCounters T T' := by
  unfold LinearHash.moveSlot at h
  split at h
  · rw [bind_eq_ok] at h
    obtain ⟨r, hr, hclear⟩ := h
    exact (insert hr).trans (clearSlot hclear)
  · cases h
    exact refl T

end SameCounters

end LibreKV.LinearHash
