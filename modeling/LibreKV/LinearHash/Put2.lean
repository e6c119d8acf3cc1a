import LibreKV.LinearHash.Move

/-!
# LibreKV.LinearHash.Put2

`librekv_linear_put2` with `librekv_linear_addBucket` and `librekv_linear_displayHashTable`.

The loop that redistributes the bucket being split runs over the slots `0` to
`m_entriesPerBucket` of its first page. The last of these lies behind the page: what the heap
holds there is the parameter `behind`, and writing it is a fault.
-/

namespace LibreKV.LinearHash

variable {cap : UInt64}

/-! ### The bucket array grows -/

/-- `realloc(m_linear_hashTable, num * sizeof(struct linearBucket))`. -/
def reallocBuckets (table : List (Option (LinearBucket cap))) (num : UInt64) :
    List (Option (LinearBucket cap)) :=
  let n := (num * 16).toNat / 16
  table.take n ++ List.replicate (n - table.length) none

/-- Count `num` buckets and make the array that long. -/
def LinearTable.resize (T : LinearTable cap) (num : UInt64) : LinearTable cap :=
  { T with currBucketNum := num, linearHashTable := reallocBuckets T.linearHashTable num }

/-- Assign a bucket to an element of the array. -/
def LinearTable.store (T : LinearTable cap) (i : UInt64) (b : LinearBucket cap) :
    Except Fault (LinearTable cap) :=
  if i.toNat < T.size then .ok (T.setBucket i.toNat b) else .error .unallocatedBucket

/-- `librekv_linear_addBucket`. -/
def librekvLinearAddBucket (T : LinearTable cap) :
    Except Fault (LinearBucket cap × LinearTable cap) := do
  let newBucket ← librekvLinearInitNewBucket cap
  let T := T.resize (T.currBucketNum + 1)
  let T ← T.store (T.currBucketNum - 1) newBucket
  .ok (newBucket, T)

/-! ### `librekv_linear_put2` -/

/-- What the redistribution loop reads at the subscript `i` of the first page. -/
def readFirstPage (behind : LinearHashEntry) (T : LinearTable cap) (i : ℕ) :
    Except Fault LinearHashEntry :=
  if i < cap.toNat then T.readSlot T.nextBucketIndexToSplit 0 i else .ok behind

/-- One round of the redistribution loop. -/
def redistributeSlot (behind : LinearHashEntry) (T : LinearTable cap) (i : ℕ) :
    Except Fault (LinearTable cap) := do
  let e ← readFirstPage behind T i
  moveSlot T 0 i e (T.currBucketNum - 1)

/-- The redistribution loop. Its `int` counter has to pass `m_entriesPerBucket`. -/
def redistribute (behind : LinearHashEntry) (T : LinearTable cap) :
    Except Fault (LinearTable cap) :=
  if cap.toNat + 1 < 2 ^ 31 then
    (List.range (cap.toNat + 1)).foldlM (redistributeSlot behind) T
  else .error .intOverflow

/-- The loop of `librekv_linear_displayHashTable` over the buckets: each is dereferenced. -/
def displayBuckets (T : LinearTable cap) : List ℕ → Except Fault Unit
  | [] => .ok ()
  | i :: is => do
    let _ ← T.bucketAt i
    displayBuckets T is

/-- `librekv_linear_displayHashTable`. -/
def librekvLinearDisplayHashTable (T : LinearTable cap) : Except Fault Unit :=
  displayBuckets T (List.range T.currBucketNum.toNat)

/-- The first part of `librekv_linear_put2`. The loop `for (i = m_currentLevel; i > 0; i--)`
ends with `break` in its first round. -/
def put2Insert (T : LinearTable cap) (keyHash offset : UInt64) :
    Except Fault (LinearTable cap) :=
  if 0 < T.currentLevel then do
    let r ← librekvLinearInsertToBucket T keyHash offset (truncateHash keyHash T.currentLevel)
    .ok { r.2 with isSplit := r.1 }
  else .ok { T with isSplit := false }

/-- The end of a split. The condition `m_currBucketNum = twoToPowerOf(m_currentLevel)` is an
assignment. -/
def LinearTable.raiseLevel (T : LinearTable cap) : LinearTable cap :=
  let T := { T with currBucketNum := twoToLevel T.currentLevel, isSplit := false }
  if T.currBucketNum ≠ 0 then
    { T with currentLevel := T.currentLevel + 1, nextBucketIndexToSplit := 0 }
  else T

/-- The second part, when a split is asked for, up to the display of the table. -/
def put2Split (behind : LinearHashEntry) (T : LinearTable cap) (keyHash offset : UInt64) :
    Except Fault (LinearTable cap) := do
  let truncatedKeyHash := truncateHash keyHash T.currentLevel
  let r ← librekvLinearAddBucket T
  let T ← r.2.store (r.2.currBucketNum - 1) r.1
  let T ← redistribute behind T
  let r ← librekvLinearInsertToBucket T.advanceNext keyHash offset truncatedKeyHash
  .ok r.2.raiseLevel

/-- `librekv_linear_put2`. -/
def librekvLinearPut2 (behind : LinearHashEntry) (T : LinearTable cap)
    (keyHash offset : UInt64) : Except Fault (LinearTable cap) := do
  let T ← put2Insert T keyHash offset
  if T.isSplit then do
    let T ← put2Split behind T keyHash offset
    let _ ← librekvLinearDisplayHashTable T
    .ok T
  else .ok T

end LibreKV.LinearHash
