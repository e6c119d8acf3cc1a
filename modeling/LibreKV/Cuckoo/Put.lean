import LibreKV.Cuckoo.Module

/-!
# LibreKV.Cuckoo.Put

`librekv_cuckoo_put`: the direct store, the eviction loop and the undo loop.

The outcomes of `rand()` are a parameter: `rand 0` chooses the first candidate bucket and
`rand (n + 1)` the victim of the `n`-th eviction. CityHash64 is a parameter too; it is
applied to the eight bytes of the pointer variable `key`, as the source does. The number of
evictions is a parameter of the two loops and `MAX_CUCKOO_COUNT` in `librekvCuckooPut`.
-/

namespace LibreKV.Cuckoo

/-! ### The hash of the key -/

/-- `Hash128to64` of `city.c`. -/
def hash128to64 (low high : UInt64) : UInt64 :=
  let kMul : UInt64 := 0x9ddfea08eb382d69
  let a := (low ^^^ high) * kMul
  let a := a ^^^ (a >>> 47)
  let b := (high ^^^ a) * kMul
  let b := b ^^^ (b >>> 47)
  b * kMul

/-- A little-endian load of all the given bytes (`Fetch32`, `Fetch64`). -/
def fetch (bytes : List UInt8) : UInt64 :=
  bytes.foldr (fun b acc => (acc <<< 8) ||| b.toUInt64) 0

/-- `HashLen0to16` of `city.c` on four to eight bytes: the branch in which CityHash64 hashes
the eight bytes of a pointer. -/
def hashLen4to8 (s : List UInt8) : UInt64 :=
  let len := UInt64.ofNat s.length
  let a := fetch (s.take 4)
  hash128to64 (len + (a <<< 3)) (fetch (s.drop (s.length - 4)))

/-- The bytes of a pointer variable in memory, least significant first. -/
def pointerBytes (p : UInt64) : List UInt8 :=
  (List.range 8).map fun i => (p >>> UInt64.ofNat (8 * i)).toUInt8

/-- `hash((const uint8_t *)&key, sizeof(key))`. -/
def hash (CityHash64 : List UInt8 → UInt64) (key : UInt64) : UInt64 :=
  CityHash64 (pointerBytes key)

/-! ### The eviction loop and the undo loop -/

/-- `x % max_index`, narrowed to `uint16_t`. -/
def modMaxIndex (x : UInt32) (maxIndex : UInt16) : Except Fault UInt16 :=
  if maxIndex = 0 then .error .divisionByZero else .ok (x % maxIndex.toUInt32).toUInt16

/-- The entry in hand without its bucket: `current_tag`, `current_hash`,
`current_offset`. -/
structure InHand where
  tag : UInt16
  hash : UInt64
  offset : UInt64
  deriving Repr, DecidableEq

/-- The entry in hand and the bucket `current_index` it is to go to. -/
structure Hand extends InHand where
  index : UInt16
  deriving Repr, DecidableEq

/-- The `current_entry` that `store` is given. -/
def InHand.entry (c : InHand) : HashEntry := ⟨c.tag ||| validBitMask, c.hash, c.offset⟩

/-- A victim in hand: it is to go to the bucket its fragment names. -/
def HashEntry.toHand (victim : HashEntry) (tag : UInt16) : Hand where
  index := victim.keyfragment
  tag := tag
  hash := victim.keyHash
  offset := victim.offset

/-- `(undo_index[n], undo_way[n])`. -/
structure UndoRecord where
  index : UInt32
  way : UInt8
  deriving Repr, DecidableEq

/-- The new key with the bucket and the tag that the hash number `fn` gives it. -/
def handFor (maxIndex : UInt16) (key : UInt64) (fn : ℕ) (hash offset : UInt64) :
    Except Fault Hand := do
  let index ← keyfrag key (UInt32.ofNat fn)
  let index ← modMaxIndex index maxIndex
  let tag ← keyfrag key (UInt32.ofNat ((fn + 1) % numHash))
  let tag ← modMaxIndex tag maxIndex
  .ok { index, tag, hash, offset }

/-- Evict a victim: the entry in hand takes its slot, and it comes into hand with its old
bucket as tag. -/
def evict (maxIndex : UInt16) (t : CuckooHashTable) (c : Hand) (victimWay : UInt16) :
    Except Fault (CuckooHashTable × Hand × UndoRecord) := do
  let s ← slotAt c.index victimWay
  let victim := t.bucketArray s
  let t ← store t c.index victimWay c.entry
  let tag ← modMaxIndex c.index.toUInt32 maxIndex
  .ok (t, victim.toHand tag, { index := c.index.toUInt32, way := victimWay.toUInt8 })

/-- How the eviction loop ends. -/
inductive KickResult
  /-- A free slot took the entry in hand. -/
  | stored (t : CuckooHashTable)
  /-- All evictions are used up; the records are in the order the undo loop reads them, the
  last one first. -/
  | exhausted (t : CuckooHashTable) (c : Hand) (undo : List UndoRecord)

/-- The eviction loop, with `fuel` evictions left and `n` of them done. -/
def kickLoop (maxIndex : UInt16) (rand : ℕ → ℕ) :
    (fuel n : ℕ) → CuckooHashTable → Hand → List UndoRecord → Except Fault KickResult
  | 0, _, t, c, undo => .ok (.exhausted t c undo)
  | fuel + 1, n, t, c, undo => do
    let way ← freeslot t c.index
    if way.toNat < associativity then
      let t ← store t c.index way c.entry
      .ok (.stored t)
    else
      let r ← evict maxIndex t c (UInt16.ofNat (rand (n + 1) % associativity))
      kickLoop maxIndex rand fuel (n + 1) r.1 r.2.1 (r.2.2 :: undo)

/-- One step of the undo loop: put the entry in hand back into the recorded slot and take
out what is there, with that slot's bucket as its tag. -/
def restoreVictim (maxIndex : UInt16) (t : CuckooHashTable) (c : InHand) (u : UndoRecord) :
    Except Fault (CuckooHashTable × InHand) := do
  let s ← slotAt u.index.toUInt16 u.way.toUInt16
  let victim := t.bucketArray s
  let t ← store t u.index.toUInt16 u.way.toUInt16 c.entry
  let tag ← modMaxIndex u.index.toUInt16.toUInt32 maxIndex
  .ok (t, { tag, hash := victim.keyHash, offset := victim.offset })

/-- The undo loop over the recorded evictions, last one first. -/
def undoLoop (maxIndex : UInt16) :
    List UndoRecord → CuckooHashTable → InHand → Except Fault (CuckooHashTable × InHand)
  | [], t, c => .ok (t, c)
  | u :: us, t, c => do
    let r ← restoreVictim maxIndex t c u
    undoLoop maxIndex us r.1 r.2

/-- `librekv_cuckoo_put` with `count` in place of `MAX_CUCKOO_COUNT`. -/
def cuckooPut (count : ℕ) (CityHash64 : List UInt8 → UInt64) (m : Module) (table : TablePtr)
    (key value : UInt64) (rand : ℕ → ℕ) : Except Fault (Int × Module) :=
  if key = 0 ∨ value = 0 then .ok (-1, m)
  else do
    let fn := rand 0 % numHash
    let c ← handFor m.maxIndex key fn (hash CityHash64 key) value
    let t ← m.load table
    let way ← freeslot t c.index
    if way.toNat < associativity then
      let t ← store t c.index way c.entry
      .ok (1, { m.save table t with currentEntries := m.currentEntries + 1 })
    else
      let c ← handFor m.maxIndex key ((fn + 1) % numHash) (hash CityHash64 key) value
      match ← kickLoop m.maxIndex rand count 0 t c [] with
      | .stored t => .ok (1, { m.save table t with currentEntries := m.currentEntries + 1 })
      | .exhausted t c undo =>
        let tag ← modMaxIndex c.index.toUInt32 m.maxIndex
        let r ← undoLoop m.maxIndex undo t { tag, hash := c.hash, offset := c.offset }
        .ok (-1, m.save table r.1)

/-- `librekv_cuckoo_put`. -/
def librekvCuckooPut : (List UInt8 → UInt64) → Module → TablePtr → UInt64 → UInt64 →
    (ℕ → ℕ) → Except Fault (Int × Module) :=
  cuckooPut maxCuckooCount

end LibreKV.Cuckoo
