import LibreKV.Cuckoo.Put

/-!
# LibreKV.Hash.City

CityHash64 and CityHash128 as in `city.c`, with every branch on the length.

A `const char *` is a position in an array of bytes. Positions are integers, since the hash of
a long input reads its end first and reads back over what it has consumed; a load that does
not lie inside the array is a fault. `size_t` is a 64-bit word, which also enters the hash.

The `do` loops count `len` (or `l`) down by a constant; each is a fold over its rounds.
-/

namespace LibreKV.Hash

open Cuckoo (fetch hash128to64)

/-! ### Loads -/

/-- A `const char *` into an array. -/
structure CharPtr where
  bytes : List UInt8
  pos : ℤ

/-- `s + n`. -/
instance : HAdd CharPtr ℕ CharPtr := ⟨fun s n => { s with pos := s.pos + n }⟩

/-- `s - n`. -/
instance : HSub CharPtr ℕ CharPtr := ⟨fun s n => { s with pos := s.pos - n }⟩

/-- Load `n` bytes. -/
def load (n : ℕ) (s : CharPtr) : Except Fault UInt64 :=
  if 0 ≤ s.pos ∧ s.pos + n ≤ s.bytes.length then
    .ok (fetch ((s.bytes.drop s.pos.toNat).take n))
  else .error .outOfBounds

/-- `Fetch64`. -/
def fetch64 : CharPtr → Except Fault UInt64 := load 8

/-- `Fetch32`, widened. -/
def fetch32 : CharPtr → Except Fault UInt64 := load 4

/-- `s[i]`, widened. -/
def byteAt (s : CharPtr) (i : ℕ) : Except Fault UInt64 := load 1 (s + i)

/-! ### Mixing -/

/-- `k0`. -/
def k0 : UInt64 := 0xc3a5c85c97cb3127

/-- `k1`. -/
def k1 : UInt64 := 0xb492b66fbe98f273

/-- `k2`. -/
def k2 : UInt64 := 0x9ae16a3b2f90404f

/-- `k3`. -/
def k3 : UInt64 := 0xc949d7c7509e6557

/-- `RotateByAtLeast1`. -/
def rotateByAtLeast1 (val shift : UInt64) : UInt64 := (val >>> shift) ||| (val <<< (64 - shift))

/-- `Rotate`. -/
def rotate (val shift : UInt64) : UInt64 :=
  if shift = 0 then val else (val >>> shift) ||| (val <<< (64 - shift))

/-- `ShiftMix`. -/
def shiftMix (val : UInt64) : UInt64 := val ^^^ (val >>> 47)

/-- `HashLen16`. -/
def hashLen16 (u v : UInt64) : UInt64 := hash128to64 u v

/-- `uint128`. -/
structure UInt128 where
  first : UInt64
  second : UInt64
  deriving Repr, DecidableEq

/-! ### Inputs of at most 64 bytes -/

/-- `HashLen0to16`. -/
def hashLen0to16 (s : CharPtr) (len : UInt64) : Except Fault UInt64 :=
  if len > 8 then do
    let a ← fetch64 s
    let b ← fetch64 (s + len.toNat - 8)
    .ok (hashLen16 a (rotateByAtLeast1 (b + len) len) ^^^ b)
  else if len ≥ 4 then do
    let a ← fetch32 s
    let b ← fetch32 (s + len.toNat - 4)
    .ok (hashLen16 (len + (a <<< 3)) b)
  else if len > 0 then do
    let a ← byteAt s 0
    let b ← byteAt s (len >>> 1).toNat
    let c ← byteAt s (len - 1).toNat
    let y := a.toUInt32 + (b.toUInt32 <<< 8)
    let z := len.toUInt32 + (c.toUInt32 <<< 2)
    .ok (shiftMix (y.toUInt64 * k2 ^^^ z.toUInt64 * k3) * k2)
  else .ok k2

/-- `HashLen17to32`. -/
def hashLen17to32 (s : CharPtr) (len : UInt64) : Except Fault UInt64 := do
  let a := (← fetch64 s) * k1
  let b ← fetch64 (s + 8)
  let c := (← fetch64 (s + len.toNat - 8)) * k2
  let d := (← fetch64 (s + len.toNat - 16)) * k0
  .ok (hashLen16 (rotate (a - b) 43 + rotate c 30 + d) (a + rotate (b ^^^ k3) 20 - c + len))

/-- `WeakHashLen32WithSeeds6`. -/
def weakHashLen32WithSeeds6 (w x y z a b : UInt64) : UInt128 :=
  let a := a + w
  let b := rotate (b + a + z) 21
  let c := a
  let a := a + x
  let a := a + y
  let b := b + rotate a 44
  ⟨a + z, b + c⟩

/-- `WeakHashLen32WithSeeds`. -/
def weakHashLen32WithSeeds (s : CharPtr) (a b : UInt64) : Except Fault UInt128 := do
  let w ← fetch64 s
  let x ← fetch64 (s + 8)
  let y ← fetch64 (s + 16)
  let z ← fetch64 (s + 24)
  .ok (weakHashLen32WithSeeds6 w x y z a b)

/-- `HashLen33to64`. -/
def hashLen33to64 (s : CharPtr) (len : UInt64) : Except Fault UInt64 := do
  let z ← fetch64 (s + 24)
  let a := (← fetch64 s) + (len + (← fetch64 (s + len.toNat - 16))) * k0
  let b := rotate (a + z) 52
  let c := rotate a 37
  let a := a + (← fetch64 (s + 8))
  let c := c + rotate a 7
  let a := a + (← fetch64 (s + 16))
  let vf := a + z
  let vs := b + rotate a 31 + c
  let a := (← fetch64 (s + 16)) + (← fetch64 (s + len.toNat - 32))
  let z ← fetch64 (s + len.toNat - 8)
  let b := rotate (a + z) 52
  let c := rotate a 37
  let a := a + (← fetch64 (s + len.toNat - 24))
  let c := c + rotate a 7
  let a := a + (← fetch64 (s + len.toNat - 16))
  let wf := a + z
  let ws := b + rotate a 31 + c
  let r := shiftMix ((vf + ws) * k2 + (wf + vs) * k0)
  .ok (shiftMix (r * k0 + vs) * k2)

/-! ### CityHash64 -/

/-- The 56 bytes of state of the two long hashes, with the position they have come to. -/
structure State where
  s : CharPtr
  x : UInt64
  y : UInt64
  z : UInt64
  v : UInt128
  w : UInt128

/-- A round of the loop of `CityHash64`. -/
def chunkRound (st : State) : Except Fault State := do
  let { s, x, y, z, v, w } := st
  let x := rotate (x + y + v.first + (← fetch64 (s + 8))) 37 * k1
  let y := rotate (y + v.second + (← fetch64 (s + 48))) 42 * k1
  let x := x ^^^ w.second
  let y := y + (v.first + (← fetch64 (s + 40)))
  let z := rotate (z + w.first) 33 * k1
  let v ← weakHashLen32WithSeeds s (v.second * k1) (x + w.first)
  let w ← weakHashLen32WithSeeds (s + 32) (z + w.second) (y + (← fetch64 (s + 16)))
  .ok { s := s + 64, x := z, y, z := x, v, w }

/-- The loop of `CityHash64` over `len` bytes, a multiple of 64. -/
def chunkLoop (len : UInt64) (st : State) : Except Fault State :=
  (List.range (len.toNat / 64)).foldlM (fun st _ => chunkRound st) st

/-- `CityHash64`. -/
def cityHash64 (s : CharPtr) (len : UInt64) : Except Fault UInt64 :=
  if len ≤ 32 then
    if len ≤ 16 then hashLen0to16 s len else hashLen17to32 s len
  else if len ≤ 64 then hashLen33to64 s len
  else do
    let x ← fetch64 (s + len.toNat - 40)
    let y := (← fetch64 (s + len.toNat - 16)) + (← fetch64 (s + len.toNat - 56))
    let z := hashLen16 ((← fetch64 (s + len.toNat - 48)) + len) (← fetch64 (s + len.toNat - 24))
    let v ← weakHashLen32WithSeeds (s + len.toNat - 64) len z
    let w ← weakHashLen32WithSeeds (s + len.toNat - 32) (y + k1) x
    let x := x * k1 + (← fetch64 s)
    let len := (len - 1) &&& ~~~63
    let { s := _, x, y, z, v, w } ← chunkLoop len { s, x, y, z, v, w }
    .ok (hashLen16 (hashLen16 v.first w.first + shiftMix y * k1 + z)
      (hashLen16 v.second w.second + x))

/-- `CityHash64WithSeeds`. -/
def cityHash64WithSeeds (s : CharPtr) (len seed0 seed1 : UInt64) : Except Fault UInt64 := do
  let h ← cityHash64 s len
  .ok (hashLen16 (h - seed0) seed1)

/-- `CityHash64WithSeed`. -/
def cityHash64WithSeed (s : CharPtr) (len seed : UInt64) : Except Fault UInt64 :=
  cityHash64WithSeeds s len k2 seed

/-! ### CityHash128 -/

/-- The state of the loop of `CityMurmur`. -/
structure MurmurState where
  s : CharPtr
  a : UInt64
  b : UInt64
  c : UInt64
  d : UInt64

/-- A round of the loop of `CityMurmur`. -/
def murmurRound (st : MurmurState) : Except Fault MurmurState := do
  let { s, a, b, c, d } := st
  let a := a ^^^ shiftMix ((← fetch64 s) * k1) * k1
  let a := a * k1
  let b := b ^^^ a
  let c := c ^^^ shiftMix ((← fetch64 (s + 8)) * k1) * k1
  let c := c * k1
  let d := d ^^^ c
  .ok { s := s + 16, a, b, c, d }

/-- The last lines of `CityMurmur`. -/
def murmurFinish (a b c d : UInt64) : UInt128 :=
  let a := hashLen16 a c
  let b := hashLen16 d b
  ⟨a ^^^ b, hashLen16 b a⟩

/-- `len >= 8 ? Fetch64(s) : c`. -/
def firstWordOr (s : CharPtr) (len c : UInt64) : Except Fault UInt64 :=
  if len ≥ 8 then fetch64 s else .ok c

/-- `CityMurmur`. The remaining length `l` is signed. -/
def cityMurmur (s : CharPtr) (len : UInt64) (seed : UInt128) : Except Fault UInt128 :=
  let a := seed.first
  let b := seed.second
  let l := (len - 16).toInt64
  if l ≤ 0 then do
    let a := shiftMix (a * k1) * k1
    let c := b * k1 + (← hashLen0to16 s len)
    let d := shiftMix (a + (← firstWordOr s len c))
    .ok (murmurFinish a b c d)
  else do
    let c := hashLen16 ((← fetch64 (s + len.toNat - 8)) + k1) a
    let d := hashLen16 (b + len) (c + (← fetch64 (s + len.toNat - 16)))
    let a := a + d
    -- A round for every sixteen bytes of `l` that have begun.
    let rounds := (l.toInt.toNat + 15) / 16
    let { s := _, a, b, c, d } ←
      (List.range rounds).foldlM (fun st _ => murmurRound st) { s, a, b, c, d }
    .ok (murmurFinish a b c d)

/-- A round of the loop of `CityHash128WithSeed`: 128 bytes, with the body of the loop of
`CityHash64` written twice. -/
def doubleRound (st : State) : Except Fault State := do
  let { s, x, y, z, v, w } := st
  let x := rotate (x + y + v.first + (← fetch64 (s + 8))) 37 * k1
  let y := rotate (y + v.second + (← fetch64 (s + 48))) 42 * k1
  let x := x ^^^ w.second
  let y := y + (v.first + (← fetch64 (s + 40)))
  let z := rotate (z + w.first) 33 * k1
  let v ← weakHashLen32WithSeeds s (v.second * k1) (x + w.first)
  let w ← weakHashLen32WithSeeds (s + 32) (z + w.second) (y + (← fetch64 (s + 16)))
  let temp := z
  let z := x
  let x := temp
  let s := s + 64
  let x := rotate (x + y + v.first + (← fetch64 (s + 8))) 37 * k1
  let y := rotate (y + v.second + (← fetch64 (s + 48))) 42 * k1
  let x := x ^^^ w.second
  let y := y + (v.first + (← fetch64 (s + 40)))
  let z := rotate (z + w.first) 33 * k1
  let v ← weakHashLen32WithSeeds s (v.second * k1) (x + w.first)
  let w ← weakHashLen32WithSeeds (s + 32) (z + w.second) (y + (← fetch64 (s + 16)))
  .ok { s := s + 64, x := z, y, z := x, v, w }

/-- The loop of `CityHash128WithSeed`: as long as 128 bytes are left. -/
def doubleLoop (len : UInt64) (st : State) : Except Fault State :=
  (List.range (len.toNat / 128)).foldlM (fun st _ => doubleRound st) st

/-- A round of the loop over the last bytes, counted from the end in steps of 32: the round
that raises `tail_done` from `32 * k`. The position `s` stays. -/
def tailRound (len : UInt64) (st : State) (k : ℕ) : Except Fault State := do
  let { s, x, y, z, v, w } := st
  let tailDone := 32 * k + 32
  let y := rotate (x + y) 42 * k0 + v.second
  let w := { w with first := w.first + (← fetch64 (s + len.toNat - tailDone + 16)) }
  let x := x * k0 + w.first
  let z := z + (w.second + (← fetch64 (s + len.toNat - tailDone)))
  let w := { w with second := w.second + v.first }
  let v ← weakHashLen32WithSeeds (s + len.toNat - tailDone) (v.first + z) v.second
  .ok { s, x, y, z, v, w }

/-- The loop over the last bytes. -/
def tailLoop (len : UInt64) (st : State) : Except Fault State :=
  (List.range ((len.toNat + 31) / 32)).foldlM (tailRound len) st

/-- `CityHash128WithSeed`. -/
def cityHash128WithSeed (s : CharPtr) (len : UInt64) (seed : UInt128) :
    Except Fault UInt128 :=
  if len < 128 then cityMurmur s len seed
  else do
    let x := seed.first
    let y := seed.second
    let z := len * k1
    let vf := rotate (y ^^^ k1) 49 * k1 + (← fetch64 s)
    let vs := rotate vf 42 * k1 + (← fetch64 (s + 8))
    let wf := rotate (y + z) 35 * k1 + x
    let ws := rotate (x + (← fetch64 (s + 88))) 53 * k1
    let { s, x, y, z, v, w } ← doubleLoop len { s, x, y, z, v := ⟨vf, vs⟩, w := ⟨wf, ws⟩ }
    let len := len % 128
    let x := x + rotate (v.first + z) 49 * k0
    let z := z + rotate w.first 37 * k0
    let { s := _, x, y, z, v, w } ← tailLoop len { s, x, y, z, v, w }
    let x := hashLen16 x v.first
    let y := hashLen16 (y + z) w.first
    .ok ⟨hashLen16 (x + v.second) w.second + y, hashLen16 (x + w.second) (y + v.second)⟩

/-- `NULL` as the argument of `CityHash128WithSeed`, with no byte to load. -/
def nullPtr : CharPtr := ⟨[], 0⟩

/-- `CityHash128`. -/
def cityHash128 (s : CharPtr) (len : UInt64) : Except Fault UInt128 :=
  if len ≥ 16 then do
    let first := (← fetch64 s) ^^^ k3
    let second ← fetch64 (s + 8)
    cityHash128WithSeed (s + 16) (len - 16) ⟨first, second⟩
  else if len ≥ 8 then do
    let first := (← fetch64 s) ^^^ (len * k0)
    let second := (← fetch64 (s + len.toNat - 8)) ^^^ k1
    cityHash128WithSeed nullPtr 0 ⟨first, second⟩
  else cityHash128WithSeed s len ⟨k0, k1⟩

end LibreKV.Hash
