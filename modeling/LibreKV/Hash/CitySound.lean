import LibreKV.Hash.City

/-!
# LibreKV.Hash.CitySound

Which bytes the two hashes of `city.c` load.

Whether a load succeeds depends on positions and lengths alone, never on what was loaded
before. So every function below returns exactly when a range of bytes lies inside the array,
and the range of the two hashes is their input: a hash of `len` bytes never reads a byte
outside these, also where it reads backwards from the end.
-/

namespace LibreKV.Hash

open Fallible

/-! ### Ranges of bytes -/

namespace CharPtr

variable (s : CharPtr) (n : ℕ)

@[simp] theorem add_pos : (s + n).pos = s.pos + n := rfl

@[simp] theorem add_bytes : (s + n).bytes = s.bytes := rfl

@[simp] theorem sub_pos : (s - n).pos = s.pos - n := rfl

@[simp] theorem sub_bytes : (s - n).bytes = s.bytes := rfl

end CharPtr

/-- The `n` bytes from `s` on are in the array. -/
def Readable (s : CharPtr) (n : ℕ) : Prop :=
  n = 0 ∨ 0 ≤ s.pos ∧ s.pos + n ≤ s.bytes.length

theorem load_returns {n : ℕ} (hn : n ≠ 0) {s : CharPtr} : Returns (load n s) ↔ Readable s n := by
  rw [load, Readable, or_iff_right hn]
  split
  · next hin => simp [hin]
  · next hout => simp [hout]

@[simp] theorem fetch64_returns {s : CharPtr} : Returns (fetch64 s) ↔ Readable s 8 :=
  load_returns (by decide)

@[simp] theorem fetch32_returns {s : CharPtr} : Returns (fetch32 s) ↔ Readable s 4 :=
  load_returns (by decide)

@[simp] theorem byteAt_returns {s : CharPtr} {i : ℕ} :
    Returns (byteAt s i) ↔ Readable (s + i) 1 :=
  load_returns (by decide)

/-- A pointer that is moved on round after round. -/
theorem iterate_add (n k : ℕ) (s : CharPtr) :
    (fun p : CharPtr => p + n)^[k] s = s + k * n := by
  induction k with
  | zero =>
      rw [Nat.zero_mul]
      exact congrArg (CharPtr.mk s.bytes) (Int.add_zero s.pos).symm
  | succ k ih =>
      rw [Function.iterate_succ_apply', ih]
      refine congrArg (CharPtr.mk s.bytes) ?_
      simp only [CharPtr.add_pos, Nat.succ_mul]
      omega

/-- Consecutive pieces of one size. -/
theorem forall_readable_iff {m : ℕ} (hm : 0 < m) (n : ℕ) (s : CharPtr) :
    (∀ k < n, Readable (s + k * m) m) ↔ Readable s (n * m) := by
  constructor
  · intro h
    cases n with
    | zero => exact Or.inl (Nat.zero_mul m)
    | succ n =>
        have hfirst := h 0 (Nat.succ_pos n)
        have hlast := h n (Nat.lt_succ_self n)
        simp only [Readable, CharPtr.add_pos, CharPtr.add_bytes] at hfirst hlast ⊢
        rw [Nat.succ_mul]
        omega
  · intro h k hk
    have hkm : k * m + m ≤ n * m := by
      rw [← Nat.succ_mul]
      exact Nat.mul_le_mul_right m hk
    simp only [Readable, CharPtr.add_pos, CharPtr.add_bytes] at h ⊢
    omega

/-! ### Short inputs -/

@[simp] theorem weakHashLen32WithSeeds_returns {s : CharPtr} {a b : UInt64} :
    Returns (weakHashLen32WithSeeds s a b) ↔ Readable s 32 := by
  simp only [weakHashLen32WithSeeds, returns_bind_iff, exists_ok_and, exists_eq_ok,
    fetch64_returns, returns_ok, and_true]
  simp only [Readable, CharPtr.add_pos, CharPtr.add_bytes]
  omega

theorem hashLen0to16_returns {s : CharPtr} {len : UInt64} (hlen : len ≤ 16) :
    Returns (hashLen0to16 s len) ↔ Readable s len.toNat := by
  have hle : len.toNat ≤ 16 := UInt64.le_iff_toNat_le.mp hlen
  rw [hashLen0to16]
  split
  -- nine bytes and more: the first and the last word, which overlap
  · next h8 =>
    have h8' : 8 < len.toNat := UInt64.lt_iff_toNat_lt.mp h8
    simp only [returns_bind_iff, exists_ok_and, exists_eq_ok, fetch64_returns, returns_ok, and_true]
    simp only [Readable, CharPtr.add_pos, CharPtr.add_bytes, CharPtr.sub_pos, CharPtr.sub_bytes]
    omega
  split
  -- four to eight bytes: the same with half words
  · next h8 h4 =>
    have h4' : 4 ≤ len.toNat := UInt64.le_iff_toNat_le.mp h4
    have h8' : ¬ 8 < len.toNat := fun h => h8 (UInt64.lt_iff_toNat_lt.mpr h)
    simp only [returns_bind_iff, exists_ok_and, exists_eq_ok, fetch32_returns, returns_ok, and_true]
    simp only [Readable, CharPtr.add_pos, CharPtr.add_bytes, CharPtr.sub_pos, CharPtr.sub_bytes]
    omega
  split
  -- one to three bytes: the first, the middle and the last one
  · next h4 h0 =>
    have h0' : 0 < len.toNat := UInt64.lt_iff_toNat_lt.mp h0
    have h4' : ¬ 4 ≤ len.toNat := fun h => h4 (UInt64.le_iff_toNat_le.mpr h)
    have hhalf : (len >>> 1).toNat = len.toNat / 2 := by
      rw [UInt64.toNat_shiftRight, Nat.shiftRight_eq_div_pow]
      rfl
    have hlast : (len - 1).toNat = len.toNat - 1 :=
      UInt64.toNat_sub_of_le len 1 (UInt64.le_iff_toNat_le.mpr h0')
    simp only [returns_bind_iff, exists_ok_and, exists_eq_ok, byteAt_returns, returns_ok, and_true,
      hhalf, hlast]
    simp only [Readable, CharPtr.add_pos, CharPtr.add_bytes]
    omega
  · next h0 =>
    have h0' : len.toNat = 0 :=
      Nat.eq_zero_of_not_pos fun h => h0 (UInt64.lt_iff_toNat_lt.mpr h)
    simp [Readable, h0']

theorem hashLen17to32_returns {s : CharPtr} {len : UInt64} (hlow : 16 < len.toNat)
    (hhigh : len.toNat ≤ 32) : Returns (hashLen17to32 s len) ↔ Readable s len.toNat := by
  simp only [hashLen17to32, returns_bind_iff, exists_ok_and, exists_eq_ok, fetch64_returns,
    returns_ok, and_true]
  simp only [Readable, CharPtr.add_pos, CharPtr.add_bytes, CharPtr.sub_pos, CharPtr.sub_bytes]
  omega

theorem hashLen33to64_returns {s : CharPtr} {len : UInt64} (hlow : 32 < len.toNat)
    (hhigh : len.toNat ≤ 64) : Returns (hashLen33to64 s len) ↔ Readable s len.toNat := by
  simp only [hashLen33to64, returns_bind_iff, exists_ok_and, exists_eq_ok, fetch64_returns,
    returns_ok, and_true]
  simp only [Readable, CharPtr.add_pos, CharPtr.add_bytes, CharPtr.sub_pos, CharPtr.sub_bytes]
  omega

/-! ### CityHash64 -/

theorem chunkRound_returns {st : State} : Returns (chunkRound st) ↔ Readable st.s 64 := by
  simp only [chunkRound, returns_bind_iff, exists_ok_and, exists_eq_ok, fetch64_returns,
    weakHashLen32WithSeeds_returns, returns_ok, and_true]
  simp only [Readable, CharPtr.add_pos, CharPtr.add_bytes]
  omega

theorem chunkRound_s {st st' : State} (h : chunkRound st = .ok st') : st'.s = st.s + 64 := by
  simp only [chunkRound, bind_eq_ok] at h
  obtain ⟨_, -, _, -, _, -, _, -, _, -, _, -, h⟩ := h
  obtain rfl := Except.ok.inj h
  rfl

theorem chunkLoop_returns {len : UInt64} {st : State} :
    Returns (chunkLoop len st) ↔ Readable st.s (len.toNat / 64 * 64) := by
  rw [chunkLoop, returns_foldlM_range State.s (fun p => p + 64) (fun _ p => Readable p 64)
    (fun _ _ _ h => chunkRound_s h) (fun _ _ => chunkRound_returns)]
  simp only [iterate_add, forall_readable_iff (show 0 < 64 by decide)]

/-- The length is cut to the multiple of 64 below it. -/
theorem toNat_and_not_63 (n : UInt64) : (n &&& ~~~63).toNat = n.toNat / 64 * 64 := by
  have hmask : (~~~63 : UInt64).toBitVec = BitVec.allOnes 64 <<< 6 := rfl
  rw [← UInt64.toNat_toBitVec, UInt64.toBitVec_and, hmask, ← BitVec.shiftLeft_ushiftRight,
    BitVec.toNat_shiftLeft, BitVec.toNat_ushiftRight, Nat.shiftLeft_eq, Nat.shiftRight_eq_div_pow]
  refine Nat.mod_eq_of_lt (lt_of_le_of_lt (Nat.div_mul_le_self _ _) n.toBitVec.isLt)

theorem cityHash64_returns (s : CharPtr) (len : UInt64) :
    Returns (cityHash64 s len) ↔ Readable s len.toNat := by
  rw [cityHash64]
  split
  · next h32 =>
    have h32' : len.toNat ≤ 32 := UInt64.le_iff_toNat_le.mp h32
    split
    · next h16 => exact hashLen0to16_returns h16
    · next h16 =>
      have h16' : 16 < len.toNat := Nat.lt_of_not_le fun h => h16 (UInt64.le_iff_toNat_le.mpr h)
      exact hashLen17to32_returns h16' h32'
  next h32 =>
  have h32' : 32 < len.toNat := Nat.lt_of_not_le fun h => h32 (UInt64.le_iff_toNat_le.mpr h)
  split
  · next h64 => exact hashLen33to64_returns h32' (UInt64.le_iff_toNat_le.mp h64)
  -- the last 64 bytes are read before the loop, which goes over the whole blocks before them
  · next h64 =>
    have h64' : 64 < len.toNat := Nat.lt_of_not_le fun h => h64 (UInt64.le_iff_toNat_le.mpr h)
    have hlast : (len - 1).toNat = len.toNat - 1 :=
      UInt64.toNat_sub_of_le len 1 (UInt64.le_iff_toNat_le.mpr (show 1 ≤ len.toNat by omega))
    simp only [returns_bind_iff, exists_ok_and, exists_eq_ok, fetch64_returns,
      weakHashLen32WithSeeds_returns, chunkLoop_returns, toNat_and_not_63, hlast, returns_ok,
      and_true]
    simp only [Readable, CharPtr.add_pos, CharPtr.add_bytes, CharPtr.sub_pos, CharPtr.sub_bytes]
    omega

/-! ### CityHash128 -/

theorem murmurRound_returns {st : MurmurState} :
    Returns (murmurRound st) ↔ Readable st.s 16 := by
  simp only [murmurRound, returns_bind_iff, exists_ok_and, exists_eq_ok, fetch64_returns,
    returns_ok, and_true]
  simp only [Readable, CharPtr.add_pos, CharPtr.add_bytes]
  omega

theorem murmurRound_s {st st' : MurmurState} (h : murmurRound st = .ok st') :
    st'.s = st.s + 16 := by
  simp only [murmurRound, bind_eq_ok] at h
  obtain ⟨_, -, _, -, h⟩ := h
  obtain rfl := Except.ok.inj h
  rfl

/-- What is left of a length after 16 bytes, as a signed number. -/
theorem toInt_sub_16 {len : UInt64} (hlen : len.toNat < 128) :
    (len - 16).toInt64.toInt = (len.toNat : ℤ) - 16 := by
  have hint : len.toBitVec.toInt = len.toNat :=
    BitVec.toInt_eq_toNat_of_lt (by rw [UInt64.toNat_toBitVec]; omega)
  have hsixteen : (16 : UInt64).toBitVec.toInt = 16 := rfl
  rw [← Int64.toInt_toBitVec, UInt64.toBitVec_toInt64, UInt64.toBitVec_sub, BitVec.toInt_sub, hint,
    hsixteen]
  exact Int.bmod_eq_of_le (by omega) (by omega)

@[simp] theorem firstWordOr_returns {s : CharPtr} {len c : UInt64} :
    Returns (firstWordOr s len c) ↔ (8 ≤ len.toNat → Readable s 8) := by
  have hiff : len ≥ 8 ↔ 8 ≤ len.toNat := UInt64.le_iff_toNat_le
  rw [firstWordOr, ← hiff]
  split
  · next h8 => simp [h8]
  · next h8 => simp [h8]

/-- `CityMurmur`, on the lengths it is called with. -/
theorem cityMurmur_returns {s : CharPtr} {len : UInt64} {seed : UInt128}
    (hlen : len.toNat < 128) : Returns (cityMurmur s len seed) ↔ Readable s len.toNat := by
  have hl := toInt_sub_16 hlen
  simp only [cityMurmur]
  -- the signed comparison is that of the lengths, as these are small
  split
  · next hle =>
    have hle' : len.toNat ≤ 16 := by
      have hint := Int64.le_iff_toInt_le.mp hle
      rw [hl, Int64.toInt_zero] at hint
      omega
    simp only [returns_bind_iff, exists_ok_and, exists_eq_ok, firstWordOr_returns, returns_ok,
      and_true, hashLen0to16_returns (UInt64.le_iff_toNat_le.mpr hle')]
    simp only [Readable]
    omega
  · next hgt =>
    have hgt' : 16 < len.toNat := by
      have hint := mt Int64.le_iff_toInt_le.mpr hgt
      rw [hl, Int64.toInt_zero] at hint
      omega
    have hloop : ∀ n st, Returns ((List.range n).foldlM (fun st _ => murmurRound st) st) ↔
        Readable st.s (n * 16) := by
      intro n st
      rw [returns_foldlM_range MurmurState.s (fun p => p + 16) (fun _ p => Readable p 16)
        (fun _ _ _ h => murmurRound_s h) (fun _ _ => murmurRound_returns)]
      simp only [iterate_add, forall_readable_iff (show 0 < 16 by decide)]
    simp only [returns_bind_iff, exists_ok_and, exists_eq_ok, fetch64_returns, hloop, returns_ok,
      and_true, hl]
    simp only [Readable, CharPtr.add_pos, CharPtr.add_bytes, CharPtr.sub_pos, CharPtr.sub_bytes]
    omega

/-- The unrolled loop does what the loop of `CityHash64` does in two rounds. -/
theorem doubleRound_eq (st : State) : doubleRound st = (chunkRound st >>= chunkRound) := by
  simp only [doubleRound, chunkRound, bind_assoc, ok_bind]

theorem foldlM_doubleRound (n : ℕ) (st : State) :
    (List.range n).foldlM (fun st _ => doubleRound st) st =
      (List.range (2 * n)).foldlM (fun st _ => chunkRound st) st := by
  induction n with
  | zero => rfl
  | succ n ih =>
      rw [foldlM_range_succ, ih, Nat.mul_succ, foldlM_range_succ, foldlM_range_succ, bind_assoc]
      simp only [doubleRound_eq]

/-- **The unrolled loop agrees with the plain one.** From every state, the loop of
`CityHash128WithSeed` computes what the loop of `CityHash64` computes over the whole blocks of
128 bytes, faults included. -/
theorem doubleLoop_eq_chunkLoop (len : UInt64) (st : State) :
    doubleLoop len st = chunkLoop (len / 128 * 128) st := by
  have hrounds : (len / 128 * 128).toNat / 64 = 2 * (len.toNat / 128) := by
    rw [UInt64.toNat_mul, UInt64.toNat_div]
    have hlt := len.toNat_lt
    simp only [UInt64.reduceToNat]
    omega
  rw [doubleLoop, foldlM_doubleRound, chunkLoop, hrounds]

theorem doubleLoop_returns {len : UInt64} {st : State} :
    Returns (doubleLoop len st) ↔ Readable st.s (len.toNat / 128 * 128) := by
  have hlt := len.toNat_lt
  rw [doubleLoop_eq_chunkLoop, chunkLoop_returns, UInt64.toNat_mul, UInt64.toNat_div]
  simp only [UInt64.reduceToNat]
  rw [Nat.mod_eq_of_lt (by omega), show len.toNat / 128 * 128 / 64 * 64 = len.toNat / 128 * 128 by
    omega]

theorem doubleLoop_s {len : UInt64} {st st' : State} (h : doubleLoop len st = .ok st') :
    st'.s = st.s + len.toNat / 128 * 128 := by
  rw [doubleLoop, foldlM_doubleRound] at h
  rw [foldlM_range_cursor State.s (fun p => p + 64) (fun _ _ _ h => chunkRound_s h) h,
    iterate_add, show 2 * (len.toNat / 128) * 64 = len.toNat / 128 * 128 by omega]

theorem tailRound_returns {len : UInt64} {st : State} {k : ℕ} :
    Returns (tailRound len st k) ↔ Readable (st.s + len.toNat - (32 * k + 32)) 32 := by
  simp only [tailRound, returns_bind_iff, exists_ok_and, exists_eq_ok, fetch64_returns,
    weakHashLen32WithSeeds_returns, returns_ok, and_true]
  simp only [Readable, CharPtr.add_pos, CharPtr.add_bytes, CharPtr.sub_pos, CharPtr.sub_bytes]
  omega

theorem tailRound_s {len : UInt64} {st st' : State} {k : ℕ} (h : tailRound len st k = .ok st') :
    st'.s = st.s := by
  simp only [tailRound, bind_eq_ok] at h
  obtain ⟨_, -, _, -, _, -, h⟩ := h
  obtain rfl := Except.ok.inj h
  rfl

theorem tailLoop_returns {len : UInt64} {st : State} : Returns (tailLoop len st) ↔
    ∀ k < (len.toNat + 31) / 32, Readable (st.s + len.toNat - (32 * k + 32)) 32 := by
  rw [tailLoop, returns_foldlM_range State.s id
    (fun k p => Readable (p + len.toNat - (32 * k + 32)) 32) (fun _ _ _ h => tailRound_s h)
    (fun _ _ => tailRound_returns)]
  simp only [Function.iterate_id, id]

/-- The last bytes are counted from their end, and the first of them may lie before `s`. -/
theorem forall_tail_iff {s : CharPtr} {blocks rest : ℕ} (hblocks : 128 ≤ blocks)
    (hrest : rest < 128) (hread : Readable s blocks) :
    (∀ k < (rest + 31) / 32, Readable (s + blocks + rest - (32 * k + 32)) 32) ↔
      Readable s (blocks + rest) := by
  simp only [Readable, CharPtr.add_pos, CharPtr.add_bytes, CharPtr.sub_pos, CharPtr.sub_bytes]
    at hread ⊢
  constructor
  · intro h
    rcases Nat.eq_zero_or_pos rest with rfl | hpos
    · exact hread
    -- the first round reads up to the end
    · have hfirst := h 0 (by omega)
      omega
  · intro h k hk
    omega

/-- The two loops of `CityHash128WithSeed`, one after the other. -/
theorem loops_return {len : UInt64} (hlen : 128 ≤ len.toNat) (st : State) :
    (∃ st', doubleLoop len st = .ok st' ∧ ∀ k < ((len % 128).toNat + 31) / 32,
        Readable (st'.s + (len % 128).toNat - (32 * k + 32)) 32) ↔ Readable st.s len.toNat := by
  have hrest : (len % 128).toNat = len.toNat % 128 := UInt64.toNat_mod len 128
  have hmod : len.toNat % 128 < 128 := Nat.mod_lt _ (by decide)
  have hsum : len.toNat / 128 * 128 + len.toNat % 128 = len.toNat := by omega
  rw [hrest]
  constructor
  · rintro ⟨st', hloop, htail⟩
    have hread := doubleLoop_returns.mp ⟨st', hloop⟩
    rw [doubleLoop_s hloop, forall_tail_iff (by omega) hmod hread, hsum] at htail
    exact htail
  · intro h
    have hread : Readable st.s (len.toNat / 128 * 128) := by
      simp only [Readable] at h ⊢
      omega
    obtain ⟨st', hloop⟩ := doubleLoop_returns.mpr hread
    refine ⟨st', hloop, ?_⟩
    rw [doubleLoop_s hloop, forall_tail_iff (by omega) hmod hread, hsum]
    exact h

theorem cityHash128WithSeed_returns (s : CharPtr) (len : UInt64) (seed : UInt128) :
    Returns (cityHash128WithSeed s len seed) ↔ Readable s len.toNat := by
  rw [cityHash128WithSeed]
  split
  · next h128 => exact cityMurmur_returns (UInt64.lt_iff_toNat_lt.mp h128)
  · next h128 =>
    have h128' : 128 ≤ len.toNat := Nat.le_of_not_lt fun h => h128 (UInt64.lt_iff_toNat_lt.mpr h)
    simp only [returns_bind_iff, exists_ok_and, exists_eq_ok, fetch64_returns, tailLoop_returns,
      loops_return h128', returns_ok, and_true]
    simp only [Readable, CharPtr.add_pos, CharPtr.add_bytes]
    omega

theorem cityHash128_returns (s : CharPtr) (len : UInt64) :
    Returns (cityHash128 s len) ↔ Readable s len.toNat := by
  rw [cityHash128]
  split
  · next h16 =>
    have h16' : 16 ≤ len.toNat := UInt64.le_iff_toNat_le.mp h16
    have hrest : (len - 16).toNat = len.toNat - 16 := UInt64.toNat_sub_of_le len 16 h16
    simp only [returns_bind_iff, exists_ok_and, fetch64_returns, cityHash128WithSeed_returns,
      hrest]
    simp only [Readable, CharPtr.add_pos, CharPtr.add_bytes]
    omega
  next h16 =>
  have h16' : len.toNat < 16 := Nat.lt_of_not_le fun h => h16 (UInt64.le_iff_toNat_le.mpr h)
  split
  · next h8 =>
    have h8' : 8 ≤ len.toNat := UInt64.le_iff_toNat_le.mp h8
    -- the input is in the seed by now, and nothing is read through the null pointer
    have hnull : Readable nullPtr (0 : UInt64).toNat ↔ True := iff_true_intro (Or.inl rfl)
    simp only [returns_bind_iff, exists_ok_and, exists_eq_ok, fetch64_returns,
      cityHash128WithSeed_returns, hnull, and_true]
    simp only [Readable, CharPtr.add_pos, CharPtr.add_bytes, CharPtr.sub_pos, CharPtr.sub_bytes]
    omega
  · exact cityHash128WithSeed_returns s len _

/-- **The two hashes read their input and nothing else.** For every length, `CityHash64`,
its seeded forms and `CityHash128` return if all bytes of the input are in the array, and only
then. -/
theorem cityHash_returns_iff (s : CharPtr) (len : UInt64) :
    (Returns (cityHash64 s len) ↔ Readable s len.toNat) ∧
    (∀ seed0 seed1, Returns (cityHash64WithSeeds s len seed0 seed1) ↔ Readable s len.toNat) ∧
    (∀ seed, Returns (cityHash128WithSeed s len seed) ↔ Readable s len.toNat) ∧
    (Returns (cityHash128 s len) ↔ Readable s len.toNat) := by
  refine ⟨cityHash64_returns s len, fun seed0 seed1 => ?_, cityHash128WithSeed_returns s len,
    cityHash128_returns s len⟩
  simp only [cityHash64WithSeeds, returns_bind_iff, returns_ok, and_true, exists_eq_ok,
    cityHash64_returns]

end LibreKV.Hash
