import Mathlib.Data.FinEnum
import Mathlib.Data.Fintype.EquivFin
import Mathlib.Data.Nat.Digits.Defs
import LibreKV.Lib.Mixing
import LibreKV.Hash.CitySound

/-!
# LibreKV.Hash.Collisions

Where CityHash64 cannot collide.

`HashLen16` mixes two words into one, and for a fixed second word it is a permutation of the
first: each of its steps can be taken back. This is what the two uses of it below rest on. The
eight bytes of a pointer go through it as two halves, so pointers with the same upper half
never collide; and the seeds are mixed in by it, so they neither merge nor separate inputs.
-/

namespace LibreKV.Hash

open Cuckoo (fetch hash128to64 pointerBytes hashLen4to8)
open Fallible

/-! ### The steps of `Hash128to64` -/

theorem mul_kMul_injective : Function.Injective fun x : UInt64 => x * 0x9ddfea08eb382d69 := by
  intro x y h
  have hbits := congrArg UInt64.toBitVec h
  simp only [UInt64.toBitVec_mul] at hbits
  exact UInt64.toBitVec_inj.mp (Mixing.mul_odd_injective (by decide) hbits)

theorem shiftMix_injective : Function.Injective shiftMix := by
  intro x y h
  have hbits := congrArg UInt64.toBitVec h
  simp only [shiftMix, UInt64.toBitVec_xor, UInt64.toBitVec_shiftRight] at hbits
  exact UInt64.toBitVec_inj.mp (Mixing.xorShift_injective (show 0 < 47 by decide) hbits)

theorem xor_word_injective (v : UInt64) : Function.Injective fun x : UInt64 => x ^^^ v := by
  intro x y h
  have hbits := congrArg UInt64.toBitVec h
  simp only [UInt64.toBitVec_xor] at hbits
  exact UInt64.toBitVec_inj.mp (Mixing.xor_injective v.toBitVec hbits)

/-- `Hash128to64` as a sequence of its steps on the first word. -/
theorem hashLen16_eq (u v : UInt64) : hashLen16 u v =
    shiftMix ((shiftMix ((u ^^^ v) * 0x9ddfea08eb382d69) ^^^ v) * 0x9ddfea08eb382d69) *
      0x9ddfea08eb382d69 := by
  simp only [hashLen16, hash128to64, shiftMix, UInt64.xor_comm]

theorem hashLen16_injective (v : UInt64) : Function.Injective fun u => hashLen16 u v := by
  intro x y h
  simp only [hashLen16_eq] at h
  -- the steps are undone from the last one on
  have h₁ := mul_kMul_injective (shiftMix_injective (mul_kMul_injective h))
  exact xor_word_injective v (mul_kMul_injective (shiftMix_injective (xor_word_injective v h₁)))

theorem hashLen16_bijective (v : UInt64) : Function.Bijective fun u => hashLen16 u v :=
  Finite.injective_iff_bijective.mp (hashLen16_injective v)

/-! ### The bytes of a pointer -/

theorem digits_lt (bytes : List UInt8) : ∀ d ∈ bytes.map UInt8.toNat, d < 256 := by
  intro d hd
  obtain ⟨b, -, rfl⟩ := List.mem_map.mp hd
  exact b.toNat_lt

/-- A load is the little-endian number of its bytes. -/
theorem toNat_fetch {bytes : List UInt8} (hlen : bytes.length ≤ 8) :
    (fetch bytes).toNat = Nat.ofDigits 256 (bytes.map UInt8.toNat) := by
  induction bytes with
  | nil => rfl
  | cons b bytes ih =>
      rw [List.length_cons] at hlen
      have hrest := ih (by omega)
      -- seven bytes at most, so the shift loses nothing and the new byte meets zeros
      have hlt : Nat.ofDigits 256 (bytes.map UInt8.toNat) < 256 ^ 7 := by
        have hpow := Nat.ofDigits_lt_base_pow_length (by decide) (digits_lt bytes)
        rw [List.length_map] at hpow
        exact hpow.trans_le (Nat.pow_le_pow_right (by decide) (by omega))
      have hcons : fetch (b :: bytes) = (fetch bytes <<< 8) ||| b.toUInt64 := rfl
      have hshift : (8 : UInt64).toNat % 64 = 8 := rfl
      rw [hcons, UInt64.toNat_or, UInt64.toNat_shiftLeft, hshift, hrest,
        Nat.mod_eq_of_lt (by rw [Nat.shiftLeft_eq]; omega), UInt8.toNat_toUInt64,
        ← Nat.shiftLeft_add_eq_or_of_lt b.toNat_lt, Nat.shiftLeft_eq, List.map_cons,
        Nat.ofDigits_cons]
      omega

/-- A load of at most a word loses nothing. -/
theorem fetch_inj {bytes bytes' : List UInt8} (hlen : bytes.length = bytes'.length)
    (hword : bytes.length ≤ 8) : fetch bytes = fetch bytes' ↔ bytes = bytes' := by
  constructor
  · intro h
    have hnat := congrArg UInt64.toNat h
    rw [toNat_fetch hword, toNat_fetch (hlen ▸ hword)] at hnat
    have hdigits := Nat.ofDigits_inj_of_len_eq (by decide) (by simpa using hlen)
      (digits_lt bytes) (digits_lt bytes') hnat
    exact List.map_injective_iff.mpr (fun _ _ => UInt8.toNat_inj.mp) hdigits
  · intro h
    rw [h]

/-- The bytes of a pointer are the digits of its address. -/
theorem toNat_pointerBytes (p : UInt64) : (pointerBytes p).map UInt8.toNat =
    (List.range 8).map fun i => p.toNat / 256 ^ i % 256 := by
  rw [pointerBytes, List.map_map]
  refine List.map_congr_left fun i hi => ?_
  have hi8 : i < 8 := List.mem_range.mp hi
  have hshift : (UInt64.ofNat (8 * i)).toNat % 64 = 8 * i := by
    rw [UInt64.toNat_ofNat']
    omega
  rw [Function.comp_apply, UInt64.toNat_toUInt8, UInt64.toNat_shiftRight, hshift,
    Nat.shiftRight_eq_div_pow, Nat.pow_mul]

/-- The lower half of a pointer, as its first four bytes. -/
theorem toNat_fetch_lower (p : UInt64) :
    (fetch ((pointerBytes p).take 4)).toNat = p.toNat % 2 ^ 32 := by
  rw [toNat_fetch (by simp), List.map_take, toNat_pointerBytes]
  simp [List.range_succ, Nat.ofDigits_cons]
  omega

/-- The upper half of a pointer, as its last four bytes. -/
theorem toNat_fetch_upper (p : UInt64) :
    (fetch ((pointerBytes p).drop 4)).toNat = p.toNat / 2 ^ 32 := by
  have hlt := p.toNat_lt
  rw [toNat_fetch (by simp [pointerBytes]), List.map_drop, toNat_pointerBytes]
  simp [List.range_succ, Nat.ofDigits_cons]
  omega

/-- CityHash64 of four to eight bytes. -/
theorem cityHash64_of_4to8 {bytes : List UInt8} (hlow : 4 ≤ bytes.length)
    (hhigh : bytes.length ≤ 8) :
    cityHash64 ⟨bytes, 0⟩ (UInt64.ofNat bytes.length) = .ok (hashLen4to8 bytes) := by
  have hlen : (UInt64.ofNat bytes.length).toNat = bytes.length := by
    rw [UInt64.toNat_ofNat']
    omega
  have h32 : UInt64.ofNat bytes.length ≤ 32 := UInt64.le_iff_toNat_le.mpr (by
    rw [hlen]; exact hhigh.trans (by decide))
  have h16 : UInt64.ofNat bytes.length ≤ 16 := UInt64.le_iff_toNat_le.mpr (by
    rw [hlen]; exact hhigh.trans (by decide))
  have h8 : ¬ UInt64.ofNat bytes.length > 8 := fun h => absurd (UInt64.lt_iff_toNat_lt.mp h) (by
    rw [hlen]; exact Nat.not_lt.mpr hhigh)
  have h4 : UInt64.ofNat bytes.length ≥ 4 := UInt64.le_iff_toNat_le.mpr (by rw [hlen]; exact hlow)
  have hfirst : fetch32 ⟨bytes, 0⟩ = .ok (fetch (bytes.take 4)) := by
    rw [fetch32, load, if_pos]
    · rfl
    · simp only
      omega
  have hlast : fetch32 ((⟨bytes, 0⟩ : CharPtr) + bytes.length - 4) =
      .ok (fetch (bytes.drop (bytes.length - 4))) := by
    have hpos : ((⟨bytes, 0⟩ : CharPtr) + bytes.length - 4).pos.toNat = bytes.length - 4 := by
      simp only [CharPtr.sub_pos, CharPtr.add_pos]
      omega
    rw [fetch32, load, if_pos, hpos]
    · simp only [CharPtr.sub_bytes, CharPtr.add_bytes]
      rw [List.take_of_length_le (by rw [List.length_drop]; omega)]
    · simp only [CharPtr.sub_pos, CharPtr.sub_bytes, CharPtr.add_pos, CharPtr.add_bytes]
      omega
  rw [cityHash64, if_pos h32, if_pos h16, hashLen0to16, if_neg h8, if_pos h4, hlen, hfirst, hlast]
  rfl

/-- Shifting the lower half of a pointer by three bits loses none of them. -/
theorem toNat_shifted_lower (p : UInt64) :
    ((8 : UInt64) + (fetch ((pointerBytes p).take 4) <<< 3)).toNat = 8 + p.toNat % 2 ^ 32 * 8 := by
  have hshift : (3 : UInt64).toNat % 64 = 3 := rfl
  have height : (8 : UInt64).toNat = 8 := rfl
  rw [UInt64.toNat_add, UInt64.toNat_shiftLeft, toNat_fetch_lower, hshift, height,
    Nat.shiftLeft_eq]
  omega

/-- The hash of a pointer variable, in its two halves. -/
theorem cityHash64_pointer (p : UInt64) : cityHash64 ⟨pointerBytes p, 0⟩ 8 = .ok (hashLen16
    ((8 : UInt64) + (fetch ((pointerBytes p).take 4) <<< 3))
    (fetch ((pointerBytes p).drop 4))) := by
  have hbytes : (pointerBytes p).length = 8 := by simp [pointerBytes]
  exact cityHash64_of_4to8 (by omega) (by omega)

/-- The upper half is the second word of `HashLen16`, so with it fixed the hash is a permutation
of the first word, which has the lower half. -/
theorem cityHash64_pointer_inj {p q : UInt64} (hregion : p.toNat / 2 ^ 32 = q.toNat / 2 ^ 32)
    (hhash : cityHash64 ⟨pointerBytes p, 0⟩ 8 = cityHash64 ⟨pointerBytes q, 0⟩ 8) : p = q := by
  have hupper : fetch ((pointerBytes p).drop 4) = fetch ((pointerBytes q).drop 4) := by
    rw [← UInt64.toNat_inj, toNat_fetch_upper, toNat_fetch_upper, hregion]
  rw [cityHash64_pointer, cityHash64_pointer, Except.ok.injEq, hupper] at hhash
  have hlower := congrArg UInt64.toNat (hashLen16_injective _ hhash)
  rw [toNat_shifted_lower, toNat_shifted_lower] at hlower
  rw [← UInt64.toNat_inj]
  omega

/-- **Pointers into one region of 4 GiB never collide.** Two addresses with one upper half and
one hash are the same address. -/
theorem cityHash64_pointer_eq_iff (p q : UInt64) :
    (p.toNat / 2 ^ 32 = q.toNat / 2 ^ 32 ∧
      cityHash64 ⟨pointerBytes p, 0⟩ 8 = cityHash64 ⟨pointerBytes q, 0⟩ 8) ↔ p = q := by
  constructor
  · rintro ⟨hregion, hhash⟩
    exact cityHash64_pointer_inj hregion hhash
  · rintro rfl
    exact ⟨rfl, rfl⟩

/-! ### Seeds -/

theorem seeded_injective (seed0 seed1 : UInt64) :
    Function.Injective fun h => hashLen16 (h - seed0) seed1 := by
  intro h h' heq
  exact UInt64.sub_left_inj seed0 |>.mp (hashLen16_injective seed1 heq)

theorem sub_sub_word (a b : UInt64) : a - (a - b) = b := by grind

/-- **Seeds neither merge nor separate inputs.** Under the same two seeds, two inputs have the
same hash exactly when they have the same hash without seeds. And an input that is hashed has
every 64-bit number as its hash, under exactly one first seed for each second one. -/
theorem cityHash64WithSeeds_seeds {s : CharPtr} {len : UInt64} (hread : Readable s len.toNat)
    (seed1 : UInt64) :
    (∀ s' len' seed0, cityHash64WithSeeds s len seed0 seed1 =
        cityHash64WithSeeds s' len' seed0 seed1 ↔ cityHash64 s len = cityHash64 s' len') ∧
      ∀ v, ∃! seed0, cityHash64WithSeeds s len seed0 seed1 = .ok v := by
  constructor
  · intro s' len' seed0
    exact bind_ok_inj (seeded_injective seed0 seed1)
  · intro v
    obtain ⟨h, hh⟩ := (cityHash64_returns s len).mpr hread
    -- the seed has to make up the difference to the one word that is hashed to `v`
    obtain ⟨u, hu⟩ := (hashLen16_bijective seed1).2 v
    have hvalue : ∀ seed0, cityHash64WithSeeds s len seed0 seed1 =
        .ok (hashLen16 (h - seed0) seed1) := by
      intro seed0
      rw [cityHash64WithSeeds, hh, ok_bind]
    refine ⟨h - u, ?_, ?_⟩
    · simp only [hvalue, Except.ok.injEq]
      rw [sub_sub_word]
      exact hu
    · intro seed0 hseed
      rw [hvalue, Except.ok.injEq] at hseed
      have hsub : h - seed0 = u := hashLen16_injective seed1 (hseed.trans hu.symm)
      rw [← hsub, sub_sub_word]

/-- The seeds of the hash of two bytes. -/
theorem cityHash64WithSeeds_seeds_two :
    (∀ s' len' seed0, cityHash64WithSeeds ⟨[1, 2], 0⟩ 2 seed0 k2 =
        cityHash64WithSeeds s' len' seed0 k2 ↔ cityHash64 ⟨[1, 2], 0⟩ 2 = cityHash64 s' len') ∧
      ∀ v, ∃! seed0, cityHash64WithSeeds ⟨[1, 2], 0⟩ 2 seed0 k2 = .ok v :=
  cityHash64WithSeeds_seeds (Or.inr (by decide)) k2

end LibreKV.Hash
