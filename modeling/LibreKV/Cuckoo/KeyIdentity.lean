import LibreKV.Cuckoo.PutSound

/-!
# LibreKV.Cuckoo.KeyIdentity

What `librekv_cuckoo_put` takes for the key.

The parameter `key` points to a string, but `keyfrag` converts the pointer itself to a
number, and `hash` is given the address of the pointer variable. Two equal strings are the
same key to the table only when their addresses cannot be told apart by these two functions.
-/

namespace LibreKV.Cuckoo

/-- The bytes of the process. -/
abbrev Memory := UInt64 → UInt8

/-- The zero-terminated string `str` is stored at `p`. -/
structure CStringAt (mem : Memory) (p : UInt64) (str : List UInt8) : Prop where
  nonnull : p ≠ 0
  bytes : ∀ i (h : i < str.length), mem (p + UInt64.ofNat i) = str[i]
  nonzero : ∀ b ∈ str, b ≠ 0
  terminated : mem (p + UInt64.ofNat str.length) = 0

/-- A put with the key pointer `p` and one with the key pointer `q` compute the same
fragments and the same hash, and have the same result and the same effect on every table. -/
structure SameEffect (CityHash64 : List UInt8 → UInt64) (p q : UInt64) : Prop where
  fragments : ∀ id ∈ [(0 : UInt32), 1], ∃ f, keyfrag p id = .ok f ∧ keyfrag q id = .ok f
  keyHash : hash CityHash64 p = hash CityHash64 q
  put : ∀ (m : Module) (table : TablePtr) (value : UInt64) (rand : ℕ → ℕ),
    librekvCuckooPut CityHash64 m table p value rand =
      librekvCuckooPut CityHash64 m table q value rand

/-- A key stands for its string: wherever one string is stored at both addresses, a put
cannot tell them apart. -/
def KeyedByContents (CityHash64 : List UInt8 → UInt64) (mem : Memory) (p q : UInt64) : Prop :=
  ∀ str, CStringAt mem p str → CStringAt mem q str → SameEffect CityHash64 p q

/-- Two addresses that `keyfrag` accepts, that agree in the 30 bits it reads, and whose
bytes are a collision of CityHash64. -/
def AddressesCollide (CityHash64 : List UInt8 → UInt64) (p q : UInt64) : Prop :=
  8 ≤ p ∧ 8 ≤ q ∧ p.toNat % 2 ^ 30 = q.toNat % 2 ^ 30 ∧
    CityHash64 (pointerBytes p) = CityHash64 (pointerBytes q)

/-- Fragment 0 is the low 15 bits of the address. -/
theorem keyfrag_zero {p : UInt64} (hp : 8 ≤ p) :
    ∃ f, keyfrag p 0 = .ok f ∧ f.toNat = p.toNat % 2 ^ 15 := by
  refine ⟨_, by rw [keyfrag, if_neg (by simpa using hp)], ?_⟩
  have hmask : keyfragMask.toUInt32.toNat = 2 ^ 15 - 1 := rfl
  have hshift : (0 * keyfragBits : UInt32) = 0 := rfl
  rw [hshift, UInt32.toNat_and, hmask, Nat.and_two_pow_sub_one_eq_mod, UInt32.toNat_shiftRight,
    UInt64.toNat_toUInt32]
  simp only [UInt32.toNat_zero, Nat.zero_mod, Nat.shiftRight_zero]
  omega

/-- Fragment 1 is the next 15 bits. -/
theorem keyfrag_one {p : UInt64} (hp : 8 ≤ p) :
    ∃ f, keyfrag p 1 = .ok f ∧ f.toNat = p.toNat / 2 ^ 15 % 2 ^ 15 := by
  refine ⟨_, by rw [keyfrag, if_neg (by simpa using hp)], ?_⟩
  have hmask : keyfragMask.toUInt32.toNat = 2 ^ 15 - 1 := rfl
  have hshift : (1 * keyfragBits : UInt32).toNat % 32 = 15 := rfl
  rw [UInt32.toNat_and, hmask, Nat.and_two_pow_sub_one_eq_mod, UInt32.toNat_shiftRight,
    UInt64.toNat_toUInt32, hshift, Nat.shiftRight_eq_div_pow]
  omega

/-- `keyfrag` accepts only keys from its bound on. -/
theorem le_of_keyfrag_ok {p : UInt64} {id f : UInt32} (h : keyfrag p id = .ok f) : 8 ≤ p := by
  by_contra hlt
  rw [keyfrag, if_pos (UInt64.not_le.mp hlt)] at h
  cases h

/-- Two accepted addresses have the same fragments iff they agree in their low 30 bits. -/
theorem keyfrag_eq_iff {p q : UInt64} (hp : 8 ≤ p) (hq : 8 ≤ q) :
    (keyfrag p 0 = keyfrag q 0 ∧ keyfrag p 1 = keyfrag q 1) ↔
      p.toNat % 2 ^ 30 = q.toNat % 2 ^ 30 := by
  obtain ⟨f, hf, hfv⟩ := keyfrag_zero hp
  obtain ⟨f', hf', hfv'⟩ := keyfrag_zero hq
  obtain ⟨g, hg, hgv⟩ := keyfrag_one hp
  obtain ⟨g', hg', hgv'⟩ := keyfrag_one hq
  rw [hf, hf', hg, hg', Except.ok.injEq, Except.ok.injEq, ← UInt32.toNat_inj,
    ← UInt32.toNat_inj, hfv, hfv', hgv, hgv']
  omega

/-- The hands built from two addresses with the same fragments are the same. -/
theorem handFor_congr {p q : UInt64} (h₀ : keyfrag p 0 = keyfrag q 0)
    (h₁ : keyfrag p 1 = keyfrag q 1) (maxIndex : UInt16) {fn : ℕ} (hfn : fn < numHash)
    (h o : UInt64) : handFor maxIndex p fn h o = handFor maxIndex q fn h o := by
  rcases eq_zero_or_one hfn with rfl | rfl
  · simp only [handFor, show UInt32.ofNat 0 = 0 from rfl,
      show UInt32.ofNat ((0 + 1) % numHash) = 1 from rfl, h₀, h₁]
  · simp only [handFor, show UInt32.ofNat 1 = 1 from rfl,
      show UInt32.ofNat ((1 + 1) % numHash) = 0 from rfl, h₀, h₁]

/-- A put uses its key only for the null test, the two fragments and the hash. -/
theorem put_congr {CityHash64 : List UInt8 → UInt64} {p q : UInt64} (hp : p ≠ 0) (hq : q ≠ 0)
    (h₀ : keyfrag p 0 = keyfrag q 0) (h₁ : keyfrag p 1 = keyfrag q 1)
    (hhash : hash CityHash64 p = hash CityHash64 q) (m : Module) (table : TablePtr)
    (value : UInt64) (rand : ℕ → ℕ) :
    librekvCuckooPut CityHash64 m table p value rand =
      librekvCuckooPut CityHash64 m table q value rand := by
  simp only [librekvCuckooPut, cuckooPut, hp, hq, false_or, hhash,
    handFor_congr h₀ h₁ m.maxIndex (mod_numHash_lt _)]

/-- **A put keys by address.** For a string stored at both `p` and `q`, the two puts are
interchangeable exactly when the addresses collide. -/
theorem keyedByContents_iff {CityHash64 : List UInt8 → UInt64} {mem : Memory} {p q : UInt64}
    (hstr : ∃ str, CStringAt mem p str ∧ CStringAt mem q str) :
    KeyedByContents CityHash64 mem p q ↔ AddressesCollide CityHash64 p q := by
  constructor
  · intro hkeyed
    obtain ⟨str, hp, hq⟩ := hstr
    obtain ⟨hfrag, hhash, -⟩ := hkeyed str hp hq
    obtain ⟨f, hf, hf'⟩ := hfrag 0 (by simp)
    obtain ⟨g, hg, hg'⟩ := hfrag 1 (by simp)
    have hp8 := le_of_keyfrag_ok hf
    have hq8 := le_of_keyfrag_ok hf'
    have hlow := (keyfrag_eq_iff hp8 hq8).mp ⟨hf.trans hf'.symm, hg.trans hg'.symm⟩
    exact ⟨hp8, hq8, hlow, hhash⟩
  · intro hcollide str hp hq
    obtain ⟨hp8, hq8, hlow, hhash⟩ := hcollide
    obtain ⟨h₀, h₁⟩ := (keyfrag_eq_iff hp8 hq8).mpr hlow
    refine ⟨?_, hhash, put_congr hp.nonnull hq.nonnull h₀ h₁ hhash⟩
    intro id hid
    obtain ⟨f, hf⟩ := keyfrag_ok hp8 id
    rcases List.mem_cons.mp hid with rfl | hid
    · exact ⟨f, hf, h₀.symm.trans hf⟩
    · obtain rfl := List.mem_singleton.mp hid
      exact ⟨f, hf, h₁.symm.trans hf⟩

/-- The string `"k"` stored at two page boundaries. -/
def twoCopies : Memory := fun a => if a = 0x1000 ∨ a = 0x2000 then 0x6b else 0

theorem twoCopies_at : CStringAt twoCopies 0x1000 [0x6b] ∧ CStringAt twoCopies 0x2000 [0x6b] :=
  ⟨⟨by decide, by decide, by simp, by decide⟩, ⟨by decide, by decide, by simp, by decide⟩⟩

/-- The two copies of `"k"`: their addresses do not collide, and they are two keys. -/
theorem keyedByContents_iff_twoCopies :
    KeyedByContents hashLen4to8 twoCopies 0x1000 0x2000 ↔
      AddressesCollide hashLen4to8 0x1000 0x2000 :=
  keyedByContents_iff ⟨[0x6b], twoCopies_at⟩

/-- Whatever CityHash64 is, the two copies of `"k"` are not one key: their first fragments
are the addresses themselves. -/
theorem twoCopies_not_keyedByContents :
    ¬ ∃ CityHash64, KeyedByContents CityHash64 twoCopies 0x1000 0x2000 := by
  intro hex
  obtain ⟨CityHash64, h⟩ := hex
  obtain ⟨f, hp, hq⟩ := (h [0x6b] twoCopies_at.1 twoCopies_at.2).fragments 0 (by simp)
  have hne : keyfrag 0x1000 0 ≠ keyfrag 0x2000 0 := by decide
  exact hne (hp.trans hq.symm)

end LibreKV.Cuckoo
