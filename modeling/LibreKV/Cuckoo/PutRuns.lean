import Mathlib.Data.Fintype.Prod
import Mathlib.Data.Fintype.Card
import LibreKV.Lib.Transition
import LibreKV.Cuckoo.PutSound

/-!
# LibreKV.Cuckoo.PutRuns

Runs of `librekv_cuckoo_put` on a created table.

The first result is about identity: whatever evictions and undone walks a run goes through,
the valid slots of the table and the puts that returned 1 correspond one to one, and each
slot holds its put in one of the key's two buckets. The second is about number: the counter
`current_entries` is the number of valid slots, and a slot once valid stays valid.
-/

namespace LibreKV.Cuckoo

open Transition Exchange

/-- The arguments of a put, with the outcomes of the `rand()` calls it makes. -/
structure PutCall where
  key : UInt64
  value : UInt64
  rand : ℕ → ℕ

/-- A put on the table at `a` that returns. -/
def PutStep (CityHash64 : List UInt8 → UInt64) (a : ℕ) (m : Module) (call : PutCall × Int)
    (m' : Module) : Prop :=
  librekvCuckooPut CityHash64 m (.addr a) call.1.key call.1.value call.1.rand =
    .ok (call.2, m')

variable {CityHash64 : List UInt8 → UInt64} {a : ℕ}

/-- What a returning put does: it places the key and counts it, or changes nothing. -/
theorem PutStep.cases {m m' : Module} {t : CuckooHashTable} {c : PutCall} {r : Int}
    (hlive : Live m a t) (h : PutStep CityHash64 a m (c, r) m') :
    (r = 1 ∧ 8 ≤ c.key ∧ ∃ t', Placed t t' (keyItem CityHash64 c.key c.value) ∧
        m' = { m.save (.addr a) t' with currentEntries := m.currentEntries + 1 }) ∨
      (r = -1 ∧ m' = m) := by
  have hcases : PutCases CityHash64 m a t c.key c.value
      (librekvCuckooPut CityHash64 m (.addr a) c.key c.value c.rand) :=
    cuckooPut_cases hlive maxCuckooCount c.key c.value c.rand
  have hret : librekvCuckooPut CityHash64 m (.addr a) c.key c.value c.rand = .ok (r, m') := h
  rw [hret] at hcases
  cases hcases with
  | rejected _ => exact Or.inr ⟨rfl, rfl⟩
  | stored t' _ hkey hpl => exact Or.inl ⟨rfl, hkey, t', hpl, rfl⟩
  | undone _ _ => exact Or.inr ⟨rfl, rfl⟩

/-- Placing a key keeps the table live. -/
theorem Live.stored {m : Module} {t : CuckooHashTable} (hlive : Live m a t)
    (t' : CuckooHashTable) :
    Live { m.save (.addr a) t' with currentEntries := m.currentEntries + 1 } a t' where
  heap := by simp
  global := hlive.global
  maxIndex := hlive.maxIndex
  maxEntries := hlive.maxEntries

/-! ### Which put each slot holds -/

/-- The items stored by the calls of a run: entry `i` is the item of the `i`-th call if that
call returned 1. -/
def register (CityHash64 : List UInt8 → UInt64) (log : List (PutCall × Int)) (i : ℕ) :
    Option Item :=
  match log[i]? with
  | some (c, r) => if r = 1 then some (keyItem CityHash64 c.key c.value) else none
  | none => none

theorem register_of_le {log : List (PutCall × Int)} {i : ℕ} (h : log.length ≤ i) :
    register CityHash64 log i = none := by
  rw [register, List.getElem?_eq_none h]

theorem register_snoc (log : List (PutCall × Int)) (c : PutCall) (r : Int) :
    register CityHash64 (log ++ [(c, r)]) =
      Function.update (register CityHash64 log) log.length
        (if r = 1 then some (keyItem CityHash64 c.key c.value) else none) := by
  funext i
  rcases lt_trichotomy i log.length with hi | rfl | hi
  · rw [Function.update_of_ne (Nat.ne_of_lt hi), register, register,
      List.getElem?_append_left hi]
  · simp [register]
  · rw [Function.update_of_ne (Nat.ne_of_gt hi), register_of_le (by simp; omega),
      register_of_le (Nat.le_of_lt hi)]

/-- A defined entry of the register is a put that returned 1. -/
theorem register_eq_some {log : List (PutCall × Int)} {i : ℕ} {x : Item}
    (h : register CityHash64 log i = some x) :
    ∃ c, log[i]? = some (c, 1) ∧ x = keyItem CityHash64 c.key c.value := by
  unfold register at h
  cases hi : log[i]? with
  | none => simp [hi] at h
  | some p =>
      obtain ⟨c, r⟩ := p
      simp only [hi] at h
      by_cases hr : r = 1
      · subst hr
        rw [if_pos rfl] at h
        exact ⟨c, rfl, (Option.some.inj h).symm⟩
      · rw [if_neg hr] at h
        cases h

/-- The invariant of a run: the table is live, its valid slots match the puts that returned
1, and each of these had a key that `keyfrag` accepts. -/
structure Ledger (CityHash64 : List UInt8 → UInt64) (a : ℕ) (log : List (PutCall × Int))
    (m : Module) : Prop where
  matched : ∃ t, Live m a t ∧ Matches t.item (register CityHash64 log)
  accepted : ∀ (i : ℕ) (c : PutCall), log[i]? = some (c, 1) → 8 ≤ c.key

theorem Ledger.nil {m : Module} (hlive : Live m a .zeroed) : Ledger CityHash64 a [] m where
  matched :=
    ⟨.zeroed, hlive, matches_empty (fun s => item_eq_none (zeroed_isValid s)) (fun _ => rfl)⟩
  accepted := fun i c h => by simp at h

/-- Every returning put keeps the ledger: a placed key is one more item, taken into the hand
and exchanged with slots until the hand is empty again. -/
theorem Ledger.step {log : List (PutCall × Int)} {m m' : Module} {c : PutCall} {r : Int}
    (h : Ledger CityHash64 a log m) (hput : PutStep CityHash64 a m (c, r) m') :
    Ledger CityHash64 a (log ++ [(c, r)]) m' := by
  obtain ⟨⟨t, hlive, hmatch⟩, hacc⟩ := h
  have hacc' : (r = 1 → 8 ≤ c.key) → ∀ (i : ℕ) (c' : PutCall),
      (log ++ [(c, r)])[i]? = some (c', 1) → 8 ≤ c'.key := by
    intro hr i c' hi
    rcases lt_trichotomy i log.length with hlt | rfl | hgt
    · exact hacc i c' (by rwa [List.getElem?_append_left hlt] at hi)
    · rw [List.getElem?_concat_length] at hi
      obtain ⟨rfl, rfl⟩ := Prod.mk.inj (Option.some.inj hi)
      exact hr rfl
    · rw [List.getElem?_eq_none (by simp; omega)] at hi
      cases hi
  rcases hput.cases hlive with ⟨rfl, hkey, t', hpl, rfl⟩ | ⟨rfl, rfl⟩
  · refine ⟨⟨t', hlive.stored t', ?_⟩, hacc' fun _ => hkey⟩
    obtain ⟨π, hπ⟩ := hpl.exchanged
    have htake := hmatch.take (register_of_le (le_refl log.length))
      (keyItem CityHash64 c.key c.value)
    apply Matches.of_withHand_none
    rw [hπ, register_snoc, if_pos rfl]
    exact htake.comp_perm π
  · refine ⟨⟨t, hlive, ?_⟩, hacc' fun h => absurd h (by decide)⟩
    rw [register_snoc, if_neg (by decide), ← register_of_le (le_refl log.length),
      Function.update_eq_self]
    exact hmatch

theorem Ledger.of_run {m₀ m₁ m : Module} {log : List (PutCall × Int)}
    (hcreate : librekvCuckooCreate m₀ = (.addr a, m₁))
    (hrun : Run (PutStep CityHash64 a) m₁ log m) : Ledger CityHash64 a log m :=
  hrun.invariantLog (Ledger.nil (create_live hcreate).1) fun _ _ _ _ h hs => h.step hs

/-- The slot `s` of `t` holds the entry that the put `c` stored: its hash, its offset, and
the two key fragments as bucket and tag, in one of the two orders. -/
structure SlotHolds (CityHash64 : List UInt8 → UInt64) (t : CuckooHashTable) (s : Slot)
    (c : PutCall) : Prop where
  keyHash : (t.bucketArray s).keyHash = hash CityHash64 c.key
  offset : (t.bucketArray s).offset = c.value
  buckets : ∃ f₀ f₁, keyfrag c.key 0 = .ok f₀ ∧ keyfrag c.key 1 = .ok f₁ ∧
    ((s.1.val = f₀.toNat ∧ (t.bucketArray s).keyfragment.toNat = f₁.toNat) ∨
      (s.1.val = f₁.toNat ∧ (t.bucketArray s).keyfragment.toNat = f₀.toNat))

/-- A valid slot whose item is that of a put holds this put. -/
theorem slotHolds_of_item {t : CuckooHashTable} {s : Slot} {c : PutCall} (hkey : 8 ≤ c.key)
    (h : t.item s = some (keyItem CityHash64 c.key c.value)) : SlotHolds CityHash64 t s c := by
  have hv : (t.bucketArray s).isValid = true := by
    rw [← item_isSome, h]
    rfl
  simp only [CuckooHashTable.item, hv, if_true, keyItem, Option.some.injEq,
    Item.mk.injEq] at h
  obtain ⟨hb, hhash, hoff⟩ := h
  obtain ⟨f₀, hf₀⟩ := keyfrag_ok hkey 0
  obtain ⟨f₁, hf₁⟩ := keyfrag_ok hkey 1
  rw [fragment_eq hf₀, fragment_eq hf₁, Sym2.eq_iff] at hb
  exact ⟨hhash, hoff, f₀, f₁, hf₀, hf₁, hb⟩

/-! ### A run that fills three buckets -/

/-- The state after `librekv_cuckoo_create` in a fresh process. -/
def createdModule : Module := (librekvCuckooCreate .initial).2

theorem create_initial : librekvCuckooCreate .initial = (.addr 0, createdModule) := rfl

/-- A put whose fragments are bucket 8 and bucket 2. -/
def firstPut : PutCall := ⟨0x10008, 5, fun _ => 0⟩

/-- A put whose fragments are bucket 8 and bucket 3. -/
def secondPut : PutCall := ⟨0x18008, 6, fun _ => 0⟩

/-- A put whose fragments are both bucket 3. -/
def thirdPut : PutCall := ⟨0x18003, 7, fun _ => 0⟩

/-- A put without a value. -/
def nullPut : PutCall := ⟨0x10008, 0, fun _ => 0⟩

/-- Puts that fill the buckets 8, 2 and 3. The ninth makes two evictions. -/
def fillingPuts : List (PutCall × Int) :=
  List.replicate 4 (secondPut, 1) ++ List.replicate 5 (firstPut, 1) ++
    List.replicate 3 (thirdPut, 1)

/-- The table after the puts of `log`. -/
def tableAfter (CityHash64 : List UInt8 → UInt64) (log : List (PutCall × Int)) :
    Option CuckooHashTable :=
  (log.foldlM (returned fun m (c : PutCall) =>
    librekvCuckooPut CityHash64 m (.addr 0) c.key c.value c.rand) createdModule).bind
      fun m => m.heap 0

/-- Puts whose table can be computed are a run. -/
theorem run_of_tableAfter {log : List (PutCall × Int)} {P : CuckooHashTable → Prop}
    (h : ∃ t ∈ tableAfter CityHash64 log, P t) :
    ∃ m, Run (PutStep CityHash64 0) createdModule log m ∧ ∃ t, m.heap 0 = some t ∧ P t := by
  obtain ⟨t, ht, hP⟩ := h
  obtain ⟨m, hm, hheap⟩ := Option.bind_eq_some_iff.mp ht
  exact ⟨m, .of_returned hm, t, hheap, hP⟩

/-- A put of a key whose buckets are saturated returns -1 and changes nothing. -/
theorem PutStep.of_saturated {m : Module} {t : CuckooHashTable} {B : Finset ℕ} {c : PutCall}
    (hlive : Live m a t) (hB : t.Saturated B) (hvalue : c.value ≠ 0) (hkey : 8 ≤ c.key)
    (hfirst : fragment c.key 0 ∈ B) (hsecond : fragment c.key 1 ∈ B) :
    PutStep CityHash64 a m (c, -1) m :=
  cuckooPut_of_saturated hlive.heap hlive.maxIndex hvalue hkey maxCuckooCount c.rand hB hfirst
    hsecond

/-- The filling puts, one more put of a key of theirs, and one without a value. -/
def manyPuts : List (PutCall × Int) := fillingPuts ++ [(firstPut, -1)] ++ [(nullPut, -1)]

/-- Whatever they hash to, keys that saturate the buckets make a run of the many puts. -/
theorem run_of_saturated
    (h : ∃ t ∈ tableAfter CityHash64 fillingPuts, t.Saturated {8, 2, 3}) :
    ∃ m, Run (PutStep CityHash64 0) createdModule manyPuts m ∧
      ∃ t, Live m 0 t ∧ t.Saturated {8, 2, 3} := by
  obtain ⟨m, hrun, t, hheap, hB⟩ := run_of_tableAfter h
  obtain ⟨t', hlive, -⟩ := (Ledger.of_run create_initial hrun).matched
  obtain rfl := Option.some.inj (hlive.heap.symm.trans hheap)
  have hundone : PutStep CityHash64 0 m (firstPut, -1) m :=
    .of_saturated hlive hB (by decide) (by decide) (by decide) (by decide)
  have hnull : PutStep CityHash64 0 m (nullPut, -1) m := rfl
  exact ⟨m, .snoc (.snoc hrun hundone) hnull, _, hlive, hB⟩

theorem manyPuts_run : ∃ m, Run (PutStep hashLen4to8 0) createdModule manyPuts m ∧
    ∃ t, Live m 0 t ∧ t.Saturated {8, 2, 3} :=
  run_of_saturated (by decide +kernel)

/-- **No successful put is lost, duplicated or misplaced.** After a successful create and any
puts, the valid slots correspond one to one to the puts that returned 1, and every valid
slot holds its put in one of the key's two buckets. -/
theorem valid_slots_biject_puts {m₀ m₁ m : Module} {log : List (PutCall × Int)}
    (hcreate : librekvCuckooCreate m₀ = (.addr a, m₁))
    (hrun : Run (PutStep CityHash64 a) m₁ log m) :
    ∃ t, m.heap a = some t ∧ ∃ e : Slot → ℕ,
      Set.BijOn e {s | (t.bucketArray s).isValid = true} {i | ∃ c, log[i]? = some (c, 1)} ∧
      ∀ s, (t.bucketArray s).isValid = true →
        ∃ c, log[e s]? = some (c, 1) ∧ SlotHolds CityHash64 t s c := by
  obtain ⟨⟨t, hlive, e, he, hag⟩, hacc⟩ := Ledger.of_run hcreate hrun
  have hvalid : {s | (t.item s).isSome = true} = {s | (t.bucketArray s).isValid = true} := by
    ext s
    simp only [Set.mem_ofPred_eq, item_isSome]
  have hreg : {i | (register CityHash64 log i).isSome = true} =
      {i | ∃ c, log[i]? = some (c, 1)} := by
    ext i
    simp only [Set.mem_ofPred_eq]
    constructor
    · intro h
      obtain ⟨x, hx⟩ := Option.isSome_iff_exists.mp h
      obtain ⟨c, hc, -⟩ := register_eq_some hx
      exact ⟨c, hc⟩
    · intro hput
      obtain ⟨c, hc⟩ := hput
      simp [register, hc]
  rw [hvalid, hreg] at he
  refine ⟨t, hlive.heap, e, he, fun s hs => ?_⟩
  have hs' : (t.item s).isSome := by rw [item_isSome, hs]
  obtain ⟨x, hx⟩ := Option.isSome_iff_exists.mp hs'
  have hitem := hag s hs'
  rw [hx] at hitem
  obtain ⟨c, hc, rfl⟩ := register_eq_some hitem
  exact ⟨c, hc, slotHolds_of_item (hacc _ c hc) hx⟩

/-- Many puts, with their evictions and an undone walk. -/
theorem valid_slots_biject_puts_example : ∃ m,
    Run (PutStep hashLen4to8 0) createdModule manyPuts m ∧
      ∃ t, m.heap 0 = some t ∧ ∃ e : Slot → ℕ,
        Set.BijOn e {s | (t.bucketArray s).isValid = true} {i | ∃ c, manyPuts[i]? = some (c, 1)} ∧
        ∀ s, (t.bucketArray s).isValid = true →
          ∃ c, manyPuts[e s]? = some (c, 1) ∧ SlotHolds hashLen4to8 t s c := by
  obtain ⟨m, hrun, -⟩ := manyPuts_run
  exact ⟨m, hrun, valid_slots_biject_puts create_initial hrun⟩

/-! ### How many slots are valid -/

/-- The slots whose valid bit is set. -/
def CuckooHashTable.validSlots (t : CuckooHashTable) : Finset Slot :=
  Finset.univ.filter fun s => (t.bucketArray s).isValid = true

theorem mem_validSlots {t : CuckooHashTable} {s : Slot} :
    s ∈ t.validSlots ↔ (t.bucketArray s).isValid = true := by
  simp [CuckooHashTable.validSlots]

theorem validSlots_zeroed : CuckooHashTable.zeroed.validSlots = ∅ := by
  ext s
  simp [mem_validSlots, zeroed_isValid]

theorem validSlots_card_le (t : CuckooHashTable) :
    t.validSlots.card ≤ associativity * bucketsPerTable := by
  calc t.validSlots.card ≤ Fintype.card Slot := Finset.card_le_univ _
    _ = associativity * bucketsPerTable := by
      rw [Fintype.card_prod, Fintype.card_fin, Fintype.card_fin, Nat.mul_comm]

/-- Placing a key adds exactly one slot to the valid ones. -/
theorem Placed.validSlots {t t' : CuckooHashTable} {x : Item} (h : Placed t t' x) :
    ∃ s ∉ t.validSlots, t'.validSlots = insert s t.validSlots := by
  obtain ⟨s, hfree, hocc⟩ := h.occupied
  refine ⟨s, by simp [mem_validSlots, hfree], ?_⟩
  ext s'
  rw [mem_validSlots, Finset.mem_insert, mem_validSlots, hocc s']

/-- The counter is the number of valid slots of the live table `t`. -/
structure Counted (a : ℕ) (m : Module) (t : CuckooHashTable) : Prop where
  live : Live m a t
  count : m.currentEntries.toNat = t.validSlots.card

/-- One put: the counter and the valid slots change together, by exactly one of each, or
not at all. -/
theorem Counted.step {m m' : Module} {t : CuckooHashTable} {c : PutCall} {r : Int}
    (h : Counted a m t) (hput : PutStep CityHash64 a m (c, r) m') :
    ∃ t', Counted a m' t' ∧
      ((r = 1 ∧ m'.currentEntries.toNat = m.currentEntries.toNat + 1 ∧
          ∃ s ∉ t.validSlots, t'.validSlots = insert s t.validSlots) ∨
        (r = -1 ∧ m'.currentEntries = m.currentEntries ∧ t'.validSlots = t.validSlots)) := by
  rcases hput.cases h.live with ⟨rfl, -, t', hpl, rfl⟩ | ⟨rfl, rfl⟩
  · obtain ⟨s, hs, hins⟩ := hpl.validSlots
    have hcard : t'.validSlots.card = t.validSlots.card + 1 := by
      rw [hins, Finset.card_insert_of_notMem hs]
    -- The counter is at most the number of slots, far from the 32-bit limit.
    have hinc : (m.currentEntries + 1).toNat = m.currentEntries.toNat + 1 := by
      have hle := validSlots_card_le t
      have hnum : associativity * bucketsPerTable = 131072 := rfl
      have hcount := h.count
      rw [UInt32.toNat_add]
      simp only [UInt32.reduceToNat]
      omega
    exact ⟨t', ⟨h.live.stored t', by rw [hinc, h.count, hcard]⟩,
      Or.inl ⟨rfl, hinc, s, hs, hins⟩⟩
  · exact ⟨t, h, Or.inr ⟨rfl, rfl, rfl⟩⟩

/-- A run keeps the counter in step, and what was valid at its start is valid at its end. -/
theorem Counted.run {m m' : Module} {t : CuckooHashTable} {log : List (PutCall × Int)}
    (h : Counted a m t) (hrun : Run (PutStep CityHash64 a) m log m') :
    ∃ t', Counted a m' t' ∧ t.validSlots ⊆ t'.validSlots := by
  refine hrun.invariant ⟨t, h, subset_rfl⟩ ?_
  intro m₁ call m₂ hinv hput
  obtain ⟨c, r⟩ := call
  obtain ⟨t₁, h₁, hsub⟩ := hinv
  obtain ⟨t₂, h₂, hstep⟩ := h₁.step hput
  refine ⟨t₂, h₂, hsub.trans ?_⟩
  rcases hstep with ⟨-, -, s, -, hins⟩ | ⟨-, -, hsame⟩
  · rw [hins]
    exact Finset.subset_insert _ _
  · exact hsame.ge

/-- On a table without a free slot a put changes nothing and returns -1, unless `keyfrag`
aborts it. -/
theorem put_of_full {m : Module} {t : CuckooHashTable} (hlive : Live m a t)
    (hfull : t.validSlots = Finset.univ) (c : PutCall) :
    librekvCuckooPut CityHash64 m (.addr a) c.key c.value c.rand = .ok (-1, m) ∨
      (c.key ≠ 0 ∧ c.key < 8 ∧
        librekvCuckooPut CityHash64 m (.addr a) c.key c.value c.rand =
          .error .assertionFailed) := by
  have hcases : PutCases CityHash64 m a t c.key c.value
      (librekvCuckooPut CityHash64 m (.addr a) c.key c.value c.rand) :=
    cuckooPut_cases hlive maxCuckooCount c.key c.value c.rand
  generalize librekvCuckooPut CityHash64 m (.addr a) c.key c.value c.rand = r at hcases ⊢
  cases hcases with
  | rejected _ => exact Or.inl rfl
  | aborted hkey _ hlt => exact Or.inr ⟨hkey, hlt, rfl⟩
  | stored t' _ _ hpl =>
      obtain ⟨s, hs, -⟩ := hpl.validSlots
      rw [hfull] at hs
      exact absurd (Finset.mem_univ s) hs
  | undone _ _ => exact Or.inl rfl

/-- **The counter counts the valid slots.** After a successful create and any puts,
`current_entries` is the number of valid slots and at most `max_entries`. From there a put
that returns 1 raises it by one and makes exactly one free slot valid, a put that returns -1
leaves the valid slots as they are; no later put frees a slot; and once every slot is valid
a put returns -1. -/
theorem current_entries_counts {m₀ m₁ m : Module} {log : List (PutCall × Int)}
    (hcreate : librekvCuckooCreate m₀ = (.addr a, m₁))
    (hrun : Run (PutStep CityHash64 a) m₁ log m) :
    ∃ t, m.heap a = some t ∧ m.currentEntries.toNat = t.validSlots.card ∧
      m.currentEntries ≤ m.maxEntries ∧
      (∀ c r m', PutStep CityHash64 a m (c, r) m' → ∃ t', m'.heap a = some t' ∧
        ((r = 1 ∧ m'.currentEntries.toNat = m.currentEntries.toNat + 1 ∧
            ∃ s ∉ t.validSlots, t'.validSlots = insert s t.validSlots) ∨
          (r = -1 ∧ t'.validSlots = t.validSlots))) ∧
      (∀ log' m', Run (PutStep CityHash64 a) m log' m' →
        ∃ t', m'.heap a = some t' ∧ t.validSlots ⊆ t'.validSlots) ∧
      (t.validSlots = Finset.univ → ∀ c : PutCall,
        librekvCuckooPut CityHash64 m (.addr a) c.key c.value c.rand = .ok (-1, m) ∨
          (c.key ≠ 0 ∧ c.key < 8 ∧
            librekvCuckooPut CityHash64 m (.addr a) c.key c.value c.rand =
              .error .assertionFailed)) := by
  obtain ⟨hlive₁, hzero⟩ := create_live hcreate
  have hinit : Counted a m₁ .zeroed :=
    ⟨hlive₁, by rw [hzero, validSlots_zeroed, Finset.card_empty]; rfl⟩
  obtain ⟨t, h, -⟩ := hinit.run hrun
  refine ⟨t, h.live.heap, h.count, ?_, ?_, ?_, put_of_full h.live⟩
  · rw [UInt32.le_iff_toNat_le, h.count, h.live.maxEntries]
    exact validSlots_card_le t
  · intro c r m' hput
    obtain ⟨t', h', hstep⟩ := h.step hput
    refine ⟨t', h'.live.heap, hstep.imp id ?_⟩
    intro hsame
    obtain ⟨hr, -, hsame⟩ := hsame
    exact ⟨hr, hsame⟩
  · intro log' m' hrun'
    obtain ⟨t', h', hsub⟩ := h.run hrun'
    exact ⟨t', h'.live.heap, hsub⟩

/-- The counter after the many puts. -/
theorem current_entries_counts_example : ∃ m,
    Run (PutStep hashLen4to8 0) createdModule manyPuts m ∧
      ∃ t, m.heap 0 = some t ∧ m.currentEntries.toNat = t.validSlots.card ∧
        m.currentEntries ≤ m.maxEntries := by
  obtain ⟨m, hrun, -⟩ := manyPuts_run
  obtain ⟨t, hheap, hcount, hmax, -⟩ := current_entries_counts create_initial hrun
  exact ⟨m, hrun, t, hheap, hcount, hmax⟩

end LibreKV.Cuckoo
