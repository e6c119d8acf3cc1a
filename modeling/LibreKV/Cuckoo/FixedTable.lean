import LibreKV.Cuckoo.ImmutableSound

/-!
# LibreKV.Cuckoo.FixedTable

What `librekv_cuckoo_fix` protects a table from.

`librekv_cuckoo_put` never reads `fixFlag`, so a fixed table stays as it is exactly as long as
no put finds a free slot. Which buckets a put looks at is told by its walk (`evictions`): the
walk is followed on the table alone, without the bookkeeping of the loop, and the loop gives
up iff every bucket the walk comes to is full in the table as it was before the call
(`kickLoop_gives_up_iff`).
-/

namespace LibreKV.Cuckoo

open Transition

/-! ### The walk of a put -/

/-- The table and the hand after `k` evictions, the first of them number `n`. -/
def evictions (rand : ℕ → ℕ) : (k n : ℕ) → CuckooHashTable → Hand → CuckooHashTable × Hand
  | 0, _, t, c => (t, c)
  | k + 1, n, t, c =>
    evictions rand k (n + 1) (kick t c (victimWay rand n)).1 (kick t c (victimWay rand n)).2

/-- The bucket the walk has come to after `k` evictions. -/
def walkBucket (rand : ℕ → ℕ) (k n : ℕ) (t : CuckooHashTable) (c : Hand) : ℕ :=
  (evictions rand k n t c).2.index.toNat

section Loop

variable {maxIndex : UInt16} (hM : maxIndex.toNat = bucketsPerTable) (rand : ℕ → ℕ)
include hM

/-- The eviction loop gives up iff its whole walk leads through full buckets. -/
theorem kickLoop_gives_up_iff : ∀ (fuel n : ℕ) (t : CuckooHashTable) (c : Hand)
    (undo : List UndoRecord), c.InRange →
    ((∃ t' c' undo', kickLoop maxIndex rand fuel n t c undo = .ok (.exhausted t' c' undo')) ↔
      ∀ k < fuel, t.BucketFull (walkBucket rand k n t c))
  | 0, _, t, c, undo, _ => by
      constructor
      · intro _ k hk
        exact absurd hk (Nat.not_lt_zero k)
      · intro _
        exact ⟨t, c, undo, rfl⟩
  | fuel + 1, n, t, c, undo, hc => by
      by_cases hfull : t.BucketFull c.index.toNat
      · rw [kickLoop_of_full hM rand hc hfull,
          kickLoop_gives_up_iff fuel (n + 1) _ _ _ (hc.kick t _)]
        simp only [bucketFull_kick hc hfull]
        constructor
        · intro h k hk
          cases k with
          | zero => exact hfull
          | succ k => exact h k (Nat.lt_of_succ_lt_succ hk)
        · intro h k hk
          exact h (k + 1) (Nat.succ_lt_succ hk)
      · obtain ⟨t', hk, -⟩ := @kickLoop_of_room maxIndex rand _ _ hc hfull fuel n undo
        constructor
        · intro hex
          obtain ⟨t₁, c₁, undo₁, h⟩ := hex
          rw [hk] at h
          cases h
        · intro h
          exact absurd (h 0 (Nat.succ_pos fuel)) hfull

end Loop

/-! ### The puts that find no room -/

/-- The put is refused or aborted for its arguments, or every bucket it looks at is full:
its first candidate bucket, and the buckets its walk comes to from the second one on. -/
def FindsNoRoom (CityHash64 : List UInt8 → UInt64) (m : Module) (t : CuckooHashTable)
    (call : PutCall) : Prop :=
  call.value ≠ 0 → 8 ≤ call.key →
    t.BucketFull (fragment call.key (UInt32.ofNat (call.rand 0 % numHash))) ∧
      ∀ c, handFor m.maxIndex call.key ((call.rand 0 % numHash + 1) % numHash)
          (hash CityHash64 call.key) call.value = .ok c →
        ∀ k < maxCuckooCount, t.BucketFull (walkBucket call.rand k 0 t c)

/-- A put stores its key iff it finds room. -/
theorem put_stores_iff {CityHash64 : List UInt8 → UInt64} {m : Module} {a : ℕ}
    {t : CuckooHashTable} (hlive : Live m a t) (call : PutCall) :
    (∃ m', PutStep CityHash64 a m (call, 1) m') ↔ ¬ FindsNoRoom CityHash64 m t call := by
  by_cases hargs : call.value ≠ 0 ∧ 8 ≤ call.key
  · obtain ⟨hvalue, hkey⟩ := hargs
    by_cases hfull : t.BucketFull (fragment call.key (UInt32.ofNat (call.rand 0 % numHash)))
    · obtain ⟨c, hhand, hc, -⟩ := handFor_eq hlive.maxIndex hkey
        (mod_numHash_lt (call.rand 0 % numHash + 1)) (hash CityHash64 call.key) call.value
      have hwalk := kickLoop_gives_up_iff hlive.maxIndex call.rand maxCuckooCount 0 t c [] hc
      rcases cuckooPut_of_full hlive.heap hlive.maxIndex hvalue hkey maxCuckooCount call.rand
          hfull hhand with ⟨t', hk, -, hput⟩ | ⟨t', c', undo, hk, hput⟩
      · refine ⟨fun _ hno => ?_, fun _ => ⟨_, hput⟩⟩
        obtain ⟨t₁, c₁, undo₁, hgives⟩ := hwalk.mpr ((hno hvalue hkey).2 c hhand)
        rw [hk] at hgives
        cases hgives
      · constructor
        · intro hstores
          obtain ⟨m', hstores⟩ := hstores
          cases hput.symm.trans hstores
        · intro hroom
          refine absurd (fun _ _ => ⟨hfull, fun c₁ hhand₁ => ?_⟩) hroom
          obtain rfl := Except.ok.inj (hhand.symm.trans hhand₁)
          exact hwalk.mp ⟨t', c', undo, hk⟩
    · obtain ⟨t', hput, -⟩ := @cuckooPut_of_room CityHash64 _ _ _ _ _ hlive.heap hlive.maxIndex
        hvalue hkey maxCuckooCount call.rand hfull
      exact ⟨fun _ hno => hfull (hno hvalue hkey).1, fun _ => ⟨_, hput⟩⟩
  · constructor
    · intro hput
      obtain ⟨m', hput⟩ := hput
      have hcases : PutCases CityHash64 m a t call.key call.value (.ok (1, m')) :=
        hput ▸ cuckooPut_cases hlive maxCuckooCount call.key call.value call.rand
      cases hcases with
      | stored t' hvalue hkey _ => exact absurd ⟨hvalue, hkey⟩ hargs
    · intro hroom
      exact absurd (fun hvalue hkey => absurd ⟨hvalue, hkey⟩ hargs) hroom

/-- A put whose buckets are saturated finds no room. -/
theorem FindsNoRoom.of_saturated {CityHash64 : List UInt8 → UInt64} {m : Module} {a : ℕ}
    {t : CuckooHashTable} (hlive : Live m a t) {B : Finset ℕ} (hB : t.Saturated B) (call : PutCall)
    (hfirst : fragment call.key 0 ∈ B) (hsecond : fragment call.key 1 ∈ B) :
    FindsNoRoom CityHash64 m t call := by
  intro hvalue hkey
  have hput : PutStep CityHash64 a m (call, -1) m :=
    .of_saturated hlive hB hvalue hkey hfirst hsecond
  have hno : FindsNoRoom CityHash64 m t call := by
    by_contra hroom
    obtain ⟨m', hstores⟩ := (put_stores_iff hlive call).mpr hroom
    cases hput.symm.trans hstores
  exact hno hvalue hkey

/-! ### Fixed tables -/

/-- From `m` to `m'` no slot of the table at `a` and no entry count has changed. -/
def Unchanged (a : ℕ) (m m' : Module) : Prop :=
  ∃ t t', m.heap a = some t ∧ m'.heap a = some t' ∧ t'.bucketArray = t.bucketArray ∧
    m'.currentEntries = m.currentEntries

/-- The call finds no room in the table at `a`. -/
def NoRoom (CityHash64 : List UInt8 → UInt64) (a : ℕ) (m : Module) (call : PutCall × Int) :
    Prop :=
  ∀ t, m.heap a = some t → FindsNoRoom CityHash64 m t call.1

section Results

variable {CityHash64 : List UInt8 → UInt64} {a : ℕ}

theorem NoRoom.of_saturated {m : Module} {t : CuckooHashTable} {B : Finset ℕ}
    {call : PutCall × Int} (hlive : Live m a t) (hB : t.Saturated B)
    (hfirst : fragment call.1.key 0 ∈ B) (hsecond : fragment call.1.key 1 ∈ B) :
    NoRoom CityHash64 a m call := by
  intro t' ht'
  obtain rfl := Option.some.inj (hlive.heap.symm.trans ht')
  exact .of_saturated hlive hB call.1 hfirst hsecond

/-- Fixing a live table sets its flag and keeps it live. -/
theorem fix_live {m mf : Module} {t : CuckooHashTable} {r : Int} (hlive : Live m a t)
    (hfix : librekvCuckooFix m (.addr a) = .ok (r, mf)) :
    Live mf a { t with fixFlag := true } := by
  rw [fix_eq hlive.heap] at hfix
  obtain ⟨-, rfl⟩ := Prod.mk.inj (Except.ok.inj hfix)
  exact ⟨by simp, hlive.global, hlive.maxIndex, hlive.maxEntries⟩

/-- A put that finds no room leaves the whole state as it is. -/
theorem PutStep.eq_of_noRoom {m m' : Module} {t : CuckooHashTable} {call : PutCall} {r : Int}
    (hlive : Live m a t) (hroom : FindsNoRoom CityHash64 m t call)
    (hput : PutStep CityHash64 a m (call, r) m') : m' = m := by
  rcases hput.cases hlive with ⟨rfl, -⟩ | ⟨-, hsame⟩
  · exact absurd hroom ((put_stores_iff hlive call).mp ⟨m', hput⟩)
  · exact hsame

/-- One put on a live table: it leaves slots and count alone iff it finds no room. -/
theorem unchanged_iff {m : Module} {t : CuckooHashTable} (hlive : Live m a t)
    (call : PutCall) :
    (∀ r m', PutStep CityHash64 a m (call, r) m' → Unchanged a m m') ↔
      FindsNoRoom CityHash64 m t call := by
  constructor
  · intro h
    by_contra hroom
    obtain ⟨m', hput⟩ := (put_stores_iff hlive call).mpr hroom
    obtain ⟨t₀, t', -, -, -, hcount⟩ := h 1 m' hput
    rcases hput.cases hlive with ⟨-, -, t₁, -, rfl⟩ | ⟨h1, -⟩
    · exact absurd hcount (by simp)
    · exact absurd h1 (by decide)
  · intro hroom r m' hput
    rw [hput.eq_of_noRoom hlive hroom]
    exact ⟨t, t, hlive.heap, hlive.heap, rfl, rfl⟩

/-- **Only a lack of room protects a fixed table.** After a create, any puts and a fix, puts
that find no room leave every slot and the entry count as they were when the table was
fixed; and in every state so reached these are exactly the puts that do. -/
theorem fixed_table_stays {m₀ m₁ m mf m' : Module} {log log' : List (PutCall × Int)} {r : Int}
    (hcreate : librekvCuckooCreate m₀ = (.addr a, m₁))
    (hrun : Run (PutStep CityHash64 a) m₁ log m)
    (hfix : librekvCuckooFix m (.addr a) = .ok (r, mf))
    (hlater : Run (Guarded (PutStep CityHash64 a) (NoRoom CityHash64 a)) mf log' m') :
    (∃ t, mf.heap a = some t ∧ t.fixFlag = true) ∧ Unchanged a mf m' ∧
      ∀ call : PutCall, (∀ r m'', PutStep CityHash64 a m' (call, r) m'' → Unchanged a mf m'') ↔
        ∀ t, m'.heap a = some t → FindsNoRoom CityHash64 m' t call := by
  obtain ⟨t, hlive, -⟩ := (Ledger.of_run hcreate hrun).matched
  have hfixed := fix_live hlive hfix
  have hsame : m' = mf := by
    refine hlater.invariant rfl ?_
    intro s c s' hs hstep
    obtain ⟨hroom, hput⟩ := hstep
    subst hs
    exact hput.eq_of_noRoom hfixed (hroom _ hfixed.heap)
  subst hsame
  refine ⟨⟨_, hfixed.heap, rfl⟩, ⟨_, _, hfixed.heap, hfixed.heap, rfl, rfl⟩, ?_⟩
  intro call
  rw [unchanged_iff hfixed]
  constructor
  · intro hroom t' ht'
    rw [hfixed.heap] at ht'
    obtain rfl := Option.some.inj ht'
    exact hroom
  · intro h
    exact h _ hfixed.heap

/-- A fixed table with three full buckets: one more put of a key of theirs evicts, and is undone. -/
theorem fixed_table_stays_example : ∃ m mf,
    Run (PutStep hashLen4to8 0) createdModule manyPuts m ∧
      librekvCuckooFix m (.addr 0) = .ok (0, mf) ∧
      Run (Guarded (PutStep hashLen4to8 0) (NoRoom hashLen4to8 0)) mf [(firstPut, -1)] mf ∧
      Unchanged 0 mf mf ∧
      ∀ r m', PutStep hashLen4to8 0 mf (secondPut, r) m' → Unchanged 0 mf m' := by
  obtain ⟨m, hrun, t, hlive, hB⟩ := manyPuts_run
  have hfix := fix_eq hlive.heap
  have hfixed := fix_live hlive hfix
  -- the slots are those from before the fix
  have hBf : CuckooHashTable.Saturated { t with fixFlag := true } {8, 2, 3} := ⟨hB.full, hB.closed⟩
  have hfirst : NoRoom hashLen4to8 0 _ (firstPut, -1) :=
    .of_saturated hfixed hBf (by decide) (by decide)
  have hsecond : NoRoom hashLen4to8 0 _ (secondPut, -1) :=
    .of_saturated hfixed hBf (by decide) (by decide)
  have hput : PutStep hashLen4to8 0 _ (firstPut, -1) _ :=
    .of_saturated hfixed hBf (by decide) (by decide) (by decide) (by decide)
  have hlater : Run (Guarded (PutStep hashLen4to8 0) (NoRoom hashLen4to8 0)) _
      [(firstPut, -1)] _ := .snoc .nil ⟨hfirst, hput⟩
  obtain ⟨-, hsame, hiff⟩ := fixed_table_stays create_initial hrun hfix hlater
  exact ⟨m, _, hrun, hfix, hlater, hsame, (hiff secondPut).mpr hsecond⟩

/-- The empty table after `librekv_cuckoo_fix`. -/
def fixedModule : Module :=
  createdModule.save (.addr 0) { CuckooHashTable.zeroed with fixFlag := true }

/-- The first put on the empty fixed table is stored. -/
theorem fixed_table_changes : ∃ m',
    librekvCuckooCreate .initial = (.addr 0, createdModule) ∧
      librekvCuckooFix createdModule (.addr 0) = .ok (0, fixedModule) ∧
      (∃ t, fixedModule.heap 0 = some t ∧ t.fixFlag = true) ∧
      PutStep hashLen4to8 0 fixedModule (firstPut, 1) m' ∧ ¬ Unchanged 0 fixedModule m' := by
  refine ⟨_, rfl, rfl, ⟨_, rfl, rfl⟩, rfl, ?_⟩
  intro h
  obtain ⟨-, -, -, -, -, hcount⟩ := h
  exact absurd hcount (by decide)

end Results

end LibreKV.Cuckoo
