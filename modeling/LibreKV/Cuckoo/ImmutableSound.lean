import LibreKV.Cuckoo.PutRuns

/-!
# LibreKV.Cuckoo.ImmutableSound

`librekv_cuckoo_immutable` on the table a program holds.

The conversion asks `librekv_cuckoo_create` for a second table. While the first one is the
module's table, `librekv_cuckoo_create` refuses with `-1`, which the conversion takes for a
table because it is not null. While there is no table, `librekv_cuckoo_create` makes one,
and the conversion fails without giving it back.
-/

namespace LibreKV.Cuckoo

open Transition

/-- What the conversion of the table at `a` is for: it returns 1, there is a second table
with the same slots and `fixFlag` set, and the table at `a` and its entry count are as
before. -/
def Converts (m : Module) (a : ℕ) : Prop :=
  ∃ m' t b t', librekvCuckooImmutable m (.addr a) = .ok (1, m') ∧
    m.heap a = some t ∧ m'.heap a = some t ∧ m'.currentEntries = m.currentEntries ∧
    b ≠ a ∧ m'.heap b = some t' ∧ t'.bucketArray = t.bucketArray ∧ t'.fixFlag = true

/-- Puts keep the table live and never set its `fixFlag`. -/
theorem run_not_fixed {CityHash64 : List UInt8 → UInt64} {m₀ m₁ m : Module} {a : ℕ}
    {log : List (PutCall × Int)} (hcreate : librekvCuckooCreate m₀ = (.addr a, m₁))
    (hrun : Run (PutStep CityHash64 a) m₁ log m) :
    ∃ t, Live m a t ∧ t.fixFlag = false := by
  refine hrun.invariant ⟨_, (create_live hcreate).1, rfl⟩ ?_
  intro m call m' hinv hput
  obtain ⟨c, r⟩ := call
  obtain ⟨t, hlive, hfix⟩ := hinv
  rcases hput.cases hlive with ⟨-, -, t', hpl, rfl⟩ | ⟨-, rfl⟩
  · exact ⟨t', hlive.stored t', hpl.fixFlag.trans hfix⟩
  · exact ⟨t, hlive, hfix⟩

/-- On the module's own table the conversion dereferences the refusal `-1`. -/
theorem immutable_of_live {m : Module} {a : ℕ} {t : CuckooHashTable} (hlive : Live m a t)
    (hfix : t.fixFlag = false) : librekvCuckooImmutable m (.addr a) = .error .badPointer := by
  have hglobal : m.cuckooHashTable ≠ .null := by
    rw [hlive.global]
    exact TablePtr.noConfusion
  simp only [librekvCuckooImmutable, create_of_global hglobal, Module.load_addr hlive.heap,
    Fallible.ok_bind, hfix]
  rfl

/-- **The conversion never works.** For every table a successful create and any puts can
produce, which has `fixFlag` false, the conversion does not do what it is for. -/
theorem not_converts {CityHash64 : List UInt8 → UInt64} {m₀ m₁ m : Module} {a : ℕ}
    {log : List (PutCall × Int)} (hcreate : librekvCuckooCreate m₀ = (.addr a, m₁))
    (hrun : Run (PutStep CityHash64 a) m₁ log m) :
    (∃ t, m.heap a = some t ∧ t.fixFlag = false) ∧ ¬ Converts m a := by
  obtain ⟨t, hlive, hfix⟩ := run_not_fixed hcreate hrun
  refine ⟨⟨t, hlive.heap, hfix⟩, ?_⟩
  intro hconv
  obtain ⟨m', -, -, -, h, -⟩ := hconv
  rw [immutable_of_live hlive hfix] at h
  cases h

/-- One put after the create of a fresh process. -/
theorem not_converts_after_put : ∃ m,
    Run (PutStep hashLen4to8 0) createdModule [(firstPut, 1)] m ∧
      (∃ t, m.heap 0 = some t ∧ t.fixFlag = false) ∧ ¬ Converts m 0 :=
  have hrun := Run.snoc .nil rfl
  ⟨_, hrun, not_converts create_initial hrun⟩

/-- Right after the create of a fresh process, the conversion of the empty table crashes. -/
theorem empty_table_not_converted :
    librekvCuckooImmutable createdModule (.addr 0) = .error .badPointer ∧
      ¬ Converts createdModule 0 := by
  have h : librekvCuckooImmutable createdModule (.addr 0) = .error .badPointer := rfl
  refine ⟨h, ?_⟩
  intro hconv
  obtain ⟨m', -, -, -, hok, -⟩ := hconv
  rw [h] at hok
  cases hok

/-! ### A failed conversion -/

/-- A call that went from `m` to `m'` left the target table and the module as they were, and
later calls cannot tell. -/
structure SameState (m m' : Module) (target : TablePtr) : Prop where
  target : m'.load target = m.load target
  global : m'.cuckooHashTable = m.cuckooHashTable
  maxIndex : m'.maxIndex = m.maxIndex
  maxEntries : m'.maxEntries = m.maxEntries
  currentEntries : m'.currentEntries = m.currentEntries
  create : librekvCuckooCreate m' = librekvCuckooCreate m
  put : ∀ (CityHash64 : List UInt8 → UInt64) (table : TablePtr) (key value : UInt64)
    (rand : ℕ → ℕ), librekvCuckooPut CityHash64 m' table key value rand =
      librekvCuckooPut CityHash64 m table key value rand

theorem SameState.refl (m : Module) (target : TablePtr) : SameState m m target :=
  ⟨rfl, rfl, rfl, rfl, rfl, rfl, fun _ _ _ _ _ => rfl⟩

/-- A conversion that returns -1 leaves no trace. -/
def FailureKeepsState (m : Module) (target : TablePtr) : Prop :=
  ∀ m', librekvCuckooImmutable m target = .ok (-1, m') → SameState m m' target

/-- A target that may be passed: null, or a table that was created and not dropped. -/
def ValidTarget (m : Module) (target : TablePtr) : Prop :=
  target = .null ∨ ∃ a t, target = .addr a ∧ m.heap a = some t

/-- With a table in the global, the conversion starts from an unchanged module, and every
return of -1 leaves it so. -/
theorem immutable_of_global {m m' : Module} {target : TablePtr}
    (hglobal : m.cuckooHashTable ≠ .null)
    (h : librekvCuckooImmutable m target = .ok (-1, m')) : m' = m := by
  rw [librekvCuckooImmutable, create_of_global hglobal] at h
  by_cases hnull : target = .null
  · rw [if_pos hnull] at h
    exact (Prod.mk.inj (Except.ok.inj h)).2.symm
  · rw [if_neg hnull, Fallible.bind_eq_ok] at h
    obtain ⟨t, -, h⟩ := h
    by_cases hfix : t.fixFlag = true
    · rw [if_pos hfix] at h
      exact (Prod.mk.inj (Except.ok.inj h)).2.symm
    · rw [if_neg hfix, if_neg TablePtr.noConfusion] at h
      cases h

/-- Without one, the conversion creates a table, and fails whatever the target is: the new
table's `num_buckets` is 0. -/
theorem immutable_of_no_global {m : Module} {target : TablePtr}
    (hglobal : m.cuckooHashTable = .null) (htarget : ValidTarget m target) :
    librekvCuckooImmutable m target = .ok (-1, (librekvCuckooCreate m).2) := by
  have hcreate := create_of_no_global hglobal
  have hlive := (create_live hcreate).1
  rcases htarget with rfl | ⟨a, t, rfl, ht⟩
  · rfl
  · have hload : ∃ t', (librekvCuckooCreate m).2.load (.addr a) = .ok t' := by
      by_cases ha : a = m.nextAddr
      · subst ha
        exact ⟨_, Module.load_addr hlive.heap⟩
      · refine ⟨t, Module.load_addr ?_⟩
        simp [librekvCuckooCreate, hglobal, Function.update_of_ne ha, ht]
    obtain ⟨t', ht'⟩ := hload
    have hmismatch : ((librekvCuckooCreate m).2.maxIndex.toNat : Int) ≠
        CuckooHashTable.zeroed.numBuckets.toInt := by
      rw [hlive.maxIndex]
      decide
    rw [librekvCuckooImmutable, if_neg TablePtr.noConfusion, ht', Fallible.ok_bind]
    by_cases hfix : t'.fixFlag = true
    · rw [if_pos hfix]
    · rw [if_neg hfix, hcreate, if_neg TablePtr.noConfusion, Module.load_addr hlive.heap,
        Fallible.ok_bind, if_pos hmismatch]

/-- **A failed conversion is clean only behind a table.** In every state, and for every valid
target, a conversion that returns -1 leaves everything as it was iff the global already
points to a table. -/
theorem failureKeepsState_iff {m : Module} {target : TablePtr}
    (htarget : ValidTarget m target) :
    FailureKeepsState m target ↔ m.cuckooHashTable ≠ .null := by
  constructor
  · intro hkeeps hnull
    have hsame := hkeeps _ (immutable_of_no_global hnull htarget)
    have hglobal := hsame.global
    rw [(create_live (create_of_no_global hnull)).1.global, hnull] at hglobal
    cases hglobal
  · intro hglobal m' hfail
    rw [immutable_of_global hglobal hfail]
    exact .refl m target

/-- Behind the created table, the conversion of null fails cleanly. -/
theorem failureKeepsState_iff_created :
    ValidTarget createdModule .null ∧ FailureKeepsState createdModule .null :=
  ⟨Or.inl rfl, (failureKeepsState_iff (Or.inl rfl)).mpr TablePtr.noConfusion⟩

/-- In a fresh process it leaves a table in the global, and the next create fails. -/
theorem failed_conversion_blocks_create :
    ValidTarget .initial .null ∧
      librekvCuckooImmutable .initial .null = .ok (-1, createdModule) ∧
      ¬ FailureKeepsState .initial .null ∧
      (librekvCuckooCreate .initial).1 = .addr 0 ∧
      (librekvCuckooCreate createdModule).1 = .minusOne := by
  have h : librekvCuckooImmutable .initial .null = .ok (-1, createdModule) := rfl
  refine ⟨Or.inl rfl, h, ?_, rfl, rfl⟩
  intro hkeeps
  have hglobal : createdModule.cuckooHashTable = .null := (hkeeps _ h).global
  cases hglobal

end LibreKV.Cuckoo
