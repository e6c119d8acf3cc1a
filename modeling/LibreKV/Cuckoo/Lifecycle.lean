import LibreKV.Cuckoo.FixedTable

/-!
# LibreKV.Cuckoo.Lifecycle

Creating and dropping tables, in any order with puts and fixes.

The state of a program is the module with the table that is *live*: the last one created and
not yet dropped. `librekv_cuckoo_create` looks at the global `cuckoo_hash_table` instead,
which `librekv_cuckoo_drop` leaves pointing to the freed table. The invariant (`LifeInv`) has
one case for each phase: nothing created yet, a live table, or a dropped table that the
global still points to.
-/

namespace LibreKV.Cuckoo

open Transition

/-- The module and the live table. -/
structure Life where
  module : Module
  live : Option ℕ

/-- Program start: no table was created. -/
def Life.initial : Life := ⟨.initial, none⟩

/-- A call of the table interface. -/
inductive LifeCall
  | create
  | put (call : PutCall)
  | fix
  | drop

/-- The live table after a create that returned `p`. -/
def liveAfter (p : TablePtr) (live : Option ℕ) : Option ℕ :=
  match p with
  | .addr a => some a
  | _ => live

/-- A call that returns. Put, fix and drop are applied to the live table. -/
inductive LifeStep (CityHash64 : List UInt8 → UInt64) : Life → LifeCall → Life → Prop
  | create {m : Module} {live : Option ℕ} :
      LifeStep CityHash64 ⟨m, live⟩ .create
        ⟨(librekvCuckooCreate m).2, liveAfter (librekvCuckooCreate m).1 live⟩
  | put {m m' : Module} {a : ℕ} {call : PutCall} {r : Int} :
      PutStep CityHash64 a m (call, r) m' →
      LifeStep CityHash64 ⟨m, some a⟩ (.put call) ⟨m', some a⟩
  | fix {m m' : Module} {a : ℕ} {r : Int} :
      librekvCuckooFix m (.addr a) = .ok (r, m') →
      LifeStep CityHash64 ⟨m, some a⟩ .fix ⟨m', some a⟩
  | drop {m m' : Module} {a : ℕ} {r : Int} :
      librekvCuckooDrop m (.addr a) = .ok (r, m') →
      LifeStep CityHash64 ⟨m, some a⟩ .drop ⟨m', none⟩

/-! ### What create is to do -/

/-- A table as create is to return it. -/
structure Pristine (t : CuckooHashTable) : Prop where
  empty : ∀ s, (t.bucketArray s).isValid = false
  numBuckets : t.numBuckets.toInt = bucketsPerTable
  notFixed : t.fixFlag = false

/-- Without a live table, create returns a pristine one and the entry count is 0. -/
def CreatesTable (m : Module) : Prop :=
  ∃ a m' t, librekvCuckooCreate m = (.addr a, m') ∧ m'.heap a = some t ∧ Pristine t ∧
    m'.currentEntries = 0

/-- With the live table at `a`, create fails and changes neither this table nor a counter. -/
def RefusesTable (m : Module) (a : ℕ) : Prop :=
  ∃ m', librekvCuckooCreate m = (.minusOne, m') ∧ m'.heap a = m.heap a ∧
    m'.maxIndex = m.maxIndex ∧ m'.maxEntries = m.maxEntries ∧
    m'.currentEntries = m.currentEntries

/-- What the next create is to do. -/
def CreateLaw (s : Life) : Prop :=
  match s.live with
  | none => CreatesTable s.module
  | some a => RefusesTable s.module a

/-! ### The phases of a run -/

/-- Nothing was created yet, the global points to the live table, or no table is live and
the global still points to one. -/
def LifeInv (s : Life) : Prop :=
  match s.live with
  | none => s.module = .initial ∨ s.module.cuckooHashTable ≠ .null
  | some a => ∃ t, Live s.module a t

theorem Live.global_ne_null {m : Module} {a : ℕ} {t : CuckooHashTable} (h : Live m a t) :
    m.cuckooHashTable ≠ .null := by
  rw [h.global]
  exact TablePtr.noConfusion

/-- Dropping leaves the global as it is. -/
theorem drop_global {m m' : Module} {p : TablePtr} {r : Int}
    (hdrop : librekvCuckooDrop m p = .ok (r, m')) : m'.cuckooHashTable = m.cuckooHashTable := by
  cases p with
  | null =>
      obtain ⟨-, rfl⟩ := Prod.mk.inj (Except.ok.inj hdrop)
      rfl
  | minusOne => cases hdrop
  | addr a =>
      rw [librekvCuckooDrop] at hdrop
      cases hheap : m.heap a with
      | none => simp [hheap] at hdrop
      | some t =>
          simp only [hheap] at hdrop
          obtain ⟨-, rfl⟩ := Prod.mk.inj (Except.ok.inj hdrop)
          rfl

/-- Every call keeps the invariant. -/
theorem LifeInv.step {CityHash64 : List UInt8 → UInt64} {s s' : Life} {call : LifeCall}
    (h : LifeInv s) (hstep : LifeStep CityHash64 s call s') : LifeInv s' := by
  cases hstep with
  | @create m live =>
      cases live with
      | none =>
          rcases h with hinit | hglobal
          · have hm : m = .initial := hinit
            subst hm
            exact ⟨_, (create_live create_initial).1⟩
          · rw [create_of_global hglobal]
            exact Or.inr hglobal
      | some a =>
          obtain ⟨t, hlive⟩ := h
          rw [create_of_global hlive.global_ne_null]
          exact ⟨t, hlive⟩
  | put hput =>
      obtain ⟨t, hlive⟩ := h
      rcases hput.cases hlive with ⟨-, -, t', -, rfl⟩ | ⟨-, rfl⟩
      · exact ⟨t', hlive.stored t'⟩
      · exact ⟨t, hlive⟩
  | fix hfix =>
      obtain ⟨t, hlive⟩ := h
      exact ⟨_, fix_live hlive hfix⟩
  | drop hdrop =>
      obtain ⟨t, hlive⟩ := h
      refine Or.inr ?_
      show _ ≠ _
      rw [drop_global hdrop]
      exact hlive.global_ne_null

/-! ### What create does -/

/-- `num_buckets` is set before the table is cleared, so no created table is pristine. -/
theorem not_creates_initial : ¬ CreatesTable .initial := by
  intro h
  obtain ⟨a, m', t, hcreate, hheap, hpristine, -⟩ := h
  have hlive := (create_live hcreate).1
  rw [hlive.heap] at hheap
  obtain rfl := Option.some.inj hheap
  exact absurd hpristine.numBuckets (by decide)

theorem not_creates_of_global {m : Module} (h : m.cuckooHashTable ≠ .null) :
    ¬ CreatesTable m := by
  intro hcreates
  obtain ⟨a, m', t, hcreate, -⟩ := hcreates
  rw [create_of_global h] at hcreate
  cases hcreate

theorem Live.refuses {m : Module} {a : ℕ} {t : CuckooHashTable} (h : Live m a t) :
    RefusesTable m a :=
  ⟨m, create_of_global h.global_ne_null, rfl, rfl, rfl, rfl⟩

section Results

variable {CityHash64 : List UInt8 → UInt64}

/-- **Create keeps its contract only while a table is live.** After any calls from program
start, the next create does what it is to do iff there is a live table, which it refuses to
replace. -/
theorem createLaw_iff {log : List LifeCall} {s : Life}
    (hrun : Run (LifeStep CityHash64) .initial log s) : CreateLaw s ↔ s.live.isSome = true := by
  have hinv : LifeInv s := hrun.invariant (Or.inl rfl) fun _ _ _ h hstep => h.step hstep
  obtain ⟨m, live⟩ := s
  cases live with
  | none =>
      have hno : ¬ CreatesTable m := by
        rcases hinv with hinit | hglobal
        · have hm : m = .initial := hinit
          rw [hm]
          exact not_creates_initial
        · exact not_creates_of_global hglobal
      simpa [CreateLaw] using hno
  | some a =>
      obtain ⟨t, hlive⟩ := hinv
      simpa [CreateLaw] using hlive.refuses

/-- The calls of a small program: create, one put, fix. -/
theorem createLaw_iff_example : ∃ m,
    Run (LifeStep hashLen4to8) .initial [.create, .put firstPut, .fix] ⟨m, some 0⟩ ∧
      CreateLaw ⟨m, some 0⟩ := by
  have hcreate : Run (LifeStep hashLen4to8) .initial [.create] ⟨createdModule, some 0⟩ :=
    .snoc .nil .create
  have hstored : PutStep hashLen4to8 0 createdModule (firstPut, 1) _ := rfl
  have hput : Run (LifeStep hashLen4to8) .initial [.create, .put firstPut] ⟨_, some 0⟩ :=
    .snoc hcreate (.put hstored)
  have hfix : Run (LifeStep hashLen4to8) .initial [.create, .put firstPut, .fix] ⟨_, some 0⟩ :=
    .snoc hput (.fix rfl)
  exact ⟨_, hfix, (createLaw_iff hfix).mpr rfl⟩

/-- The first create returns a table without `num_buckets`, and after a drop create fails. -/
theorem create_breaks_contract :
    ¬ CreateLaw .initial ∧ ∃ s, Run (LifeStep hashLen4to8) .initial [.create, .drop] s ∧
      s.live = none ∧ (librekvCuckooCreate s.module).1 = .minusOne ∧ ¬ CreateLaw s := by
  refine ⟨not_creates_initial, ?_⟩
  have hcreate : Run (LifeStep hashLen4to8) .initial [.create] ⟨createdModule, some 0⟩ :=
    .snoc .nil .create
  have hdrop : Run (LifeStep hashLen4to8) .initial [.create, .drop] ⟨_, none⟩ :=
    .snoc hcreate (.drop rfl)
  exact ⟨_, hdrop, rfl, rfl, not_creates_of_global TablePtr.noConfusion⟩

end Results

end LibreKV.Cuckoo
