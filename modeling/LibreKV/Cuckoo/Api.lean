import LibreKV.Cuckoo.Lifecycle
import LibreKV.Cuckoo.Multimap

/-!
# LibreKV.Cuckoo.Api

The five functions of `cuckoo.h` together, in any order and on any pointers.

A program may pass null, the refusal `-1` or an address it no longer owns; such a call either
returns an error code or does not return. Whatever it does, the module is in one of three
phases (`Phase`): nothing was created, one table holds what the puts stored, or that table was
dropped. The phases follow each other in this order and never repeat.
-/

namespace LibreKV.Cuckoo

open Transition Exchange

/-- A call of the interface with its arguments. -/
inductive Call
  | create
  | put (table : TablePtr) (call : PutCall)
  | fix (table : TablePtr)
  | drop (table : TablePtr)
  | immutable (table : TablePtr)

/-- What a call returns. -/
inductive Returned
  | table (p : TablePtr)
  | code (r : Int)

/-- A call that returns. -/
inductive ApiStep (CityHash64 : List UInt8 → UInt64) : Module → Call × Returned → Module → Prop
  | create {m : Module} :
      ApiStep CityHash64 m (.create, .table (librekvCuckooCreate m).1) (librekvCuckooCreate m).2
  | put {m m' : Module} {p : TablePtr} {c : PutCall} {r : Int} :
      librekvCuckooPut CityHash64 m p c.key c.value c.rand = .ok (r, m') →
      ApiStep CityHash64 m (.put p c, .code r) m'
  | fix {m m' : Module} {p : TablePtr} {r : Int} :
      librekvCuckooFix m p = .ok (r, m') → ApiStep CityHash64 m (.fix p, .code r) m'
  | drop {m m' : Module} {p : TablePtr} {r : Int} :
      librekvCuckooDrop m p = .ok (r, m') → ApiStep CityHash64 m (.drop p, .code r) m'
  | immutable {m m' : Module} {p : TablePtr} {r : Int} :
      librekvCuckooImmutable m p = .ok (r, m') → ApiStep CityHash64 m (.immutable p, .code r) m'

/-- The puts among the calls of a run, on whatever table. -/
def puts (log : List (Call × Returned)) : List (PutCall × Int) :=
  log.filterMap fun
    | (.put _ c, .code r) => some (c, r)
    | _ => none

/-- The creates of a run that returned a table. -/
def created (log : List (Call × Returned)) : List ℕ :=
  log.filterMap fun
    | (.create, .table (.addr a)) => some a
    | _ => none

/-! ### What a returning call needs -/

theorem load_eq_ok {m : Module} {p : TablePtr} {t : CuckooHashTable} (h : m.load p = .ok t) :
    ∃ a, p = .addr a ∧ m.heap a = some t := by
  cases p with
  | null => cases h
  | minusOne => cases h
  | addr a =>
      cases hheap : m.heap a with
      | none => simp [Module.load, hheap] at h
      | some t' =>
          rw [Module.load_addr hheap] at h
          obtain rfl := Except.ok.inj h
          exact ⟨a, rfl, hheap⟩

/-- A put returns only for a null argument or on an allocated table. -/
theorem put_returns {CityHash64 : List UInt8 → UInt64} {m m' : Module} {p : TablePtr}
    {c : PutCall} {r : Int}
    (h : librekvCuckooPut CityHash64 m p c.key c.value c.rand = .ok (r, m')) :
    ((c.key = 0 ∨ c.value = 0) ∧ r = -1 ∧ m' = m) ∨ ∃ a t, p = .addr a ∧ m.heap a = some t := by
  rw [librekvCuckooPut, cuckooPut] at h
  by_cases hnull : c.key = 0 ∨ c.value = 0
  · rw [if_pos hnull] at h
    obtain ⟨rfl, rfl⟩ := Prod.mk.inj (Except.ok.inj h)
    exact Or.inl ⟨hnull, rfl, rfl⟩
  · rw [if_neg hnull, Fallible.bind_eq_ok] at h
    obtain ⟨_, -, h⟩ := h
    rw [Fallible.bind_eq_ok] at h
    obtain ⟨t, hload, -⟩ := h
    obtain ⟨a, hp, hheap⟩ := load_eq_ok hload
    exact Or.inr ⟨a, t, hp, hheap⟩

/-- A fix returns only on an allocated table, and sets its flag. -/
theorem fix_returns {m m' : Module} {p : TablePtr} {r : Int}
    (h : librekvCuckooFix m p = .ok (r, m')) : ∃ a t, p = .addr a ∧ m.heap a = some t ∧
      m' = m.save (.addr a) { t with fixFlag := true } := by
  obtain ⟨t, hload, -⟩ := Fallible.bind_eq_ok.mp h
  obtain ⟨a, rfl, hheap⟩ := load_eq_ok hload
  rw [fix_eq hheap] at h
  exact ⟨a, t, rfl, hheap, (Prod.mk.inj (Except.ok.inj h)).2.symm⟩

/-- A drop returns only for null or on an allocated table, which it frees. -/
theorem drop_returns {m m' : Module} {p : TablePtr} {r : Int}
    (h : librekvCuckooDrop m p = .ok (r, m')) : (p = .null ∧ m' = m) ∨
      ∃ a t, p = .addr a ∧ m.heap a = some t ∧
        m' = { m with heap := Function.update m.heap a none } := by
  cases p with
  | null => exact Or.inl ⟨rfl, (Prod.mk.inj (Except.ok.inj h)).2.symm⟩
  | minusOne => cases h
  | addr a =>
      rw [librekvCuckooDrop] at h
      cases hheap : m.heap a with
      | none => simp [hheap] at h
      | some t =>
          simp only [hheap] at h
          exact Or.inr ⟨a, t, rfl, hheap, (Prod.mk.inj (Except.ok.inj h)).2.symm⟩

/-- Behind a table, a conversion that returns has failed and changed nothing: it would have to
read through the refusal of create. -/
theorem immutable_returns {m m' : Module} {p : TablePtr} {r : Int}
    (hglobal : m.cuckooHashTable ≠ .null) (h : librekvCuckooImmutable m p = .ok (r, m')) :
    r = -1 ∧ m' = m := by
  have hfail : ∀ {r m'}, (.ok (-1, m) : Except Fault (Int × Module)) = .ok (r, m') →
      r = -1 ∧ m' = m := by
    intro r m' heq
    obtain ⟨rfl, rfl⟩ := Prod.mk.inj (Except.ok.inj heq)
    exact ⟨rfl, rfl⟩
  rw [librekvCuckooImmutable, create_of_global hglobal] at h
  by_cases hnull : p = .null
  · rw [if_pos hnull] at h
    exact hfail h
  · rw [if_neg hnull, Fallible.bind_eq_ok] at h
    obtain ⟨t, -, h⟩ := h
    by_cases hflag : t.fixFlag = true
    · rw [if_pos hflag] at h
      exact hfail h
    -- what create returned is not null, and is dereferenced
    · rw [if_neg hflag, if_neg TablePtr.noConfusion] at h
      cases h

theorem created_heap {b : ℕ} (hb : b ≠ 0) : createdModule.heap b = none := by
  simp [createdModule, librekvCuckooCreate, Module.initial, Function.update_of_ne hb]

/-- Without a table the conversion makes one, and fails. -/
theorem immutable_initial_returns {m' : Module} {p : TablePtr} {r : Int}
    (h : librekvCuckooImmutable .initial p = .ok (r, m')) : r = -1 ∧ m' = createdModule := by
  by_cases hnull : p = .null
  · subst hnull
    obtain ⟨rfl, rfl⟩ := Prod.mk.inj (Except.ok.inj h)
    exact ⟨rfl, rfl⟩
  · have hload : ∃ t, createdModule.load p = .ok t := by
      rw [librekvCuckooImmutable, if_neg hnull, Fallible.bind_eq_ok] at h
      obtain ⟨t, hload, -⟩ := h
      exact ⟨t, hload⟩
    obtain ⟨t, hload⟩ := hload
    obtain ⟨a, rfl, hheap⟩ := load_eq_ok hload
    by_cases ha : a = 0
    · subst ha
      obtain ⟨rfl, rfl⟩ := Prod.mk.inj (Except.ok.inj h)
      exact ⟨rfl, rfl⟩
    · rw [created_heap ha] at hheap
      cases hheap

/-! ### The phases of the module -/

/-- The table at address 0 is the only one, and it holds what the puts of `log` stored. -/
structure Holding (CityHash64 : List UInt8 → UInt64) (log : List (PutCall × Int)) (m : Module)
    (t : CuckooHashTable) : Prop where
  counted : Counted 0 m t
  ledger : Ledger CityHash64 0 log m
  only : ∀ b, b ≠ 0 → m.heap b = none
  numBuckets : t.numBuckets = 0

/-- The phases, with the puts made so far. -/
inductive Phase (CityHash64 : List UInt8 → UInt64) : List (PutCall × Int) → Module → Prop
  | start {log : List (PutCall × Int)} : stored log = [] → Phase CityHash64 log .initial
  | holding {log : List (PutCall × Int)} {m : Module} {t : CuckooHashTable} :
      Holding CityHash64 log m t → Phase CityHash64 log m
  | dropped {log : List (PutCall × Int)} {m : Module} : m.cuckooHashTable ≠ .null →
      (∀ b, m.heap b = none) → m.currentEntries.toNat = (stored log).length →
      Phase CityHash64 log m

section Phases

variable {CityHash64 : List UInt8 → UInt64} {log : List (PutCall × Int)} {m : Module}
  {t : CuckooHashTable}

theorem Holding.global (h : Holding CityHash64 log m t) : m.cuckooHashTable ≠ .null :=
  h.counted.live.global_ne_null

theorem Holding.addr_eq (h : Holding CityHash64 log m t) {a : ℕ} {t' : CuckooHashTable}
    (hheap : m.heap a = some t') : a = 0 ∧ t' = t := by
  by_cases ha : a = 0
  · subst ha
    rw [h.counted.live.heap] at hheap
    exact ⟨rfl, (Option.some.inj hheap).symm⟩
  · rw [h.only a ha] at hheap
    cases hheap

/-- The items of the slots are those of the puts that returned 1. -/
theorem Holding.sum_items (h : Holding CityHash64 log m t) {M : Type*} [AddCommMonoid M]
    {w : Option Item → M} (hnone : w none = 0) : ∑ s : Slot, w (t.item s) =
      ((stored log).map fun c => w (some (keyItem CityHash64 c.key c.value))).sum := by
  obtain ⟨t', hlive, hsum⟩ := h.ledger.sum_eq hnone
  obtain ⟨-, rfl⟩ := h.addr_eq hlive.heap
  exact hsum

/-- The entry count is the number of puts that returned 1. -/
theorem Holding.entries (h : Holding CityHash64 log m t) :
    m.currentEntries.toNat = (stored log).length := by
  have hsum := h.sum_items (w := fun o => if o.isSome then 1 else 0) rfl
  simp only [item_isSome, Option.isSome_some, if_true, List.map_const', List.sum_replicate,
    smul_eq_mul, mul_one] at hsum
  rw [h.counted.count, ← hsum, CuckooHashTable.validSlots, Finset.card_filter]

/-- The first table, whatever puts were refused before. -/
theorem Holding.first (hlog : stored log = []) :
    Holding CityHash64 log createdModule .zeroed where
  counted :=
    ⟨(create_live create_initial).1, by rw [validSlots_zeroed, Finset.card_empty]; rfl⟩
  ledger := by
    have hno : ∀ c : PutCall, (c, 1) ∉ log := by
      intro c hc
      rw [← mem_stored, hlog] at hc
      cases hc
    refine ⟨⟨.zeroed, (create_live create_initial).1, ?_⟩, ?_⟩
    · refine matches_empty (fun s => item_eq_none (zeroed_isValid s)) fun i => ?_
      by_contra hreg
      obtain ⟨x, hx⟩ := Option.ne_none_iff_exists'.mp hreg
      obtain ⟨c, hc, -⟩ := register_eq_some hx
      exact hno c (List.mem_of_getElem? hc)
    · intro i c hc
      exact absurd (List.mem_of_getElem? hc) (hno c)
  only := fun _ => created_heap
  numBuckets := rfl

/-- A put on the table. -/
theorem Holding.put (h : Holding CityHash64 log m t) {m' : Module} {c : PutCall} {r : Int}
    (hput : PutStep CityHash64 0 m (c, r) m') :
    ∃ t', Holding CityHash64 (log ++ [(c, r)]) m' t' := by
  obtain ⟨t', hcounted, -⟩ := h.counted.step hput
  have hledger := h.ledger.step hput
  rcases hput.cases h.counted.live with ⟨-, -, t₁, hpl, rfl⟩ | ⟨-, rfl⟩
  -- the table the ledger speaks of is the one the put wrote
  · have hsame : t' = t₁ := by
      have hheap := hcounted.live.heap
      rw [(h.counted.live.stored t₁).heap] at hheap
      exact (Option.some.inj hheap).symm
    subst hsame
    refine ⟨t', hcounted, hledger, fun b hb => ?_, hpl.numBuckets.trans h.numBuckets⟩
    show Function.update m.heap 0 (some t') b = none
    rw [Function.update_of_ne hb, h.only b hb]
  · obtain ⟨-, rfl⟩ := h.addr_eq hcounted.live.heap
    exact ⟨t', hcounted, hledger, h.only, h.numBuckets⟩

/-- A put with a null argument leaves everything as it is. -/
theorem Phase.refused (h : Phase CityHash64 log m) {c : PutCall}
    (hnull : c.key = 0 ∨ c.value = 0) : Phase CityHash64 (log ++ [(c, -1)]) m := by
  have hstored : stored (log ++ [(c, -1)]) = stored log := by simp [stored]
  cases h with
  | start hlog => exact .start (hstored.trans hlog)
  | holding h =>
      have hput : PutStep CityHash64 0 m (c, -1) m := by
        rw [PutStep, librekvCuckooPut, cuckooPut, if_pos hnull]
      obtain ⟨t', h'⟩ := h.put hput
      exact .holding h'
  | dropped hglobal hheap hcount => exact .dropped hglobal hheap (by rw [hstored, hcount])

/-- Setting the flag of the table. -/
theorem Holding.fix (h : Holding CityHash64 log m t) :
    Holding CityHash64 log (m.save (.addr 0) { t with fixFlag := true })
      { t with fixFlag := true } where
  counted := ⟨⟨by simp, h.counted.live.global, h.counted.live.maxIndex,
    h.counted.live.maxEntries⟩, h.counted.count⟩
  ledger := by
    obtain ⟨⟨t', hlive, hmatch⟩, hacc⟩ := h.ledger
    obtain ⟨-, rfl⟩ := h.addr_eq hlive.heap
    exact ⟨⟨{ t' with fixFlag := true },
      ⟨by simp, hlive.global, hlive.maxIndex, hlive.maxEntries⟩, hmatch⟩, hacc⟩
  only := by
    intro b hb
    show Function.update m.heap 0 _ b = none
    rw [Function.update_of_ne hb, h.only b hb]
  numBuckets := h.numBuckets

/-- With the table dropped nothing is allocated. -/
theorem Holding.drop_heap (h : Holding CityHash64 log m t) (b : ℕ) :
    Function.update m.heap 0 none b = none := by
  by_cases hb : b = 0
  · rw [hb, Function.update_self]
  · rw [Function.update_of_ne hb, h.only b hb]

/-- A table that is allocated in any phase is the one held at address 0. -/
theorem Phase.holding_of_heap (h : Phase CityHash64 log m) {a : ℕ} (hheap : m.heap a = some t) :
    a = 0 ∧ Holding CityHash64 log m t := by
  cases h with
  | start _ => cases hheap
  | holding h =>
      obtain ⟨rfl, rfl⟩ := h.addr_eq hheap
      exact ⟨rfl, h⟩
  | dropped _ hnone _ =>
      rw [hnone a] at hheap
      cases hheap

/-- Every call leads from a phase to the same or the next one. -/
theorem Phase.step {calls : List (Call × Returned)} {call : Call × Returned} {m' : Module}
    (h : Phase CityHash64 (puts calls) m) (hstep : ApiStep CityHash64 m call m') :
    Phase CityHash64 (puts (calls ++ [call])) m' := by
  have hother : ∀ {call : Call × Returned}, puts [call] = [] →
      puts (calls ++ [call]) = puts calls := by
    intro call hcall
    rw [puts, List.filterMap_append]
    exact (congrArg (puts calls ++ ·) hcall).trans (List.append_nil _)
  cases hstep with
  | create =>
      rw [hother rfl]
      cases h with
      | start hlog => exact .holding (.first hlog)
      | holding h =>
          rw [create_of_global h.global]
          exact .holding h
      | dropped hglobal hheap hcount =>
          rw [create_of_global hglobal]
          exact .dropped hglobal hheap hcount
  | @put _ p c r hput =>
      have hputs : puts (calls ++ [(.put p c, .code r)]) = puts calls ++ [(c, r)] := by
        rw [puts, List.filterMap_append]
        rfl
      rw [hputs]
      rcases put_returns hput with ⟨hnull, rfl, rfl⟩ | ⟨a, t, rfl, hheap⟩
      · exact h.refused hnull
      · obtain ⟨rfl, hold⟩ := h.holding_of_heap hheap
        obtain ⟨t', hold'⟩ := hold.put hput
        exact .holding hold'
  | fix hfix =>
      rw [hother rfl]
      obtain ⟨a, t, rfl, hheap, rfl⟩ := fix_returns hfix
      obtain ⟨rfl, hold⟩ := h.holding_of_heap hheap
      exact .holding hold.fix
  | drop hdrop =>
      rw [hother rfl]
      rcases drop_returns hdrop with ⟨rfl, rfl⟩ | ⟨a, t, rfl, hheap, rfl⟩
      · exact h
      -- the global keeps pointing to the table that is gone
      · obtain ⟨rfl, hold⟩ := h.holding_of_heap hheap
        exact .dropped hold.global hold.drop_heap hold.entries
  | immutable himm =>
      rw [hother rfl]
      cases h with
      | start hlog =>
          -- the conversion calls create, and its table stays
          obtain ⟨-, rfl⟩ := immutable_initial_returns himm
          exact .holding (.first hlog)
      | holding h =>
          obtain ⟨-, rfl⟩ := immutable_returns h.global himm
          exact .holding h
      | dropped hglobal hheap hcount =>
          obtain ⟨-, rfl⟩ := immutable_returns hglobal himm
          exact .dropped hglobal hheap hcount

/-- Every state a program reaches is in a phase. -/
theorem phase_of_run {calls : List (Call × Returned)}
    (hrun : Run (ApiStep CityHash64) .initial calls m) : Phase CityHash64 (puts calls) m := by
  induction hrun with
  | nil => exact .start rfl
  | snoc _ hstep ih => exact ih.step hstep

/-! ### What holds of every program -/

/-- From a dropped table on nothing changes any more. -/
theorem dropped_step {call : Call × Returned} {m' : Module} (hglobal : m.cuckooHashTable ≠ .null)
    (hnone : ∀ b, m.heap b = none) (hstep : ApiStep CityHash64 m call m') :
    m' = m ∧ created [call] = [] ∧ stored (puts [call]) = [] := by
  have hnot : ∀ {a : ℕ} {t : CuckooHashTable}, m.heap a ≠ some t := by
    intro a t hheap
    rw [hnone a] at hheap
    cases hheap
  cases hstep with
  | create =>
      rw [create_of_global hglobal]
      exact ⟨rfl, rfl, rfl⟩
  | put hput =>
      rcases put_returns hput with ⟨-, rfl, rfl⟩ | ⟨a, t, -, hheap⟩
      · exact ⟨rfl, rfl, rfl⟩
      · exact absurd hheap hnot
  | fix hfix =>
      obtain ⟨a, t, -, hheap, -⟩ := fix_returns hfix
      exact absurd hheap hnot
  | drop hdrop =>
      rcases drop_returns hdrop with ⟨-, rfl⟩ | ⟨a, t, -, hheap, -⟩
      · exact ⟨rfl, rfl, rfl⟩
      · exact absurd hheap hnot
  | immutable himm =>
      obtain ⟨-, rfl⟩ := immutable_returns hglobal himm
      exact ⟨rfl, rfl, rfl⟩

/-- A run from a dropped table. -/
theorem dropped_run {later : List (Call × Returned)} {m' : Module}
    (hglobal : m.cuckooHashTable ≠ .null) (hnone : ∀ b, m.heap b = none)
    (hlater : Run (ApiStep CityHash64) m later m') :
    m' = m ∧ created later = [] ∧ stored (puts later) = [] := by
  induction hlater with
  | nil => exact ⟨rfl, rfl, rfl⟩
  | @snoc later m₁ m₂ call _ hstep ih =>
      obtain ⟨rfl, hcreated, hstored⟩ := ih
      obtain ⟨rfl, hcreated', hstored'⟩ := dropped_step hglobal hnone hstep
      refine ⟨rfl, ?_, ?_⟩
      · rw [created, List.filterMap_append]
        exact congrArg₂ (· ++ ·) hcreated hcreated'
      · rw [stored, puts, List.filterMap_append, List.filter_append, List.map_append]
        exact congrArg₂ (· ++ ·) hstored hstored'

end Phases

section Results

variable {CityHash64 : List UInt8 → UInt64} {calls later : List (Call × Returned)}
  {m m' m'' : Module}

/-- **One table, and it holds what was put.** After any calls of the interface on any pointers,
only address 0 can be allocated, its `num_buckets` is 0, its valid slots hold exactly the items
of the puts that returned 1, whatever pointers these were given, and `current_entries` is their
number, also when the table is dropped. -/
theorem one_table_holds_puts (hrun : Run (ApiStep CityHash64) .initial calls m) :
    m.currentEntries.toNat = (stored (puts calls)).length ∧
      ∀ a t, m.heap a = some t → a = 0 ∧ t.numBuckets = 0 ∧
        ∑ s : Slot, slotItems (t.item s) = ((stored (puts calls)).map fun c =>
          slotItems (some (keyItem CityHash64 c.key c.value))).sum := by
  cases phase_of_run hrun with
  | start hlog =>
      rw [hlog]
      exact ⟨rfl, fun a t hheap => by cases hheap⟩
  | holding h =>
      refine ⟨h.entries, fun a t hheap => ?_⟩
      obtain ⟨rfl, rfl⟩ := h.addr_eq hheap
      exact ⟨rfl, h.numBuckets, h.sum_items rfl⟩
  | dropped _ hnone hcount =>
      refine ⟨hcount, fun a t hheap => ?_⟩
      rw [hnone a] at hheap
      cases hheap

/-- A program that creates a table, puts one key into it, puts one into null without a value,
and fixes the table. -/
def smallProgram : List (Call × Returned) :=
  [(.create, .table (.addr 0)), (.put (.addr 0) firstPut, .code 1),
    (.put .null nullPut, .code (-1)), (.fix (.addr 0), .code 0)]

/-- It runs, and its fixed table can be given to a conversion. -/
theorem smallProgram_runs : ∃ m, Run (ApiStep hashLen4to8) .initial smallProgram m ∧
    librekvCuckooImmutable m (.addr 0) = .ok (-1, m) := by
  have hcreate : Run (ApiStep hashLen4to8) .initial [(.create, .table (.addr 0))] createdModule :=
    .snoc .nil .create
  have hput : Run (ApiStep hashLen4to8) .initial
      [(.create, .table (.addr 0)), (.put (.addr 0) firstPut, .code 1)] _ :=
    .snoc hcreate (.put rfl)
  have hnull : Run (ApiStep hashLen4to8) .initial
      [(.create, .table (.addr 0)), (.put (.addr 0) firstPut, .code 1),
        (.put .null nullPut, .code (-1))] _ :=
    .snoc hput (.put rfl)
  have hrun : Run (ApiStep hashLen4to8) .initial smallProgram _ := .snoc hnull (.fix rfl)
  exact ⟨_, hrun, rfl⟩

/-- The small program counts one entry. -/
theorem one_table_holds_puts_example : ∃ m, Run (ApiStep hashLen4to8) .initial smallProgram m ∧
    m.currentEntries.toNat = 1 := by
  obtain ⟨m, hrun, -⟩ := smallProgram_runs
  exact ⟨m, hrun, (one_table_holds_puts hrun).1⟩

/-- **No program converts a table.** Whatever calls were made before and whatever pointer it is
given, a conversion that returns has returned -1; and unless it is the call that makes the
module's first table, it has changed nothing. -/
theorem immutable_never_converts (hrun : Run (ApiStep CityHash64) .initial calls m)
    {p : TablePtr} {r : Int} (himm : librekvCuckooImmutable m p = .ok (r, m')) :
    r = -1 ∧ (m' = m ∨ m = .initial ∧ m' = createdModule) := by
  cases phase_of_run hrun with
  | start _ =>
      obtain ⟨hr, hm⟩ := immutable_initial_returns himm
      exact ⟨hr, Or.inr ⟨rfl, hm⟩⟩
  | holding h =>
      obtain ⟨hr, hm⟩ := immutable_returns h.global himm
      exact ⟨hr, Or.inl hm⟩
  | dropped hglobal _ _ =>
      obtain ⟨hr, hm⟩ := immutable_returns hglobal himm
      exact ⟨hr, Or.inl hm⟩

/-- Converting the table of the small program. -/
theorem immutable_never_converts_example : ∃ m r m',
    Run (ApiStep hashLen4to8) .initial smallProgram m ∧
      librekvCuckooImmutable m (.addr 0) = .ok (r, m') ∧
      r = -1 ∧ (m' = m ∨ m = .initial ∧ m' = createdModule) := by
  obtain ⟨m, hrun, himm⟩ := smallProgram_runs
  exact ⟨m, _, _, hrun, himm, immutable_never_converts hrun himm⟩

/-- **A drop is final.** Once a table was dropped, no later call changes the module, makes a
table or stores a key, in any order of calls that return. -/
theorem drop_is_final (hrun : Run (ApiStep CityHash64) .initial calls m) {a : ℕ} {r : Int}
    (hdrop : librekvCuckooDrop m (.addr a) = .ok (r, m'))
    (hlater : Run (ApiStep CityHash64) m' later m'') :
    m'' = m' ∧ created later = [] ∧ stored (puts later) = [] := by
  rcases drop_returns hdrop with ⟨hnull, -⟩ | ⟨b, t, hb, hheap, rfl⟩
  · cases hnull
  · obtain ⟨rfl, hold⟩ := (phase_of_run hrun).holding_of_heap hheap
    exact dropped_run hold.global hold.drop_heap hlater

/-- Create, drop, and create again. -/
theorem drop_is_final_example : ∃ m',
    librekvCuckooDrop createdModule (.addr 0) = .ok (0, m') ∧
      ∃ m'', Run (ApiStep hashLen4to8) m' [(.create, .table .minusOne)] m'' ∧ m'' = m' := by
  have hcreate : Run (ApiStep hashLen4to8) .initial [(.create, .table (.addr 0))] createdModule :=
    .snoc .nil .create
  have hagain : Run (ApiStep hashLen4to8)
      { createdModule with heap := Function.update createdModule.heap 0 none }
      [(.create, .table .minusOne)] _ :=
    .snoc .nil .create
  have hdrop : librekvCuckooDrop createdModule (.addr 0) =
      .ok (0, { createdModule with heap := Function.update createdModule.heap 0 none }) := rfl
  exact ⟨_, hdrop, _, hagain, (drop_is_final hcreate hdrop hagain).1⟩

end Results

end LibreKV.Cuckoo
