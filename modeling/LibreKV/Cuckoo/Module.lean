import LibreKV.Cuckoo.Table

/-!
# LibreKV.Cuckoo.Module

The module-wide state of `cuckoo.c` and the functions that create, fix, drop and convert a
table.

The tables live on a heap of allocations. A table pointer is null, the address of an
allocation, or the value `(struct CuckooHashTable *)-1` that `librekv_cuckoo_create` returns
when it refuses; only the address of a live allocation can be dereferenced.
-/

namespace LibreKV.Cuckoo

/-- A value of type `struct CuckooHashTable *`. -/
inductive TablePtr
  | null
  /-- `-1` converted to a pointer. -/
  | minusOne
  /-- The allocation number `a`. -/
  | addr (a : ℕ)
  deriving Repr, DecidableEq

/-- The globals and statics of `cuckoo.c`, and the heap. -/
structure Module where
  /-- The global `cuckoo_hash_table`. -/
  cuckooHashTable : TablePtr
  maxIndex : UInt16
  maxEntries : UInt32
  currentEntries : UInt32
  /-- The live allocations. -/
  heap : ℕ → Option CuckooHashTable
  /-- The number the next allocation gets. -/
  nextAddr : ℕ

/-- The state at program start: every global and static is zero. -/
def Module.initial : Module where
  cuckooHashTable := .null
  maxIndex := 0
  maxEntries := 0
  currentEntries := 0
  heap := fun _ => none
  nextAddr := 0

namespace Module

/-- Read the table a pointer points to. -/
def load (m : Module) : TablePtr → Except Fault CuckooHashTable
  | .addr a =>
    match m.heap a with
    | some t => .ok t
    | none => .error .badPointer
  | .null => .error .badPointer
  | .minusOne => .error .badPointer

/-- Write the table a pointer points to; nothing is written through any other pointer. -/
def save (m : Module) (p : TablePtr) (t : CuckooHashTable) : Module :=
  match p with
  | .addr a => { m with heap := Function.update m.heap a (some t) }
  | .null => m
  | .minusOne => m

theorem load_addr {m : Module} {a : ℕ} {t : CuckooHashTable} (h : m.heap a = some t) :
    m.load (.addr a) = .ok t := by
  rw [load, h]

/-- Writing back what is there changes nothing. -/
theorem save_self {m : Module} {a : ℕ} {t : CuckooHashTable} (h : m.heap a = some t) :
    m.save (.addr a) t = m := by
  rw [save, ← h, Function.update_eq_self]

@[simp] theorem save_heap (m : Module) (a : ℕ) (t : CuckooHashTable) :
    (m.save (.addr a) t).heap = Function.update m.heap a (some t) := rfl

@[simp] theorem save_maxIndex (m : Module) (a : ℕ) (t : CuckooHashTable) :
    (m.save (.addr a) t).maxIndex = m.maxIndex := rfl

@[simp] theorem save_maxEntries (m : Module) (a : ℕ) (t : CuckooHashTable) :
    (m.save (.addr a) t).maxEntries = m.maxEntries := rfl

@[simp] theorem save_cuckooHashTable (m : Module) (a : ℕ) (t : CuckooHashTable) :
    (m.save (.addr a) t).cuckooHashTable = m.cuckooHashTable := rfl

@[simp] theorem save_currentEntries (m : Module) (a : ℕ) (t : CuckooHashTable) :
    (m.save (.addr a) t).currentEntries = m.currentEntries := rfl

end Module

/-- `memset(table, 0, hash_table_size)`: the size is the sum of the sizes of all the fields
of the packed structure, so nothing of the old contents is left. -/
def memsetZero (_ : CuckooHashTable) : CuckooHashTable := .zeroed

/-- `librekv_cuckoo_create`. It refuses while the global points anywhere. The fields
`num_buckets` and `fixFlag` are set before the whole object is cleared. -/
def librekvCuckooCreate (m : Module) : TablePtr × Module :=
  if m.cuckooHashTable ≠ .null then (.minusOne, m)
  else
    let maxIndex := UInt16.ofNat bucketsPerTable
    let p := TablePtr.addr m.nextAddr
    let table : CuckooHashTable :=
      { CuckooHashTable.zeroed with numBuckets := Int32.ofNat maxIndex.toNat, fixFlag := false }
    (p, Module.save
      { m with
        cuckooHashTable := p
        maxIndex := maxIndex
        maxEntries := UInt32.ofNat (associativity * maxIndex.toNat)
        currentEntries := 0
        nextAddr := m.nextAddr + 1 }
      p (memsetZero table))

/-- `librekv_cuckoo_fix`. -/
def librekvCuckooFix (m : Module) (targetTable : TablePtr) : Except Fault (Int × Module) := do
  let t ← m.load targetTable
  if t.fixFlag = false then .ok (0, m.save targetTable { t with fixFlag := true })
  else .ok (0, m)

/-- `librekv_cuckoo_drop`: `free` takes only a live allocation. The global
`cuckoo_hash_table` keeps its value. -/
def librekvCuckooDrop (m : Module) : TablePtr → Except Fault (Int × Module)
  | .null => .ok (0, m)
  | .minusOne => .error .badPointer
  | .addr a =>
    match m.heap a with
    | some _ => .ok (0, { m with heap := Function.update m.heap a none })
    | none => .error .badPointer

/-- `librekv_cuckoo_immutable`. The result of `librekv_cuckoo_create` is compared with null
only, and dereferenced otherwise. -/
def librekvCuckooImmutable (m : Module) (targetTable : TablePtr) :
    Except Fault (Int × Module) :=
  let immutableTable := (librekvCuckooCreate m).1
  let m := (librekvCuckooCreate m).2
  if targetTable = .null then .ok (-1, m)
  else do
    let target ← m.load targetTable
    if target.fixFlag = true then .ok (-1, m)
    else if immutableTable = .null then .ok (-1, m)
    else do
      let immutable ← m.load immutableTable
      if (m.maxIndex.toNat : Int) ≠ immutable.numBuckets.toInt then .ok (-1, m)
      else .ok (1, m.save immutableTable { target with fixFlag := true })

/-- Fixing a table sets its flag; on a fixed table this changes nothing. -/
theorem fix_eq {m : Module} {a : ℕ} {t : CuckooHashTable} (h : m.heap a = some t) :
    librekvCuckooFix m (.addr a) = .ok (0, m.save (.addr a) { t with fixFlag := true }) := by
  rw [librekvCuckooFix, Module.load_addr h, Fallible.ok_bind]
  by_cases hflag : t.fixFlag = false
  · rw [if_pos hflag]
  · have hset : { t with fixFlag := true } = t := by
      rw [← Bool.eq_true_of_not_eq_false hflag]
    rw [if_neg hflag, hset, Module.save_self h]

/-! ### A created table -/

/-- The state from the creation of the table at `a` on: the table is there, and the statics
have the values `librekv_cuckoo_create` gave them. -/
structure Live (m : Module) (a : ℕ) (t : CuckooHashTable) : Prop where
  /-- The table is allocated. -/
  heap : m.heap a = some t
  /-- The global points to it. -/
  global : m.cuckooHashTable = .addr a
  /-- `max_index` is the number of buckets. -/
  maxIndex : m.maxIndex.toNat = bucketsPerTable
  /-- `max_entries` is the number of slots. -/
  maxEntries : m.maxEntries.toNat = associativity * bucketsPerTable

/-- A successful `librekv_cuckoo_create` returns a live, empty table. -/
theorem create_live {m₀ m : Module} {a : ℕ} (h : librekvCuckooCreate m₀ = (.addr a, m)) :
    Live m a .zeroed ∧ m.currentEntries = 0 := by
  unfold librekvCuckooCreate at h
  by_cases hg : m₀.cuckooHashTable ≠ .null
  · rw [if_pos hg] at h
    cases h
  · rw [if_neg hg] at h
    obtain ⟨hp, rfl⟩ := Prod.mk.inj h
    obtain rfl := TablePtr.addr.inj hp
    exact ⟨⟨by simp [memsetZero], rfl, rfl, rfl⟩, rfl⟩

/-- While the global points anywhere, `librekv_cuckoo_create` returns `-1` and changes
nothing. -/
theorem create_of_global {m : Module} (h : m.cuckooHashTable ≠ .null) :
    librekvCuckooCreate m = (.minusOne, m) := by
  unfold librekvCuckooCreate
  rw [if_pos h]

/-- While the global is null, `librekv_cuckoo_create` returns a new allocation. -/
theorem create_of_no_global {m : Module} (h : m.cuckooHashTable = .null) :
    librekvCuckooCreate m = (.addr m.nextAddr, (librekvCuckooCreate m).2) := by
  simp [librekvCuckooCreate, h]

end LibreKV.Cuckoo
