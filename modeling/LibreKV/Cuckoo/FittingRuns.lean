import LibreKV.Cuckoo.Messages

/-!
# LibreKV.Cuckoo.FittingRuns

What is left of cuckoo hashing in a program that never overruns `log_buffer`.

The message of an eviction does not fit the buffer. So in a run whose messages all fit nothing is
evicted, nothing is undone and nothing is logged: the table is a plain one with two buckets for
each key, where an entry stays in the slot that took it.
-/

namespace LibreKV.Cuckoo

open Transition

variable {CityHash64 : List UInt8 → UInt64} {a : ℕ}

/-- The messages of a put on the table at `a`. -/
def messagesOf (CityHash64 : List UInt8 → UInt64) (a : ℕ) (m : Module) (call : PutCall × Int) :
    List Message :=
  putMessages CityHash64 m (.addr a) call.1.key call.1.value call.1.rand

/-- The messages of the put all fit `log_buffer`. -/
def MessagesFit (CityHash64 : List UInt8 → UInt64) (a : ℕ) (m : Module) (call : PutCall × Int) :
    Prop :=
  ∀ msg ∈ messagesOf CityHash64 a m call, msg.Fits

instance (CityHash64 : List UInt8 → UInt64) (a : ℕ) (m : Module) (call : PutCall × Int) :
    Decidable (MessagesFit CityHash64 a m call) :=
  inferInstanceAs (Decidable (∀ msg ∈ messagesOf CityHash64 a m call, msg.Fits))

/-- From `t` to `t'` the item `x` was put into a free slot of one of its two buckets, and no other
slot changed. -/
structure Filled (t t' : CuckooHashTable) (x : Item) : Prop where
  slot : ∃ s, (t.bucketArray s).isValid = false ∧ s.1.val ∈ x.buckets ∧
    t'.item s = some x ∧ ∀ s' ≠ s, t'.bucketArray s' = t.bucketArray s'
  numBuckets : t'.numBuckets = t.numBuckets
  fixFlag : t'.fixFlag = t.fixFlag

/-- The valid slots of `t` hold in `t'` what they held. -/
def Kept (t t' : CuckooHashTable) : Prop :=
  ∀ s, (t.bucketArray s).isValid = true → t'.bucketArray s = t.bucketArray s

theorem Filled.kept {t t' : CuckooHashTable} {x : Item} (h : Filled t t' x) : Kept t t' := by
  intro s hs
  obtain ⟨s₀, hfree, -, -, hother⟩ := h.slot
  refine hother s ?_
  rintro rfl
  rw [hfree] at hs
  cases hs

theorem Kept.trans {t t' t'' : CuckooHashTable} (h : Kept t t') (h' : Kept t' t'') :
    Kept t t'' := by
  intro s hs
  have hs' : (t'.bucketArray s).isValid = true := by rw [h s hs, hs]
  rw [h' s hs', h s hs]

/-! ### A put into a bucket with a free slot -/

section Put

variable {m : Module} {t : CuckooHashTable} {c : Hand}

theorem filled_set (hc : c.InRange) {s : Slot} (hs : s.1.val = c.index.toNat)
    (hfree : (t.bucketArray s).isValid = false) : Filled t (t.set s c.entry) c.item := by
  refine ⟨⟨s, hfree, ?_, ?_, fun s' hne => Function.update_of_ne hne _ _⟩, rfl, rfl⟩
  · rw [hs]
    exact Sym2.mem_mk_left _ _
  · rw [set_item hc hs, Function.update_self]

/-- The loop takes the free slot of its first bucket. -/
theorem kickLoop_fills (maxIndex : UInt16) (rand : ℕ → ℕ) (hc : c.InRange)
    (hroom : ¬ t.BucketFull c.index.toNat) (fuel n : ℕ) (undo : List UndoRecord) :
    ∃ t', kickLoop maxIndex rand (fuel + 1) n t c undo = .ok (.stored t') ∧
      Filled t t' c.item := by
  obtain ⟨w, hw, hfs, hfree⟩ := freeslot_of_not_full hc.1 hroom
  refine ⟨t.set (⟨c.index.toNat, hc.1⟩, ⟨w.toNat, hw⟩) c.entry, ?_, filled_set hc rfl hfree⟩
  simp only [kickLoop, hfs, Fallible.ok_bind, if_pos hw, store_eq hc.1 hw]
  rfl

/-- A put that does not evict fills a free slot. -/
theorem put_fills (hheap : m.heap a = some t) (hM : m.maxIndex.toNat = bucketsPerTable)
    {call : PutCall} (hvalue : call.value ≠ 0) (hkey : 8 ≤ call.key)
    (hno : ¬ Evicts t call.key call.value) :
    ∃ t', librekvCuckooPut CityHash64 m (.addr a) call.key call.value call.rand =
        .ok (1, { m.save (.addr a) t' with currentEntries := m.currentEntries + 1 }) ∧
      Filled t t' (keyItem CityHash64 call.key call.value) := by
  have hfn := mod_numHash_lt (call.rand 0)
  obtain ⟨c, hhand, hc, -, -, hitem⟩ :=
    handFor_eq hM hkey hfn (hash CityHash64 call.key) call.value
  obtain ⟨c', hhand', hc', -, -, hitem'⟩ :=
    handFor_eq hM hkey (mod_numHash_lt (call.rand 0 % numHash + 1)) (hash CityHash64 call.key)
      call.value
  have hroom : ¬ (t.BucketFull c.index.toNat ∧ t.BucketFull c'.index.toNat) := by
    rw [handFor_index hM hhand, handFor_index hM hhand', candidates_full_iff t call.key hfn]
    exact fun hfull => hno ⟨hvalue, hkey, hfull⟩
  rw [librekvCuckooPut, cuckooPut, if_neg (args_not_null hvalue hkey)]
  by_cases hfull : t.BucketFull c.index.toNat
  -- the other bucket has room, so the loop ends in its first round
  · obtain ⟨t', hkick, hfilled⟩ :=
      kickLoop_fills m.maxIndex call.rand hc' (fun h => hroom ⟨hfull, h⟩) 127 0 []
    have hcount : maxCuckooCount = 127 + 1 := rfl
    refine ⟨t', ?_, ?_⟩
    · simp only [hcount, hhand, Module.load_addr hheap, freeslot_of_full hc.1 hfull,
        Fallible.ok_bind, if_neg not_lt_associativity, hhand', hkick]
    · rw [keyItem, ← hitem']
      exact hfilled
  · obtain ⟨w, hw, hfs, hfree⟩ := freeslot_of_not_full hc.1 hfull
    refine ⟨t.set (⟨c.index.toNat, hc.1⟩, ⟨w.toNat, hw⟩) c.entry, ?_, ?_⟩
    · simp only [hhand, Module.load_addr hheap, hfs, Fallible.ok_bind, if_pos hw,
        store_eq hc.1 hw]
      rfl
    · rw [keyItem, ← hitem]
      exact filled_set hc rfl hfree

/-- A put whose messages fit formats none. -/
theorem messagesOf_eq_nil (hlive : Live m a t) {call : PutCall × Int}
    (hfit : MessagesFit CityHash64 a m call) : messagesOf CityHash64 a m call = [] := by
  have hno := (messages_fit_iff hlive.heap hlive.maxIndex _ _ _).mp hfit
  rcases putMessages_cases hlive.heap hlive.maxIndex call.1.key call.1.value call.1.rand with
    ⟨hev, -⟩ | ⟨-, hnil⟩
  · exact absurd hev hno
  · exact hnil

/-- A put whose messages fit refuses a null argument and fills a free slot otherwise. -/
theorem PutStep.of_messagesFit {m' : Module} {call : PutCall} {r : Int} (hlive : Live m a t)
    (hfit : MessagesFit CityHash64 a m (call, r)) (h : PutStep CityHash64 a m (call, r) m') :
    ((call.key = 0 ∨ call.value = 0) ∧ r = -1 ∧ m' = m) ∨
      (¬ (call.key = 0 ∨ call.value = 0) ∧ r = 1 ∧
        ∃ t', Filled t t' (keyItem CityHash64 call.key call.value) ∧
          m' = { m.save (.addr a) t' with currentEntries := m.currentEntries + 1 }) := by
  have hno := (messages_fit_iff hlive.heap hlive.maxIndex _ _ _).mp hfit
  have hput : librekvCuckooPut CityHash64 m (.addr a) call.key call.value call.rand =
    .ok (r, m') := h
  have hcases : PutCases CityHash64 m a t call.key call.value
      (librekvCuckooPut CityHash64 m (.addr a) call.key call.value call.rand) :=
    cuckooPut_cases hlive maxCuckooCount call.key call.value call.rand
  by_cases hnull : call.key = 0 ∨ call.value = 0
  · rw [librekvCuckooPut, cuckooPut, if_pos hnull] at hput
    obtain ⟨rfl, rfl⟩ := Prod.mk.inj (Except.ok.inj hput)
    exact Or.inl ⟨hnull, rfl, rfl⟩
  -- a put that returned has passed the assertion on the key
  · have haccepted : call.value ≠ 0 ∧ 8 ≤ call.key := by
      rw [hput] at hcases
      cases hcases with
      | rejected hnull' => exact absurd hnull' hnull
      | stored _ hvalue hkey _ => exact ⟨hvalue, hkey⟩
      | undone hvalue hkey => exact ⟨hvalue, hkey⟩
    obtain ⟨t', hfills, hfilled⟩ :=
      @put_fills CityHash64 a m t hlive.heap hlive.maxIndex call haccepted.1 haccepted.2 hno
    rw [hfills] at hput
    obtain ⟨rfl, rfl⟩ := Prod.mk.inj (Except.ok.inj hput)
    exact Or.inr ⟨hnull, rfl, t', hfilled, rfl⟩

end Put

/-! ### Runs -/

/-- A put whose messages fit. -/
abbrev FittingStep (CityHash64 : List UInt8 → UInt64) (a : ℕ) :
    Module → PutCall × Int → Module → Prop :=
  Guarded (PutStep CityHash64 a) (MessagesFit CityHash64 a)

/-- The state after a put whose messages fit, if it returns what is noted beside it. -/
def fittingNext (CityHash64 : List UInt8 → UInt64) (a : ℕ) (m : Module) (call : PutCall × Int) :
    Option Module :=
  if MessagesFit CityHash64 a m call then
    returned (fun m (c : PutCall) =>
      librekvCuckooPut CityHash64 m (.addr a) c.key c.value c.rand) m call
  else none

theorem FittingStep.of_next {m m' : Module} {call : PutCall × Int}
    (h : fittingNext CityHash64 a m call = some m') : FittingStep CityHash64 a m call m' := by
  rw [fittingNext] at h
  split at h
  · next hfit => exact ⟨hfit, returned_eq_some.mp h⟩
  · cases h

/-- What a put whose messages fit returns: it fails on a null argument only. -/
def fittingResult (c : PutCall) : Int := if c.key = 0 ∨ c.value = 0 then -1 else 1

section Results

variable {m₀ m₁ m m' : Module} {t : CuckooHashTable} {log later : List (PutCall × Int)}

theorem FittingStep.kept {call : PutCall × Int} (hlive : Live m a t)
    (h : FittingStep CityHash64 a m call m') :
    ∃ t', Live m' a t' ∧ Kept t t' ∧ call.2 = fittingResult call.1 := by
  obtain ⟨hfit, hstep⟩ := h
  rcases hstep.of_messagesFit hlive hfit with
    ⟨hnull, hr, rfl⟩ | ⟨hnull, hr, t', hfilled, rfl⟩
  · exact ⟨t, hlive, fun _ _ => rfl, by rw [hr, fittingResult, if_pos hnull]⟩
  · exact ⟨t', hlive.stored t', hfilled.kept, by rw [hr, fittingResult, if_neg hnull]⟩

theorem kept_of_run (hlive : Live m a t) (hrun : Run (FittingStep CityHash64 a) m log m') :
    ∃ t', Live m' a t' ∧ Kept t t' ∧ ∀ call ∈ log, call.2 = fittingResult call.1 := by
  induction hrun with
  | nil => exact ⟨t, hlive, fun _ _ => rfl, fun _ hcall => absurd hcall List.not_mem_nil⟩
  | snoc _ hstep ih =>
      obtain ⟨t', hlive', hkept, hresults⟩ := ih
      obtain ⟨t'', hlive'', hkept', hresult⟩ := hstep.kept hlive'
      refine ⟨t'', hlive'', hkept.trans hkept', fun call hcall => ?_⟩
      rcases List.mem_append.mp hcall with hcall | hcall
      · exact hresults call hcall
      · rw [List.mem_singleton.mp hcall]
        exact hresult

/-- **Without an overrun nothing moves.** In every run of puts whose messages all fit
`log_buffer`, an entry stays in its slot, every put with two arguments stores its key, and no put
has a message. -/
theorem fitting_runs_never_move (hcreate : librekvCuckooCreate m₀ = (.addr a, m₁))
    (hrun : Run (FittingStep CityHash64 a) m₁ log m)
    (hlater : Run (FittingStep CityHash64 a) m later m') :
    ∃ t t', m.heap a = some t ∧ m'.heap a = some t' ∧ Kept t t' ∧
      (∀ call ∈ later, call.2 = fittingResult call.1) ∧
      ∀ call, MessagesFit CityHash64 a m' call → messagesOf CityHash64 a m' call = [] := by
  obtain ⟨t, hlive, -⟩ := kept_of_run (create_live hcreate).1 hrun
  obtain ⟨t', hlive', hkept, hresults⟩ := kept_of_run hlive hlater
  exact ⟨t, t', hlive.heap, hlive'.heap, hkept, hresults, fun _ => messagesOf_eq_nil hlive'⟩

/-- Four puts fill bucket 8. A put of another key of this bucket then goes to its second bucket,
and one without a value fails. -/
theorem fitting_runs_never_move_example : ∃ m m',
    Run (FittingStep hashLen4to8 0) createdModule (List.replicate 4 (secondPut, 1)) m ∧
      Run (FittingStep hashLen4to8 0) m [(firstPut, 1), (nullPut, -1)] m' ∧
      ∃ t t', m.heap 0 = some t ∧ t.BucketFull 8 ∧ m'.heap 0 = some t' ∧ Kept t t' := by
  have hruns : ∃ m ∈ (List.replicate 4 (secondPut, 1)).foldlM (fittingNext hashLen4to8 0)
        createdModule,
      ∃ m' ∈ [(firstPut, 1), (nullPut, -1)].foldlM (fittingNext hashLen4to8 0) m,
        ∃ t ∈ m.heap 0, t.BucketFull 8 := by decide +kernel
  obtain ⟨m, hm, m', hm', t, hheap, hfull⟩ := hruns
  have hrun : Run (FittingStep hashLen4to8 0) createdModule (List.replicate 4 (secondPut, 1)) m :=
    .of_foldlM hm fun _ _ _ => FittingStep.of_next
  have hlater : Run (FittingStep hashLen4to8 0) m [(firstPut, 1), (nullPut, -1)] m' :=
    .of_foldlM hm' fun _ _ _ => FittingStep.of_next
  obtain ⟨t₁, t', ht₁, hheap', hkept, -⟩ := fitting_runs_never_move create_initial hrun hlater
  obtain rfl := Option.some.inj (ht₁.symm.trans hheap)
  exact ⟨m, m', hrun, hlater, t₁, t', ht₁, hfull, hheap', hkept⟩

end Results

end LibreKV.Cuckoo
