import Mathlib.Data.Nat.Digits.Defs
import LibreKV.Cuckoo.Undo

/-!
# LibreKV.Cuckoo.Messages

The messages that `librekv_cuckoo_put` formats into `log_buffer`.

A message is written on every eviction, at the start of the undo, on every restored slot and
at the end of the undo. `putMessages` lists them in the order of the calls of `sprintf`. Three
of the four kinds always fit the buffer; the message of an eviction, with its three fields of
width 16, never does (`Message.fits_iff`).
-/

namespace LibreKV.Cuckoo

open Transition

/-- `sizeof(log_buffer)`. -/
def logBufferSize : ℕ := 100

/-- `%d` of a `uint16_t`, which is promoted to `int` and never negative. -/
def decimal (x : UInt16) : String := x.toNat.repr

/-- `%16d` of a `uint16_t`. -/
def decimal16 (x : UInt16) : String := String.ofList ((decimal x).toList.leftpad 16 ' ')

/-- The calls of `sprintf`, with the values they format. -/
inductive Message
  /-- An eviction, with the `current_tag` of the entry in hand. -/
  | evicting (currentTag : UInt16)
  /-- The start of the undo. -/
  | undoing
  /-- A slot is given back its entry; the tag is the one it held until then. -/
  | restoring (victimIndex victimTag : UInt16)
  /-- The end of the undo. -/
  | undone
  deriving Repr, DecidableEq

/-- The text of an eviction. -/
def evictingText (currentTag : UInt16) : String :=
  "current_tag is " ++ decimal16 currentTag ++
    ", current_tag with valid bit is " ++ decimal16 (currentTag ||| validBitMask) ++
    ", masked current_tag is " ++ decimal16 (currentTag &&& keyfragMask) ++ "\n"

/-- The text at the start of the undo. -/
def undoingText : String :=
  "librekv_cuckoo_put(): no more space to put new key -- undoing cuckooing\n"

/-- The text of a restored slot. -/
def restoringText (victimIndex victimTag : UInt16) : String :=
  "restoring victim (index " ++ decimal victimIndex ++ " tag " ++ decimal victimTag ++ ")\n"

/-- The text at the end of the undo. -/
def undoneText : String := "librekv_cuckoo_put(): <result> undoing done\n"

/-- What `sprintf` writes, without the terminating zero. -/
def Message.text : Message → String
  | .evicting currentTag => evictingText currentTag
  | .undoing => undoingText
  | .restoring victimIndex victimTag => restoringText victimIndex victimTag
  | .undone => undoneText

/-- The text and its terminating zero fit the buffer. -/
def Message.Fits (msg : Message) : Prop := msg.text.length + 1 ≤ logBufferSize

instance (msg : Message) : Decidable msg.Fits := inferInstanceAs (Decidable (_ ≤ _))

/-! ### The messages of a call, in order -/

/-- The messages of the eviction loop. -/
def kickMessages (maxIndex : UInt16) (rand : ℕ → ℕ) :
    (fuel n : ℕ) → CuckooHashTable → Hand → List Message
  | 0, _, _, _ => []
  | fuel + 1, n, t, c =>
    match freeslot t c.index with
    | .ok way =>
      if way.toNat < associativity then []
      else .evicting c.tag ::
        match evict maxIndex t c (UInt16.ofNat (rand (n + 1) % associativity)) with
        | .ok r => kickMessages maxIndex rand fuel (n + 1) r.1 r.2.1
        | .error _ => []
    | .error _ => []

/-- The messages of the undo loop, and the one after it. -/
def undoMessages (maxIndex : UInt16) : List UndoRecord → CuckooHashTable → InHand → List Message
  | [], _, _ => [.undone]
  | u :: us, t, c =>
    match slotAt u.index.toUInt16 u.way.toUInt16, restoreVictim maxIndex t c u with
    | .ok s, .ok r =>
      .restoring u.index.toUInt16 (t.bucketArray s).keyTag :: undoMessages maxIndex us r.1 r.2
    | _, _ => []

/-- The messages of the eviction loop and, when it gives up, of the undo. -/
def walkMessages (maxIndex : UInt16) (rand : ℕ → ℕ) (t : CuckooHashTable) (c : Hand) :
    List Message :=
  kickMessages maxIndex rand maxCuckooCount 0 t c ++
    match kickLoop maxIndex rand maxCuckooCount 0 t c [] with
    | .ok (.exhausted t c undo) =>
      match modMaxIndex c.index.toUInt32 maxIndex with
      | .ok tag => .undoing :: undoMessages maxIndex undo t ⟨tag, c.hash, c.offset⟩
      | .error _ => [.undoing]
    | _ => []

/-- The messages of `librekv_cuckoo_put`. -/
def putMessages (CityHash64 : List UInt8 → UInt64) (m : Module) (table : TablePtr)
    (key value : UInt64) (rand : ℕ → ℕ) : List Message :=
  if key = 0 ∨ value = 0 then []
  else
    let fn := rand 0 % numHash
    match handFor m.maxIndex key fn (hash CityHash64 key) value, m.load table with
    | .ok c, .ok t =>
      match freeslot t c.index with
      | .ok way =>
        if way.toNat < associativity then []
        else
          match handFor m.maxIndex key ((fn + 1) % numHash) (hash CityHash64 key) value with
          | .ok c => walkMessages m.maxIndex rand t c
          | .error _ => []
      | .error _ => []
    | _, _ => []

/-! ### Lengths -/

theorem length_decimal_le (x : UInt16) : (decimal x).length ≤ 5 := by
  rw [decimal, Nat.length_repr_le_iff (by decide)]
  have h := x.toNat_lt
  omega

/-- The field width is larger than any number of 16 bits needs. -/
theorem length_decimal16 (x : UInt16) : (decimal16 x).length = 16 := by
  have h := length_decimal_le x
  rw [decimal16, String.length_ofList, List.length_leftpad, String.length_toList]
  omega

theorem length_evictingText (tag : UInt16) : (evictingText tag).length = 120 := by
  unfold evictingText
  simp only [String.length_append, length_decimal16]
  simp [← String.length_toList]

theorem length_restoringText (index tag : UInt16) : (restoringText index tag).length ≤ 41 := by
  have hindex := length_decimal_le index
  have htag := length_decimal_le tag
  have hlen : (restoringText index tag).length =
      24 + (decimal index).length + 5 + (decimal tag).length + 2 := by
    unfold restoringText
    simp only [String.length_append]
    simp [← String.length_toList]
  omega

theorem length_undoingText : undoingText.length = 72 := by
  simp [undoingText, ← String.length_toList]

theorem length_undoneText : undoneText.length = 44 := by
  simp [undoneText, ← String.length_toList]

/-- Exactly the messages of evictions do not fit the buffer. -/
theorem Message.fits_iff (msg : Message) : msg.Fits ↔ ∀ tag, msg ≠ .evicting tag := by
  cases msg with
  | evicting tag => simp [Message.Fits, Message.text, length_evictingText, logBufferSize]
  | undoing => simp [Message.Fits, Message.text, length_undoingText, logBufferSize]
  | restoring index tag =>
      have hlen := length_restoringText index tag
      refine ⟨fun _ tag h => Message.noConfusion h, fun _ => ?_⟩
      simp only [Message.Fits, Message.text, logBufferSize]
      omega
  | undone => simp [Message.Fits, Message.text, length_undoneText, logBufferSize]

/-! ### Which calls format the message of an eviction -/

section Walk

variable {maxIndex : UInt16} (rand : ℕ → ℕ) {t : CuckooHashTable} {c : Hand}

/-- A walk that starts in a bucket with a free slot formats nothing. -/
theorem walkMessages_of_room (hc : c.InRange) (hroom : ¬ t.BucketFull c.index.toNat) :
    walkMessages maxIndex rand t c = [] := by
  obtain ⟨w, hw, hfs, -⟩ := freeslot_of_not_full hc.1 hroom
  obtain ⟨t', hk, -⟩ := @kickLoop_of_room maxIndex rand _ _ hc hroom 127 0 []
  have hcount : maxCuckooCount = 127 + 1 := rfl
  rw [walkMessages, hcount, hk, kickMessages]
  simp only [hfs, if_pos hw, List.append_nil]

/-- A walk that starts in a full bucket formats the message of its first eviction. -/
theorem evicting_mem_walkMessages (hc : c.InRange) (hfull : t.BucketFull c.index.toNat) :
    .evicting c.tag ∈ walkMessages maxIndex rand t c := by
  have hcount : maxCuckooCount = 127 + 1 := rfl
  apply List.mem_append_left
  rw [hcount, kickMessages]
  simp only [freeslot_of_full hc.1 hfull, if_neg not_lt_associativity, List.mem_cons, true_or]

end Walk

section Results

variable {CityHash64 : List UInt8 → UInt64} {m : Module} {a : ℕ} {t : CuckooHashTable}

/-- The calls that evict: their arguments are accepted, and both candidate buckets of the
key are full. -/
def Evicts (t : CuckooHashTable) (key value : UInt64) : Prop :=
  value ≠ 0 ∧ 8 ≤ key ∧ t.BucketFull (fragment key 0) ∧ t.BucketFull (fragment key 1)

instance (t : CuckooHashTable) (key value : UInt64) : Decidable (Evicts t key value) :=
  inferInstanceAs (Decidable (_ ∧ _))

/-- In the order a call takes them, its two candidate buckets are those of the two
fragments. -/
theorem candidates_full_iff (t : CuckooHashTable) (key : UInt64) {fn : ℕ} (hfn : fn < numHash) :
    (t.BucketFull (fragment key (UInt32.ofNat fn)) ∧
        t.BucketFull (fragment key (UInt32.ofNat ((fn + 1) % numHash)))) ↔
      (t.BucketFull (fragment key 0) ∧ t.BucketFull (fragment key 1)) := by
  rcases eq_zero_or_one hfn with rfl | rfl
  · exact Iff.rfl
  · exact And.comm

/-- A call formats the message of an eviction, or no message at all. -/
theorem putMessages_cases (hheap : m.heap a = some t)
    (hM : m.maxIndex.toNat = bucketsPerTable) (key value : UInt64) (rand : ℕ → ℕ) :
    (Evicts t key value ∧
        ∃ tag, .evicting tag ∈ putMessages CityHash64 m (.addr a) key value rand) ∨
      (¬ Evicts t key value ∧ putMessages CityHash64 m (.addr a) key value rand = []) := by
  by_cases hnull : key = 0 ∨ value = 0
  · refine Or.inr ⟨?_, by rw [putMessages, if_pos hnull]⟩
    intro h
    exact args_not_null h.1 h.2.1 hnull
  · by_cases hlt : key < 8
    · refine Or.inr ⟨fun h => absurd h.2.1 (UInt64.not_le.mpr hlt), ?_⟩
      simp only [putMessages, if_neg hnull, handFor_of_lt hlt]
    · have hkey : 8 ≤ key := UInt64.not_lt.mp hlt
      have hvalue : value ≠ 0 := fun h => hnull (Or.inr h)
      have hfn := mod_numHash_lt (rand 0)
      obtain ⟨c, hhand, hc, -⟩ := handFor_eq hM hkey hfn (hash CityHash64 key) value
      obtain ⟨c', hhand', hc', -⟩ :=
        handFor_eq hM hkey (mod_numHash_lt (rand 0 % numHash + 1)) (hash CityHash64 key) value
      have hiff : Evicts t key value ↔
          t.BucketFull c.index.toNat ∧ t.BucketFull c'.index.toNat := by
        rw [handFor_index hM hhand, handFor_index hM hhand', candidates_full_iff t key hfn]
        exact ⟨fun h => h.2.2, fun h => ⟨hvalue, hkey, h⟩⟩
      rw [hiff]
      simp only [putMessages, if_neg hnull, hhand, hhand', Module.load_addr hheap]
      by_cases hfull : t.BucketFull c.index.toNat
      · simp only [freeslot_of_full hc.1 hfull, if_neg not_lt_associativity, hfull, true_and]
        by_cases hfull' : t.BucketFull c'.index.toNat
        · exact Or.inl ⟨hfull', c'.tag, evicting_mem_walkMessages rand hc' hfull'⟩
        · exact Or.inr ⟨hfull', walkMessages_of_room rand hc' hfull'⟩
      · obtain ⟨w, hw, hfs, -⟩ := freeslot_of_not_full hc.1 hfull
        simp only [hfs, if_pos hw]
        exact Or.inr ⟨fun h => hfull h.1, trivial⟩

/-- **An eviction overruns `log_buffer`.** The messages of a put all fit the buffer exactly
when the put does not evict. -/
theorem messages_fit_iff (hheap : m.heap a = some t)
    (hM : m.maxIndex.toNat = bucketsPerTable) (key value : UInt64) (rand : ℕ → ℕ) :
    (∀ msg ∈ putMessages CityHash64 m (.addr a) key value rand, msg.Fits) ↔
      ¬ Evicts t key value := by
  rcases putMessages_cases hheap hM key value rand with ⟨hev, tag, hmem⟩ | ⟨hev, hnil⟩
  · constructor
    · intro hfits
      exact absurd rfl ((Message.fits_iff _).mp (hfits _ hmem) tag)
    · intro h
      exact absurd hev h
  · rw [hnil]
    exact ⟨fun _ => hev, fun _ msg hmem => absurd hmem List.not_mem_nil⟩

/-- After four puts of one key one of its two buckets is full. The next put of the key goes to the
other bucket without a message, whichever of them `rand` names first. -/
theorem messages_fit_iff_one_full : ∃ m t,
    Run (PutStep hashLen4to8 0) createdModule (List.replicate 4 (firstPut, 1)) m ∧
      m.heap 0 = some t ∧ t.BucketFull 8 ∧ ¬ Evicts t firstPut.key firstPut.value ∧
      ∀ rand, ∀ msg ∈ putMessages hashLen4to8 m (.addr 0) firstPut.key firstPut.value rand,
        msg.Fits := by
  have hfour : ∃ t ∈ tableAfter hashLen4to8 (List.replicate 4 (firstPut, 1)),
      t.BucketFull 8 ∧ ¬ t.BucketFull 2 := by decide +kernel
  obtain ⟨m, hrun, t, hheap, hfull, hroom⟩ := run_of_tableAfter hfour
  obtain ⟨t', hlive, -⟩ := (Ledger.of_run create_initial hrun).matched
  have hno : ¬ Evicts t firstPut.key firstPut.value := fun h => hroom h.2.2.2
  exact ⟨m, t, hrun, hheap, hfull, hno, fun rand =>
    (messages_fit_iff hheap hlive.maxIndex _ _ rand).mpr hno⟩

/-- The ninth put of one key meets two full buckets, and the message of its first eviction
does not fit. -/
theorem ninth_put_overruns : ∃ m,
    Run (PutStep hashLen4to8 0) createdModule (List.replicate 8 (firstPut, 1)) m ∧
      ∃ msg ∈ putMessages hashLen4to8 m (.addr 0) firstPut.key firstPut.value firstPut.rand,
        ¬ msg.Fits := by
  have height : ∃ t ∈ tableAfter hashLen4to8 (List.replicate 8 (firstPut, 1)),
      Evicts t firstPut.key firstPut.value := by decide +kernel
  obtain ⟨m, hrun, t, hheap, hevicts⟩ := run_of_tableAfter height
  obtain ⟨t', hlive, -⟩ := (Ledger.of_run create_initial hrun).matched
  refine ⟨m, hrun, ?_⟩
  rcases putMessages_cases hheap hlive.maxIndex firstPut.key firstPut.value firstPut.rand with
    ⟨-, tag, hmem⟩ | ⟨hno, -⟩
  · exact ⟨.evicting tag, hmem, fun hfits => (Message.fits_iff _).mp hfits tag rfl⟩
  · exact absurd hevicts hno

end Results

end LibreKV.Cuckoo
