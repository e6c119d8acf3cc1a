import LibreKV.Lib.Buckets
import LibreKV.LinearHash.PutRuns
import LibreKV.LinearHash.Put2Runs

/-!
# LibreKV.LinearHash.PutStore

The table of `librekv_linear_put` as a store.

The source has no function that reads a table. What can be found in it is what the rule by
which put chooses a bucket finds (`LinearTable.found`), and this is right in every state a run
of put reaches: the address of no stored entry is ever left behind by the split pointer. A hash
is then found with the offsets of exactly those of its calls that were not dropped, and how
often calls are dropped is bounded by how often the pointer goes round.
-/

namespace LibreKV.LinearHash

open FirstFit Transition

variable {cap : UInt64} {L : ℕ} {T T' : LinearTable cap}

/-! ### What is found -/

/-- The bucket that put chooses for a hash. -/
def LinearTable.chosen (T : LinearTable cap) (keyHash : UInt64) : ℕ :=
  (chosenBucket T.currentLevel T.nextBucketIndexToSplit keyHash).toNat

/-- The offsets stored for a hash in the bucket that put chooses for it. -/
def LinearTable.found (T : LinearTable cap) (keyHash : UInt64) : Multiset UInt64 :=
  (Buckets.search LinearHashEntry.keyHash T.entriesAt {T.chosen keyHash} keyHash).map
    LinearHashEntry.offset

theorem PutShape.addressed_iff_placed (h : PutShape L T) :
    T.Addressed ↔ Buckets.Placed LinearHashEntry.keyHash (fun k => {T.chosen k}) T.entriesAt := by
  simp only [LinearTable.Addressed, Buckets.Placed, Finset.mem_singleton, LinearTable.chosen,
    h.chosenBucket_eq, h.level]

/-- In an addressed table a hash is found with all offsets it has anywhere. -/
theorem PutShape.found_eq (h : PutShape L T) (hT : T.Addressed) (keyHash : UInt64) :
    T.found keyHash = (T.contents.filter fun p => p.1 = keyHash).map Prod.snd := by
  have hempty : ∀ i ∉ Finset.range T.size, T.entriesAt i = 0 := by
    intro i hi
    exact LinearTable.entriesAt_of_size_le (not_lt.mp fun hlt => hi (Finset.mem_range.mpr hlt))
  have hsearch := (h.addressed_iff_placed.mp hT).search_candidates hempty keyHash
  rw [LinearTable.found, hsearch, LinearTable.contents, Multiset.filter_map, Multiset.map_map]
  rfl

/-! ### The address of what is stored -/

/-- Replacing a bucket changes what is stored in that bucket. -/
theorem LinearTable.entriesAt_stored {i : ℕ} {b b' : LinearBucket cap}
    {x : Multiset LinearHashEntry} (hb : T.bucket? i = some b) (hx : b'.entries = x + b.entries)
    (s : Bool) (j : ℕ) : ((T.setBucket i b').withSplit s).entriesAt j =
      (if j = i then x else 0) + T.entriesAt j := by
  have hlook := LinearTable.bucket?_stored (LinearTable.lt_size hb) b' s
  by_cases hj : j = i
  · subst hj
    rw [if_pos rfl, LinearTable.entriesAt_of_bucket? hb, ← hx]
    exact LinearTable.entriesAt_of_bucket? (by rw [hlook, Function.update_self])
  · rw [if_neg hj, zero_add]
    exact LinearTable.entriesAt_congr (by rw [hlook, Function.update_of_ne hj])

/-- A bucket that is chosen as the target of its hash is the address of the hash. -/
theorem PutShape.target_eq_address (h : PutShape L T) {keyHash : UInt64}
    (hchoose : T.ChoosesTarget keyHash) : T.target keyHash =
      LinearAddress.address L T.nextBucketIndexToSplit.toNat keyHash.toNat := by
  rcases h.chosenBucket_cases keyHash with ⟨-, heq⟩ | ⟨hno, -⟩
  · rw [← heq, h.chosenBucket_eq]
  · exact absurd hchoose hno

/-- Storing an entry at its address. -/
theorem PutShape.addressed_setBucket (h : PutShape L T) (hT : T.Addressed) {keyHash : UInt64}
    (hchoose : T.ChoosesTarget keyHash) {b b' : LinearBucket cap} {x : Multiset LinearHashEntry}
    (hb : T.bucket? (T.target keyHash) = some b) (hx : b'.entries = x + b.entries)
    (hkey : ∀ e ∈ x, e.keyHash = keyHash) (s : Bool) :
    ((T.setBucket (T.target keyHash) b').withSplit s).Addressed := by
  intro j e hmem
  rw [LinearTable.entriesAt_stored hb hx, Multiset.mem_add] at hmem
  rcases hmem with hmem | hmem
  · by_cases hj : j = T.target keyHash
    · rw [if_pos hj] at hmem
      rw [hj, hkey e hmem, h.target_eq_address hchoose, ← h.level]
      rfl
    · rw [if_neg hj] at hmem
      exact absurd hmem (Multiset.notMem_zero e)
  · exact hT j e hmem

/-- An address that is a bucket of the level is the residue. -/
theorem address_eq_mod_of_lt {s k : ℕ} (hlt : LinearAddress.address L s k < 2 ^ L) :
    LinearAddress.address L s k = k % 2 ^ L := by
  rw [LinearAddress.address] at hlt ⊢
  split
  · rfl
  · next hbelow =>
    rw [if_neg hbelow] at hlt
    exact LinearAddress.mod_succ_of_lt hlt

/-- The split pointer passes a bucket of which nothing has to move. -/
theorem PutShape.addressed_nextRound (h : PutShape L T) (hT : T.Addressed)
    (hmove : T.NothingToMove) : T.nextRound.Addressed := by
  intro j e hmem
  have hmem' : e ∈ T.entriesAt j := hmem
  have hj := hT j e hmem'
  rw [h.level] at hj
  have hjlt : j < 2 ^ L := by
    rw [← h.size]
    by_contra hge
    rw [LinearTable.entriesAt_of_size_le (not_lt.mp hge)] at hmem'
    exact Multiset.notMem_zero e hmem'
  have hlevel : T.nextRound.currentLevel.toNat = L := h.level
  rw [hlevel, h.nextRound_next]
  split
  · -- The pointer is back at the first bucket.
    rw [LinearAddress.address_zero, ← address_eq_mod_of_lt (hj ▸ hjlt)]
    exact hj
  -- Only the entries of the bucket that is passed could have another address now.
  · rw [LinearAddress.address_succ h.next, if_neg]
    · exact hj
    · rintro ⟨hat, hup⟩
      have hstays := hmove e (by rw [← hat, ← hj]; exact hmem')
      rw [h.level] at hstays
      exact hstays hup

theorem PutStep.addressed {c : PutCall} (h : PutShape L T) (hT : T.Addressed)
    (hstep : PutStep T c T') : T'.Addressed := by
  have hcases := put_cases h c.keyHash c.offset
  rw [hstep] at hcases
  cases hcases with
  | stored b b' hchoose hb _ hadd =>
      have hx : b'.entries = {occupiedEntry c.keyHash c.offset} + b.entries := hadd
      refine h.addressed_setBucket hT hchoose hb hx ?_ false
      intro e he
      rw [Multiset.mem_singleton.mp he]
      rfl
  | split b b' hchoose hb hfull hmove hadd =>
      have hstored := h.addressed_setBucket hT hchoose hb hadd (s := true) (by
        intro e he
        split at he
        · exact absurd he (Multiset.notMem_zero e)
        · rw [Multiset.mem_singleton.mp he]
          rfl)
      refine (h.setBucket hb true).addressed_nextRound hstored fun e hmem => ?_
      -- Nothing was put into the bucket that the pointer passes.
      have hsame := LinearTable.entriesAt_stored hb hadd true T.nextBucketIndexToSplit.toNat
      have hx : (if T.nextBucketIndexToSplit.toNat = T.target c.keyHash then
          if T.target c.keyHash = T.nextBucketIndexToSplit.toNat then 0
          else {occupiedEntry c.keyHash c.offset} else (0 : Multiset LinearHashEntry)) = 0 := by
        by_cases heq : T.nextBucketIndexToSplit.toNat = T.target c.keyHash
        · rw [if_pos heq, if_pos heq.symm]
        · rw [if_neg heq]
      rw [hx, zero_add] at hsame
      exact hmove e (hsame ▸ hmem)

/-! ### What becomes of a call -/

/-- What becomes of a call that returns. -/
inductive PutOutcome
  /-- A free slot of the chain took the pair. -/
  | stored
  /-- The chain was full; the pair is on a new page of it. -/
  | overflowed
  /-- The chain was full and due to be split; the pair is nowhere. -/
  | dropped
  deriving Repr, DecidableEq

/-- What becomes of the call `c` on the table `T`. -/
def LinearTable.outcome (T : LinearTable cap) (c : PutCall) : PutOutcome :=
  if T.FullAt (T.target c.keyHash) then
    if T.target c.keyHash = T.nextBucketIndexToSplit.toNat then .dropped else .overflowed
  else .stored

/-- What a call that returns does to the stored pairs and to the split pointer. -/
theorem PutStep.effect {c : PutCall} (h : PutShape L T) (hstep : PutStep T c T') :
    T'.contents = (if T.outcome c = .dropped then 0 else {c.pair}) + T.contents ∧
      T'.nextBucketIndexToSplit.toNat =
        (T.nextBucketIndexToSplit.toNat + if T.outcome c = .stored then 0 else 1) % 2 ^ L := by
  have hnext := h.next
  have hcases := put_cases h c.keyHash c.offset
  rw [hstep] at hcases
  cases hcases with
  | stored b b' _ hb hfull hadd =>
      have hout : T.outcome c = .stored := if_neg (LinearTable.not_fullAt hb hfull)
      have hx : b'.entries = {occupiedEntry c.keyHash c.offset} + b.entries := hadd
      rw [hout, if_neg (by decide), if_pos rfl, Nat.add_zero, Nat.mod_eq_of_lt hnext]
      exact ⟨LinearTable.contents_setBucket hb hx, rfl⟩
  | split b b' _ hb hfull _ hadd =>
      have hshape : PutShape L ((T.setBucket (T.target c.keyHash) b').withSplit true) :=
        h.setBucket hb true
      have hpointer := hshape.nextRound_next
      have hcontents := LinearTable.contents_setBucket hb hadd
      have hround : (if T.nextBucketIndexToSplit.toNat + 1 = 2 ^ L then 0
          else T.nextBucketIndexToSplit.toNat + 1) =
            (T.nextBucketIndexToSplit.toNat + 1) % 2 ^ L := by
        split
        · next heq => rw [heq, Nat.mod_self]
        · next hne => exact (Nat.mod_eq_of_lt (by omega)).symm
      -- The pointer moves either way; the pair is kept only outside the bucket due.
      by_cases htarget : T.target c.keyHash = T.nextBucketIndexToSplit.toNat
      · have hout : T.outcome c = .dropped := by
          rw [LinearTable.outcome, if_pos ⟨b, hb, hfull⟩, if_pos htarget]
        rw [hout, if_pos rfl, if_neg (by decide)]
        rw [if_pos htarget] at hcontents
        exact ⟨hcontents, hpointer.trans hround⟩
      · have hout : T.outcome c = .overflowed := by
          rw [LinearTable.outcome, if_pos ⟨b, hb, hfull⟩, if_neg htarget]
        rw [hout, if_neg (by decide), if_neg (by decide)]
        rw [if_neg htarget] at hcontents
        exact ⟨hcontents, hpointer.trans hround⟩

/-- A dropped call is due for its bucket. -/
theorem target_of_dropped {c : PutCall} (h : T.outcome c = .dropped) :
    T.target c.keyHash = T.nextBucketIndexToSplit.toNat := by
  rw [LinearTable.outcome] at h
  split at h
  · split at h
    · next htarget => exact htarget
    · cases h
  · cases h

/-! ### The ledger of a run -/

/-- The calls that were not dropped. -/
def kept (notes : List (PutCall × PutOutcome)) : List PutCall :=
  (notes.filter fun n => n.2 ≠ .dropped).map Prod.fst

/-- The number of calls that found their chain full. -/
def fullCalls (notes : List (PutCall × PutOutcome)) : ℕ :=
  notes.countP fun n => n.2 ≠ .stored

/-- The number of dropped calls for the bucket `i` of a table of `m` buckets. -/
def drops (m i : ℕ) (notes : List (PutCall × PutOutcome)) : ℕ :=
  notes.countP fun n => n.2 = .dropped ∧ n.1.keyHash.toNat % m = i

/-- How often a pointer that starts at 0 and goes round `m` places has left the place `i` after
`n` moves. -/
theorem rounds_succ {m i : ℕ} (hi : i < m) (n : ℕ) :
    (n + 1 + m - 1 - i) / m = (n + m - 1 - i) / m + if n % m = i then 1 else 0 := by
  have hm : 0 < m := by omega
  have hdiv := Nat.div_add_mod n m
  have hmod := Nat.mod_lt n hm
  have hstep : ∀ k, (n + k) / m = n / m + (n % m + k) / m := by
    intro k
    conv_lhs => rw [← hdiv, Nat.add_assoc, Nat.mul_add_div hm]
  -- Both quotients are that of `n` and one more at most.
  have hval : ∀ k < 2 * m, k / m = if k < m then 0 else 1 := by
    intro k hk
    split
    · next hlt => exact Nat.div_eq_of_lt hlt
    · next hge => exact Nat.div_eq_of_lt_le (by omega) (by omega)
  have hupper := hval (n % m + (m - i)) (by omega)
  have hlower := hval (n % m + (m - 1 - i)) (by omega)
  rw [show n + 1 + m - 1 - i = n + (m - i) by omega,
    show n + m - 1 - i = n + (m - 1 - i) by omega, hstep, hstep, hupper, hlower]
  rcases lt_trichotomy (n % m) i with hlt | heq | hgt
  · rw [if_pos (by omega), if_pos (by omega), if_neg (by omega)]
  · rw [if_neg (by omega), if_pos (by omega), if_pos heq]
  · rw [if_neg (by omega), if_neg (by omega), if_neg (by omega)]

/-- The table agrees with the notes of its run. -/
structure Ledger (L : ℕ) (notes : List (PutCall × PutOutcome)) (T : LinearTable cap) : Prop where
  shape : PutShape L T
  addressed : T.Addressed
  contents : T.contents = ((kept notes).map PutCall.pair : List _)
  pointer : T.nextBucketIndexToSplit.toNat = fullCalls notes % 2 ^ L
  dropped : ∀ i < 2 ^ L, drops (2 ^ L) i notes ≤ (fullCalls notes + 2 ^ L - 1 - i) / 2 ^ L

theorem Created.ledger {T : LinearTable cap} (h : Created L T) (hcap : 0 < cap.toNat)
    (hL : L ≤ 29) : Ledger L [] T where
  shape := h.putShape hcap hL
  addressed := h.addressed
  contents := by
    rw [contents_of_replicate h.table]
    rfl
  pointer := by
    rw [h.next]
    exact (Nat.zero_mod _).symm
  dropped := fun i _ => Nat.zero_le _

/-- One more call. -/
theorem Ledger.step {notes : List (PutCall × PutOutcome)} {n : PutCall × PutOutcome}
    (h : Ledger L notes T) (hstep : Noted PutStep LinearTable.outcome T n T') :
    Ledger L (notes ++ [n]) T' := by
  obtain ⟨c, o⟩ := n
  obtain ⟨hput, hout⟩ := hstep
  have hout' : T.outcome c = o := hout.symm
  obtain ⟨hcontents, hpointer⟩ := hput.effect h.shape
  rw [hout'] at hcontents hpointer
  have hfull : fullCalls (notes ++ [(c, o)]) =
      fullCalls notes + if o = .stored then 0 else 1 := by
    rw [fullCalls, List.countP_append, List.countP_singleton]
    by_cases ho : o = .stored <;> simp [fullCalls, ho]
  have hkept : kept (notes ++ [(c, o)]) = kept notes ++ if o = .dropped then [] else [c] := by
    rw [kept, List.filter_append, List.map_append]
    by_cases ho : o = .dropped <;> simp [kept, ho]
  refine ⟨h.shape.step hput, hput.addressed h.shape h.addressed, ?_, ?_, ?_⟩
  · rw [hcontents, h.contents, hkept, List.map_append, ← Multiset.coe_add, add_comm]
    by_cases ho : o = .dropped <;> simp [ho]
  · rw [hpointer, h.pointer, hfull, Nat.mod_add_mod]
  · intro i hi
    have hdrops : drops (2 ^ L) i (notes ++ [(c, o)]) = drops (2 ^ L) i notes +
        if o = .dropped ∧ c.keyHash.toNat % 2 ^ L = i then 1 else 0 := by
      rw [drops, List.countP_append, List.countP_singleton]
      simp [drops]
    have hprior := h.dropped i hi
    rw [hdrops, hfull]
    by_cases ho : o = .stored
    · have hno : ¬ (o = .dropped ∧ c.keyHash.toNat % 2 ^ L = i) := by
        rintro ⟨hd, -⟩
        rw [ho] at hd
        cases hd
      rw [if_pos ho, if_neg hno]
      exact hprior
    · rw [if_neg ho, rounds_succ hi]
      refine Nat.add_le_add hprior ?_
      split
      · next hdrop =>
        -- The dropped call was due: the pointer was at its bucket.
        have hdue := target_of_dropped (hout'.trans hdrop.1)
        rw [h.pointer, LinearTable.target, h.shape.level, hdrop.2] at hdue
        rw [if_pos hdue.symm]
      · exact Nat.zero_le _

section Results

variable {prior : LinearTable cap} {i_initialLevel : UInt32} {i_entriesPerBucket : UInt64}
  {r : Int} {T₀ T : LinearTable (capacityOf i_entriesPerBucket)}

theorem ledger_run {notes : List (PutCall × PutOutcome)} (hlevel : i_initialLevel.toNat ≤ 29)
    (hcreate : librekvLinearCreate prior i_initialLevel i_entriesPerBucket = .ok (r, T₀))
    (hrun : Run (Noted PutStep LinearTable.outcome) T₀ notes T) :
    Ledger i_initialLevel.toNat notes T :=
  hrun.invariantLog ((create_created hlevel hcreate).ledger (capacityOf_pos _) hlevel)
    fun _ _ _ _ h hstep => h.step hstep

/-- **No pair is lost but those of dropped calls.** The calls of every run can be noted with
what became of them, and then the table holds the pairs of the calls that were not dropped, each
once; it never grows; its split pointer counts the calls that found their chain full; and a
bucket drops at most one call each time the pointer comes to it. -/
theorem put_ledger {log : List PutCall} (hlevel : i_initialLevel.toNat ≤ 29)
    (hcreate : librekvLinearCreate prior i_initialLevel i_entriesPerBucket = .ok (r, T₀))
    (hrun : Run PutStep T₀ log T) :
    ∃ notes, notes.map Prod.fst = log ∧ Run (Noted PutStep LinearTable.outcome) T₀ notes T ∧
      T.contents = ((kept notes).map PutCall.pair : List _) ∧
      T.size = 2 ^ i_initialLevel.toNat ∧ T.currentLevel.toNat = i_initialLevel.toNat ∧
      T.nextBucketIndexToSplit.toNat = fullCalls notes % 2 ^ i_initialLevel.toNat ∧
      ∀ i < 2 ^ i_initialLevel.toNat, drops (2 ^ i_initialLevel.toNat) i notes ≤
        (fullCalls notes + 2 ^ i_initialLevel.toNat - 1 - i) / 2 ^ i_initialLevel.toNat := by
  obtain ⟨notes, hnotes, hnoted⟩ := hrun.noted LinearTable.outcome
  have h := ledger_run hlevel hcreate hnoted
  exact ⟨notes, hnotes, hnoted, h.contents, h.shape.size, h.shape.level, h.pointer, h.dropped⟩

/-- Two calls for one bucket of one slot. -/
theorem put_ledger_example : ∃ T, Run PutStep (smallTable 1) [⟨0, 10⟩, ⟨0, 20⟩] T ∧
    ∃ notes : List (PutCall × PutOutcome), notes.map Prod.fst = [⟨0, 10⟩, ⟨0, 20⟩] ∧
      T.contents = ((kept notes).map PutCall.pair : List _) := by
  have hfirst : Run PutStep (smallTable 1) [⟨0, 10⟩] _ := .snoc .nil rfl
  have hrun : Run PutStep (smallTable 1) [⟨0, 10⟩, ⟨0, 20⟩] _ := .snoc hfirst rfl
  obtain ⟨notes, hnotes, -, hcontents, -⟩ := put_ledger (by decide) create_smallTable.1 hrun
  exact ⟨_, hrun, notes, hnotes, hcontents⟩

/-- **The store can be searched.** In every state of a run, the bucket that put chooses for a
hash holds the offsets of the calls with that hash that were not dropped, each once. -/
theorem put_found {notes : List (PutCall × PutOutcome)} (hlevel : i_initialLevel.toNat ≤ 29)
    (hcreate : librekvLinearCreate prior i_initialLevel i_entriesPerBucket = .ok (r, T₀))
    (hrun : Run (Noted PutStep LinearTable.outcome) T₀ notes T) (keyHash : UInt64) :
    T.found keyHash =
      (((kept notes).filter fun c => c.keyHash = keyHash).map PutCall.offset : List _) := by
  have h := ledger_run hlevel hcreate hrun
  rw [h.shape.found_eq h.addressed, h.contents, Multiset.filter_coe, Multiset.map_coe,
    List.filter_map, List.map_map]
  rfl

/-- The second of two calls for a bucket of one slot is not found. -/
theorem put_found_example : ∃ T, Run (Noted PutStep LinearTable.outcome) (smallTable 1)
    [(⟨0, 10⟩, .stored), (⟨0, 20⟩, .dropped)] T ∧ T.found 0 = {10} := by
  have hfirst : Run (Noted PutStep LinearTable.outcome) (smallTable 1) [(⟨0, 10⟩, .stored)] _ :=
    .snoc .nil ⟨rfl, by decide⟩
  have hrun : Run (Noted PutStep LinearTable.outcome) (smallTable 1)
      [(⟨0, 10⟩, .stored), (⟨0, 20⟩, .dropped)] _ := .snoc hfirst ⟨rfl, by decide⟩
  exact ⟨_, hrun, put_found (by decide) create_smallTable.1 hrun 0⟩

/-- Every stored hash is that of a call. -/
theorem Ledger.exists_call {notes : List (PutCall × PutOutcome)} {L : ℕ}
    (h : Ledger L notes T) {i : ℕ} {e : LinearHashEntry} (he : e ∈ T.entriesAt i) :
    ∃ c ∈ notes.map Prod.fst, c.keyHash = e.keyHash := by
  have hi : i ∈ Finset.range T.size := by
    rw [Finset.mem_range]
    by_contra hge
    rw [LinearTable.entriesAt_of_size_le (not_lt.mp hge)] at he
    exact Multiset.notMem_zero e he
  have hpair : (e.keyHash, e.offset) ∈ T.contents :=
    Multiset.mem_map_of_mem _ (Multiset.mem_sum.mpr ⟨i, hi, he⟩)
  rw [h.contents, Multiset.mem_coe, List.mem_map] at hpair
  obtain ⟨c, hc, hpair⟩ := hpair
  obtain ⟨n, hn, rfl⟩ := List.mem_map.mp hc
  exact ⟨n.1, List.mem_map_of_mem (List.mem_of_mem_filter hn), congrArg Prod.fst hpair⟩

/-- **Calls that never use the next level always return.** From a created table of level `L`,
any calls whose hashes have bit number `L` clear make a run: none of them ends beyond the
array. -/
theorem put_returns_of_lowHalf (hlevel : i_initialLevel.toNat ≤ 29)
    (hcreate : librekvLinearCreate prior i_initialLevel i_entriesPerBucket = .ok (r, T₀))
    {log : List PutCall} (hlow : ∀ c ∈ log,
      c.keyHash.toNat % 2 ^ (i_initialLevel.toNat + 1) < 2 ^ i_initialLevel.toNat) :
    ∃ T, Run PutStep T₀ log T := by
  induction log using List.reverseRecOn with
  | nil => exact ⟨T₀, .nil⟩
  | append_singleton log c ih =>
      obtain ⟨T, hrun⟩ := ih fun c hc => hlow c (List.mem_append_left _ hc)
      obtain ⟨notes, rfl, hnoted⟩ := hrun.noted LinearTable.outcome
      have h := ledger_run hlevel hcreate hnoted
      have hreturns := (put_returns_iff h.shape c).1
      have hchoose : T.ChoosesTarget c.keyHash := by
        refine Or.inr ?_
        rw [LowHalf, h.shape.level]
        exact hlow c (List.mem_append_right _ (List.mem_singleton_self c))
      have hmove : T.NothingToMove := by
        intro e he
        obtain ⟨c', hc', hkey⟩ := h.exists_call he
        have hlt := hlow c' (List.mem_append_left _ hc')
        rw [h.shape.level, ← hkey]
        omega
      obtain ⟨T', hstep⟩ := hreturns.mpr ⟨hchoose, fun _ => hmove⟩
      exact ⟨T', .snoc hrun hstep⟩

/-- Three calls for a bucket of one slot. -/
theorem put_returns_of_lowHalf_example :
    ∃ T, Run PutStep (smallTable 1) [⟨0, 10⟩, ⟨4, 20⟩, ⟨8, 30⟩] T :=
  put_returns_of_lowHalf (by decide) create_smallTable.1 (by simp)

end Results

end LibreKV.LinearHash
