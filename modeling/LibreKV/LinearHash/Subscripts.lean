import LibreKV.LinearHash.Put2Sound
import LibreKV.LinearHash.Compact

/-!
# LibreKV.LinearHash.Subscripts

The subscripts of `m_linearHashEntry` that the redistribution loop of `librekv_linear_put2` and
the loops of `librekv_linear_compactBucket` use.

Both are read off the loops of the model, round by round (`Fallible.visited`): a round counts
as soon as it is entered, also when it fails. The redistribution reaches the subscript
`m_entriesPerBucket`, one beyond the page, whenever it runs at all (`redistributeSlot_ok`); a
compaction reads the subscripts 0 to 4 of every page.
-/

namespace LibreKV.LinearHash

open Fallible

variable {cap : UInt64}

/-! ### The accesses of the two functions -/

/-- The rounds of the redistribution loop after a bucket was added. The counter is an `int`. -/
def redistributionRounds (behind : LinearHashEntry) (T : LinearTable cap) :
    List (LinearTable cap × ℕ) :=
  match librekvLinearAddBucket T with
  | .ok r =>
    match r.2.store (r.2.currBucketNum - 1) r.1 with
    | .ok T =>
      visited (redistributeSlot behind) T (List.range (min (cap.toNat + 1) (2 ^ 31)))
    | .error _ => []
  | .error _ => []

/-- The subscripts that `librekv_linear_put2` uses while it redistributes. -/
def put2Subscripts (behind : LinearHashEntry) (T : LinearTable cap) (keyHash offset : UInt64) :
    List ℕ :=
  match put2Insert T keyHash offset with
  | .ok T => if T.isSplit then (redistributionRounds behind T).map Prod.snd else []
  | .error _ => []

/-- The subscript at which an entry is copied to. -/
def Compacted.insertIndex (s : Compacted cap) : ℕ :=
  if s.nextIndexToInsertTo ≥ cap.toNat then 0 else s.nextIndexToInsertTo

/-- The subscripts of one round of a compaction: the slot read, and the slot copied to. -/
def compactAccesses (r : Compacted cap × (ℕ × LinearHashEntry)) : List ℕ :=
  r.2.1 :: if r.2.2.isValid then [r.1.insertIndex] else []

/-- The subscripts that `librekv_linear_compactBucket` uses while it copies a chain. -/
def compactSubscripts (behind : Behind) (T : LinearTable cap) (i_bucketIndex : UInt64) :
    List ℕ :=
  match T.bucketAt i_bucketIndex.toNat, librekvLinearInitNewBucket cap with
  | .ok currBucket, .ok compactedBucket =>
    (visited compactRound ⟨compactedBucket, 0⟩ (compactRounds behind currBucket)).flatMap
      compactAccesses
  | _, _ => []

/-! ### The rounds of a redistribution -/

/-- Buckets that are there stay there. -/
def Keeps (T T' : LinearTable cap) : Prop :=
  ∀ j, (∃ b, T.bucket? j = some b) → ∃ b, T'.bucket? j = some b

theorem Keeps.trans {T₁ T₂ T₃ : LinearTable cap} (h₁ : Keeps T₁ T₂) (h₂ : Keeps T₂ T₃) :
    Keeps T₁ T₃ := fun j hj => h₂ j (h₁ j hj)

theorem Keeps.setBucket {T : LinearTable cap} {i : ℕ} (hi : i < T.size) (b : LinearBucket cap) :
    Keeps T (T.setBucket i b) := by
  intro j hj
  rw [LinearTable.bucket?_setBucket hi, Function.update_apply]
  split
  · exact ⟨b, rfl⟩
  · exact hj

section Rounds

variable {behind : LinearHashEntry} {S T : LinearTable cap}

/-- A round inside the page succeeds, whatever the slot holds. -/
theorem redistributeSlot_ok {k : ℕ} (hcap' : cap.toNat < 2 ^ 31) (hk : k < cap.toNat)
    (hnext : ∃ b, T.bucket? T.nextBucketIndexToSplit.toNat = some b)
    (hmirror : ∃ c, T.bucket? (T.currBucketNum - 1).toNat = some c) :
    ∃ T', redistributeSlot behind T k = .ok T' ∧ SameCounters T T' ∧ Keeps T T' := by
  obtain ⟨b, hb⟩ := hnext
  obtain ⟨c, hc⟩ := hmirror
  have hklen : k < b.page.slots.length := by rw [b.page.size]; exact hk
  have hread : readFirstPage behind T k = .ok b.page.slots[k] := by
    rw [readFirstPage, if_pos hk, LinearTable.readSlot, LinearTable.bucketAt_eq hb, ok_bind]
    simp only [LinearBucket.pages, List.getElem?_cons_zero, List.getElem?_eq_getElem hklen]
  rw [redistributeSlot, hread, ok_bind, moveSlot]
  by_cases hm : b.page.slots[k].movesTo T.currentLevel (T.currBucketNum - 1) = true
  · obtain ⟨r, c', hins, -⟩ := insert_eq (Nat.zero_lt_of_lt hk) hcap' hc
      b.page.slots[k].keyHash b.page.slots[k].offset
    have hkeep : Keeps T ((T.setBucket (T.currBucketNum - 1).toNat c').withSplit r) :=
      Keeps.setBucket (LinearTable.lt_size hc) c'
    obtain ⟨b', hb'⟩ := hkeep _ ⟨b, hb⟩
    let b₁ := b'.setPage 0 (b'.page.set k freeEntry)
    refine ⟨_, ?_, (SameCounters.insert hins).trans (.setBucket _ _ b₁),
      hkeep.trans (.setBucket (LinearTable.lt_size hb') b₁)⟩
    rw [if_pos hm, hins, ok_bind, LinearTable.clearSlot]
    rw [LinearTable.bucketAt_eq hb', ok_bind]
    simp only [LinearBucket.pages, List.getElem?_cons_zero, Page.write, if_pos hk, ok_bind]
    rfl
  · exact ⟨T, if_neg hm, .refl T, fun _ hj => hj⟩

/-- With the bucket to split and the new one there, the loop gets through the page and enters
the round behind it. -/
theorem rounds_reach_end (hcap' : cap.toNat < 2 ^ 31)
    (hnext : ∃ b, T.bucket? T.nextBucketIndexToSplit.toNat = some b)
    (hmirror : ∃ c, T.bucket? (T.currBucketNum - 1).toNat = some c) :
    cap.toNat ∈ (visited (redistributeSlot behind) T
      (List.range (min (cap.toNat + 1) (2 ^ 31)))).map Prod.snd := by
  have hround : ∀ k < cap.toNat, ∀ T₁, SameCounters T T₁ ∧ Keeps T T₁ →
      ∃ T₂, redistributeSlot behind T₁ k = .ok T₂ ∧ SameCounters T T₂ ∧ Keeps T T₂ := by
    intro k hk T₁ hinv
    obtain ⟨hsame, hkeep⟩ := hinv
    obtain ⟨T₂, hstep, hsame₂, hkeep₂⟩ := @redistributeSlot_ok cap behind T₁ k hcap' hk
      (hsame.next.symm ▸ hkeep _ hnext) (hsame.num.symm ▸ hkeep _ hmirror)
    exact ⟨T₂, hstep, hsame.trans hsame₂, hkeep.trans hkeep₂⟩
  obtain ⟨T', hrun, -⟩ := @foldlM_range_ok _ _ (redistributeSlot behind)
    (fun _ T' => SameCounters T T' ∧ Keeps T T') cap.toNat T ⟨.refl T, fun _ hj => hj⟩ hround
  rw [Nat.min_eq_left (Nat.succ_le_of_lt hcap'), List.range_succ, visited_append_of_ok hrun,
    List.map_append]
  exact List.mem_append_right _ List.mem_cons_self

/-- Without the bucket to split, the first round fails at its read, and there is no other. -/
theorem rounds_end_at_zero (hnext : ¬ ∃ b, T.bucket? T.nextBucketIndexToSplit.toNat = some b)
    (hcap : 0 < cap.toNat) :
    (visited (redistributeSlot behind) T
      (List.range (min (cap.toNat + 1) (2 ^ 31)))).map Prod.snd = [0] := by
  have hread : ∃ fault, redistributeSlot behind T 0 = .error fault := by
    cases hb : T.bucketAt T.nextBucketIndexToSplit.toNat with
    | ok b => exact absurd ⟨b, LinearTable.bucketAt_eq_ok.mp hb⟩ hnext
    | error fault =>
        refine ⟨fault, ?_⟩
        rw [redistributeSlot, readFirstPage, if_pos hcap, LinearTable.readSlot, hb, error_bind,
          error_bind]
  obtain ⟨fault, hread⟩ := hread
  obtain ⟨n, hn⟩ : ∃ n, min (cap.toNat + 1) (2 ^ 31) = n + 1 :=
    Nat.exists_eq_succ_of_ne_zero (by omega)
  rw [hn, List.range_succ_eq_map, visited_of_error hread]
  rfl

end Rounds

/-! ### When the redistribution runs -/

/-- The array can grow by one bucket, and the bucket to split is there then. -/
def LinearTable.CanSplit (T : LinearTable cap) : Prop :=
  T.currBucketNum.toNat + 1 < 2 ^ 60 ∧
    (T.nextBucketIndexToSplit = T.currBucketNum ∨
      (T.nextBucketIndexToSplit < T.currBucketNum ∧
        ∃ b, T.bucket? T.nextBucketIndexToSplit.toNat = some b))

/-- A wrapped byte count leaves no room for the new bucket. -/
theorem addBucket_of_wrapped {T : LinearTable cap} (h : 2 ^ 60 ≤ T.currBucketNum.toNat + 1)
    (r : LinearBucket cap × LinearTable cap) : librekvLinearAddBucket T ≠ .ok r := by
  intro hadd
  rw [librekvLinearAddBucket, bind_eq_ok] at hadd
  obtain ⟨b, -, hadd⟩ := hadd
  rw [bind_eq_ok] at hadd
  obtain ⟨T', hstore, -⟩ := hadd
  have hpred : (T.resize (T.currBucketNum + 1)).currBucketNum - 1 = T.currBucketNum :=
    UInt64.add_sub_cancel _ _
  have hlen : (T.resize (T.currBucketNum + 1)).size =
      ((T.currBucketNum + 1) * 16).toNat / 16 := by
    show (reallocBuckets _ _).length = _
    simp only [reallocBuckets, List.length_append, List.length_take, List.length_replicate]
    omega
  have hwrap : ((T.currBucketNum + 1) * 16).toNat / 16 ≤ T.currBucketNum.toNat := by
    rw [UInt64.toNat_mul, UInt64.toNat_add]
    simp only [UInt64.reduceToNat]
    have hlt := T.currBucketNum.toNat_lt
    omega
  rw [LinearTable.store, hpred, if_neg (by omega)] at hstore
  cases hstore

/-- After the growth the bucket to split is there iff it was, or is the new one. -/
theorem Grown.next_iff {T T' : LinearTable cap} (h : Grown T T') :
    (∃ b, T'.bucket? T'.nextBucketIndexToSplit.toNat = some b) ↔
      (T.nextBucketIndexToSplit = T.currBucketNum ∨
        (T.nextBucketIndexToSplit < T.currBucketNum ∧
          ∃ b, T.bucket? T.nextBucketIndexToSplit.toNat = some b)) := by
  rw [h.next]
  rcases lt_trichotomy T.nextBucketIndexToSplit.toNat T.currBucketNum.toNat with hlt | heq | hgt
  · have hne : T.nextBucketIndexToSplit ≠ T.currBucketNum := by
      intro h
      rw [h] at hlt
      exact Nat.lt_irrefl _ hlt
    rw [h.kept _ hlt]
    simp [hne, UInt64.lt_iff_toNat_lt.mpr hlt]
  · rw [heq, h.added]
    exact ⟨fun _ => Or.inl (UInt64.toNat_inj.mp heq), fun _ => ⟨_, rfl⟩⟩
  · constructor
    · intro hex
      obtain ⟨b, hb⟩ := hex
      have hlt := LinearTable.lt_size hb
      rw [h.size] at hlt
      omega
    · intro hor
      rcases hor with heq | ⟨hlt, -⟩
      · rw [heq] at hgt
        exact absurd hgt (Nat.lt_irrefl _)
      · exact absurd (UInt64.lt_iff_toNat_lt.mp hlt) (Nat.lt_asymm hgt)

/-- The rounds after an insertion that asked for a split: all subscripts are inside the page
iff the bucket to split cannot be reached. -/
theorem redistributionRounds_iff (hcap : 0 < cap.toNat) (hcap' : cap.toNat < 2 ^ 31)
    (behind : LinearHashEntry) (S : LinearTable cap) :
    (∀ i ∈ (redistributionRounds behind S).map Prod.snd, i < cap.toNat) ↔ ¬ S.CanSplit := by
  by_cases hbytes : S.currBucketNum.toNat + 1 < 2 ^ 60
  · obtain ⟨S₁, hadd, hgrown, hstore⟩ := addBucket_grown_of_bytes hcap' hbytes
    have hrounds : redistributionRounds behind S = visited (redistributeSlot behind) S₁
        (List.range (min (cap.toNat + 1) (2 ^ 31))) := by
      simp only [redistributionRounds, hadd, hstore]
    rw [hrounds, LinearTable.CanSplit, and_iff_right hbytes, ← hgrown.next_iff]
    by_cases hnext : ∃ b, S₁.bucket? S₁.nextBucketIndexToSplit.toNat = some b
    · have hmirror : ∃ c, S₁.bucket? (S₁.currBucketNum - 1).toNat = some c := by
        rw [hgrown.mirror]
        exact ⟨_, hgrown.added⟩
      constructor
      · intro h
        exact absurd (h _ (rounds_reach_end hcap' hnext hmirror)) (Nat.lt_irrefl _)
      · intro h
        exact absurd hnext h
    · rw [rounds_end_at_zero hnext hcap]
      refine ⟨fun _ => hnext, fun _ i hi => ?_⟩
      obtain rfl := List.mem_singleton.mp hi
      exact hcap
  · have hrounds : redistributionRounds behind S = [] := by
      cases hadd : librekvLinearAddBucket S with
      | ok r => exact absurd hadd (addBucket_of_wrapped (not_lt.mp hbytes) r)
      | error fault => simp only [redistributionRounds, hadd]
    rw [hrounds]
    exact ⟨fun _ h => hbytes h.1, fun _ i hi => absurd hi List.not_mem_nil⟩

/-- The call finds its bucket full and gets as far as the redistribution. -/
def Redistributes (T : LinearTable cap) (keyHash : UInt64) : Prop :=
  0 < T.currentLevel ∧ T.FullAt (truncateHash keyHash T.currentLevel).toNat ∧ T.CanSplit

/-- Storing into a bucket that is there does not change whether the table can be split. -/
theorem canSplit_stored {T : LinearTable cap} {i : ℕ} (hi : ∃ b, T.bucket? i = some b)
    (b' : LinearBucket cap) (r : Bool) :
    ((T.setBucket i b').withSplit r).CanSplit ↔ T.CanSplit := by
  obtain ⟨b, hb⟩ := hi
  have hlook := LinearTable.bucket?_stored (LinearTable.lt_size hb) b' r
  have hthere : ∀ j, (∃ c, ((T.setBucket i b').withSplit r).bucket? j = some c) ↔
      ∃ c, T.bucket? j = some c := by
    intro j
    rw [hlook, Function.update_apply]
    by_cases hj : j = i
    · rw [if_pos hj, hj]
      exact ⟨fun _ => ⟨b, hb⟩, fun _ => ⟨b', rfl⟩⟩
    · rw [if_neg hj]
  have hnext := hthere T.nextBucketIndexToSplit.toNat
  constructor
  · intro h
    exact ⟨h.1, h.2.imp id fun hlt => ⟨hlt.1, hnext.mp hlt.2⟩⟩
  · intro h
    exact ⟨h.1, h.2.imp id fun hlt => ⟨hlt.1, hnext.mpr hlt.2⟩⟩

/-- On the tables that runs of put2 reach, a full bucket is all it takes. -/
theorem Put2Shape.redistributes_iff {L₀ : ℕ} {T : LinearTable cap} (h : Put2Shape L₀ T)
    (keyHash : UInt64) :
    Redistributes T keyHash ↔ 0 < T.currentLevel ∧ T.FullAt (T.target keyHash) := by
  have hnum := h.num
  have hsize := h.phase
  have hpow : 2 ^ L₀ ≤ 2 ^ 29 := Nat.pow_le_pow_right (by omega) h.bound
  have hpos : 0 < 2 ^ L₀ := Nat.two_pow_pos L₀
  have hcan : T.CanSplit := by
    refine ⟨by omega, Or.inr ⟨?_, ?_⟩⟩
    · rw [h.next, UInt64.lt_iff_toNat_lt, hnum]
      exact hpos
    · rw [h.next]
      exact h.initialised 0 (by omega)
  rw [Redistributes, h.toNat_truncateHash]
  exact ⟨fun hr => ⟨hr.1, hr.2.1⟩, fun hr => ⟨hr.1, hr.2, hcan⟩⟩

section Results

/-- The first part of a call: either it asks for no split, or it leaves a table that can be
split iff the old one can. -/
theorem put2Insert_asks (hcap : 0 < cap.toNat) (hcap' : cap.toNat < 2 ^ 31)
    (T : LinearTable cap) (keyHash offset : UInt64) :
    (¬ (0 < T.currentLevel ∧ T.FullAt (truncateHash keyHash T.currentLevel).toNat) ∧
        ∀ S, put2Insert T keyHash offset = .ok S → S.isSplit = false) ∨
      ((0 < T.currentLevel ∧ T.FullAt (truncateHash keyHash T.currentLevel).toNat) ∧
        ∃ S, put2Insert T keyHash offset = .ok S ∧ S.isSplit = true ∧
          (S.CanSplit ↔ T.CanSplit)) := by
  by_cases hlevel : 0 < T.currentLevel
  · rw [put2Insert, if_pos hlevel]
    cases hbucket : T.bucketAt (truncateHash keyHash T.currentLevel).toNat with
    | error fault =>
        refine Or.inl ⟨?_, fun S hS => ?_⟩
        · intro h
          obtain ⟨b, hb, -⟩ := h.2
          rw [LinearTable.bucketAt_eq hb] at hbucket
          cases hbucket
        · rw [librekvLinearInsertToBucket, hbucket, error_bind, error_bind] at hS
          cases hS
    | ok b =>
        have hb := LinearTable.bucketAt_eq_ok.mp hbucket
        obtain ⟨r, b', hins, hout⟩ := insert_eq hcap hcap' hb keyHash offset
        rw [hins, ok_bind]
        by_cases hfull : b.Full
        · obtain rfl := (hout.of_full hfull).1
          exact Or.inr ⟨⟨hlevel, b, hb, hfull⟩, _, rfl, rfl, canSplit_stored ⟨b, hb⟩ b' true⟩
        · refine Or.inl ⟨fun h => LinearTable.not_fullAt hb hfull h.2, fun S hS => ?_⟩
          obtain rfl := Except.ok.inj hS
          exact (hout.of_not_full rfl hfull).1
  · refine Or.inl ⟨fun h => hlevel h.1, fun S hS => ?_⟩
    rw [put2Insert, if_neg hlevel] at hS
    obtain rfl := Except.ok.inj hS
    rfl

/-- The subscripts of put2. -/
theorem put2Subscripts_iff (hcap : 0 < cap.toNat) (hcap' : cap.toNat < 2 ^ 31)
    (behind : LinearHashEntry) (T : LinearTable cap) (keyHash offset : UInt64) :
    (∀ i ∈ put2Subscripts behind T keyHash offset, i < cap.toNat) ↔
      ¬ Redistributes T keyHash := by
  rcases put2Insert_asks hcap hcap' T keyHash offset with ⟨hno, hok⟩ | ⟨hyes, S, hS, hsplit, hcan⟩
  · have hnil : put2Subscripts behind T keyHash offset = [] := by
      rw [put2Subscripts]
      cases hS : put2Insert T keyHash offset with
      | error fault => rfl
      | ok S => simp [hok S hS]
    rw [hnil]
    exact ⟨fun _ h => hno ⟨h.1, h.2.1⟩, fun _ i hi => absurd hi List.not_mem_nil⟩
  · have hsub : put2Subscripts behind T keyHash offset =
        (redistributionRounds behind S).map Prod.snd := by
      simp only [put2Subscripts, hS, hsplit, if_true]
    rw [hsub, redistributionRounds_iff hcap hcap', hcan, Redistributes, ← and_assoc,
      and_iff_right hyes]

/-! ### The subscripts of a compaction -/

theorem mem_compactRounds {behind : Behind} {b : LinearBucket cap}
    {r : ℕ × LinearHashEntry} (h : r ∈ compactRounds behind b) : r.1 < compactLoopBound := by
  obtain ⟨pk, -, hr⟩ := List.mem_flatMap.mp h
  obtain ⟨i, hi, rfl⟩ := List.mem_map.mp hr
  exact List.mem_range.mp hi

/-- Every chain has a first page, of which slot 4 is read. -/
theorem exists_round_four (behind : Behind) (b : LinearBucket cap) :
    ∃ e, (4, e) ∈ compactRounds behind b := by
  refine ⟨readBehind behind b.page 0 4, List.mem_flatMap.mpr ⟨(b.page, 0), ?_, ?_⟩⟩
  · rw [LinearBucket.pages, List.zipIdx_cons]
    exact List.mem_cons_self
  · exact List.mem_map.mpr ⟨4, by decide, rfl⟩

/-- Without the bucket there is nothing to copy. -/
theorem compactSubscripts_of_no_bucket {behind : Behind} {T : LinearTable cap} {i : UInt64}
    (h : ¬ ∃ b, T.bucket? i.toNat = some b) : compactSubscripts behind T i = [] := by
  cases hbucket : T.bucketAt i.toNat with
  | error fault => simp only [compactSubscripts, hbucket]
  | ok b => exact absurd ⟨b, LinearTable.bucketAt_eq_ok.mp hbucket⟩ h

/-- A compaction gets through all its rounds, so it reads slot 4. -/
theorem four_mem_compactSubscripts (hcap : 0 < cap.toNat) (hcap' : cap.toNat < 2 ^ 31)
    (behind : Behind) {T : LinearTable cap} {i : UInt64} {b : LinearBucket cap}
    (hb : T.bucket? i.toNat = some b) : 4 ∈ compactSubscripts behind T i := by
  have hsub : compactSubscripts behind T i =
      (visited compactRound ⟨⟨.empty cap, []⟩, 0⟩ (compactRounds behind b)).flatMap
        compactAccesses := by
    simp only [compactSubscripts, LinearTable.bucketAt_eq hb, librekvLinearInitNewBucket,
      if_pos hcap']
  obtain ⟨s, hrun, -⟩ := packed_zero.rounds hcap hcap' (compactRounds behind b)
  obtain ⟨e, he⟩ := exists_round_four behind b
  rw [← map_snd_visited_of_ok hrun] at he
  obtain ⟨r, hr, hr4⟩ := List.mem_map.mp he
  rw [hsub]
  refine List.mem_flatMap.mpr ⟨r, hr, ?_⟩
  rw [compactAccesses, hr4]
  exact List.mem_cons_self

/-- On pages of five slots or more, what is read and what is written is inside. -/
theorem lt_of_mem_compactSubscripts (h5 : 5 ≤ cap.toNat) {behind : Behind}
    {T : LinearTable cap} {i : UInt64} {j : ℕ} (hj : j ∈ compactSubscripts behind T i) :
    j < cap.toNat := by
  rw [compactSubscripts] at hj
  split at hj
  · obtain ⟨r, hr, hj⟩ := List.mem_flatMap.mp hj
    rcases List.mem_cons.mp hj with rfl | hj
    · exact Nat.lt_of_lt_of_le (mem_compactRounds (snd_mem_of_mem_visited hr)) h5
    · split at hj
      · obtain rfl := List.mem_singleton.mp hj
        rw [Compacted.insertIndex]
        split <;> omega
      · cases hj
  · cases hj

/-- The subscripts of compaction. -/
theorem compactSubscripts_iff (hcap : 0 < cap.toNat) (hcap' : cap.toNat < 2 ^ 31)
    (behind : Behind) (T : LinearTable cap) (i : UInt64) :
    (∀ j ∈ compactSubscripts behind T i, j < cap.toNat) ↔
      ((∃ b, T.bucket? i.toNat = some b) → 5 ≤ cap.toNat) := by
  constructor
  · intro h hex
    obtain ⟨b, hb⟩ := hex
    exact h 4 (four_mem_compactSubscripts hcap hcap' behind hb)
  · intro h j hj
    by_cases hex : ∃ b, T.bucket? i.toNat = some b
    · exact lt_of_mem_compactSubscripts (h hex) hj
    · rw [compactSubscripts_of_no_bucket hex] at hj
      cases hj

/-- **Where the subscripts stay inside the page.** In every table whose pages can be
initialised, put2 stays inside exactly when it does not redistribute, and the compaction of a
bucket that is there exactly when a page has at least five slots. -/
theorem subscripts_inside_iff {page₀ : LinearBucket cap} (hcap : 1 ≤ cap)
    (hpage : librekvLinearInitNewBucket cap = .ok page₀) (T : LinearTable cap) :
    (∀ (behind : LinearHashEntry) (keyHash offset : UInt64),
        (∀ i ∈ put2Subscripts behind T keyHash offset, i < cap.toNat) ↔
          ¬ Redistributes T keyHash) ∧
      ∀ (behind : Behind) (i : UInt64),
        (∀ j ∈ compactSubscripts behind T i, j < cap.toNat) ↔
          ((∃ b, T.bucket? i.toNat = some b) → 5 ≤ cap.toNat) := by
  have hpos : 0 < cap.toNat := UInt64.le_iff_toNat_le.mp hcap
  have hcap' := lt_of_initNewBucket hpage
  exact ⟨fun behind keyHash offset => put2Subscripts_iff hpos hcap' behind T keyHash offset,
    fun behind i => compactSubscripts_iff hpos hcap' behind T i⟩

/-- On a created table with pages of five slots, put2 and the compaction stay inside the page. -/
theorem subscripts_inside_iff_small :
    librekvLinearCreate (.zeroed 0) 1 5 = .ok (0, smallTable 5) ∧
      (∀ i ∈ put2Subscripts freeEntry (smallTable 5) 0 10, i < (capacityOf 5).toNat) ∧
      ¬ Redistributes (smallTable 5) 0 ∧
      ∀ j ∈ compactSubscripts (fun _ _ => freeEntry) (smallTable 5) 0,
        j < (capacityOf 5).toNat := by
  have hpage : librekvLinearInitNewBucket (capacityOf 5) = .ok ⟨.empty _, []⟩ := rfl
  have hno : ¬ Redistributes (smallTable 5) 0 := by
    intro h
    have hb : (smallTable 5).bucket? (truncateHash 0 (smallTable 5).currentLevel).toNat =
        some ⟨.empty _, []⟩ := rfl
    exact LinearTable.not_fullAt hb (by decide) h.2.1
  obtain ⟨hput2, hcompact⟩ := subscripts_inside_iff (by decide) hpage (smallTable 5)
  exact ⟨rfl, (hput2 _ _ _).mpr hno, hno, (hcompact _ 0).mpr fun _ => Nat.le_refl 5⟩

/-- The second put2 into one bucket of pages with one slot uses the subscript 1, and a
compaction of pages with four slots uses the subscript 4. -/
theorem subscripts_beyond_page :
    (librekvLinearCreate (.zeroed 0) 1 1 = .ok (0, smallTable 1) ∧
      ∃ T, librekvLinearPut2 freeEntry (smallTable 1) 0 10 = .ok T ∧
        put2Subscripts freeEntry T 0 20 = [0, 1] ∧ ¬ 1 < (capacityOf 1).toNat) ∧
      (librekvLinearCreate (.zeroed 0) 1 4 = .ok (0, smallTable 4) ∧
        4 ∈ compactSubscripts (fun _ _ => freeEntry) (smallTable 4) 0 ∧
        ¬ 4 < (capacityOf 4).toNat) := by
  exact ⟨⟨rfl, _, rfl, rfl, by decide⟩, rfl, by decide, by decide⟩

end Results

end LibreKV.LinearHash
