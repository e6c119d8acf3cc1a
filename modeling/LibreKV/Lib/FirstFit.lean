import Mathlib.Data.Multiset.Filter

/-!
# First fit in a list of slots

A list of slots, each free or occupied by what it holds. `place` overwrites the first free
slot and fails when there is none; `sweep` is a pass that rewrites the slots one by one, in
place. Both are described by the multiset of the occupied slots (`occupied`), in which a
place adds one element and a pass that frees the slots it moves away removes exactly these.

The slots may come in pages of one length: then slot `i` of page `k` is slot `k * n + i` of the
list of all slots.
-/

namespace FirstFit

variable {α : Type*} (free : α → Bool)

/-- Overwrite the first free slot. -/
def place (x : α) : List α → Option (List α)
  | [] => none
  | a :: as => if free a then some (x :: as) else (place x as).map (a :: ·)

/-- No slot is free. -/
def Full (as : List α) : Prop := ∀ a ∈ as, free a = false

instance (as : List α) : Decidable (Full free as) :=
  inferInstanceAs (Decidable (∀ a ∈ as, free a = false))

/-- What the occupied slots hold. -/
def occupied (as : List α) : Multiset α := (as : Multiset α).filter fun a => free a = false

variable {free}

theorem full_append {as bs : List α} : Full free (as ++ bs) ↔ Full free as ∧ Full free bs := by
  simp only [Full, List.mem_append, or_imp, forall_and]

theorem place_eq_none_iff {x : α} {as : List α} : place free x as = none ↔ Full free as := by
  induction as with
  | nil => simp [place, Full]
  | cons a as ih =>
      cases ha : free a with
      | false => simpa [place, Full, ha] using ih
      | true => simp [place, Full, ha]

/-- A place in the front part leaves the back part alone. -/
theorem place_append_of_some {x : α} {as as' : List α} (h : place free x as = some as')
    (bs : List α) : place free x (as ++ bs) = some (as' ++ bs) := by
  induction as generalizing as' with
  | nil => cases h
  | cons a as ih =>
      cases ha : free a with
      | true =>
          simp only [place, ha, if_true, Option.some.injEq] at h
          subst h
          simp [place, ha]
      | false =>
          simp only [place, ha, Bool.false_eq_true, if_false, Option.map_eq_some_iff] at h
          obtain ⟨as₁, h₁, rfl⟩ := h
          simp [place, ha, ih h₁]

/-- With the front part full, the place goes to the back part. -/
theorem place_append_of_full {x : α} {as : List α} (h : Full free as) (bs : List α) :
    place free x (as ++ bs) = (place free x bs).map (as ++ ·) := by
  induction as with
  | nil => simp
  | cons a as ih =>
      have ha : free a = false := h a List.mem_cons_self
      have htail : Full free as := fun b hb => h b (List.mem_cons_of_mem a hb)
      simp only [List.cons_append, place, ha, Bool.false_eq_true, if_false, ih htail,
        Option.map_map]
      rfl

theorem length_place {x : α} {as bs : List α} (h : place free x as = some bs) :
    bs.length = as.length := by
  induction as generalizing bs with
  | nil => cases h
  | cons a as ih =>
      cases ha : free a with
      | true =>
          simp only [place, ha, if_true, Option.some.injEq] at h
          subst h
          rfl
      | false =>
          simp only [place, ha, Bool.false_eq_true, if_false, Option.map_eq_some_iff] at h
          obtain ⟨as₁, h₁, rfl⟩ := h
          simp [ih h₁]

/-- A place overwrites the first free slot and no other. -/
theorem place_eq_set {x : α} {as bs : List α} (h : place free x as = some bs) :
    ∃ k, (∀ j < k, ∀ a, as[j]? = some a → free a = false) ∧
      (∃ a, as[k]? = some a ∧ free a = true) ∧ bs = as.set k x := by
  induction as generalizing bs with
  | nil => cases h
  | cons a as ih =>
      cases ha : free a with
      | true =>
          simp only [place, ha, if_true, Option.some.injEq] at h
          exact ⟨0, fun j hj => absurd hj (Nat.not_lt_zero j), ⟨a, rfl, ha⟩, h.symm⟩
      | false =>
          simp only [place, ha, Bool.false_eq_true, if_false, Option.map_eq_some_iff] at h
          obtain ⟨as₁, h₁, rfl⟩ := h
          obtain ⟨k, hbefore, hfree, rfl⟩ := ih h₁
          refine ⟨k + 1, fun j hj b hb => ?_, hfree, rfl⟩
          cases j with
          | zero =>
              obtain rfl := Option.some.inj hb
              exact ha
          | succ j => exact hbefore j (Nat.lt_of_succ_lt_succ hj) b hb

/-! ### The occupied slots -/

@[simp] theorem occupied_nil : occupied free [] = 0 := rfl

theorem occupied_cons_of_free {a : α} (ha : free a = true) (as : List α) :
    occupied free (a :: as) = occupied free as := by
  simp [occupied, ha]

theorem occupied_cons_of_not_free {a : α} (ha : free a = false) (as : List α) :
    occupied free (a :: as) = a ::ₘ occupied free as := by
  simp [occupied, ha]

@[simp] theorem occupied_append (as bs : List α) :
    occupied free (as ++ bs) = occupied free as + occupied free bs := by
  simp [occupied, ← Multiset.coe_add]

theorem mem_occupied {as : List α} {a : α} :
    a ∈ occupied free as ↔ a ∈ as ∧ free a = false := by
  simp [occupied]

/-- A place adds exactly what was placed. -/
theorem occupied_place {x : α} {as bs : List α} (hx : free x = false)
    (h : place free x as = some bs) : occupied free bs = x ::ₘ occupied free as := by
  induction as generalizing bs with
  | nil => cases h
  | cons a as ih =>
      cases ha : free a with
      | true =>
          simp only [place, ha, if_true, Option.some.injEq] at h
          subst h
          rw [occupied_cons_of_not_free hx, occupied_cons_of_free ha]
      | false =>
          simp only [place, ha, Bool.false_eq_true, if_false, Option.map_eq_some_iff] at h
          obtain ⟨as₁, h₁, rfl⟩ := h
          rw [occupied_cons_of_not_free ha, occupied_cons_of_not_free ha, ih h₁,
            Multiset.cons_swap]

/-- Freeing a slot takes exactly its entry away. -/
theorem occupied_set_free {as : List α} {k : ℕ} {a blank : α} (h : as[k]? = some a)
    (ha : free a = false) (hblank : free blank = true) :
    occupied free as = a ::ₘ occupied free (as.set k blank) := by
  induction as generalizing k with
  | nil => cases h
  | cons b bs ih =>
      cases k with
      | zero =>
          obtain rfl := Option.some.inj h
          rw [List.set_cons_zero, occupied_cons_of_not_free ha, occupied_cons_of_free hblank]
      | succ k =>
          rw [List.set_cons_succ]
          cases hb : free b with
          | true => rw [occupied_cons_of_free hb, occupied_cons_of_free hb, ih h]
          | false =>
              rw [occupied_cons_of_not_free hb, occupied_cons_of_not_free hb, ih h,
                Multiset.cons_swap]

/-- Fewer occupied slots than slots leave one free. -/
theorem not_full_of_card_lt {as : List α} (h : (occupied free as).card < as.length) :
    ¬ Full free as := by
  intro hfull
  have hall : occupied free as = as := Multiset.filter_eq_self.mpr hfull
  rw [hall, Multiset.coe_card] at h
  exact Nat.lt_irrefl _ h

theorem card_occupied_le (as : List α) : (occupied free as).card ≤ as.length := by
  calc (occupied free as).card ≤ (as : Multiset α).card :=
        Multiset.card_le_card (Multiset.filter_le _ _)
    _ = as.length := Multiset.coe_card as

/-! ### A pass over the slots -/

/-- The slots after a pass of `f` over the first `k` of them. -/
def sweep (f : α → α) (k : ℕ) (as : List α) : List α := (as.take k).map f ++ as.drop k

@[simp] theorem sweep_zero (f : α → α) (as : List α) : sweep f 0 as = as := by
  simp [sweep]

@[simp] theorem length_sweep (f : α → α) (k : ℕ) (as : List α) :
    (sweep f k as).length = as.length := by
  simp [sweep]
  omega

theorem sweep_of_length_le (f : α → α) {k : ℕ} {as : List α} (h : as.length ≤ k) :
    sweep f k as = as.map f := by
  simp [sweep, List.take_of_length_le h, List.drop_of_length_le h]

/-- The slot the pass comes to next is still as it was. -/
theorem getElem?_sweep (f : α → α) (k : ℕ) (as : List α) : (sweep f k as)[k]? = as[k]? := by
  by_cases hk : k ≤ as.length
  · have hlen : ((as.take k).map f).length = k := by simp [hk]
    rw [sweep, List.getElem?_append_right hlen.le, hlen, Nat.sub_self, List.getElem?_drop,
      Nat.add_zero]
  · have hle : as.length ≤ k := by omega
    rw [List.getElem?_eq_none (by simpa using hle), List.getElem?_eq_none hle]

/-- Rewriting the next slot is one more step of the pass. -/
theorem sweep_succ (f : α → α) {k : ℕ} {as : List α} {a : α} (h : as[k]? = some a) :
    (sweep f k as).set k (f a) = sweep f (k + 1) as := by
  have hk : k < as.length := (List.getElem?_eq_some_iff.mp h).1
  have ha : as[k] = a := (List.getElem?_eq_some_iff.mp h).2
  have hlen : ((as.take k).map f).length = k := by simp; omega
  rw [sweep, List.set_append_right _ _ hlen.le, hlen, Nat.sub_self,
    List.drop_eq_getElem_cons hk, List.set_cons_zero, sweep, ← List.take_append_getElem hk, ha]
  simp

/-- A step that rewrites a slot to what it holds is no change. -/
theorem sweep_succ_of_fixed (f : α → α) {k : ℕ} {as : List α} {a : α} (h : as[k]? = some a)
    (hf : f a = a) : sweep f (k + 1) as = sweep f k as := by
  have hsame : (sweep f k as)[k]? = some a := by rw [getElem?_sweep, h]
  obtain ⟨hk, rfl⟩ := List.getElem?_eq_some_iff.mp hsame
  rw [← sweep_succ f h, hf, List.set_getElem_self]

/-- A pass that frees the slots chosen by `moves` keeps the others. -/
theorem occupied_map_free (moves : α → Bool) {blank : α} (hblank : free blank = true)
    (as : List α) : occupied free (as.map fun a => if moves a then blank else a) =
      (occupied free as).filter fun a => moves a = false := by
  induction as with
  | nil => rfl
  | cons a as ih =>
      rw [List.map_cons]
      cases ha : free a with
      | true =>
          have hout : free (if moves a then blank else a) = true := by
            cases moves a <;> simp [hblank, ha]
          rw [occupied_cons_of_free hout, occupied_cons_of_free ha, ih]
      | false =>
          cases hm : moves a with
          | true =>
              simp only [if_true]
              rw [occupied_cons_of_free hblank, occupied_cons_of_not_free ha, ih,
                Multiset.filter_cons_of_neg _ (by simp [hm])]
          | false =>
              simp only [Bool.false_eq_true, if_false]
              rw [occupied_cons_of_not_free ha, occupied_cons_of_not_free ha, ih,
                Multiset.filter_cons_of_pos (p := fun a => moves a = false) _ hm]

/-! ### Slots in pages -/

section Pages

variable {β : Type*} {slots : β → List α} {n i : ℕ}

theorem length_flatMap_pages (hn : ∀ p, (slots p).length = n) (ps : List β) :
    (ps.flatMap slots).length = ps.length * n := by
  induction ps with
  | nil => simp
  | cons p ps ih =>
      rw [List.flatMap_cons, List.length_append, hn, ih, List.length_cons, Nat.succ_mul,
        Nat.add_comm]

theorem getElem?_flatMap_pages (hn : ∀ p, (slots p).length = n) (hi : i < n) (ps : List β)
    (k : ℕ) : (ps.flatMap slots)[k * n + i]? = ps[k]?.bind fun p => (slots p)[i]? := by
  induction ps generalizing k with
  | nil => rfl
  | cons p ps ih =>
      rw [List.flatMap_cons]
      cases k with
      | zero =>
          rw [Nat.zero_mul, Nat.zero_add, List.getElem?_append_left (by rw [hn]; exact hi)]
          rfl
      | succ k =>
          have hskip : (k + 1) * n + i - (slots p).length = k * n + i := by
            rw [hn, Nat.succ_mul]
            omega
          rw [List.getElem?_append_right (by rw [hn, Nat.succ_mul]; omega), hskip, ih]
          rfl

/-- Writing a slot of a page is writing a slot of the list. -/
theorem flatMap_set_page (hn : ∀ p, (slots p).length = n) (hi : i < n) {ps : List β} {k : ℕ}
    {p q : β} {x : α} (hp : ps[k]? = some p) (hq : slots q = (slots p).set i x) :
    (ps.set k q).flatMap slots = (ps.flatMap slots).set (k * n + i) x := by
  induction ps generalizing k with
  | nil => cases hp
  | cons r ps ih =>
      cases k with
      | zero =>
          obtain rfl := Option.some.inj hp
          rw [List.set_cons_zero, List.flatMap_cons, List.flatMap_cons, hq, Nat.zero_mul,
            Nat.zero_add, List.set_append_left _ _ (by rw [hn]; exact hi)]
      | succ k =>
          have hskip : (k + 1) * n + i - (slots r).length = k * n + i := by
            rw [hn, Nat.succ_mul]
            omega
          rw [List.set_cons_succ, List.flatMap_cons, List.flatMap_cons, ih hp,
            List.set_append_right _ _ (by rw [hn, Nat.succ_mul]; omega), hskip]

end Pages

end FirstFit
