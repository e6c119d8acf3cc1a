import Mathlib.Algebra.BigOperators.Group.Finset.Basic
import Mathlib.Algebra.Order.Group.Multiset
import Mathlib.Data.Multiset.Filter

/-!
# Items in buckets

Items are spread over buckets, and a key is looked for in a few of them only: one in a linear
hash table, two in a cuckoo table. Such a search is complete when every item is in a bucket
where its key is looked for (`Placed`). It then finds what a search of all buckets would find.
-/

namespace Buckets

variable {ι κ α : Type*} [DecidableEq κ]

/-- Every item is in a bucket where its key is looked for. -/
def Placed (key : α → κ) (candidates : κ → Finset ι) (bucket : ι → Multiset α) : Prop :=
  ∀ i, ∀ a ∈ bucket i, i ∈ candidates (key a)

/-- The items with the key `k` in the given buckets. -/
def search (key : α → κ) (bucket : ι → Multiset α) (places : Finset ι) (k : κ) : Multiset α :=
  (∑ i ∈ places, bucket i).filter fun a => key a = k

variable {key : α → κ} {candidates : κ → Finset ι} {bucket : ι → Multiset α}

/-- The buckets can be searched one by one. -/
theorem search_eq_sum (places : Finset ι) (k : κ) :
    search key bucket places k = ∑ i ∈ places, (bucket i).filter fun a => key a = k := by
  classical
  rw [search]
  induction places using Finset.induction_on with
  | empty => simp
  | insert i places hi ih =>
      rw [Finset.sum_insert hi, Finset.sum_insert hi, Multiset.filter_add, ih]

/-- A bucket where the key is not looked for has no item with it. -/
theorem Placed.filter_eq_zero (h : Placed key candidates bucket) {i : ι} {k : κ}
    (hi : i ∉ candidates k) : (bucket i).filter (fun a => key a = k) = 0 := by
  rw [Multiset.filter_eq_nil]
  intro a ha hkey
  exact hi (hkey ▸ h i a ha)

/-- **Searching the candidates is enough.** Candidates beyond the buckets there are do no
harm when nothing is in them. -/
theorem Placed.search_candidates (h : Placed key candidates bucket) {all : Finset ι}
    (hempty : ∀ i ∉ all, bucket i = 0) (k : κ) :
    search key bucket (candidates k) k = search key bucket all k := by
  classical
  have hcandidates : candidates k ⊆ candidates k ∪ all := Finset.subset_union_left
  have hall : all ⊆ candidates k ∪ all := Finset.subset_union_right
  rw [search_eq_sum, search_eq_sum, Finset.sum_subset hcandidates fun i _ hi => h.filter_eq_zero hi,
    Finset.sum_subset hall fun i _ hi => by rw [hempty i hi, Multiset.filter_zero]]

end Buckets
