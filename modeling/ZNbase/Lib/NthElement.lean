import Mathlib.Data.List.Sort

/-!
# The n-th element of a list

`nthElement l k` is the value that is at place `k` once `l` is sorted in increasing order, as
`std::nth_element` leaves it there. What it is used for is the count of elements that are not
below it.
-/

open List

variable {α : Type*} [LinearOrder α]

/-- The value at place `k` of the sorted list. -/
def nthElement (l : List α) (k : ℕ) : Option α := (l.insertionSort (· ≤ ·))[k]?

/-- The n-th element is an element. -/
lemma mem_of_nthElement_eq_some {l : List α} {k : ℕ} {x : α} (h : nthElement l k = some x) :
    x ∈ l := by
  have hmem : x ∈ l.insertionSort (· ≤ ·) := mem_of_getElem? h
  exact (mem_insertionSort _).1 hmem

/-- At least `l.length - k` elements are not below the one at place `k`. -/
lemma le_countP_of_nthElement_eq_some {l : List α} {k : ℕ} {x : α}
    (h : nthElement l k = some x) : l.length - k ≤ l.countP fun y => x ≤ y := by
  have hperm : (l.insertionSort (· ≤ ·)).Perm l := List.perm_insertionSort _ l
  obtain ⟨hk, hx⟩ := List.getElem?_eq_some_iff.1 h
  have hsort : (l.insertionSort (· ≤ ·)).Pairwise (· ≤ ·) := List.pairwise_insertionSort _ l
  rw [← hperm.countP_eq, ← hperm.length_eq]
  -- every element from place `k` on is counted
  have hdrop : ∀ y ∈ (l.insertionSort (· ≤ ·)).drop k, x ≤ y := by
    intro y hy
    obtain ⟨i, hi, rfl⟩ := getElem_of_mem hy
    rw [getElem_drop]
    rcases Nat.eq_zero_or_pos i with rfl | hpos
    · simp [hx]
    · rw [← hx]
      exact pairwise_iff_getElem.1 hsort _ _ _ _ (by omega)
  have hcnt : ((l.insertionSort (· ≤ ·)).drop k).countP fun y => x ≤ y =
      ((l.insertionSort (· ≤ ·)).drop k).length := by
    rw [countP_eq_length]
    intro y hy
    simpa using hdrop y hy
  rw [length_drop] at hcnt
  calc (l.insertionSort (· ≤ ·)).length - k = ((l.insertionSort (· ≤ ·)).drop k).countP fun y =>
    x ≤ y := hcnt.symm
    _ ≤ (l.insertionSort (· ≤ ·)).countP fun y => x ≤ y :=
        (drop_sublist k _).countP_le
