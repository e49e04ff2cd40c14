import Mathlib.Order.Lattice
import Mathlib.Data.List.Pairwise
import Mathlib.Data.List.TakeWhile

/-!
# Logs with overwritten entries

A log that is only appended to, whose entries carry an index: an entry takes the place of the
entries at its index and above that were written before it.

- `survivors idx es` is what is left of the entries `es`, in order.
- `survivors_append` says what is left when more is written; `survivors_pairwise` that what is left
  is in the order of the indexes.
- A part of a list that is in the order of a key can be read off by walking along it
  (`takeWhile_eq_filter`), and parts that follow on each other can be read off one by one
  (`filter_le_append`).
-/

open List

namespace OverwrittenLog

/-- Two elements of a list are the same or come in the order of the list. -/
lemma mem_trichotomy {α : Type*} {R : α → α → Prop} {l : List α} (hl : l.Pairwise R) {x y : α}
    (hx : x ∈ l) (hy : y ∈ l) : x = y ∨ R x y ∨ R y x := by
  have : Std.Symm fun x y => R x y ∨ R y x := ⟨fun _ _ h => h.symm⟩
  have hor : l.Pairwise fun x y => R x y ∨ R y x := hl.imp .inl
  exact or_iff_not_imp_left.2 (hor.forall hx hy)

section Survivors

variable {α : Type*} (idx : α → ℕ)

/-- The entries that no later entry takes the place of. -/
def survivors : List α → List α
  | [] => []
  | e :: es => if ∀ x ∈ es, idx e < idx x then e :: survivors es else survivors es

lemma survivors_sublist (es : List α) : (survivors idx es).Sublist es := by
  induction es with
  | nil => exact .slnil
  | cons e es ih =>
    rw [survivors]
    split_ifs
    · exact ih.cons_cons e
    · exact ih.cons e

/-- What is written later leaves only entries below it. -/
lemma survivors_append (a b : List α) :
    survivors idx (a ++ b) = (survivors idx a).filter (fun e => ∀ x ∈ b, idx e < idx x) ++
      survivors idx b := by
  induction a with
  | nil => rfl
  | cons e a ih =>
    have hspl : (∀ x ∈ a ++ b, idx e < idx x) ↔ (∀ x ∈ a, idx e < idx x) ∧
        ∀ x ∈ b, idx e < idx x := by
      simp only [mem_append, or_imp, forall_and]
    rw [cons_append, survivors, survivors, ih]
    by_cases ha : ∀ x ∈ a, idx e < idx x
    · by_cases hb : ∀ x ∈ b, idx e < idx x
      · rw [if_pos (hspl.2 ⟨ha, hb⟩), if_pos ha, filter_cons_of_pos (by simpa using hb)]
        rfl
      · rw [if_neg fun h => hb (hspl.1 h).2, if_pos ha, filter_cons_of_neg (by simpa using hb)]
    · rw [if_neg fun h => ha (hspl.1 h).1, if_neg ha]

lemma survivors_concat (a : List α) (e : α) :
    survivors idx (a ++ [e]) = (survivors idx a).filter (fun x => idx x < idx e) ++ [e] := by
  simp [survivors_append, survivors]

/-- What is left is in the order of the indexes. -/
lemma survivors_pairwise (es : List α) : (survivors idx es).Pairwise fun a b => idx a < idx b := by
  induction es with
  | nil => exact .nil
  | cons e es ih =>
    rw [survivors]
    split_ifs with h
    · exact .cons (fun x hx => h x ((survivors_sublist idx es).subset hx)) ih
    · exact ih

variable {idx} {a b : List α} {e : α}

/-- An entry is left if it was left of the first part and is below all of the second, or if it is
left of the second. -/
lemma mem_survivors_append :
    e ∈ survivors idx (a ++ b) ↔ (e ∈ survivors idx a ∧ ∀ x ∈ b, idx e < idx x) ∨
      e ∈ survivors idx b := by
  simp [survivors_append]

/-- There is at most one entry left for each index. -/
lemma eq_of_idx_eq {x y : α} (hx : x ∈ survivors idx a) (hy : y ∈ survivors idx a)
    (h : idx x = idx y) : x = y := by
  rcases mem_trichotomy (survivors_pairwise idx a) hx hy with heq | hlt | hlt
  · exact heq
  · exact (hlt.ne h).elim
  · exact (hlt.ne h.symm).elim

end Survivors

section Sorted

variable {α β : Type*} [LinearOrder β] {key : α → β} {l : List α} {c c' : β}

section

variable (hl : l.Pairwise fun a b => key a < key b)

include hl

/-- What is left after a walk along a list in order, up to `c`, is above it. -/
lemma lt_of_mem_dropWhile {e : α} (he : e ∈ l.dropWhile fun e => key e ≤ c) : c < key e := by
  induction hl with
  | nil => cases he
  | @cons x l hx hl ih =>
    by_cases h : key x ≤ c
    · rw [dropWhile_cons_of_pos (by simpa using h)] at he
      exact ih he
    · rw [dropWhile_cons_of_neg (by simpa using h)] at he
      rcases mem_cons.1 he with rfl | he
      · exact not_le.1 h
      · exact (not_le.1 h).trans (hx e he)

/-- Walking along a list in order, up to `c`. -/
lemma takeWhile_eq_filter : l.takeWhile (fun e => key e ≤ c) = l.filter fun e => key e ≤ c := by
  conv_rhs => rw [← takeWhile_append_dropWhile (p := fun e => key e ≤ c) (l := l), filter_append]
  rw [filter_eq_self.2 fun e => mem_takeWhile_imp, filter_eq_nil_iff.2, append_nil]
  intro e he
  simpa using lt_of_mem_dropWhile hl he

/-- What is left after the walk. -/
lemma dropWhile_eq_filter : l.dropWhile (fun e => key e ≤ c) = l.filter fun e => c < key e := by
  conv_rhs => rw [← takeWhile_append_dropWhile (p := fun e => key e ≤ c) (l := l), filter_append]
  rw [filter_eq_nil_iff.2, nil_append, filter_eq_self.2]
  · intro e he
    simpa using lt_of_mem_dropWhile hl he
  · intro e he
    simpa using mem_takeWhile_imp he

/-- What is read up to `c` and then up to `c'` is what is read up to `c'`. -/
lemma filter_le_append (hc : c ≤ c') :
    (l.filter fun e => key e ≤ c) ++ ((l.filter fun e => c < key e).filter fun e => key e ≤ c') =
      l.filter fun e => key e ≤ c' := by
  rw [← takeWhile_eq_filter hl, ← dropWhile_eq_filter hl]
  conv_rhs => rw [← takeWhile_append_dropWhile (p := fun e => key e ≤ c) (l := l), filter_append]
  rw [(filter_eq_self (l := takeWhile _ _)).2]
  intro e he
  have hle : key e ≤ c := by simpa using mem_takeWhile_imp he
  simpa using hle.trans hc

end

end Sorted

end OverwrittenLog
