import Mathlib.Algebra.BigOperators.Intervals
import Mathlib.Algebra.Order.BigOperators.Group.Finset
import Mathlib.Data.Nat.Bitwise
import Mathlib.Tactic.Ring

/-!
# Counters packed into one word

`n` counters of `w` bits each, side by side in one number: counter `i` is in the bits from `w * i`
on.

- `packed w n c` is the number that holds the counters `c`.
- `field w x i` reads counter `i`, and `fieldMask w i` selects its bits.
- `and_masks_eq_zero_iff`: a number has no bit in common with a union of masks when the counters of
  the masks are zero.
-/

open Nat

namespace PackedCounters

variable {w n i : ℕ} {c : ℕ → ℕ} {x : ℕ} {l : List ℕ}

/-- The number that holds the counters `c`. -/
def packed (w n : ℕ) (c : ℕ → ℕ) : ℕ := ∑ i ∈ Finset.range n, c i * 2 ^ (w * i)

/-- Counter `i` of a number. -/
def field (w x i : ℕ) : ℕ := (x >>> (w * i)) % 2 ^ w

/-- The bits of counter `i`. -/
def fieldMask (w i : ℕ) : ℕ := (2 ^ w - 1) <<< (w * i)

lemma packed_succ : packed w (n + 1) c = packed w n c + c n * 2 ^ (w * n) := by
  rw [packed, Finset.sum_range_succ, packed]

lemma packed_add (d : ℕ → ℕ) : packed w n (fun i => c i + d i) = packed w n c + packed w n d := by
  simp only [packed, add_mul, Finset.sum_add_distrib]

lemma packed_congr {d : ℕ → ℕ} (h : ∀ i < n, c i = d i) : packed w n c = packed w n d := by
  refine Finset.sum_congr rfl fun i hi => ?_
  rw [h i (Finset.mem_range.1 hi)]

lemma packed_lt (h : ∀ i < n, c i < 2 ^ w) : packed w n c < 2 ^ (w * n) := by
  induction n with
  | zero => simp [packed]
  | succ n ih =>
    rw [packed_succ]
    have hrest := ih fun i hi => h i (hi.trans (lt_succ_self n))
    have hlast : c n + 1 ≤ 2 ^ w := h n (lt_succ_self n)
    calc packed w n c + c n * 2 ^ (w * n) < 2 ^ (w * n) + c n * 2 ^ (w * n) := by omega
      _ = (c n + 1) * 2 ^ (w * n) := by ring
      _ ≤ 2 ^ w * 2 ^ (w * n) := mul_le_mul_right _ hlast
      _ = 2 ^ (w * (n + 1)) := by rw [← pow_add]; congr 1; ring

/-- Reading a counter gives what was packed. -/
lemma field_packed (h : ∀ i < n, c i < 2 ^ w) (hi : i < n) : field w (packed w n c) i = c i := by
  induction n with
  | zero => omega
  | succ n ih =>
    have hlow : ∀ i < n, c i < 2 ^ w := fun i hi => h i (hi.trans (lt_succ_self n))
    have hpos : 0 < 2 ^ (w * i) := Nat.two_pow_pos _
    rw [field, shiftRight_eq_div_pow, packed_succ]
    rcases Nat.lt_succ_iff_lt_or_eq.1 hi with hlt | rfl
    · -- the last counter is a multiple of what is above counter `i`
      obtain ⟨k, hk⟩ := Nat.exists_eq_add_of_lt hlt
      have hspl : c n * 2 ^ (w * n) = 2 ^ (w * i) * (2 ^ w * (2 ^ (w * k) * c n)) := by
        rw [hk]
        ring
      rw [hspl, add_mul_div_left _ _ hpos, add_mul_mod_self_left, ← shiftRight_eq_div_pow]
      exact ih hlow hlt
    · rw [mul_comm (c i), add_mul_div_left _ _ hpos, div_eq_of_lt (packed_lt hlow),
        zero_add, mod_eq_of_lt (h i (lt_succ_self i))]

lemma and_fieldMask_eq_zero_iff : x &&& fieldMask w i = 0 ↔ field w x i = 0 := by
  rw [field, ← and_two_pow_sub_one_eq_mod]
  constructor
  · intro h
    have hshift := congrArg (· >>> (w * i)) h
    simpa [shiftRight_and_distrib, fieldMask] using hshift
  · intro h
    refine eq_of_testBit_eq fun j => ?_
    have hbit := congrArg (testBit · (j - w * i)) h
    simp only [testBit_and] at hbit
    simp only [fieldMask]
    by_cases hj : w * i ≤ j
    · simpa [hj] using hbit
    · simp [hj]

/-- The union of the masks of some counters. -/
def masks (w : ℕ) (l : List ℕ) : ℕ := l.foldl (fun r i => r ||| fieldMask w i) 0

lemma and_foldl_eq_zero_iff {r : ℕ} :
    x &&& l.foldl (fun r i => r ||| fieldMask w i) r = 0 ↔
      x &&& r = 0 ∧ ∀ i ∈ l, field w x i = 0 := by
  induction l generalizing r with
  | nil => simp
  | cons i l ih =>
    rw [List.foldl_cons, ih, and_or_distrib_left, or_eq_zero_iff,
      and_fieldMask_eq_zero_iff, List.forall_mem_cons, and_assoc]

lemma and_masks_eq_zero_iff : x &&& masks w l = 0 ↔ ∀ i ∈ l, field w x i = 0 := by
  rw [masks, and_foldl_eq_zero_iff]
  simp

end PackedCounters
