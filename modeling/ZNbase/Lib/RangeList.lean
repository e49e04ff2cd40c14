import Mathlib.Data.List.TakeWhile
import Mathlib.Data.Int.Order.Basic

/-!
# Lists of disjoint integer ranges

A list of records, each of which stands for the integers from `lo r` to `hi r`. Such a list is
`Separated` when its ranges are nonempty and increasing, with no overlap; it then can be searched
by the upper end, as in an index ordered by it.

- `Covers lo hi l x` says that one of the ranges contains `x`.
- `Separated.covers_iff_of_dropWhile_cons` is the search: the first range that ends at or after
  `x` decides.
- `covers_dropWhile` says what dropping the ranges below a bound leaves.
-/

open List

namespace RangeList

variable {α : Type*} (lo hi : α → ℤ)

/-- One of the ranges contains `x`. -/
def Covers (l : List α) (x : ℤ) : Prop := ∃ r ∈ l, lo r ≤ x ∧ x ≤ hi r

/-- The ranges are nonempty, and each ends before the next one starts. -/
structure Separated (l : List α) : Prop where
  nonempty : ∀ r ∈ l, lo r ≤ hi r
  ordered : l.Pairwise fun r s => hi r < lo s

variable {lo hi} {l l' : List α} {r : α} {x y : ℤ}

@[simp] lemma not_covers_nil : ¬ Covers lo hi [] x := by simp [Covers]

lemma covers_cons : Covers lo hi (r :: l) x ↔ (lo r ≤ x ∧ x ≤ hi r) ∨ Covers lo hi l x := by
  simp [Covers]

lemma covers_append : Covers lo hi (l ++ l') x ↔ Covers lo hi l x ∨ Covers lo hi l' x := by
  simp [Covers, or_and_right, exists_or]

lemma separated_nil : Separated lo hi [] := ⟨by simp, .nil⟩

lemma separated_cons :
    Separated lo hi (r :: l) ↔ lo r ≤ hi r ∧ (∀ s ∈ l, hi r < lo s) ∧ Separated lo hi l := by
  constructor
  · intro h
    obtain ⟨hne, hord⟩ := h
    rw [pairwise_cons] at hord
    exact ⟨hne r (by simp), hord.1, fun s hs => hne s (by simp [hs]), hord.2⟩
  · rintro ⟨hr, hlt, hl⟩
    refine ⟨?_, pairwise_cons.2 ⟨hlt, hl.ordered⟩⟩
    intro s hs
    rcases mem_cons.1 hs with rfl | hs
    · exact hr
    · exact hl.nonempty s hs

lemma separated_append :
    Separated lo hi (l ++ l') ↔ Separated lo hi l ∧ Separated lo hi l' ∧ ∀ r ∈ l, ∀ s ∈ l',
      hi r < lo s := by
  constructor
  · intro h
    obtain ⟨hne, hord⟩ := h
    rw [pairwise_append] at hord
    exact ⟨⟨fun r hr => hne r (by simp [hr]), hord.1⟩, ⟨fun r hr => hne r (by simp [hr]), hord.2.1⟩,
      hord.2.2⟩
  · rintro ⟨h, h', hlt⟩
    refine ⟨?_, pairwise_append.2 ⟨h.ordered, h'.ordered, hlt⟩⟩
    intro r hr
    rcases mem_append.1 hr with hr | hr
    · exact h.nonempty r hr
    · exact h'.nonempty r hr

/-- Ranges that all end before `x` do not contain it. -/
lemma not_covers_of_hi_lt (h : ∀ r ∈ l, hi r < x) : ¬ Covers lo hi l x := by
  rintro ⟨r, hr, -, hle⟩
  exact absurd (h r hr) (not_lt.2 hle)

/-- Ranges that all start after `x` do not contain it. -/
lemma not_covers_of_lt_lo (h : ∀ r ∈ l, x < lo r) : ¬ Covers lo hi l x := by
  rintro ⟨r, hr, hle, -⟩
  exact absurd (h r hr) (not_lt.2 hle)

/-- Ranges that end before `x` can be skipped in a search for `x` or anything above it. -/
lemma covers_dropWhile (hxy : y ≤ x) :
    Covers lo hi (l.dropWhile fun r => hi r < y) x ↔ Covers lo hi l x := by
  have hskip : ∀ r ∈ l.takeWhile fun r => hi r < y, hi r < x := by
    intro r hr
    have := mem_takeWhile_imp hr
    exact (of_decide_eq_true this).trans_le hxy
  conv_rhs => rw [← takeWhile_append_dropWhile (p := fun r => decide (hi r < y)) (l := l)]
  rw [covers_append]
  constructor
  · exact Or.inr
  · intro h
    exact h.resolve_left (not_covers_of_hi_lt hskip)

/-- Everything after the first range of a separated list starts above what the first contains. -/
lemma Separated.covers_cons_iff (h : Separated lo hi (r :: l)) (hx : x ≤ hi r) :
    Covers lo hi (r :: l) x ↔ lo r ≤ x := by
  obtain ⟨-, hlt, -⟩ := separated_cons.1 h
  rw [covers_cons]
  constructor
  · rintro (hr | hl)
    · exact hr.1
    · exact absurd hl (not_covers_of_lt_lo fun s hs => hx.trans_lt (hlt s hs))
  · intro hr
    exact .inl ⟨hr, hx⟩

lemma Separated.dropWhile (h : Separated lo hi l) (p : α → Bool) :
    Separated lo hi (l.dropWhile p) := by
  have hsub := dropWhile_sublist (l := l) p
  exact ⟨fun r hr => h.nonempty r (hsub.subset hr), h.ordered.sublist hsub⟩

/-- The search: whether `x` is covered is decided by the first range that ends at or after it. -/
lemma Separated.covers_iff_of_dropWhile_cons (h : Separated lo hi l)
    (hd : (l.dropWhile fun r => hi r < x) = r :: l') : Covers lo hi l x ↔ lo r ≤ x := by
  have hhead := head?_dropWhile_not (fun r => decide (hi r < x)) l
  have hsep := h.dropWhile fun r => hi r < x
  rw [hd] at hhead hsep
  rw [← covers_dropWhile (le_refl x), hd, hsep.covers_cons_iff (by simpa using hhead)]

/-- If no range ends at or after `x` then `x` is not covered. -/
lemma not_covers_of_dropWhile_nil (hd : (l.dropWhile fun r => hi r < x) = []) :
    ¬ Covers lo hi l x := by
  rw [← covers_dropWhile (le_refl x), hd]
  exact not_covers_nil

/-- The ranges of a separated list from the first one that ends at or after `x` on, if none
contains `x`, all start above it. -/
lemma Separated.lt_lo_of_mem_dropWhile (h : Separated lo hi l) (hx : ¬ Covers lo hi l x) :
    ∀ r ∈ l.dropWhile fun r => hi r < x, x < lo r := by
  cases hd : l.dropWhile fun r => hi r < x with
  | nil => simp
  | cons r after =>
    have hlt : x < lo r := not_le.1 ((h.covers_iff_of_dropWhile_cons hd).not.1 hx)
    have hsep := h.dropWhile fun r => hi r < x
    rw [hd] at hsep
    obtain ⟨hne, haft, -⟩ := separated_cons.1 hsep
    intro s hs
    rcases mem_cons.1 hs with rfl | hs
    · exact hlt
    · exact hlt.trans (hne.trans_lt (haft s hs))

end RangeList
