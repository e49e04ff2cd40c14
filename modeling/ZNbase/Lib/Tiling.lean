import Mathlib.Order.WithBot
import Mathlib.Data.List.Pairwise

/-!
# Tilings

A line is cut into intervals, each from its start up to the start of the next one. The last one may
be open.

- `Tiles x l y` says that the intervals `l` lead from `x` to `y` without a gap, and that none of
  them is empty.
- The intervals between points that are in order tile (`tiles_range`). A tiling can be refined
  interval by interval (`Tiles.flatMap`).
- In a tiling every point is in exactly one interval (`Tiles.existsUnique`).
-/

namespace Tiling

variable {α : Type*} [LinearOrder α]

/-- An interval from its start up to before its end. -/
structure Span (α : Type*) where
  start : α
  stop : WithTop α

def Span.Contains (i : Span α) (k : α) : Prop := i.start ≤ k ∧ (k : WithTop α) < i.stop

/-- The intervals lead from `x` to `y`. -/
def Tiles (x : WithTop α) : List (Span α) → WithTop α → Prop
  | [], y => x = y
  | i :: l, y => (i.start : WithTop α) = x ∧ x < i.stop ∧ Tiles i.stop l y

variable {x y : WithTop α} {l : List (Span α)} {i : Span α} {k : α}

section

variable (h : Tiles x l y)

include h

lemma Tiles.append {z : WithTop α} {l' : List (Span α)} (h' : Tiles y l' z) :
    Tiles x (l ++ l') z := by
  induction l generalizing x with
  | nil =>
    obtain rfl : x = y := h
    exact h'
  | cons i l ih => exact ⟨h.1, h.2.1, ih h.2.2⟩

/-- All of the intervals are between the ends. -/
lemma Tiles.le_start (hi : i ∈ l) : x ≤ i.start := by
  induction l generalizing x with
  | nil => cases hi
  | cons j l ih =>
    rcases List.mem_cons.1 hi with rfl | hi
    · exact h.1.ge
    · exact h.2.1.le.trans (ih h.2.2 hi)

/-- The intervals are in order. -/
lemma Tiles.pairwise : l.Pairwise fun i j => i.stop ≤ j.start := by
  induction l generalizing x with
  | nil => exact .nil
  | cons i l ih => exact .cons (fun j hj => h.2.2.le_start hj) (ih h.2.2)

/-- No interval is empty. -/
lemma Tiles.start_lt_stop (hi : i ∈ l) : (i.start : WithTop α) < i.stop := by
  induction l generalizing x with
  | nil => cases hi
  | cons j l ih =>
    rcases List.mem_cons.1 hi with rfl | hi
    · rw [h.1]
      exact h.2.1
    · exact ih h.2.2 hi

/-- Every point is in an interval. -/
lemma Tiles.exists (hx : x ≤ k) (hy : (k : WithTop α) < y) : ∃ i ∈ l, i.Contains k := by
  induction l generalizing x with
  | nil =>
    obtain rfl : x = y := h
    exact (hx.not_gt hy).elim
  | cons i l ih =>
    rcases lt_or_ge (k : WithTop α) i.stop with hlt | hge
    · refine ⟨i, by simp, ?_, hlt⟩
      rw [← h.1] at hx
      exact WithTop.coe_le_coe.1 hx
    · obtain ⟨j, hj, hk⟩ := ih h.2.2 hge
      exact ⟨j, List.mem_cons_of_mem _ hj, hk⟩

/-- Two intervals do not have a point in common. -/
lemma Tiles.disjoint : l.Pairwise fun i j => ¬(i.Contains k ∧ j.Contains k) := by
  refine h.pairwise.imp fun {i j} hle ⟨hi, hj⟩ => ?_
  exact (hi.2.trans_le (hle.trans (WithTop.coe_le_coe.2 hj.1))).false

/-- Every point is in exactly one interval. -/
lemma Tiles.existsUnique (hx : x ≤ k) (hy : (k : WithTop α) < y) : ∃! n :
    Fin l.length, (l.get n).Contains k := by
  obtain ⟨i, hi, hk⟩ := h.exists hx hy
  obtain ⟨n, rfl⟩ := List.get_of_mem hi
  refine ⟨n, hk, fun m hm => ?_⟩
  by_contra hne
  have hpair := List.pairwise_iff_get.1 (h.disjoint (k := k))
  rcases Nat.lt_or_gt_of_ne (Fin.val_ne_of_ne hne) with hlt | hlt
  · exact hpair m n hlt ⟨hm, hk⟩
  · exact hpair n m hlt ⟨hk, hm⟩

end

/-- Points in order cut a line into intervals. -/
lemma tiles_range (c : ℕ → WithTop α) (f : ℕ → Span α) (n : ℕ)
    (hstart : ∀ i < n, ((f i).start : WithTop α) = c i) (hstop : ∀ i < n, (f i).stop = c (i + 1))
    (hlt : ∀ i < n, c i < c (i + 1)) : Tiles (c 0) ((List.range n).map f) (c n) := by
  induction n with
  | zero => exact rfl
  | succ n ih =>
    rw [List.range_succ, List.map_append]
    refine (ih (fun i hi => hstart i (by omega)) (fun i hi => hstop i (by omega))
      fun i hi => hlt i (by omega)).append ⟨hstart n (by omega), ?_, hstop n (by omega)⟩
    rw [hstop n (by omega)]
    exact hlt n (by omega)

/-- A tiling, refined. -/
lemma Tiles.flatMap {β : Type*} {l : List β} {f : β → Span α} {g : β → List (Span α)}
    (h : Tiles x (l.map f) y) (hg : ∀ b ∈ l, Tiles ((f b).start : WithTop α) (g b) (f b).stop) :
    Tiles x (l.flatMap g) y := by
  induction l generalizing x with
  | nil => exact h
  | cons b l ih =>
    obtain ⟨hstart, -, hrest⟩ := h
    refine Tiles.append ?_ (ih hrest fun b' hb' => hg b' (List.mem_cons_of_mem _ hb'))
    rw [← hstart]
    exact hg b (by simp)

end Tiling
