import Mathlib.Data.Finset.SymmDiff
import Mathlib.Data.Finset.Card

/-!
# Majorities

A majority of a list of members is given by a property that more than half of them have. Two
majorities share a member. Majorities of two sets that differ by at most one member share one, too.
-/

open List Finset

variable {α : Type*} {members : List α}

/-- Two properties that no member has both of are had by at most all members together. -/
lemma countP_add_countP_le {p q : α → Bool}
    (h : ∀ x ∈ members, ¬(p x ∧ q x)) : members.countP p + members.countP q ≤ members.length := by
  induction members with
  | nil => simp
  | cons x xs ih =>
    by_cases hp : p x <;> by_cases hq : q x <;> simp_all <;> omega

/-- Two majorities share a member. -/
lemma exists_mem_of_majorities {p q : α → Bool} {k : ℕ}
    (hk : members.length < 2 * k) (hp : k ≤ members.countP p) (hq : k ≤ members.countP q) :
    ∃ x ∈ members, p x ∧ q x := by
  by_contra hnone
  have hle := countP_add_countP_le
    fun x hx hpq => hnone ⟨x, hx, hpq⟩
  omega

/-- Distinct members that all have a property are at most those that have it. -/
lemma length_le_countP_of_nodup [DecidableEq α] {l : List α} {p : α → Bool}
    (hl : l.Nodup) (hsub : l ⊆ members) (hp : ∀ x ∈ l, p x) : l.length ≤ members.countP p := by
  have hcnt : l.countP p = l.length := countP_eq_length.2 hp
  rw [← hcnt]
  exact (subperm_of_subset hl hsub).countP_le p

/-- A set together with another one has the members of both, and those of one only. -/
lemma Finset.card_union_eq_card_inter_add_card_symmDiff [DecidableEq α] (s t : Finset α) :
    (s ∪ t).card = (s ∩ t).card + (symmDiff s t).card := by
  have hsymm : symmDiff s t = (s ∪ t) \ (s ∩ t) := symmDiff_eq_sup_sdiff_inf s t
  rw [hsymm, card_sdiff_of_subset inter_subset_union]
  have hle : (s ∩ t).card ≤ (s ∪ t).card := card_le_card inter_subset_union
  omega

/-- Majorities of two sets that differ by at most one member share a member. -/
lemma Finset.inter_nonempty_of_majorities [DecidableEq α] {s t Q R : Finset α}
    (hst : (symmDiff s t).card ≤ 1) (hQ : Q ⊆ s) (hR : R ⊆ t) (hQs : s.card < 2 * Q.card)
    (hRt : t.card < 2 * R.card) : (Q ∩ R).Nonempty := by
  by_contra hemp
  rw [not_nonempty_iff_eq_empty, ← disjoint_iff_inter_eq_empty] at hemp
  have hunion : Q.card + R.card ≤ (s ∪ t).card := by
    rw [← card_union_of_disjoint hemp]
    exact card_le_card (union_subset_union hQ hR)
  have hboth := card_union_add_card_inter s t
  have hone := card_union_eq_card_inter_add_card_symmDiff s t
  omega
