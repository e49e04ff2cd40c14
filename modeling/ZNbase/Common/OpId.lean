import Mathlib.Data.Nat.Basic

/-!
# Operation ids

`OpId` of `util/opid.h`: the term in which an operation was first written to a log, and its index
there. Ids are ordered by term and then by index.
-/

/-- The id of a replicated operation. -/
structure OpId where
  term : ℕ := 0
  index : ℕ := 0
  deriving DecidableEq

namespace OpId

/-- The id before every operation, `OpId::Min()`. -/
def min0 : OpId := ⟨0, 0⟩

@[simp] lemma min0_term : min0.term = 0 := rfl

@[simp] lemma min0_index : min0.index = 0 := rfl

instance : LT OpId where
  lt a b := a.term < b.term ∨ a.term = b.term ∧ a.index < b.index

instance : LE OpId where
  le a b := a.term < b.term ∨ a.term = b.term ∧ a.index ≤ b.index

lemma lt_def {a b : OpId} :
    a < b ↔ a.term < b.term ∨ a.term = b.term ∧ a.index < b.index := Iff.rfl

lemma le_def {a b : OpId} :
    a ≤ b ↔ a.term < b.term ∨ a.term = b.term ∧ a.index ≤ b.index := Iff.rfl

instance (a b : OpId) : Decidable (a < b) := inferInstanceAs (Decidable (_ ∨ _))

instance (a b : OpId) : Decidable (a ≤ b) := inferInstanceAs (Decidable (_ ∨ _))

@[ext]
lemma ext {a b : OpId} (ht : a.term = b.term) (hi : a.index = b.index) : a = b := by
  cases a
  simp_all

instance : LinearOrder OpId where
  le_refl a := by
    rw [le_def]
    omega
  le_trans a b c := by
    simp only [le_def]
    omega
  lt_iff_le_not_ge a b := by
    simp only [le_def, lt_def]
    omega
  le_antisymm a b := by
    intro hab hba
    rw [le_def] at hab hba
    ext <;> omega
  le_total a b := by
    simp only [le_def]
    omega
  toDecidableLE := inferInstance
  toDecidableLT := inferInstance
  toDecidableEq := inferInstance

end OpId
