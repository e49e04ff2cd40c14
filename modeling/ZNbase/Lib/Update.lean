import Mathlib.Logic.Function.Basic

/-!
# Tables

A table is a function to `Option`, and a new entry replaces what was under its key.
-/

namespace Function

/-- What is found in a table after an entry was written: the entry, or what was there under another
key. -/
lemma update_eq_some_iff {κ α : Type*} [DecidableEq κ] {f : κ → Option α} {k k' : κ} {a b : α} :
    update f k (some a) k' = some b ↔ k' = k ∧ a = b ∨ k' ≠ k ∧ f k' = some b := by
  by_cases h : k' = k <;> simp [h]

end Function
