import Mathlib.Data.List.Forall2

/-!
# Computations that can fail

How `Except` computations that were composed come apart again.
-/

open List

namespace Except

universe u v

variable {ε : Type u} {α β : Type v}

@[simp] lemma ok_bind (a : α) (f : α → Except ε β) : (Except.ok a >>= f) = f a := rfl

@[simp] lemma error_bind (e : ε) (f : α → Except ε β) : (Except.error e >>= f) = .error e := rfl

lemma bind_eq_ok {x : Except ε α} {f : α → Except ε β} {b : β} :
    (x >>= f) = .ok b ↔ ∃ a, x = .ok a ∧ f a = .ok b := by
  cases x with
  | ok a | error e => simp

lemma toOption_eq_some {x : Except ε α} {a : α} : x.toOption = some a ↔ x = .ok a := by
  cases x <;> simp [Except.toOption]

/-- A loop that adds to what it is given, one element after the other. -/
lemma foldlM_eq_ok_append {step : List β → α → Except ε (List β)} {added : α → List β → Prop}
    (hstep : ∀ acc a acc', step acc a = .ok acc' → ∃ new, acc' = acc ++ new ∧ added a new)
    {l : List α} {acc acc' : List β} (h : l.foldlM step acc = .ok acc') :
    ∃ new, acc' = acc ++ new ∧ ∀ a ∈ l, ∃ part, part ⊆ new ∧ added a part := by
  induction l generalizing acc with
  | nil =>
    obtain rfl : acc = acc' := by simpa [pure, Except.pure] using h
    exact ⟨[], by simp, by simp⟩
  | cons a l ih =>
    obtain ⟨acc₁, hacc₁, hrest⟩ := bind_eq_ok.1 h
    obtain ⟨part, rfl, hpart⟩ := hstep acc a acc₁ hacc₁
    obtain ⟨new, rfl, hnew⟩ := ih hrest
    refine ⟨part ++ new, by simp, fun a' ha' => ?_⟩
    rcases mem_cons.1 ha' with rfl | ha'
    · exact ⟨part, subset_append_left _ _, hpart⟩
    · obtain ⟨part', hsub, hadded⟩ := hnew a' ha'
      exact ⟨part', List.Subset.trans hsub (subset_append_right _ _), hadded⟩

end Except
