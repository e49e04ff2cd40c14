import Mathlib.Order.Basic
import Mathlib.Data.List.Basic

/-!
# Labelled runs

Finite runs of a labelled transition system, with the labels in the order in which the steps
were taken. Nothing here depends on what the states and the labels are.

- `Run step s es s'` is a run from `s` to `s'` with labels `es`.
- `Run.invariant` is the invariant rule; `Run.history_invariant` is its form for invariants that
  speak about the labels seen so far.
- `Run.monotone` carries a quantity that no step decreases along a whole run.
- `Run.exec` computes where a list of steps leads, for steps given by a function.
- `Restrict c step` keeps the steps whose state and label meet a condition `c`.
-/

variable {σ ε : Type*}

/-- `Run step s es s'`: the steps labelled `es` lead from `s` to `s'`. -/
inductive Run (step : σ → ε → σ → Prop) : σ → List ε → σ → Prop
  | nil (s : σ) : Run step s [] s
  | cons {s s₁ s₂ : σ} {e : ε} {es : List ε} :
      step s e s₁ → Run step s₁ es s₂ → Run step s (e :: es) s₂

namespace Run

variable {step : σ → ε → σ → Prop} {s s' : σ} {e : ε} {es es' : List ε}

/-- A run whose labels are an append goes through a middle state. -/
lemma append_iff : Run step s (es ++ es') s' ↔ ∃ m, Run step s es m ∧ Run step m es' s' := by
  induction es generalizing s with
  | nil =>
    constructor
    · intro h
      exact ⟨s, .nil s, h⟩
    · rintro ⟨m, hm, h⟩
      cases hm
      exact h
  | cons e es ih =>
    constructor
    · intro h
      cases h with
      | cons hstep hrest =>
        obtain ⟨m, hm, h⟩ := ih.1 hrest
        exact ⟨m, .cons hstep hm, h⟩
    · rintro ⟨m, hm, h⟩
      cases hm with
      | cons hstep hrest => exact .cons hstep (ih.2 ⟨m, hrest, h⟩)

/-- A run with a first label takes that step and goes on from the state it leads to. -/
lemma cons_iff : Run step s (e :: es) s' ↔ ∃ m, step s e m ∧ Run step m es s' := by
  constructor
  · intro h
    cases h with
    | cons hstep hrest => exact ⟨_, hstep, hrest⟩
  · rintro ⟨m, hstep, hrest⟩
    exact .cons hstep hrest

/-- A property of the labels so far and of the state reached, kept by every step, holds after
every run. -/
lemma history_invariant {J : List ε → σ → Prop}
    (hstep : ∀ pre s e s', J pre s → step s e s' → J (pre ++ [e]) s')
    {pre : List ε} (h : Run step s es s') (hJ : J pre s) : J (pre ++ es) s' := by
  induction h generalizing pre with
  | nil s => simpa using hJ
  | cons hs _ ih => simpa using ih (hstep _ _ _ _ hJ hs)

/-- An invariant of every step holds after every run that starts in it. -/
lemma invariant {I : σ → Prop} (hstep : ∀ s e s', I s → step s e s' → I s')
    (h : Run step s es s') (hI : I s) : I s' := by
  induction h with
  | nil s => exact hI
  | cons hs _ ih => exact ih (hstep _ _ _ hI hs)

/-- What no step decreases, no run decreases. -/
lemma monotone {β : Type*} [Preorder β] {f : σ → β}
    (hstep : ∀ s e s', step s e s' → f s ≤ f s') (h : Run step s es s') : f s ≤ f s' := by
  induction h with
  | nil s => exact le_rfl
  | cons hs _ ih => exact (hstep _ _ _ hs).trans ih

/-- A run of one system is a run of another that has all of its steps. -/
lemma mono {step' : σ → ε → σ → Prop} (hsub : ∀ s e s', step s e s' → step' s e s')
    (h : Run step s es s') : Run step' s es s' := by
  induction h with
  | nil s => exact .nil s
  | cons hs _ ih => exact .cons (hsub _ _ _ hs) ih

/-- The state that the steps of a list lead to, for steps that are computed. -/
def exec (step : σ → ε → Option σ) : σ → List ε → Option σ
  | s, [] => some s
  | s, e :: es => (step s e).bind fun s₁ => exec step s₁ es

/-- Steps that are computed make a run. -/
lemma of_exec {step : σ → ε → Option σ} (h : exec step s es = some s') :
    Run (fun s e s' => step s e = some s') s es s' := by
  induction es generalizing s with
  | nil =>
    cases h
    exact .nil _
  | cons e es ih =>
    obtain ⟨s₁, hstep, hrest⟩ := Option.bind_eq_some_iff.1 h
    exact .cons hstep (ih hrest)

end Run

/-- The steps whose state before and label meet `c`. -/
def Restrict (c : σ → ε → Prop) (step : σ → ε → σ → Prop) (s : σ) (e : ε) (s' : σ) : Prop :=
  c s e ∧ step s e s'

/-- `Restrict` for steps that are computed. -/
def restrict (c : σ → ε → Prop) [∀ s e, Decidable (c s e)] (step : σ → ε → Option σ) (s : σ)
    (e : ε) : Option σ :=
  if c s e then step s e else none

/-- Steps that are computed and meet a condition make a run of the restricted system. -/
lemma Run.of_exec_restrict {c : σ → ε → Prop} [∀ s e, Decidable (c s e)]
    {step : σ → ε → Option σ} {s s' : σ} {es : List ε}
    (h : Run.exec (restrict c step) s es = some s') :
    Run (Restrict c fun s e s' => step s e = some s') s es s' := by
  refine (Run.of_exec h).mono ?_
  intro s e s' hs
  simp only [restrict] at hs
  split_ifs at hs with hc
  exact ⟨hc, hs⟩
