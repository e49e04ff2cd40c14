import Mathlib.Data.List.Basic
import Mathlib.Logic.Relation

/-!
# Readers of input that comes in pieces

A reader is a step function: with the input that there is, it goes on to its next state, fails, or
needs more. It may be given the input in pieces if no step is taken back when more input comes
(`Stable`).

- `Drains` reads items from the input until it fails or needs more. An item is cut off the front of
  the input, after which the reader starts over.
- What is read from a piece and then from the rest is what is read from all of it (`Drains.append`),
  and there is only one such result (`Drains.unique`).
-/

open Relation.ReflTransGen

namespace Incremental

/-- What a reader makes of the input that there is. -/
inductive Outcome (σ ε : Type*)
  /-- The input ends too early. -/
  | more
  | fail (e : ε)
  | next (s : σ)

variable {α σ τ ε ι : Type*}

def Outcome.ofExcept : Except ε σ → Outcome σ ε
  | .error e => fail e
  | .ok s => next s

/-- Goes on with a computation that needs no input. -/
def Outcome.andThen : Outcome σ ε → (σ → Except ε τ) → Outcome τ ε
  | more, _ => more
  | fail e, _ => fail e
  | next s, f => ofExcept (f s)

/-- A reader that does not change its mind when more input comes. -/
def Stable (read : List α → Outcome σ ε) : Prop :=
  ∀ input rest, read input ≠ .more → read (input ++ rest) = read input

lemma Stable.andThen {read : List α → Outcome σ ε} (h : Stable read) (f : σ → Except ε τ) :
    Stable fun input => (read input).andThen f := by
  intro input rest hne
  have hread : read input ≠ .more := fun hmore => hne (congrArg (Outcome.andThen · f) hmore)
  exact congrArg (Outcome.andThen · f) (h input rest hread)

section Reader

variable (step : σ → List α → Outcome σ ε)

/-- The states that the reader gets to with an input. -/
def Reaches (input : List α) : σ → σ → Prop :=
  Relation.ReflTransGen fun s s' => step s input = .next s'

variable {step}

variable {input : List α} {items : List (ℕ × ι)} {r : Except ε (σ × List α)} {s : σ}

/-- More input does not change what was read. -/
lemma Reaches.append (hstable : ∀ s, Stable (step s)) {s' : σ} (h : Reaches step input s s')
    (rest : List α) : Reaches step (input ++ rest) s s' := by
  refine mono (fun a b hab => ?_) _ _ h
  rw [hstable a input rest (by rw [hab]; simp)]
  exact hab

/-- The reader gets to only one state from which it does not go on. -/
lemma Reaches.unique {a b : σ} (ha : Reaches step input s a) (hb : Reaches step input s b)
    (ha' : ∀ t, step a input ≠ .next t) (hb' : ∀ t, step b input ≠ .next t) : a = b := by
  induction ha using head_induction_on with
  | refl =>
    rcases cases_head hb with hab | ⟨t, ht, -⟩
    · exact hab
    · exact absurd ht (ha' t)
  | head hst _ ih =>
    rcases cases_head hb with rfl | ⟨t, ht, hrest⟩
    · exact absurd hst (hb' _)
    · rw [hst] at ht
      cases ht
      exact ih hrest

variable (step) (init : σ) (item : σ → Option (ℕ × ι)) {items' : List (ℕ × ι)}
  {r' : Except ε (σ × List α)}

/-- The items that are read from an input, with the state and the input that are left in the end, or
the failure. -/
inductive Drains : σ → List α → List (ℕ × ι) → Except ε (σ × List α) → Prop
  | more {s s' : σ} {input : List α} (hreach : Reaches step input s s')
    (hmore : step s' input = .more)
      (hitem : item s' = none) : Drains s input [] (.ok (s', input))
  | fail {s s' : σ} {input : List α} {e : ε} (hreach : Reaches step input s s')
      (hfail : step s' input = .fail e) (hitem : item s' = none) : Drains s input [] (.error e)
  | item {s s' : σ} {input : List α} {n : ℕ} {x : ι} {items : List (ℕ × ι)}
    {r : Except ε (σ × List α)}
      (hreach : Reaches step input s s') (hmore : step s' input = .more)
        (hitem : item s' = some (n, x))
      (hn : n ≤ input.length) (hrest : Drains init (input.drop n) items r) :
      Drains s input ((n, x) :: items) r

variable {step init item}

lemma Drains.of_reaches {s' : σ} (h : Reaches step input s s')
    (hd : Drains step init item s' input items r) :
    Drains step init item s input items r := by
  cases hd with
  | more hreach hmore hitem => exact .more (h.trans hreach) hmore hitem
  | fail hreach hfail hitem => exact .fail (h.trans hreach) hfail hitem
  | item hreach hmore hitem hn hrest => exact .item (h.trans hreach) hmore hitem hn hrest

/-- In the end the reader waits for more input. -/
lemma Drains.waits {input' : List α} {s' : σ} (h : Drains step init item s input items r)
    (hr : r = .ok (s', input')) :
    step s' input' = .more ∧ item s' = none := by
  induction h with
  | more hreach hmore hitem =>
    cases hr
    exact ⟨hmore, hitem⟩
  | fail hreach hfail hitem => cases hr
  | item hreach hmore hitem hn hrest ih => exact ih hr

/-- What is read is unique. -/
lemma Drains.unique (h : Drains step init item s input items r)
    (h' : Drains step init item s input items' r') :
    items = items' ∧ r = r' := by
  -- both results come from the one state in which the reader stops
  induction h generalizing items' with
  | more hreach hstep hitem | fail hreach hstep hitem =>
    cases h' with
    | more hreach' hstep' | fail hreach' hstep' | item hreach' hstep' =>
      obtain rfl := hreach.unique hreach' (by simp [hstep]) (by simp [hstep'])
      simp_all
  | item hreach hstep hitem hn hrest ih =>
    cases h' with
    | more hreach' hstep' | fail hreach' hstep' =>
      obtain rfl := hreach.unique hreach' (by simp [hstep]) (by simp [hstep'])
      simp_all
    | item hreach' hstep' hitem' hn' hrest' =>
      obtain rfl := hreach.unique hreach' (by simp [hstep]) (by simp [hstep'])
      rw [hitem] at hitem'
      cases hitem'
      obtain ⟨rfl, rfl⟩ := ih hrest'
      exact ⟨rfl, rfl⟩

variable (hstable : ∀ s, Stable (step s))
  (hdone : ∀ s x input, item s = some x → step s input = Outcome.more)

include hstable hdone

/-- What is read from a piece of the input, and then from the rest if there was no failure. -/
lemma Drains.append {rest : List α}
    (h' : match r with
      | .ok (s', input') => Drains step init item s' (input' ++ rest) items' r'
      | .error e => items' = [] ∧ r' = .error e)
    (h : Drains step init item s input items r) :
    Drains step init item s (input ++ rest) (items ++ items') r' := by
  induction h with
  | more hreach hmore hitem => exact h'.of_reaches (hreach.append hstable rest)
  | fail hreach hfail hitem =>
    obtain ⟨rfl, rfl⟩ := h'
    refine .fail (hreach.append hstable rest) ?_ hitem
    rw [hstable _ _ rest (by rw [hfail]; simp)]
    exact hfail
  | item hreach hmore hitem hn hrest ih =>
    refine .item (hreach.append hstable rest) (hdone _ _ _ hitem) hitem ?_ ?_
    · rw [List.length_append]
      omega
    · rw [List.drop_append_of_le_length hn]
      exact ih h'

end Reader

end Incremental
