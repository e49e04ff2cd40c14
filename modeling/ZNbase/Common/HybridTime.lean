import Mathlib.Algebra.Order.Ring.Int

/-!
# Hybrid times

Hybrid times as in `common/hybrid_time.h`: the physical microseconds shifted left by
`kBitsForLogicalComponent`, plus a logical counter. A hybrid time is its representation
`HybridTimeRepr`, kept here as a natural number; the three values with a special meaning are the
constants below.
-/

/-- A hybrid time, by its `HybridTimeRepr`. -/
abbrev HybridTime := ℕ

namespace HybridTime

/-- The minimum hybrid time. -/
def kMin : HybridTime := 0

/-- The maximum hybrid time. -/
def kMax : HybridTime := 2 ^ 64 - 1

/-- What a hybrid time is initialised to. -/
def kInvalid : HybridTime := kMax - 1

/-- The number of low bits that hold the logical component. -/
def kBitsForLogicalComponent : ℕ := 12

/-- The largest physical component that fits. -/
def kMaxHybridTimePhysicalMicros : ℕ := kMax >>> kBitsForLogicalComponent

variable (t : HybridTime)

/-- A hybrid time is valid unless it is `kInvalid`. -/
def isValid : Prop := t ≠ kInvalid

instance (t : HybridTime) : Decidable (isValid t) := inferInstanceAs (Decidable (_ ≠ _))

/-- The highest hybrid time below `t`; `kMin` has none and stays. -/
def decremented : HybridTime := if t = 0 then t else t - 1

/-- The lowest hybrid time above `t`; `kInvalid` and `kMax` stay. -/
def incremented : HybridTime := if kInvalid ≤ t then t else t + 1

/-- `MakeAtLeast`. A hybrid time that is not valid counts as none. -/
def makeAtLeast (t rhs : HybridTime) : HybridTime :=
  if isValid rhs then if isValid t then max t rhs else rhs else t

/-- The hybrid times that adding a time leaves alone. -/
def isSpecial : Prop := t = kMin ∨ t = kMax ∨ t = kInvalid

instance (t : HybridTime) : Decidable (isSpecial t) := inferInstanceAs (Decidable (_ ∨ _ ∨ _))

/-- `AddMicroseconds`, with the wrap-around of 64 bits. -/
def addMicroseconds (micros : ℤ) : HybridTime :=
  if isSpecial t then t else ((t + micros * 2 ^ kBitsForLogicalComponent) % 2 ^ 64).toNat

/-- The physical component, in microseconds. -/
def getPhysicalValueMicros : ℕ := t >>> kBitsForLogicalComponent

/-- `kLogicalBitMask`. -/
def kLogicalBitMask : ℕ := 2 ^ kBitsForLogicalComponent - 1

/-- `GetLogicalValue`. -/
def getLogicalValue : ℕ := t &&& kLogicalBitMask

lemma kMin_le : kMin ≤ t := Nat.zero_le t

/-- Anything above some hybrid time is above its own decrement. -/
lemma decremented_lt {s t : HybridTime} (h : s < t) : decremented t < t := by
  unfold decremented
  lia

end HybridTime
