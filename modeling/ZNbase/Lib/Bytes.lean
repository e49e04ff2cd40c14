import Mathlib.Data.List.Lex
import Mathlib.Tactic.Ring

/-!
# The order of byte strings

Byte strings are compared byte by byte, as unsigned numbers, and a proper part comes first: the
order of `List`.

- `Below x y` says that `x` comes before `y` because of a byte. Unlike `x < y` it does not depend on
  what follows (`Below.append`), which is what makes an encoding of several parts keep an order.
- `bigEndian w n` is a number in `w` bytes, the highest one first.
-/

open Nat UInt8

namespace ByteOrder

scoped instance instLinearOrderByte : LinearOrder UInt8 where
  le_refl _ := UInt8.le_refl _
  le_trans _ _ _ := UInt8.le_trans
  lt_iff_le_not_ge _ _ := by
    simp only [lt_iff_toNat_lt, le_iff_toNat_le]
    omega
  le_antisymm _ _ := UInt8.le_antisymm
  le_total _ _ := by
    simp only [le_iff_toNat_le]
    omega
  toDecidableLE := inferInstance
  toDecidableLT := inferInstance
  toDecidableEq := inferInstance

section Lex

variable {α : Type*} [LinearOrder α] {x y z u v : List α}

/-- `x` comes before `y` at a place where both have an element. -/
inductive Below : List α → List α → Prop
  | head {a b : α} (x y : List α) : a < b → Below (a :: x) (b :: y)
  | tail (a : α) {x y : List α} : Below x y → Below (a :: x) (a :: y)

lemma Below.lt (h : Below x y) : x < y := by
  induction h with
  | head x y hlt => exact List.cons_lt_cons_iff.2 (.inl hlt)
  | tail a _ ih => exact List.cons_lt_cons_iff.2 (.inr ⟨rfl, ih⟩)

/-- What follows makes no difference. -/
lemma Below.append (h : Below x y) (u v : List α) : Below (x ++ u) (y ++ v) := by
  induction h with
  | head x y hlt => exact .head _ _ hlt
  | tail a _ ih => exact .tail a ih

lemma Below.append_left (z : List α) (h : Below x y) : Below (z ++ x) (z ++ y) := by
  induction z with
  | nil => exact h
  | cons a z ih => exact .tail a ih

lemma append_lt_append_left_iff (z x y : List α) : z ++ x < z ++ y ↔ x < y := by
  induction z with
  | nil => rfl
  | cons a z ih => simp [ih]

lemma lt_append (x : List α) (hy : y ≠ []) : x < x ++ y := by
  have h : x ++ [] < x ++ y := by
    rw [append_lt_append_left_iff]
    cases y with
    | nil => exact (hy rfl).elim
    | cons b y => exact List.nil_lt_cons b y
  simpa using h

lemma Below.ne_nil_left (h : Below x y) : x ≠ [] := by
  cases h <;> simp

lemma Below.head_lt {a b : α} (h : Below [a] (b :: y)) : a < b := by
  cases h with
  | head _ _ hlt => exact hlt
  | tail _ h => exact absurd rfl h.ne_nil_left

lemma Below.ne_nil_right (h : Below x y) : y ≠ [] := by
  cases h <;> simp

end Lex

/-- A property of all bytes can be checked one by one. -/
lemma forall_byte {P : UInt8 → Prop} (h : ∀ n < 256, P (UInt8.ofNat n)) (b : UInt8) : P b := by
  have hb := h b.toNat b.toNat_lt
  rwa [UInt8.ofNat_toNat] at hb

/-- A number in `w` bytes, the highest one first. -/
def bigEndian : ℕ → ℕ → List UInt8
  | 0, _ => []
  | w + 1, n => ofNat (n / 256 ^ w) :: bigEndian w n

@[simp] lemma length_bigEndian (w n : ℕ) : (bigEndian w n).length = w := by
  induction w with
  | zero => rfl
  | succ w ih => simp [bigEndian, ih]

/-- The lowest byte is the last one. -/
lemma bigEndian_concat (w n : ℕ) : bigEndian (w + 1) n = bigEndian w (n / 256) ++ [ofNat n] := by
  induction w with
  | zero => simp [bigEndian]
  | succ w ih =>
    rw [bigEndian, ih, bigEndian, List.cons_append, Nat.div_div_eq_div_mul, Nat.pow_succ,
      mul_comm 256]

/-- Only the lower bytes of a number matter. -/
lemma bigEndian_mod (w n : ℕ) : bigEndian w (n % 256 ^ w) = bigEndian w n := by
  have hall : ∀ k ≤ w, bigEndian k (n % 256 ^ w) = bigEndian k n := by
    intro k hk
    induction k with
    | zero => rfl
    | succ k ih =>
      have hpow : 256 ^ w = 256 ^ k * 256 ^ (w - k) := by
        rw [← Nat.pow_add, Nat.add_sub_cancel' (by omega)]
      have hdvd : 256 ∣ 256 ^ (w - k) := dvd_pow_self 256 (by omega)
      have hbyte : ofNat (n % 256 ^ w / 256 ^ k) = ofNat (n / 256 ^ k) := by
        apply UInt8.toNat_inj.1
        rw [UInt8.toNat_ofNat', UInt8.toNat_ofNat', hpow, mod_mul_right_div_self,
          mod_mod_of_dvd _ hdvd]
      rw [bigEndian, bigEndian, hbyte, ih (by omega)]
  exact hall w le_rfl

/-- The higher bytes and the lower bytes. -/
lemma bigEndian_add (v w n : ℕ) :
    bigEndian (v + w) n = bigEndian v (n / 256 ^ w) ++ bigEndian w n := by
  induction v with
  | zero => rw [zero_add]; rfl
  | succ v ih =>
    rw [Nat.succ_add, bigEndian, bigEndian, ih, List.cons_append, Nat.div_div_eq_div_mul, ← pow_add,
      add_comm w v]

/-- The order of numbers is that of their bytes. -/
lemma bigEndian_below {w m n : ℕ} (h : m < n) (hn : n < 256 ^ w) :
    Below (bigEndian w m) (bigEndian w n) := by
  induction w generalizing m n with
  | zero =>
    omega
  | succ w ih =>
    have hpos : 0 < 256 ^ w := Nat.pow_pos (by decide)
    have hquot : ∀ k < 256 ^ (w + 1), k / 256 ^ w < 256 := fun k hk =>
      Nat.div_lt_of_lt_mul (by rwa [Nat.pow_succ] at hk)
    have hm : m < 256 ^ (w + 1) := h.trans hn
    have hbyte : ∀ k < 256, (UInt8.ofNat k).toNat = k := fun k hk => by
      rw [UInt8.toNat_ofNat']
      omega
    rw [bigEndian]
    rcases lt_or_ge (m / 256 ^ w) (n / 256 ^ w) with hlt | hge
    · refine .head _ _ ?_
      rw [UInt8.lt_iff_toNat_lt, hbyte _ (hquot m hm), hbyte _ (hquot n hn)]
      exact hlt
    -- the first bytes are the same, and the rest decides
    have heq : m / 256 ^ w = n / 256 ^ w := le_antisymm (Nat.div_le_div_right h.le) hge
    rw [heq]
    refine .tail _ ?_
    rw [← bigEndian_mod w m, ← bigEndian_mod w n]
    refine ih ?_ (mod_lt _ hpos)
    have hmdiv := div_add_mod m (256 ^ w)
    have hndiv := div_add_mod n (256 ^ w)
    rw [heq] at hmdiv
    omega

/-- Numbers of different lengths: the higher bytes decide. -/
lemma bigEndian_below_of_lt_div {v w m n : ℕ} (h : m < n / 256 ^ w) (hn : n < 256 ^ (v + w)) :
    Below (bigEndian v m) (bigEndian (v + w) n) := by
  have hdiv : n / 256 ^ w < 256 ^ v := by
    rw [pow_add, mul_comm] at hn
    exact Nat.div_lt_of_lt_mul hn
  rw [bigEndian_add]
  simpa using (bigEndian_below h hdiv).append [] (bigEndian w n)

/-- A number with its highest byte. -/
lemma bigEndian_mul_add {w c x : ℕ} (hx : x < 256 ^ w) :
    bigEndian (w + 1) (c * 256 ^ w + x) = ofNat c :: bigEndian w x := by
  rw [bigEndian, ← bigEndian_mod w (c * 256 ^ w + x), Nat.add_comm, Nat.add_mul_mod_self_right,
    Nat.mod_eq_of_lt hx, Nat.add_mul_div_right _ _ (Nat.pow_pos (by decide)), Nat.div_eq_of_lt hx,
    Nat.zero_add]

/-- A byte that starts with `n` bits set, and has the bits of `q` after them. -/
lemma toNat_ones_or {n q : ℕ} (hn : n ≤ 8) (hq : q < 2 ^ (8 - n)) :
    (UInt8.ofNat (256 - 2 ^ (8 - n)) ||| UInt8.ofNat q).toNat = 256 - 2 ^ (8 - n) + q := by
  have hpow : 2 ^ (8 - n) * 2 ^ n = 256 := by rw [← Nat.pow_add, Nat.sub_add_cancel hn]
  have hmul : 256 - 2 ^ (8 - n) = 2 ^ (8 - n) * (2 ^ n - 1) := by
    rw [Nat.mul_sub, hpow, Nat.mul_one]
  have hle : 2 ^ (8 - n) ≤ 256 := Nat.pow_le_pow_right (by decide) (Nat.sub_le 8 n)
  rw [UInt8.toNat_or, UInt8.toNat_ofNat', UInt8.toNat_ofNat', mod_eq_of_lt (by omega),
    mod_eq_of_lt (by omega), hmul, ← two_pow_add_eq_or_of_lt hq]

end ByteOrder
