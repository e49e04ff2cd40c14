import ZNbase.Lib.OrderedEncoding

/-!
# Numbers after their length in unary

A number of any size can be written so that the order of the numbers is that of the bytes: first as
many bits that are set as the length of the number asks for, then one that is not, then the number
(`unary`).

- Of two such numbers the one with more bits set comes later, and the numbers decide if there are as
  many (`unary_below_of_ones`, `unary_below`).
- A reader finds the number of bits that are set in the first bytes (`header_unary`), and the number
  in the others (`natOfBytes_unary`), whatever follows.
-/

open Nat

namespace ByteOrder

/-- Sets the first bits of a byte string. -/
def fillOnes : ℕ → List UInt8 → List UInt8
  | _, [] => []
  | numOnes, b :: data =>
    if 8 < numOnes then 0xff :: fillOnes (numOnes - 8) data
    else (UInt8.ofNat (256 - 2 ^ (8 - numOnes)) ||| b) :: data

/-- The number `m` in `w` bytes, after `k` bits that are set. -/
def unary (k w m : ℕ) : List UInt8 := bigEndian w (256 ^ w - 2 ^ (8 * w - k) + m)

section

variable {k w m : ℕ}

lemma two_pow_mul (w : ℕ) : 2 ^ (8 * w) = 256 ^ w := pow_mul 2 8 w

lemma two_pow_sub_le (k w : ℕ) : 2 ^ (8 * w - k) ≤ 256 ^ w := by
  rw [← two_pow_mul]
  exact Nat.pow_le_pow_right (by decide) (Nat.sub_le _ _)

/-- Setting the first bits of a number that leaves them free. -/
lemma fillOnes_bigEndian (hk : k ≤ 8 * w) (hm : m < 2 ^ (8 * w - k)) :
    fillOnes k (bigEndian w m) = unary k w m := by
  rw [unary]
  induction w generalizing k m with
  | zero => rfl
  | succ w ih =>
    rw [bigEndian, fillOnes]
    split_ifs with hlt
    · -- a byte of ones
      have hexp : 8 * (w + 1) - k = 8 * w - (k - 8) := by omega
      have hle := two_pow_sub_le (k - 8) w
      rw [hexp] at hm ⊢
      have hsum : 256 ^ (w + 1) - 2 ^ (8 * w - (k - 8)) + m =
          255 * 256 ^ w + (256 ^ w - 2 ^ (8 * w - (k - 8)) + m) := by
        omega
      rw [ih (by omega) hm, hsum, bigEndian_mul_add (by omega)]
      rfl
    · -- the byte where they end
      have hexp : 2 ^ (8 * (w + 1) - k) = 2 ^ (8 - k) * 256 ^ w := by
        rw [← two_pow_mul, ← pow_add]
        congr 1
        omega
      have hq : m / 256 ^ w < 2 ^ (8 - k) := by
        rw [hexp, mul_comm] at hm
        exact Nat.div_lt_of_lt_mul hm
      have hmod := div_add_mod m (256 ^ w)
      have hsum : 256 ^ (w + 1) - 2 ^ (8 * (w + 1) - k) + m =
          (256 - 2 ^ (8 - k) + m / 256 ^ w) * 256 ^ w + m % 256 ^ w := by
        rw [hexp, Nat.pow_succ, Nat.add_mul, Nat.sub_mul, Nat.mul_comm 256, mul_comm (m / 256 ^ w),
          add_assoc, hmod]
      have hbyte := toNat_ones_or (by omega) hq
      rw [hsum, bigEndian_mul_add (Nat.mod_lt _ (Nat.pow_pos (by decide))), bigEndian_mod, ← hbyte,
        UInt8.ofNat_toNat]

/-! ## The order -/

/-- As many bits are set: the numbers decide. -/
lemma unary_below {n : ℕ} (h : m < n) (hn : n < 2 ^ (8 * w - k)) :
    Below (unary k w m) (unary k w n) := by
  have hle := two_pow_sub_le k w
  exact bigEndian_below (by omega) (by omega)

/-- The bit after those that are set is not, so the number is below all with more of them. -/
lemma lt_of_unary (hk : k < 8 * w) (hm : m < 2 ^ (8 * w - k - 1)) :
    256 ^ w - 2 ^ (8 * w - k) + m < 256 ^ w - 2 ^ (8 * w - k - 1) := by
  have hle := two_pow_sub_le k w
  have hhalf : 2 ^ (8 * w - k) = 2 * 2 ^ (8 * w - k - 1) := by
    rw [← Nat.pow_succ', Nat.succ_eq_add_one, Nat.sub_add_cancel (by omega)]
  omega

/-- The number with more bits set comes later. -/
lemma unary_below_of_ones {l v n : ℕ} (hkl : k < l) (hwv : w ≤ v) (hk : k < 8 * w)
    (hm : m < 2 ^ (8 * w - k - 1)) (hn : n < 2 ^ (8 * v - l)) :
    Below (unary k w m) (unary l v n) := by
  obtain ⟨d, rfl⟩ := Nat.exists_eq_add_of_le hwv
  have hle := two_pow_sub_le l (w + d)
  refine bigEndian_below_of_lt_div ?_ (by omega)
  rw [Nat.lt_iff_add_one_le, Nat.le_div_iff_mul_le (Nat.pow_pos (by decide))]
  have hexp : 2 ^ (8 * (w + d) - l) ≤ 2 ^ (8 * w - k - 1) * 256 ^ d := by
    rw [← two_pow_mul, ← Nat.pow_add]
    exact Nat.pow_le_pow_right (by decide) (by omega)
  calc (256 ^ w - 2 ^ (8 * w - k) + m + 1) * 256 ^ d
      ≤ (256 ^ w - 2 ^ (8 * w - k - 1)) * 256 ^ d := Nat.mul_le_mul_right _ (lt_of_unary hk hm)
    _ = 256 ^ (w + d) - 2 ^ (8 * w - k - 1) * 256 ^ d := by rw [Nat.sub_mul, ← Nat.pow_add]
    _ ≤ 256 ^ (w + d) - 2 ^ (8 * (w + d) - l) + n := by omega

/-- The first byte starts with the bits that are set. -/
lemma unary_head {j : ℕ} (hw : 1 ≤ w) (hj : j ≤ k) (hj' : j ≤ 8) (hm : m < 2 ^ (8 * w - k)) :
    ∃ b x, unary k w m = b :: x ∧ 256 - 2 ^ (8 - j) ≤ b.toNat := by
  obtain ⟨w, rfl⟩ := Nat.exists_eq_add_of_le' hw
  have hle := two_pow_sub_le k (w + 1)
  have hexp : 2 ^ (8 * (w + 1) - k) ≤ 2 ^ (8 - j) * 256 ^ w := by
    rw [← two_pow_mul, ← Nat.pow_add]
    exact Nat.pow_le_pow_right (by decide) (by omega)
  refine ⟨_, _, rfl, ?_⟩
  rw [UInt8.toNat_ofNat', Nat.mod_eq_of_lt (Nat.div_lt_of_lt_mul (by omega)),
    Nat.le_div_iff_mul_le (Nat.pow_pos (by decide)), Nat.sub_mul]
  omega

/-! ## Reading -/

lemma length_unary (k w m : ℕ) : (unary k w m).length = w := length_bigEndian _ _

/-- The number is in the lower bits, whatever is before it. -/
lemma natOfBytes_unary (before : List UInt8) {e : ℕ} (he : e ≤ 8 * w - k) (hm : m < 2 ^ e) :
    natOfBytes (before ++ unary k w m) % 2 ^ e = m := by
  have hdvd : 2 ^ e ∣ 256 ^ w := by
    rw [← two_pow_mul]
    exact pow_dvd_pow 2 (by omega)
  rw [natOfBytes_append, length_unary, unary, natOfBytes_bigEndian, ← Nat.add_mod_mod,
    mod_mod_of_dvd _ hdvd, add_mod, mod_eq_zero_of_dvd (dvd_mul_of_dvd_right hdvd _), zero_add,
    mod_mod, mod_mod, add_mod,
    mod_eq_zero_of_dvd (dvd_sub hdvd (pow_dvd_pow 2 he)), zero_add, mod_mod, mod_eq_of_lt hm]

/-- The lower bits of the complement are the complement of the lower bits. -/
lemma natOfBytes_map_complement_mod {b : ℕ} {x : List UInt8} (hb : b ≤ 8 * x.length) :
    natOfBytes (x.map complement) % 2 ^ b = 2 ^ b - (natOfBytes x % 2 ^ b + 1) := by
  have hlt := natOfBytes_lt x
  obtain ⟨q, hq⟩ : 2 ^ b ∣ 256 ^ x.length := by
    rw [← two_pow_mul]
    exact pow_dvd_pow 2 hb
  rw [hq] at hlt
  rw [natOfBytes_map_complement, hq, mul_sub_mod hlt]

/-- Up to 15 bits that are set are in the first two bytes; of a single byte all the bits are
seen. -/
lemma header_unary (hk : k < 8 * w) (hk' : k < 16) (hm : m < 2 ^ (8 * w - k - 1))
    {z x : List UInt8} (hx : unary k w m ++ z = x) (hlen : 2 ≤ x.length) :
    2 ^ 16 - 2 ^ (16 - k) ≤ natOfBytes (x.take 2) ∧
      natOfBytes (x.take 2) < 2 ^ 16 - 2 ^ (15 - k) := by
  have hz := natOfBytes_lt z
  have hw : w + z.length = x.length := by rw [← hx, List.length_append, length_unary]
  obtain ⟨d, hd⟩ := Nat.exists_eq_add_of_le' hlen
  have hnum : natOfBytes x = (256 ^ w - 2 ^ (8 * w - k) + m) * 256 ^ z.length + natOfBytes z := by
    have hlt := lt_of_unary hk hm
    rw [← hx, natOfBytes_append, unary, natOfBytes_bigEndian, Nat.mod_eq_of_lt (by omega)]
  have htake : natOfBytes (x.take 2) = natOfBytes x / 256 ^ d := by
    have hdrop := natOfBytes_lt (x.drop 2)
    have happ := natOfBytes_append (x.take 2) (x.drop 2)
    rw [List.take_append_drop] at happ
    rw [List.length_drop, hd, Nat.add_sub_cancel] at hdrop happ
    rw [happ, Nat.add_comm, Nat.add_mul_div_right _ _ (Nat.pow_pos (by decide)),
      Nat.div_eq_of_lt hdrop, Nat.zero_add]
  -- the bounds of the number, as multiples of what the other bytes can hold
  have hbnd : ∀ i ≤ 8 * w, i ≤ 16 →
      (256 ^ w - 2 ^ (8 * w - i)) * 256 ^ z.length = (2 ^ 16 - 2 ^ (16 - i)) * 256 ^ d := by
    intro i hi hi'
    rw [← two_pow_mul, ← two_pow_mul, ← two_pow_mul, Nat.sub_mul, Nat.sub_mul, ← Nat.pow_add,
      ← Nat.pow_add, ← Nat.pow_add, ← Nat.pow_add]
    congr 2 <;> omega
  rw [htake, Nat.le_div_iff_mul_le (Nat.pow_pos (by decide)),
    Nat.div_lt_iff_lt_mul (Nat.pow_pos (by decide)), hnum, ← hbnd k (by omega) (by omega)]
  constructor
  · exact (Nat.mul_le_mul_right _ (Nat.le_add_right _ m)).trans (Nat.le_add_right _ _)
  · have hmul := Nat.mul_le_mul_right (256 ^ z.length) (lt_of_unary hk hm)
    rw [Nat.succ_mul, Nat.sub_sub, hbnd (k + 1) (by omega) (by omega)] at hmul
    rw [show 15 - k = 16 - (k + 1) by omega]
    omega

end

end ByteOrder
