import ZNbase.Docdb.ValueType
import ZNbase.Lib.UnaryLength
import Mathlib.Data.Nat.Size

/-!
# Integers of any size

`VarInt::EncodeToComparable` of `util/varint.cc`, with some bits at the start left to the caller.
The number of bytes is written in unary, then comes the number; a negative number is complemented.

Without reserved bits the encoding keeps the order of the integers
(`VarInt.agrees_encodeToComparable`).
-/

namespace VarInt

open ByteOrder

/-- Sets the reserved bits to 0. -/
def clearReserved (numReservedBits : ℕ) : KeyBytes → KeyBytes
  | [] => []
  | b :: data => (b &&& UInt8.ofNat (2 ^ (8 - numReservedBits) - 1)) :: data

/-- `kBitsPerWord`. -/
def kBitsPerWord : ℕ := 8

/-- `EncodeToComparable`. -/
def encodeToComparable (numReservedBits : ℕ) (v : ℤ) : KeyBytes :=
  if v = 0 then [UInt8.ofNat (0x80 >>> numReservedBits)]
  else
    let numBits := v.natAbs.size
    let totalNumBits := numBits + 1 + numReservedBits
    let numBytes := (totalNumBits + 6) / 7
    let roundingPadding := numBytes * 7 - totalNumBits
    let headerLength := 1 + numBytes + roundingPadding
    let wordsCount := (numBits + headerLength + kBitsPerWord - 1) / kBitsPerWord
    -- the number at the end, and the header before it
    let data := fillOnes (numBytes + numReservedBits) (bigEndian wordsCount v.natAbs)
    let data := if v < 0 then data.map complement else data
    if numReservedBits ≠ 0 then clearReserved numReservedBits data else data

/-! ## The bytes of a magnitude -/

/-- The number of bytes of a magnitude. -/
def numBytes (r m : ℕ) : ℕ := (m.size + 1 + r + 6) / 7

/-- A magnitude after a header of ones. -/
def magnitude (r m : ℕ) : KeyBytes :=
  bigEndian (numBytes r m) (256 ^ numBytes r m - 2 ^ (7 * numBytes r m - r) + m)

/-- After the header and a 0 there is room for the magnitude. -/
lemma magnitude_lt (r m : ℕ) : m < 2 ^ (7 * numBytes r m - r - 1) := by
  rw [← Nat.size_le, numBytes]
  omega

lemma numBytes_mono (r : ℕ) {a b : ℕ} (h : a ≤ b) : numBytes r a ≤ numBytes r b := by
  have := Nat.size_le_size h
  exact Nat.div_le_div_right (by omega)

lemma magnitude_eq (r m : ℕ) : magnitude r m = unary (numBytes r m + r) (numBytes r m) m := by
  rw [magnitude, unary, show 8 * numBytes r m - (numBytes r m + r) = 7 * numBytes r m - r by omega]

/-- Without the sign, the encoding of a number is its magnitude. -/
lemma fillOnes_eq {r m : ℕ} (hr : r < 7) :
    fillOnes ((m.size + 1 + r + 6) / 7 + r) (bigEndian ((m.size + (1 + (m.size + 1 + r + 6) / 7 +
      ((m.size + 1 + r + 6) / 7 * 7 - (m.size + 1 + r))) + kBitsPerWord - 1) / kBitsPerWord) m) =
        magnitude r m := by
  have hlt := magnitude_lt r m
  have hwords : (m.size + (1 + (m.size + 1 + r + 6) / 7 + ((m.size + 1 + r + 6) / 7 * 7 -
      (m.size + 1 + r))) + kBitsPerWord - 1) / kBitsPerWord = numBytes r m := by
    rw [numBytes, kBitsPerWord]
    omega
  have hnum : (m.size + 1 + r + 6) / 7 = numBytes r m := rfl
  rw [hwords, magnitude_eq]
  refine fillOnes_bigEndian (by omega) (hlt.trans_le (Nat.pow_le_pow_right (by decide) ?_))
  omega

/-! ## The order -/

lemma numBytes_pos (r m : ℕ) : 1 ≤ numBytes r m := by
  rw [numBytes]
  omega

lemma magnitude_below {r a b : ℕ} (hr : r < 6) (h : a < b) :
    Below (magnitude r a) (magnitude r b) := by
  have ha := magnitude_lt r a
  have hb := magnitude_lt r b
  have hpos := numBytes_pos r a
  have hmono := numBytes_mono r h.le
  have hlt : b < 2 ^ (8 * numBytes r b - (numBytes r b + r)) :=
    hb.trans_le (Nat.pow_le_pow_right (by decide) (by omega))
  rw [magnitude_eq, magnitude_eq]
  rcases hmono.eq_or_lt with heq | hlonger
  · rw [heq]
    exact unary_below h hlt
  · -- a longer number has more ones at the start
    refine unary_below_of_ones (by omega) hmono (by omega) ?_ hlt
    rwa [show 8 * numBytes r a - (numBytes r a + r) - 1 = 7 * numBytes r a - r - 1 by omega]

/-- The first byte of a magnitude. -/
lemma magnitude_head {r : ℕ} (hr : r < 6) (m : ℕ) :
    ∃ b x, magnitude r m = b :: x ∧ 256 - 2 ^ (7 - r) ≤ b.toNat := by
  have hpos := numBytes_pos r m
  have hm := magnitude_lt r m
  rw [magnitude_eq, show 7 - r = 8 - (1 + r) by omega]
  refine unary_head hpos (by omega) (by omega) (hm.trans_le (Nat.pow_le_pow_right (by decide) ?_))
  omega

/-- Without reserved bits, the encoding is the magnitude with its sign. -/
lemma encodeToComparable_zero (v : ℤ) : encodeToComparable 0 v = signed (magnitude 0) v := by
  rw [encodeToComparable, signed]
  by_cases hzero : v = 0
  · subst hzero
    decide
  · rw [if_neg hzero]
    dsimp only
    rw [fillOnes_eq (r := 0) (by decide), if_neg (by decide)]

/-- The encoding keeps the order. -/
lemma agrees_encodeToComparable (v w : ℤ) :
    Agrees (cmp v w) (encodeToComparable 0 v) (encodeToComparable 0 w) := by
  rw [encodeToComparable_zero, encodeToComparable_zero]
  exact agrees_signed _ (fun _ => True) (fun h _ => magnitude_below (by decide) h)
    (fun _ => magnitude_head (by decide) _) trivial trivial

end VarInt
