import ZNbase.Docdb.ValueType
import ZNbase.Lib.UnaryLength
import Mathlib.Data.Nat.Bitwise

/-!
# Variable-length integers

`FastEncodeSignedVarInt` of `util/fast_varint.cc`, which is used for column ids and for hybrid times
in keys, and `FastEncodeUnsignedVarInt`, with their decoders.

The number of bytes is written in unary at the start, and a negative number is complemented. So the
bytes are in the order of the numbers, whatever follows them (`agrees_fastEncodeSignedVarInt`).

Numbers are of 64 bits in the source; here they are integers, and what is proved holds for those of
64 bits.
-/

open Nat List UInt16

namespace FastVarInt

open ByteOrder

/-- The loop of `SignedPositiveVarIntLength`. There are at most 9 groups of 7 bits in 58 bits. -/
def lengthLoop : ℕ → ℕ → ℕ → ℕ
  | 0, _, n => n
  | fuel + 1, v, n => if v ≠ 0 then lengthLoop fuel (v >>> 7) (n + 1) else n

/-- `SignedPositiveVarIntLength`. -/
def signedPositiveVarIntLength (v : ℕ) : ℕ := lengthLoop 9 (v >>> 6) 1

/-- The bytes of a number that is not negative, in `n` bytes. -/
def encodeMagnitude (n uv : ℕ) : KeyBytes :=
  if n = 10 then 0xff :: 0xc0 :: bigEndian 8 uv
  else if n = 9 then 0xff :: ((0x80 : UInt8) ||| UInt8.ofNat (uv >>> 56)) :: bigEndian 7 uv
  else
    -- the highest `n` bits are set
    (UInt8.ofNat (256 - 2 ^ (8 - n)) ||| UInt8.ofNat (uv >>> (8 * (n - 1)))) :: bigEndian (n - 1) uv

/-- `FastEncodeSignedVarInt`. -/
def fastEncodeSignedVarInt (v : ℤ) : KeyBytes :=
  let uv := v.natAbs
  let dest := encodeMagnitude (signedPositiveVarIntLength uv) uv
  if v < 0 then dest.map complement else dest

/-- `-v` in 64 bits: the least number has no opposite, and stays as it is. -/
def negate (v : ℤ) : ℤ := if v = -2 ^ 63 then v else -v

/-- `FastEncodeDescendingSignedVarInt`. -/
def fastEncodeDescendingSignedVarInt (v : ℤ) : KeyBytes := fastEncodeSignedVarInt (negate v)

/-- The errors of the decoders. -/
inductive DecodeError
  | zeroSize
  | notEnoughEncodedBytes (decodedVarIntSize bytesProvided : ℕ)
  deriving DecidableEq

/-- `__builtin_clz`, of a number that is not 0. -/
def clz (x : ℕ) : ℕ := 31 - x.log2

/-- `kVarIntMasks`. -/
def kVarIntMasks : List UInt64 :=
  [0, 0x3f, 0x1fff, 0xfffff, 0x7ffffff, 0x3ffffffff, 0x1ffffffffff, 0xffffffffffff,
    0x7fffffffffffff, 0x3fffffffffffffff, 0xffffffffffffffff]

/-- `FastDecodeSignedVarInt`. The 64 bits that end with the number may start in what is stored
`before` it. -/
def fastDecodeSignedVarInt (before src : KeyBytes) : Except DecodeError (ℤ × ℕ) :=
  if src.length = 0 then .error .zeroSize
  else
    let header := UInt16.ofNat ((src.getD 0 0).toNat * 256 + (src.getD 1 0).toNat)
    let negative : UInt64 := if header &&& 0x8000 = 0 then -1 else 0
    let header := header ^^^ negative.toUInt16
    -- the ones at the start, of which there are at most 10
    let nBytes := clz ((~~~header &&& 0x7fff) ||| 0x20).toNat - 16
    if src.length < nBytes then .error (.notEnoughEncodedBytes nBytes src.length)
    else
      let mask := kVarIntMasks.getD nBytes 0
      let bits := UInt64.ofNat (natOfBytes (before ++ src.take nBytes))
      .ok ((((bits &&& mask) ||| (~~~mask &&& negative)) - negative).toInt64.toInt, nBytes)

/-- `FastDecodeDescendingSignedVarInt`. -/
def fastDecodeDescendingSignedVarInt (before slice : KeyBytes) :
    Except DecodeError (ℤ × KeyBytes) :=
  (fastDecodeSignedVarInt before slice).map fun temp => (negate temp.1, slice.drop temp.2)

/-! ## The length -/

/-- The loop counts the groups of 7 bits. -/
lemma lengthLoop_spec {fuel v n : ℕ} (hv : v < 2 ^ (7 * fuel)) :
    ∃ k ≤ fuel, lengthLoop fuel v n = n + k ∧ v < 2 ^ (7 * k) ∧
      (k = 0 ∨ 2 ^ (7 * (k - 1)) ≤ v) := by
  induction fuel generalizing v n with
  | zero => exact ⟨0, le_rfl, rfl, hv, .inl rfl⟩
  | succ fuel ih =>
    rw [lengthLoop]
    by_cases hzero : v = 0
    · rw [if_neg (not_not.2 hzero)]
      exact ⟨0, Nat.zero_le _, rfl, by simp [hzero], .inl rfl⟩
    rw [if_pos hzero]
    have hdiv : v >>> 7 = v / 128 := Nat.shiftRight_eq_div_pow v 7
    have hpow : ∀ k, 2 ^ (7 * (k + 1)) = 128 * 2 ^ (7 * k) := fun k => by
      rw [Nat.mul_add, Nat.pow_add, Nat.mul_comm]
    have hv' : v >>> 7 < 2 ^ (7 * fuel) := by
      rw [hdiv]
      rw [hpow] at hv
      exact Nat.div_lt_of_lt_mul hv
    -- seven bits fewer take one byte fewer
    obtain ⟨k, hk, hlen, hlt, hge⟩ := ih hv'
    refine ⟨k + 1, by omega, by rw [hlen]; omega, ?_, .inr ?_⟩
    · rw [hpow]
      omega
    · rcases hge with rfl | hge
      · exact Nat.one_le_iff_ne_zero.2 hzero
      rw [Nat.add_sub_cancel]
      cases k with
      | zero => exact Nat.one_le_iff_ne_zero.2 hzero
      | succ k =>
        rw [Nat.add_sub_cancel] at hge
        rw [hpow]
        omega

/-- The length of a number whose first byte leaves `s` bits to it: `7 * (n - 1) + s` bits, which it
needs. -/
lemma lengthLoop_shiftRight {s v : ℕ} (hs : s = 6 ∨ s = 7) (hv : v < 2 ^ 64) :
    let n := lengthLoop 9 (v >>> s) 1
    1 ≤ n ∧ n ≤ 10 ∧ v < 2 ^ (7 * n - 7 + s) ∧ (n = 1 ∨ 2 ^ (7 * n - 14 + s) ≤ v) := by
  have hdiv : v >>> s = v / 2 ^ s := Nat.shiftRight_eq_div_pow v s
  have hpos : 0 < 2 ^ s := Nat.pow_pos (by decide)
  have hlt : v >>> s < 2 ^ (7 * 9) := by
    rw [hdiv]
    exact (Nat.div_le_div_left (Nat.pow_le_pow_right (by decide) (show 6 ≤ s by omega))
      (by decide)).trans_lt (by omega)
  obtain ⟨k, hk, hlen, hlt, hge⟩ := lengthLoop_spec (n := 1) hlt
  rw [hdiv] at hlt hge
  simp only [hlen]
  refine ⟨by omega, by omega, ?_, ?_⟩
  · rw [show 7 * (1 + k) - 7 + s = 7 * k + s by omega, Nat.pow_add]
    exact Nat.lt_mul_of_div_lt hlt hpos
  · rcases k with _ | k
    · exact .inl rfl
    · refine .inr ?_
      rw [show 7 * (1 + (k + 1)) - 14 + s = 7 * k + s by omega, Nat.pow_add]
      exact (Nat.le_div_iff_mul_le hpos).1 (hge.resolve_left k.succ_ne_zero)

/-- A number of `n` bytes has `7 * n - 1` bits, and needs them. -/
lemma length_spec {uv : ℕ} (huv : uv < 2 ^ 64) :
    let n := signedPositiveVarIntLength uv
    1 ≤ n ∧ n ≤ 10 ∧ uv < 2 ^ (7 * n - 1) ∧ (n = 1 ∨ 2 ^ (7 * n - 8) ≤ uv) := by
  obtain ⟨h1, h10, hlt, hge⟩ := lengthLoop_shiftRight (.inl rfl) huv
  refine ⟨h1, h10, ?_, ?_⟩
  · rwa [show 7 * signedPositiveVarIntLength uv - 1 = 7 * signedPositiveVarIntLength uv - 7 + 6 by
      rw [signedPositiveVarIntLength]; omega]
  · refine or_iff_not_imp_left.2 fun hne => ?_
    rw [show 7 * signedPositiveVarIntLength uv - 8 = 7 * signedPositiveVarIntLength uv - 14 + 6 by
      rw [signedPositiveVarIntLength] at *; omega]
    exact hge.resolve_left hne

/-- Larger numbers are not shorter. -/
lemma lengthLoop_mono {s a b : ℕ} (hs : s = 6 ∨ s = 7) (h : a ≤ b) (hb : b < 2 ^ 64) :
    lengthLoop 9 (a >>> s) 1 ≤ lengthLoop 9 (b >>> s) 1 := by
  obtain ⟨-, -, -, ha⟩ := lengthLoop_shiftRight hs (h.trans_lt hb)
  obtain ⟨hb1, -, hlt, -⟩ := lengthLoop_shiftRight hs hb
  by_contra hgt
  rcases ha with ha | ha
  · omega
  · have hpow : 2 ^ (7 * lengthLoop 9 (b >>> s) 1 - 7 + s) ≤
        2 ^ (7 * lengthLoop 9 (a >>> s) 1 - 14 + s) := Nat.pow_le_pow_right (by decide) (by omega)
    omega

/-- The bytes of a magnitude. -/
lemma length_encodeMagnitude {n : ℕ} (hpos : 1 ≤ n) (hn : n ≤ 10) (uv : ℕ) :
    (encodeMagnitude n uv).length = n := by
  rw [encodeMagnitude]
  split_ifs <;> simp <;> omega

/-- The length is that of the magnitude. -/
lemma length_fastEncodeSignedVarInt {v : ℤ} (hv : v.natAbs < 2 ^ 64) :
    (fastEncodeSignedVarInt v).length = signedPositiveVarIntLength v.natAbs := by
  obtain ⟨hpos, hn, -⟩ := length_spec hv
  simp only [fastEncodeSignedVarInt]
  split_ifs
  · rw [length_map, length_encodeMagnitude hpos hn]
  · exact length_encodeMagnitude hpos hn _

/-- The opposite has the same magnitude, also where it wraps around. -/
lemma natAbs_negate (v : ℤ) : (negate v).natAbs = v.natAbs := by
  rw [negate]
  split_ifs
  · rfl
  · exact Int.natAbs_neg v

/-- There is at least one byte, and at most 9 for a number of 62 bits. -/
lemma length_fastEncodeDescendingSignedVarInt {v : ℤ} (hv : v.natAbs < 2 ^ 62) :
    1 ≤ (fastEncodeDescendingSignedVarInt v).length ∧
      (fastEncodeDescendingSignedVarInt v).length ≤ 9 := by
  have hv' := hv.trans (show 2 ^ 62 < 2 ^ 64 by decide)
  obtain ⟨hpos, hn, -, hge⟩ := length_spec hv'
  rw [fastEncodeDescendingSignedVarInt, length_fastEncodeSignedVarInt (by rwa [natAbs_negate]),
    natAbs_negate]
  refine ⟨hpos, ?_⟩
  by_contra hgt
  rw [show signedPositiveVarIntLength v.natAbs = 10 by omega] at hge
  omega

/-! ## The order -/

/-- A number after its length, in as many bytes as it needs if the first one leaves `s` bits to
it. -/
def lengthPrefixed (s v : ℕ) : KeyBytes :=
  let n := lengthLoop 9 (v >>> s) 1
  unary (n + 6 - s) n v

/-- Numbers after their lengths are in their order. -/
lemma lengthPrefixed_below {s a b : ℕ} (hs : s = 6 ∨ s = 7) (h : a < b) (hb : b < 2 ^ 64) :
    Below (lengthPrefixed s a) (lengthPrefixed s b) := by
  obtain ⟨ha1, -, halt, -⟩ := lengthLoop_shiftRight hs (h.trans hb)
  obtain ⟨-, -, hblt, -⟩ := lengthLoop_shiftRight hs hb
  have hmono := lengthLoop_mono hs h.le hb
  rw [lengthPrefixed, lengthPrefixed]
  generalize lengthLoop 9 (a >>> s) 1 = n at *
  generalize lengthLoop 9 (b >>> s) 1 = n' at *
  have hlt : b < 2 ^ (8 * n' - (n' + 6 - s)) :=
    hblt.trans_le (Nat.pow_le_pow_right (by decide) (by omega))
  rcases hmono.eq_or_lt with rfl | hlonger
  · exact unary_below h hlt
  · refine unary_below_of_ones (by omega) hmono (by omega) ?_ hlt
    rwa [show 8 * n - (n + 6 - s) - 1 = 7 * n - 7 + s by omega]

/-- The bits of the length do not meet those of the number. -/
lemma encodeMagnitude_eq {uv : ℕ} (huv : uv < 2 ^ 64) :
    encodeMagnitude (signedPositiveVarIntLength uv) uv = lengthPrefixed 6 uv := by
  obtain ⟨h1, h10, hlt, -⟩ := length_spec huv
  change _ = unary (signedPositiveVarIntLength uv) (signedPositiveVarIntLength uv) uv
  generalize signedPositiveVarIntLength uv = n at *
  rw [← fillOnes_bigEndian (by omega) (hlt.trans_le (Nat.pow_le_pow_right (by decide) (by omega)))]
  rcases (by omega : n ≤ 8 ∨ n = 9 ∨ n = 10) with hn | rfl | rfl
  · obtain ⟨n, rfl⟩ := Nat.exists_eq_add_of_le' h1
    rw [encodeMagnitude, if_neg (by omega), if_neg (by omega), bigEndian, fillOnes,
      if_neg (by omega), Nat.add_sub_cancel, Nat.shiftRight_eq_div_pow, two_pow_mul]
  · simp [encodeMagnitude, bigEndian, fillOnes, Nat.shiftRight_eq_div_pow]
  · -- nothing of a number of 64 bits is in the second byte
    have hzero : uv / 18446744073709551616 = 0 := Nat.div_eq_of_lt huv
    simp [encodeMagnitude, bigEndian, fillOnes, hzero]

/-- A number that is not negative has the first bit. -/
lemma encodeMagnitude_head {uv : ℕ} (huv : uv < 2 ^ 64) :
    ∃ b r, encodeMagnitude (signedPositiveVarIntLength uv) uv = b :: r ∧ 128 ≤ b.toNat := by
  obtain ⟨h1, -, hlt, -⟩ := length_spec huv
  rw [encodeMagnitude_eq huv]
  refine unary_head h1 h1 (by decide) (hlt.trans_le (Nat.pow_le_pow_right (by decide) ?_))
  omega

/-- A negative number is the complement of its magnitude. -/
lemma fastEncodeSignedVarInt_of_neg {v : ℤ} (h : v < 0) :
    fastEncodeSignedVarInt v =
      (encodeMagnitude (signedPositiveVarIntLength v.natAbs) v.natAbs).map complement := if_pos h

/-- The bytes are in the order of the numbers. -/
lemma agrees_fastEncodeSignedVarInt {v w : ℤ} (hv : v.natAbs < 2 ^ 64) (hw : w.natAbs < 2 ^ 64) :
    Agrees (cmp v w) (fastEncodeSignedVarInt v) (fastEncodeSignedVarInt w) :=
  agrees_signed (fun uv => encodeMagnitude (signedPositiveVarIntLength uv) uv) (· < 2 ^ 64)
    (fun h hb => encodeMagnitude_eq (h.trans hb) ▸ encodeMagnitude_eq hb ▸
      lengthPrefixed_below (.inl rfl) h hb) encodeMagnitude_head hv hw

/-- The descending encoding is that of the opposite. -/
lemma fastEncodeDescendingSignedVarInt_eq {v : ℤ} (hv : v ≠ -2 ^ 63) :
    fastEncodeDescendingSignedVarInt v = fastEncodeSignedVarInt (-v) := by
  rw [fastEncodeDescendingSignedVarInt, negate, if_neg hv]

/-- Descending encodings are in the reversed order. -/
lemma agrees_fastEncodeDescendingSignedVarInt {v w : ℤ} (hv : v.natAbs < 2 ^ 63)
    (hw : w.natAbs < 2 ^ 63) :
    Agrees (cmp v w).swap (fastEncodeDescendingSignedVarInt v)
      (fastEncodeDescendingSignedVarInt w) := by
  have hneg : (cmp v w).swap = cmp (-v) (-w) := by
    rw [cmp_swap]
    exact cmp_congr (by omega) (by omega)
  rw [hneg, fastEncodeDescendingSignedVarInt_eq (by omega),
    fastEncodeDescendingSignedVarInt_eq (by omega)]
  exact agrees_fastEncodeSignedVarInt (by omega) (by omega)

/-! ## Decoding signed numbers -/

lemma and_highBit_eq_zero (x : UInt16) : x &&& 0x8000 = 0 ↔ x.toNat < 2 ^ 15 := by
  have hx := x.toNat_lt
  rw [← UInt16.toNat_inj]
  change x.toNat &&& 2 ^ 15 = 0 ↔ _
  rw [and_two_pow, testBit_eq_decide_div_mod_eq]
  by_cases h : x.toNat / 2 ^ 15 % 2 = 1 <;> simp <;> omega

/-- The first two bytes, of which there may be only one. -/
lemma natOfBytes_take_two {src : KeyBytes} (h : src ≠ []) :
    natOfBytes ((src ++ [0]).take 2) = (src.getD 0 0).toNat * 256 + (src.getD 1 0).toNat := by
  rcases src with _ | ⟨b, _ | ⟨c, src⟩⟩
  · exact (h rfl).elim
  all_goals simp [natOfBytes]

/-- The length is the number of bits that are set. -/
lemma clz_header {n : ℕ} (hpos : 1 ≤ n) (hn : n ≤ 10) {header : UInt16}
    (hge : 2 ^ 16 - 2 ^ (16 - n) ≤ header.toNat) (hlt : header.toNat < 2 ^ 16 - 2 ^ (15 - n)) :
    clz ((~~~header &&& 0x7fff) ||| 0x20).toNat - 16 = n := by
  have hpow : 2 ^ (16 - n) = 2 * 2 ^ (15 - n) := by
    rw [← pow_succ', succ_eq_add_one, show 15 - n + 1 = 16 - n by omega]
  have hmin : 2 ^ 5 ≤ 2 ^ (15 - n) := Nat.pow_le_pow_right (by decide) (by omega)
  have hmax : 2 ^ (15 - n) ≤ 2 ^ 14 := Nat.pow_le_pow_right (by decide) (by omega)
  have hnot : (~~~header).toNat = 2 ^ 16 - 1 - header.toNat := UInt16.toNat_not _
  have hand : (~~~header &&& 0x7fff).toNat = (~~~header).toNat := by
    rw [UInt16.toNat_and]
    exact (and_two_pow_sub_one_eq_mod _ 15).trans (mod_eq_of_lt (by omega))
  rw [UInt16.toNat_or, hand, hnot, clz]
  have hlog : (2 ^ 16 - 1 - header.toNat ||| (0x20 : UInt16).toNat).log2 = 15 - n := by
    have hle := left_le_or (n := 2 ^ 16 - 1 - header.toNat) (m := (0x20 : UInt16).toNat)
    rw [log2_eq_iff (by omega)]
    exact ⟨by omega, or_lt_two_pow (by omega) (show 32 < _ by omega)⟩
  omega

/-- The number of bits that the mask leaves. -/
def maskBits (n : ℕ) : ℕ := if n = 10 then 64 else 7 * n - 1

/-- The masks keep as many low bits as the encoding has. -/
lemma toNat_mask : ∀ n ≤ 10, 1 ≤ n →
    (kVarIntMasks.getD n 0).toNat = 2 ^ maskBits n - 1 ∧ maskBits n ≤ 64 ∧ maskBits n ≤ 7 * n := by
  decide

section Decode

variable {n uv : ℕ} (hpos : 1 ≤ n) (hn : n ≤ 10)
include hpos hn

/-- A mask takes the remainder. -/
lemma toNat_and_mask (x : ℕ) :
    (UInt64.ofNat x &&& kVarIntMasks.getD n 0).toNat = x % 2 ^ maskBits n := by
  obtain ⟨hmask, hle, -⟩ := toNat_mask n hn hpos
  rw [UInt64.toNat_and, hmask, and_two_pow_sub_one_eq_mod]
  exact mod_mod_of_dvd _ (pow_dvd_pow 2 hle)

omit hpos hn in
lemma toInt_toInt64 (u : UInt64) : u.toInt64.toInt = Int.bmod u.toNat (2 ^ 64) :=
  BitVec.toInt_eq_toNat_bmod _

/-- The value of a negative number: the bits that the mask drops are set, and the complement is
undone. -/
lemma toInt_of_neg (hzero : 0 < uv) (huv : uv ≤ 2 ^ 63) (hlt : uv < 2 ^ maskBits n)
    {masked : UInt64} (h : masked.toNat = 2 ^ maskBits n - (uv + 1)) :
    ((masked ||| (~~~kVarIntMasks.getD n 0 &&& -1)) - (-1)).toInt64.toInt = -uv := by
  obtain ⟨hmask, hle, -⟩ := toNat_mask n hn hpos
  have hpow : 2 ^ maskBits n * 2 ^ (64 - maskBits n) = 2 ^ 64 := by
    rw [← Nat.pow_add, Nat.add_sub_cancel' hle]
  have hmax := le_of_dvd (by decide) ⟨_, hpow.symm⟩
  have hnot : (~~~kVarIntMasks.getD n 0).toNat = 2 ^ maskBits n * (2 ^ (64 - maskBits n) - 1) := by
    rw [UInt64.toNat_not, Nat.mul_sub]
    change 2 ^ 64 - 1 - _ = _
    omega
  have hor : (masked ||| ~~~kVarIntMasks.getD n 0).toNat = 2 ^ 64 - 1 - uv := by
    rw [UInt64.toNat_or, hnot, Nat.or_comm, ← Nat.two_pow_add_eq_or_of_lt (by omega), Nat.mul_sub]
    omega
  have hres : ((masked ||| ~~~kVarIntMasks.getD n 0) - -1).toNat = 2 ^ 64 - uv := by
    rw [UInt64.toNat_sub]
    change (2 ^ 64 - (2 ^ 64 - 1) + _) % 2 ^ 64 = _
    omega
  rw [UInt64.and_neg_one, toInt_toInt64, hres,
    show ((2 ^ 64 - uv : ℕ) : ℤ) = -uv + (2 ^ 64 : ℕ) by omega, Int.add_bmod_right]
  exact Int.bmod_eq_of_le (by omega) (by omega)

variable (huv : uv < 2 ^ (7 * n - 1))
include huv

/-- The first two bytes of a number, without its sign. -/
lemma header_magnitude (z : KeyBytes) (b : UInt8) :
    2 ^ 16 - 2 ^ (16 - n) ≤ natOfBytes ((unary n n uv ++ (z ++ [b])).take 2) ∧
      natOfBytes ((unary n n uv ++ (z ++ [b])).take 2) < 2 ^ 16 - 2 ^ (15 - n) := by
  refine header_unary (by omega) (by omega) ?_ rfl ?_
  · rwa [show 8 * n - n - 1 = 7 * n - 1 by omega]
  · simp only [length_append, length_unary, length_singleton]
    omega

/-- The mask drops the header, and what is stored before the number. -/
lemma natOfBytes_mod_mask (before : KeyBytes) (huv' : uv < 2 ^ 64) :
    uv < 2 ^ maskBits n ∧ natOfBytes (before ++ unary n n uv) % 2 ^ maskBits n = uv := by
  obtain ⟨-, -, hle⟩ := toNat_mask n hn hpos
  have hlt : uv < 2 ^ maskBits n := by
    rw [maskBits]
    split_ifs
    exacts [huv', huv]
  exact ⟨hlt, natOfBytes_unary before (by omega) hlt⟩

omit hpos hn huv in
/-- Decoding, once the sign and the length are known. -/
lemma fastDecodeSignedVarInt_eq (before : KeyBytes) (negative : UInt64) {src : KeyBytes}
    {header : UInt16} (hpos : 1 ≤ n) (hlen : n ≤ src.length)
    (hheader : ofNat (natOfBytes ((src ++ [0]).take 2)) = header)
    (hnegative : (if header &&& 0x8000 = 0 then -1 else 0) = negative) {magnitude : UInt16}
    (hmagnitude : header ^^^ negative.toUInt16 = magnitude)
    (hn : clz ((~~~magnitude &&& 0x7fff) ||| 0x20).toNat - 16 = n) :
    fastDecodeSignedVarInt before src =
      .ok ((((UInt64.ofNat (natOfBytes (before ++ src.take n)) &&& kVarIntMasks.getD n 0) |||
        (~~~kVarIntMasks.getD n 0 &&& negative)) - negative).toInt64.toInt, n) := by
  rw [natOfBytes_take_two (length_pos_iff.1 (by omega))] at hheader
  rw [fastDecodeSignedVarInt, if_neg (by omega)]
  dsimp only
  rw [hheader, hnegative, hmagnitude, hn, if_neg (by omega)]

/-- A number that is not negative is decoded. -/
lemma decode_of_nonneg (before suffix : KeyBytes) (huv' : uv < 2 ^ 63) :
    fastDecodeSignedVarInt before (unary n n uv ++ suffix) = .ok ((uv : ℤ), n) := by
  obtain ⟨hge, hlt⟩ := header_magnitude hpos hn huv suffix 0
  obtain ⟨-, hmask⟩ := natOfBytes_mod_mask hpos hn huv before (by omega)
  have hmax : 2 ^ (16 - n) ≤ 2 ^ 15 := Nat.pow_le_pow_right (by decide) (by omega)
  have hlen := length_unary n n uv
  have hheader := UInt16.toNat_ofNat_of_lt' (show _ < 2 ^ 16 from hlt.trans_le (sub_le _ _))
  rw [← hheader] at hge hlt
  rw [fastDecodeSignedVarInt_eq before 0 hpos (by rw [length_append]; omega)
    (by rw [append_assoc]) (if_neg (by rw [and_highBit_eq_zero]; omega))
    UInt16.xor_zero (clz_header hpos hn hge hlt), take_left' hlen,
    UInt64.and_zero, UInt64.or_zero, UInt64.sub_zero, toInt_toInt64, toNat_and_mask hpos hn, hmask]
  rw [Int.bmod_eq_of_le (by omega) (by omega)]

/-- A negative number is decoded. -/
lemma decode_of_neg (before suffix : KeyBytes) (hzero : 0 < uv) (huv' : uv ≤ 2 ^ 63) :
    fastDecodeSignedVarInt before ((unary n n uv).map complement ++ suffix) =
      .ok (-(uv : ℤ), n) := by
  obtain ⟨hge, hlt⟩ := header_magnitude hpos hn huv (suffix.map complement) (complement 0)
  obtain ⟨hbits, hmask⟩ := natOfBytes_mod_mask hpos hn huv (before.map complement) (by omega)
  obtain ⟨-, -, hle⟩ := toNat_mask n hn hpos
  have hmax : 2 ^ (16 - n) ≤ 2 ^ 15 := Nat.pow_le_pow_right (by decide) (by omega)
  have hlen : ((unary n n uv).map complement).length = n := by rw [length_map, length_unary]
  generalize hx : unary n n uv ++ (suffix.map complement ++ [complement 0]) = x at *
  have hsrc : (unary n n uv).map complement ++ suffix ++ [0] = x.map complement := by
    rw [← hx, map_append, map_append, map_complement_complement, append_assoc]
    rfl
  -- the complement of the header is that of a number that is not negative
  have htwo : (x.take 2).length = 2 := by
    simp [← hx, length_unary]
    omega
  have hlt16 := hlt.trans_le (sub_le (2 ^ 16) _)
  have hheader : (ofNat (natOfBytes ((x.map complement).take 2))).toNat =
      2 ^ 16 - (natOfBytes (x.take 2) + 1) := by
    rw [← map_take, natOfBytes_map_complement, htwo]
    exact toNat_ofNat_of_lt' (show _ < 2 ^ 16 by omega)
  have hnot : (~~~ofNat (natOfBytes ((x.map complement).take 2))).toNat =
      natOfBytes (x.take 2) := by
    rw [toNat_not]
    change 2 ^ 16 - 1 - _ = _
    omega
  rw [← hnot] at hge hlt
  have hcompl : before ++ (unary n n uv).map complement =
      (before.map complement ++ unary n n uv).map complement := by
    rw [map_append, map_complement_complement]
  rw [fastDecodeSignedVarInt_eq before (-1) hpos (by rw [length_append]; omega)
    (by rw [hsrc]) (if_pos ((and_highBit_eq_zero _).2 (by omega))) xor_neg_one
    (clz_header hpos hn hge hlt), take_left' hlen, toInt_of_neg hpos hn hzero huv' hbits]
  rw [toNat_and_mask hpos hn, hcompl, natOfBytes_map_complement_mod, hmask]
  rw [length_append, length_unary]
  omega

end Decode

/-- What is decoded is what was encoded, whatever is before it and after it. -/
lemma fastDecodeSignedVarInt_encode (before suffix : KeyBytes) {v : ℤ} (hge : -2 ^ 63 ≤ v)
    (hlt : v < 2 ^ 63) :
    fastDecodeSignedVarInt before (fastEncodeSignedVarInt v ++ suffix) =
      .ok (v, (fastEncodeSignedVarInt v).length) := by
  have huv : v.natAbs < 2 ^ 64 := by omega
  obtain ⟨h1, h10, hbits, -⟩ := length_spec huv
  have henc : encodeMagnitude _ v.natAbs = unary (signedPositiveVarIntLength v.natAbs)
    (signedPositiveVarIntLength v.natAbs) v.natAbs := encodeMagnitude_eq huv
  rw [length_fastEncodeSignedVarInt huv]
  simp only [fastEncodeSignedVarInt, henc]
  split_ifs with hsign
  · rw [decode_of_neg h1 h10 hbits _ _ (by omega) (by omega), show -(v.natAbs : ℤ) = v by omega]
  · rw [decode_of_nonneg h1 h10 hbits _ _ (by omega), show (v.natAbs : ℤ) = v by omega]

/-- The opposite of the opposite, with the least number. -/
lemma negate_negate {v : ℤ} (hlt : v < 2 ^ 63) : negate (negate v) = v := by
  rw [negate, negate]
  split_ifs <;> omega

/-- Every number is decoded from its descending encoding. -/
lemma fastDecodeDescendingSignedVarInt_encode (before suffix : KeyBytes) {v : ℤ}
    (hge : -2 ^ 63 ≤ v) (hlt : v < 2 ^ 63) :
    fastDecodeDescendingSignedVarInt before (fastEncodeDescendingSignedVarInt v ++ suffix) =
      .ok (v, suffix) := by
  have hnegate : -2 ^ 63 ≤ negate v ∧ negate v < 2 ^ 63 := by
    rw [negate]
    split_ifs <;> omega
  rw [fastDecodeDescendingSignedVarInt, fastEncodeDescendingSignedVarInt,
    fastDecodeSignedVarInt_encode before suffix hnegate.1 hnegate.2, Except.map, negate_negate hlt,
    drop_left]

/-- Descending encodings are in the order of the opposites, which is the reversed order unless one
of the numbers is its own opposite. -/
lemma compareBytes_fastEncodeDescendingSignedVarInt {v w : ℤ} (hge : -2 ^ 63 ≤ v) (hlt : v < 2 ^ 63)
    (hge' : -2 ^ 63 ≤ w) (hlt' : w < 2 ^ 63) :
    compareBytes (fastEncodeDescendingSignedVarInt v) (fastEncodeDescendingSignedVarInt w) =
        (cmp v w).swap ↔ v = w ∨ v ≠ -2 ^ 63 ∧ w ≠ -2 ^ 63 := by
  have hnegate := agrees_fastEncodeSignedVarInt (v := negate v) (w := negate w)
    (by rw [natAbs_negate]; omega) (by rw [natAbs_negate]; omega)
  rw [fastEncodeDescendingSignedVarInt, fastEncodeDescendingSignedVarInt, hnegate.compareBytes_eq,
    cmp_swap]
  rcases lt_trichotomy v w with hvw | rfl | hvw
  · rw [cmp_eq_gt_iff _ _ |>.2 hvw, cmp_eq_gt_iff, negate, negate]
    split_ifs <;> omega
  · exact iff_of_true (by rw [cmp_self_eq_eq, cmp_self_eq_eq]) (.inl rfl)
  · rw [cmp_eq_lt_iff _ _ |>.2 hvw, cmp_eq_lt_iff, negate, negate]
    split_ifs <;> omega

/-- Signed numbers are decoded from their encodings, and the encodings are in their order.
Descending encodings of two numbers are in the reversed order exactly if they are the same number,
or none of them is the one without an opposite. -/
theorem signedVarInt_codec (v w : Int64) (before suffix : KeyBytes) :
    fastDecodeSignedVarInt before (fastEncodeSignedVarInt v.toInt ++ suffix) =
        .ok (v.toInt, (fastEncodeSignedVarInt v.toInt).length) ∧
      compareBytes (fastEncodeSignedVarInt v.toInt) (fastEncodeSignedVarInt w.toInt) =
        cmp v.toInt w.toInt ∧
      (fastEncodeSignedVarInt v.toInt <+: fastEncodeSignedVarInt w.toInt → v = w) ∧
      (compareBytes (fastEncodeDescendingSignedVarInt v.toInt)
          (fastEncodeDescendingSignedVarInt w.toInt) = (cmp v.toInt w.toInt).swap ↔
        v = w ∨ v ≠ .minValue ∧ w ≠ .minValue) ∧
      fastDecodeDescendingSignedVarInt before (fastEncodeDescendingSignedVarInt v.toInt ++ suffix) =
        .ok (v.toInt, suffix) := by
  have hbounds : ∀ u : Int64, -2 ^ 63 ≤ u.toInt ∧ u.toInt < 2 ^ 63 ∧
      (u = .minValue ↔ u.toInt = -2 ^ 63) :=
    fun u => ⟨u.le_toInt, u.toInt_lt, Int64.toInt_inj.symm⟩
  obtain ⟨hv, hv', hvmin⟩ := hbounds v
  obtain ⟨hw, hw', hwmin⟩ := hbounds w
  have horder := agrees_fastEncodeSignedVarInt (v := v.toInt) (w := w.toInt) (by omega) (by omega)
  refine ⟨fastDecodeSignedVarInt_encode before suffix hv hv', horder.compareBytes_eq, ?_, ?_,
    fastDecodeDescendingSignedVarInt_encode before suffix hv hv'⟩
  · intro hpre
    exact Int64.toInt_inj.1 ((cmp_eq_eq_iff _ _).1 (horder.eq_of_isPrefix hpre).1)
  · rw [compareBytes_fastEncodeDescendingSignedVarInt hv hv' hw hw', Int64.toInt_inj, ne_eq, ne_eq,
      ← hvmin, ← hwmin]

theorem signedVarInt_codec_neg :
    fastDecodeDescendingSignedVarInt [] (fastEncodeDescendingSignedVarInt (-5) ++ [7]) =
        .ok (-5, [7]) ∧
      compareBytes (fastEncodeDescendingSignedVarInt (-5)) (fastEncodeDescendingSignedVarInt 3) =
        .gt :=
  ⟨(signedVarInt_codec (-5) 3 [] [7]).2.2.2.2,
    (signedVarInt_codec (-5) 3 [] [7]).2.2.2.1.2 (.inr ⟨by decide, by decide⟩)⟩

/-- The least number is encoded as the least one, whatever the direction. -/
theorem not_descending_of_minValue :
    ¬ ∀ v w : Int64, compareBytes (fastEncodeDescendingSignedVarInt v.toInt)
      (fastEncodeDescendingSignedVarInt w.toInt) = (cmp v.toInt w.toInt).swap := by
  intro h
  exact absurd (h .minValue 0) (by decide)

/-! ## Unsigned numbers -/

/-- `UnsignedVarIntLength`. -/
def unsignedVarIntLength (v : ℕ) : ℕ := lengthLoop 9 (v >>> 7) 1

/-- `FastEncodeUnsignedVarInt`. -/
def fastEncodeUnsignedVarInt (v : ℕ) : KeyBytes :=
  let n := unsignedVarIntLength v
  if n = 10 then 0xff :: 0x80 :: bigEndian 8 v
  else if n = 9 then 0xff :: UInt8.ofNat (v >>> 56) :: bigEndian 7 v
  else
    (UInt8.ofNat (256 - 2 ^ (9 - n)) ||| UInt8.ofNat (v >>> (8 * (n - 1)))) :: bigEndian (n - 1) v

/-- `MakeUnsignedVarIntSize`. -/
def kUnsignedVarIntSize (i : UInt8) : ℕ := clz ((i.toNat <<< 1) ^^^ 0x1ff) - 23 + 1

/-- The loop of `FastDecodeUnsignedVarInt`. -/
def appendBytes (result : ℕ) (bytes : KeyBytes) : ℕ :=
  bytes.foldl (fun result b => (result <<< 8 ||| b.toNat) % 2 ^ 64) result

/-- `FastDecodeUnsignedVarInt`. -/
def fastDecodeUnsignedVarInt (src : KeyBytes) : Except DecodeError (ℕ × ℕ) :=
  if src.length = 0 then .error .zeroSize
  else
    let firstByte := src.getD 0 0
    let nBytes := kUnsignedVarIntSize firstByte
    if src.length < nBytes then .error (.notEnoughEncodedBytes nBytes src.length)
    else if nBytes = 1 then .ok ((firstByte &&& 0x7f).toNat, 1)
    else if nBytes = 9 then
      if src.getD 1 0 &&& 0x80 ≠ 0 then
        if src.length < 10 then .error (.notEnoughEncodedBytes 10 src.length)
        else .ok (appendBytes (src.getD 1 0 &&& 0x3f).toNat ((src.take 10).drop 2), 10)
      -- the first byte is shifted out
      else .ok (appendBytes 0 (src.take 9), 9)
    else .ok (appendBytes (firstByte.toNat &&& (2 ^ (8 - nBytes) - 1)) ((src.take nBytes).drop 1),
      nBytes)

/-- The bytes are appended to what was read. -/
lemma appendBytes_eq {r : ℕ} (hr : r < 2 ^ 64) (x : KeyBytes) :
    appendBytes r x = (r * 256 ^ x.length + natOfBytes x) % 2 ^ 64 := by
  induction x generalizing r with
  | nil =>
    rw [length_nil, pow_zero, Nat.mul_one]
    exact (mod_eq_of_lt hr).symm
  | cons b x ih =>
    have hor : r <<< 8 ||| b.toNat = r * 256 + b.toNat := by
      rw [← shiftLeft_add_eq_or_of_lt b.toNat_lt, shiftLeft_eq]
    have hstep : appendBytes r (b :: x) = appendBytes ((r <<< 8 ||| b.toNat) % 2 ^ 64) x := rfl
    rw [hstep, ih (Nat.mod_lt _ (by decide)), hor, natOfBytes_cons, length_cons, add_mod,
      mod_mul_mod, ← add_mod]
    ring_nf

/-- An unsigned number is encoded after its length. -/
lemma fastEncodeUnsignedVarInt_eq {v : ℕ} (hv : v < 2 ^ 64) :
    fastEncodeUnsignedVarInt v = lengthPrefixed 7 v := by
  obtain ⟨h1, h10, hlt, -⟩ := lengthLoop_shiftRight (.inr rfl) hv
  rw [fastEncodeUnsignedVarInt, lengthPrefixed, unsignedVarIntLength]
  generalize lengthLoop 9 (v >>> 7) 1 = n at *
  rw [← fillOnes_bigEndian (by omega) (hlt.trans_le (Nat.pow_le_pow_right (by decide) (by omega)))]
  rcases (by omega : n ≤ 8 ∨ n = 9 ∨ n = 10) with hn | rfl | rfl
  · obtain ⟨n, rfl⟩ := Nat.exists_eq_add_of_le' h1
    rw [if_neg (by omega), if_neg (by omega), bigEndian, fillOnes, if_neg (by omega),
      Nat.add_sub_cancel, shiftRight_eq_div_pow, two_pow_mul,
      show 9 - (n + 1) = 8 - (n + 1 + 6 - 7) by omega]
  · have hor : ∀ b : UInt8, 0xff ||| b = 0xff := forall_byte (by decide +kernel)
    simp [bigEndian, fillOnes, shiftRight_eq_div_pow, hor]
  · have hzero : v / 18446744073709551616 = 0 := div_eq_of_lt hv
    simp [bigEndian, fillOnes, hzero]

/-- The first byte tells the size. -/
lemma kUnsignedVarIntSize_eq :
    ∀ n ≤ 8, 1 ≤ n → ∀ i < 256, 256 - 2 ^ (9 - n) ≤ i → i < 256 - 2 ^ (8 - n) →
    kUnsignedVarIntSize (UInt8.ofNat i) = n := by
  decide +kernel

lemma and_highBit (b : UInt8) : b &&& 0x80 ≠ 0 ↔ 128 ≤ b.toNat :=
  forall_byte (P := fun b => b &&& 0x80 ≠ 0 ↔ 128 ≤ b.toNat) (by decide +kernel) b

section Unsigned

variable {n v : ℕ} (hpos : 1 ≤ n) (hn : n ≤ 10) (hv : v < 2 ^ (7 * n)) (suffix : KeyBytes)
include hpos hn hv

/-- The length, from the first byte and if need be from the second one. -/
lemma size_unsigned :
    (n ≤ 8 → kUnsignedVarIntSize ((unary (n - 1) n v ++ suffix).getD 0 0) = n) ∧
      (9 ≤ n → kUnsignedVarIntSize ((unary (n - 1) n v ++ suffix).getD 0 0) = 9 ∧
        ((unary (n - 1) n v ++ suffix).getD 1 0 &&& 0x80 ≠ 0 ↔ n = 10)) := by
  have hlen := length_unary (n - 1) n v
  obtain ⟨hge, hlt⟩ := header_unary (k := n - 1) (w := n) (z := suffix ++ [0]) (by omega) (by omega)
    (by rwa [show 8 * n - (n - 1) - 1 = 7 * n by omega]) rfl (by simp; omega)
  rw [← append_assoc, natOfBytes_take_two (length_pos_iff.1 (by rw [length_append]; omega))]
    at hge hlt
  rw [and_highBit]
  generalize (unary (n - 1) n v ++ suffix).getD 0 0 = b at *
  generalize (unary (n - 1) n v ++ suffix).getD 1 0 = c at *
  have hb := b.toNat_lt
  have hc := c.toNat_lt
  refine ⟨fun hle => ?_, fun hle => ?_⟩
  · have hpow : ∀ i ≤ 9, 2 ^ (8 + i) = 256 * 2 ^ i := fun i _ => Nat.pow_add 2 8 i
    rw [show 16 - (n - 1) = 8 + (9 - n) by omega, hpow _ (by omega)] at hge
    rw [show 15 - (n - 1) = 8 + (8 - n) by omega, hpow _ (by omega)] at hlt
    have := kUnsignedVarIntSize_eq n hle hpos b.toNat hb (by omega) (by omega)
    rwa [UInt8.ofNat_toNat] at this
  · -- nine or ten bytes: the second one tells
    have hbyte : b = 255 := UInt8.toNat_inj.1 (by
      rcases (by omega : n = 9 ∨ n = 10) with rfl | rfl <;> simp at hge ⊢ <;> omega)
    rw [hbyte] at hge hlt ⊢
    refine ⟨by decide, ?_⟩
    rcases (by omega : n = 9 ∨ n = 10) with rfl | rfl <;> simp at hge hlt ⊢ <;> omega

/-- Up to 8 bytes, the number starts in the first one. -/
lemma first_byte_unsigned (hle : n ≤ 8) {b : UInt8} {y : KeyBytes}
    (hx : unary (n - 1) n v = b :: y) :
    (b.toNat &&& (2 ^ (8 - n) - 1)) * 256 ^ y.length + natOfBytes y = v := by
  have hlen := length_unary (n - 1) n v
  have hy := natOfBytes_lt y
  have hnum := natOfBytes_unary [] (show 7 * n ≤ 8 * n - (n - 1) by omega) hv
  rw [hx, length_cons] at hlen
  have hpow : 2 ^ (7 * n) = 256 ^ y.length * 2 ^ (8 - n) := by
    rw [← two_pow_mul, ← Nat.pow_add, show 8 * y.length + (8 - n) = 7 * n by omega]
  rw [hx, nil_append, natOfBytes_cons, hpow, mod_mul, mul_add_mod_self_right,
    mod_eq_of_lt hy, add_comm, mul_comm b.toNat, mul_add_div (Nat.pow_pos (by decide)),
    div_eq_of_lt hy,
    mul_comm] at hnum
  rw [and_two_pow_sub_one_eq_mod]
  exact hnum

/-- The bits after the length are read. -/
lemma decode_unsigned (hv' : v < 2 ^ 64) :
    fastDecodeUnsignedVarInt (unary (n - 1) n v ++ suffix) = .ok (v, n) := by
  obtain ⟨hshort, hlong⟩ := size_unsigned hpos hn hv suffix
  have hlen := length_unary (n - 1) n v
  have hlen' : n ≤ (unary (n - 1) n v ++ suffix).length := by
    rw [length_append]
    omega
  rw [fastDecodeUnsignedVarInt, if_neg (by omega)]
  dsimp only
  -- the length is in the first byte, or in the second one too
  rcases (by omega : n ≤ 8 ∨ n = 9 ∨ n = 10) with hle | rfl | rfl
  · rw [hshort hle, if_neg (by omega), if_neg (show n ≠ 9 by omega), take_left' hlen]
    obtain ⟨b, y, hx⟩ := exists_cons_of_length_pos (hpos.trans_eq hlen.symm)
    have hval := first_byte_unsigned hpos hn hv hle hx
    rw [hx, cons_append, getD_cons_zero, drop_succ_cons, drop_zero]
    split_ifs with hone
    · subst hone
      obtain rfl : y = [] := by
        rw [hx, length_cons] at hlen
        exact length_eq_zero_iff.1 (by omega)
      exact congrArg (fun u => Except.ok (u, 1)) (by simpa [natOfBytes] using hval)
    · rw [appendBytes_eq, hval, mod_eq_of_lt hv']
      exact and_le_left.trans_lt (b.toNat_lt.trans (by decide))
  · have hnum := natOfBytes_unary [] (show 64 ≤ 8 * 9 - (9 - 1) by decide) hv'
    rw [(hlong (by omega)).1, if_neg (by omega), if_neg (by omega), if_pos rfl,
      if_neg ((hlong (by omega)).2.not.2 (by omega)), take_left' hlen, appendBytes_eq (by decide),
      Nat.zero_mul,
      ← nil_append (unary _ _ _), zero_add, hnum]
  · have hnum := natOfBytes_unary [] (show 64 ≤ 8 * 10 - (10 - 1) by decide) hv'
    have happ := natOfBytes_append ((unary (10 - 1) 10 v).take 2) ((unary (10 - 1) 10 v).drop 2)
    have hpow : 256 ^ ((unary (10 - 1) 10 v).drop 2).length = 2 ^ 64 := by
      rw [length_drop, hlen]; rfl
    rw [take_append_drop, hpow] at happ
    rw [nil_append, happ, mul_add_mod_self_right] at hnum
    rw [(hlong (by omega)).1, if_neg (by omega), if_neg (by omega), if_pos rfl,
      if_pos ((hlong (by omega)).2.2 rfl), if_neg (by omega), take_left' hlen,
      appendBytes_eq ((UInt8.toNat_lt _).trans (by decide)), hpow, mul_add_mod_self_right, hnum]

/-- A part of the bytes is not enough. -/
lemma decode_unsigned_take {j : ℕ} (hj : j < n) :
    ∃ e, fastDecodeUnsignedVarInt ((unary (n - 1) n v).take j) = .error e := by
  obtain ⟨hshort, hlong⟩ := size_unsigned hpos hn hv []
  have hlen := length_unary (n - 1) n v
  rw [append_nil] at hshort hlong
  rw [fastDecodeUnsignedVarInt, length_take, hlen, min_eq_left hj.le]
  have hbyte : ∀ i < j, ((unary (n - 1) n v).take j).getD i 0 = (unary (n - 1) n v).getD i 0 := by
    intro i hi
    rw [getD_eq_getElem?_getD, getElem?_take_of_lt hi, ← getD_eq_getElem?_getD]
  by_cases hzero : j = 0
  · rw [if_pos hzero]
    exact ⟨_, rfl⟩
  rw [if_neg hzero]
  dsimp only
  rw [hbyte 0 (by omega)]
  rcases lt_or_ge n 9 with hle | hge
  · rw [hshort (by omega), if_pos hj]
    exact ⟨_, rfl⟩
  · obtain ⟨hsize, hsecond⟩ := hlong hge
    rw [hsize]
    by_cases h9 : j < 9
    · rw [if_pos h9]
      exact ⟨_, rfl⟩
    · -- nine of ten bytes: the second one tells that one is missing
      rw [if_neg h9, if_neg (by decide), if_pos rfl, hbyte 1 (by omega),
        if_pos (hsecond.2 (by omega)), if_pos (by omega)]
      exact ⟨_, rfl⟩

end Unsigned

/-- Unsigned numbers are encoded in their order. -/
lemma agrees_fastEncodeUnsignedVarInt {v w : ℕ} (hv : v < 2 ^ 64) (hw : w < 2 ^ 64) :
    Agrees (cmp v w) (fastEncodeUnsignedVarInt v) (fastEncodeUnsignedVarInt w) := by
  rw [fastEncodeUnsignedVarInt_eq hv, fastEncodeUnsignedVarInt_eq hw]
  exact agrees_cmp (lengthPrefixed_below (.inr rfl) · hw) (lengthPrefixed_below (.inr rfl) · hv)

/-- Unsigned numbers are decoded. -/
lemma fastDecodeUnsignedVarInt_encode {v : ℕ} (hv : v < 2 ^ 64) (suffix : KeyBytes) :
    fastDecodeUnsignedVarInt (fastEncodeUnsignedVarInt v ++ suffix) =
      .ok (v, (fastEncodeUnsignedVarInt v).length) := by
  obtain ⟨h1, h10, hlt, -⟩ := lengthLoop_shiftRight (.inr rfl) hv
  rw [Nat.sub_add_cancel (by omega)] at hlt
  rw [fastEncodeUnsignedVarInt_eq hv, lengthPrefixed, length_unary]
  exact decode_unsigned h1 h10 hlt suffix hv

/-- Unsigned numbers are read back with their length whatever follows, the bytes are ordered as the
numbers, an encoding is no prefix of another one, and no part of one is accepted. -/
theorem unsignedVarInt_codec (v w : UInt64) (suffix : KeyBytes) :
    let encoded := fastEncodeUnsignedVarInt v.toNat
    fastDecodeUnsignedVarInt (encoded ++ suffix) = .ok (v.toNat, encoded.length) ∧
      compareBytes encoded (fastEncodeUnsignedVarInt w.toNat) = cmp v w ∧
      (encoded <+: fastEncodeUnsignedVarInt w.toNat → v = w) ∧
      ∀ j < encoded.length, ∃ e, fastDecodeUnsignedVarInt (encoded.take j) = .error e := by
  have hv := v.toNat_lt
  have horder := agrees_fastEncodeUnsignedVarInt hv w.toNat_lt
  obtain ⟨h1, h10, hlt, -⟩ := lengthLoop_shiftRight (.inr rfl) hv
  rw [Nat.sub_add_cancel (by omega)] at hlt
  refine ⟨fastDecodeUnsignedVarInt_encode hv suffix, horder.compareBytes_eq, ?_, ?_⟩
  · intro hpre
    exact UInt64.toNat_inj.1 ((cmp_eq_eq_iff _ _).1 (horder.eq_of_isPrefix hpre).1)
  · rw [fastEncodeUnsignedVarInt_eq hv, lengthPrefixed, length_unary]
    intro j hj
    exact decode_unsigned_take h1 h10 hlt hj

end FastVarInt
