import ZNbase.Common.HybridTime
import ZNbase.Lib.Except
import ZNbase.Util.FastVarInt

/-!
# The hybrid time of a key

`DocHybridTime` of `common/doc_hybrid_time.cc`: a hybrid time with the number of the write in its
transaction. In a key it is encoded so that later times come first, and the size of the encoding is
kept in the last 5 bits, where a reader finds it from the end of the key.

The size does not disturb the order: the bits it replaces are free (`encodedInDocDbFormat_eq`), and
the rest decides (`agrees_encodedInDocDbFormat`).
-/

open List Nat UInt8

/-- `DocHybridTime`. -/
structure DocHybridTime where
  hybridTime : HybridTime
  writeId : ℕ
  isUInt64 : hybridTime < 2 ^ 64
  isUInt32 : writeId < 2 ^ 32
  deriving DecidableEq

namespace DocHybridTime

open ByteOrder FastVarInt

/-- `kZNbaseMicrosecondEpoch`. -/
def kZNbaseMicrosecondEpoch : ℕ := 1500000000 * 1000000

/-- `kNumBitsForHybridTimeSize`. -/
def kNumBitsForHybridTimeSize : ℕ := 5

/-- `CompareTo`. -/
def compareTo (t t' : DocHybridTime) : Ordering :=
  (cmp t.hybridTime t'.hybridTime).then (cmp t.writeId t'.writeId)

variable (t : DocHybridTime)

/-- The encoding of the hybrid time, after the generation number. -/
def encodedTime : KeyBytes :=
  fastEncodeDescendingSignedVarInt 0 ++
    (fastEncodeDescendingSignedVarInt
        ((t.hybridTime.getPhysicalValueMicros : ℤ) - kZNbaseMicrosecondEpoch) ++
      fastEncodeDescendingSignedVarInt t.hybridTime.getLogicalValue)

/-- The write id, shifted to leave room for the size. -/
def shiftedWriteId : ℕ := (t.writeId + 1) <<< kNumBitsForHybridTimeSize

/-- Puts the size in the last bits of the last byte. -/
def storeSize (size : ℕ) (out : KeyBytes) : KeyBytes :=
  out.dropLast ++ (out.getLast?.map fun lastByte => (lastByte &&& 0xe0) ||| ofNat size).toList

/-- `EncodedInDocDbFormat`. -/
def encodedInDocDbFormat : KeyBytes :=
  let out := t.encodedTime ++ fastEncodeDescendingSignedVarInt t.shiftedWriteId
  storeSize out.length out

/-! ## The size in the last byte -/

/-- The size is stored in the last byte. -/
lemma storeSize_append (size : ℕ) (x : KeyBytes) {y : KeyBytes} (hy : y ≠ []) :
    storeSize size (x ++ y) = x ++ storeSize size y := by
  rw [storeSize, storeSize, dropLast_append_of_ne_nil hy, getLast?_append_of_ne_nil _ hy,
    append_assoc]

lemma storeSize_concat (size : ℕ) (x : KeyBytes) (b : UInt8) :
    storeSize size (x ++ [b]) = x ++ [(b &&& 0xe0) ||| ofNat size] := by
  simp [storeSize]

/-- The last 5 bits of a number do not make it longer. -/
lemma length_add (k : ℕ) {d : ℕ} (hd : d < 32) :
    signedPositiveVarIntLength (32 * k + d) = signedPositiveVarIntLength (32 * k) := by
  rw [signedPositiveVarIntLength, signedPositiveVarIntLength, shiftRight_eq_div_pow,
    shiftRight_eq_div_pow]
  congr 1
  omega

/-- The bits of the size complement those of a number. -/
lemma storeSize_byte : ∀ j < 8, ∀ size < 32,
    (complement (ofNat (32 * j)) &&& 0xe0) ||| ofNat size = complement
    (ofNat (32 * j + (31 - size))) := by
  decide

/-- The bits for the size are free in the complement of a multiple of 32. -/
lemma storeSize_bigEndian (n k : ℕ) {size : ℕ} (hsize : size < 32) :
    storeSize size ((bigEndian (n + 1) (32 * k)).map complement) =
      (bigEndian (n + 1) (32 * k + (31 - size))).map complement := by
  have hdiv : (32 * k + (31 - size)) / 256 = 32 * k / 256 := by omega
  have hmod : ∀ d < 32, ofNat (32 * k + d) = ofNat (32 * (k % 8) + d) := by
    intro d hd
    apply UInt8.toNat_inj.1
    rw [UInt8.toNat_ofNat', UInt8.toNat_ofNat']
    omega
  have hbyte := storeSize_byte (k % 8) (mod_lt _ (by decide)) size hsize
  have hzero := hmod 0 (by decide)
  rw [add_zero, add_zero] at hzero
  rw [bigEndian_concat, bigEndian_concat, hdiv, map_append, map_append, map_singleton,
    map_singleton, storeSize_concat, hmod (31 - size) (by omega), ← hbyte, hzero]

/-- Storing the size amounts to adding it. -/
lemma storeSize_encode {k size : ℕ} (hk : 0 < k) (hk' : k < 2 ^ 36) (hsize : size < 32) :
    storeSize size (fastEncodeDescendingSignedVarInt (32 * k : ℕ)) =
      fastEncodeDescendingSignedVarInt (32 * k + (31 - size) : ℕ) := by
  obtain ⟨hpos, -⟩ := length_spec (show 32 * k < 2 ^ 64 by omega)
  have hlen := length_add k (show 31 - size < 32 by omega)
  rw [fastEncodeDescendingSignedVarInt_eq (by omega),
    fastEncodeDescendingSignedVarInt_eq (by omega), fastEncodeSignedVarInt_of_neg (by omega),
    fastEncodeSignedVarInt_of_neg (by omega),
    Int.natAbs_neg, Int.natAbs_neg, Int.natAbs_natCast, Int.natAbs_natCast,
    encodeMagnitude_eq (by omega), encodeMagnitude_eq (by omega)]
  change storeSize size
    ((unary (signedPositiveVarIntLength _) (signedPositiveVarIntLength _) _).map _) =
    (unary (signedPositiveVarIntLength _) (signedPositiveVarIntLength _) _).map _
  rw [hlen]
  obtain ⟨n, hn⟩ := Nat.exists_eq_add_of_le' hpos
  -- the bits of the length are multiples of 32
  have hbits : 256 ^ (n + 1) - 2 ^ (8 * (n + 1) - (n + 1)) =
      32 * (8 * 256 ^ n - 2 ^ (7 * n + 2)) := by
    rw [show 8 * (n + 1) - (n + 1) = 5 + (7 * n + 2) by omega, Nat.pow_add 2 5, Nat.pow_succ]
    omega
  rw [hn, unary, unary, hbits, ← add_assoc, ← mul_add]
  exact storeSize_bigEndian n _ hsize

/-! ## The order -/

lemma getPhysicalValueMicros_eq (t : HybridTime) : t.getPhysicalValueMicros = t / 2 ^ 12 :=
  shiftRight_eq_div_pow _ _

/-- The physical part fits a number of 64 bits. -/
lemma natAbs_physical_lt :
    ((t.hybridTime.getPhysicalValueMicros : ℤ) - kZNbaseMicrosecondEpoch).natAbs < 2 ^ 62 := by
  have hlt : t.hybridTime.getPhysicalValueMicros < 2 ^ 52 := by
    rw [getPhysicalValueMicros_eq]
    exact Nat.div_lt_of_lt_mul t.isUInt64
  rw [kZNbaseMicrosecondEpoch]
  omega

lemma getLogicalValue_eq (t : HybridTime) : t.getLogicalValue = t % 2 ^ 12 :=
  and_two_pow_sub_one_eq_mod _ _

lemma getLogicalValue_lt (t : HybridTime) : t.getLogicalValue < 2 ^ 12 := by
  rw [getLogicalValue_eq]
  exact mod_lt _ (by decide)

/-- A hybrid time is its two components. -/
lemma cmp_hybridTime (t t' : HybridTime) :
    cmp t t' = (cmp t.getPhysicalValueMicros t'.getPhysicalValueMicros).then
      (cmp t.getLogicalValue t'.getLogicalValue) := by
  rw [getPhysicalValueMicros_eq, getPhysicalValueMicros_eq, getLogicalValue_eq, getLogicalValue_eq]
  rcases lt_trichotomy (α := ℕ) (t / 2 ^ 12) (t' / 2 ^ 12) with h | h | h
  · rw [(cmp_eq_lt_iff _ _).2 h]
    exact (cmp_eq_lt_iff _ _).2 (Nat.lt_of_div_lt_div h)
  · rw [h, cmp_self_eq_eq]
    exact cmp_congr (β := ℕ) (by omega) (by omega)
  · rw [(cmp_eq_gt_iff _ _).2 h]
    exact (cmp_eq_gt_iff _ _).2 (Nat.lt_of_div_lt_div h)

/-- The times have at most 19 bytes. -/
lemma length_encodedTime_le : t.encodedTime.length ≤ 19 := by
  have hphys := length_fastEncodeDescendingSignedVarInt (natAbs_physical_lt t)
  have hlog := length_fastEncodeDescendingSignedVarInt
    (v := t.hybridTime.getLogicalValue) ((getLogicalValue_lt _).trans (by decide))
  have hgen : (fastEncodeDescendingSignedVarInt 0).length = 1 := by decide
  rw [encodedTime, length_append, length_append]
  omega

/-- Later times come first. -/
lemma agrees_encodedTime (t t' : DocHybridTime) :
    Agrees (cmp t.hybridTime t'.hybridTime).swap t.encodedTime t'.encodedTime := by
  have hlog : ∀ t : HybridTime, (t.getLogicalValue : ℤ).natAbs < 2 ^ 63 := fun t => by
    exact (getLogicalValue_lt t).trans (by decide)
  have hphys := agrees_fastEncodeDescendingSignedVarInt
    ((natAbs_physical_lt t).trans (by decide)) ((natAbs_physical_lt t').trans (by decide))
  have hlogi := agrees_fastEncodeDescendingSignedVarInt (hlog t.hybridTime) (hlog t'.hybridTime)
  have hmono : StrictMono fun p : ℕ => (p : ℤ) - kZNbaseMicrosecondEpoch := fun a b h => by
    simpa using h
  rw [hmono.cmp_map_eq] at hphys
  rw [strictMono_cast.cmp_map_eq] at hlogi
  rw [cmp_hybridTime, Ordering.swap_then]
  exact (hphys.append hlogi).append_left (fastEncodeDescendingSignedVarInt 0)

/-- The write id is shifted to make room for the size. -/
lemma shiftedWriteId_eq : t.shiftedWriteId = 32 * (t.writeId + 1) := by
  rw [shiftedWriteId, shiftLeft_eq, mul_comm]
  rfl

/-- The write id has at most 9 bytes. -/
lemma length_shiftedWriteId :
    1 ≤ (fastEncodeDescendingSignedVarInt t.shiftedWriteId).length ∧
      (fastEncodeDescendingSignedVarInt t.shiftedWriteId).length ≤ 9 := by
  have hw := t.isUInt32
  have hshift := shiftedWriteId_eq t
  exact length_fastEncodeDescendingSignedVarInt (by omega)

/-- The size of an encoding. -/
def size : ℕ :=
  (t.encodedTime ++ fastEncodeDescendingSignedVarInt t.shiftedWriteId).length

/-- The size fits five bits. -/
lemma size_bounds : 1 ≤ t.size ∧ t.size ≤ 30 := by
  have htime := length_encodedTime_le t
  have hid := length_shiftedWriteId t
  rw [size, length_append]
  omega

/-- The size only fills the bits that the shift left free. -/
lemma encodedInDocDbFormat_eq :
    t.encodedInDocDbFormat = t.encodedTime ++
      fastEncodeDescendingSignedVarInt (32 * (t.writeId + 1) + (31 - t.size) : ℕ) := by
  have hw := t.isUInt32
  have hsize := size_bounds t
  have hne : fastEncodeDescendingSignedVarInt t.shiftedWriteId ≠ [] :=
    length_pos_iff.1 (length_shiftedWriteId t).1
  change storeSize t.size _ = _
  rw [storeSize_append _ _ hne, shiftedWriteId_eq,
    storeSize_encode (succ_pos _) (by omega) (by omega)]

/-- Of two write ids the order decides, not the sizes. -/
lemma agrees_writeId {t t' : DocHybridTime} (heq : t.hybridTime = t'.hybridTime) :
    Agrees (cmp t.writeId t'.writeId).swap
      (fastEncodeDescendingSignedVarInt (32 * (t.writeId + 1) + (31 - t.size) : ℕ))
      (fastEncodeDescendingSignedVarInt (32 * (t'.writeId + 1) + (31 - t'.size) : ℕ)) := by
  have hw := t.isUInt32
  have hw' := t'.isUInt32
  have hcmp : cmp t.writeId t'.writeId =
      cmp (32 * (t.writeId + 1) + (31 - t.size)) (32 * (t'.writeId + 1) + (31 - t'.size)) := by
    have hsize : t.writeId = t'.writeId → t.size = t'.size := by
      cases t
      simp_all
    exact cmp_congr (by omega) (by omega)
  have hagr :=
    agrees_fastEncodeDescendingSignedVarInt (v := (32 * (t.writeId + 1) + (31 - t.size) : ℕ))
    (w := (32 * (t'.writeId + 1) + (31 - t'.size) : ℕ)) (by omega) (by omega)
  rwa [strictMono_cast.cmp_map_eq, ← hcmp] at hagr

/-- Later hybrid times come first, whatever follows. -/
lemma agrees_encodedInDocDbFormat (t t' : DocHybridTime) :
    Agrees (t.compareTo t').swap t.encodedInDocDbFormat t'.encodedInDocDbFormat := by
  rw [encodedInDocDbFormat_eq, encodedInDocDbFormat_eq, compareTo, Ordering.swap_then]
  have htime := agrees_encodedTime t t'
  by_cases heq : t.hybridTime = t'.hybridTime
  · exact htime.append (agrees_writeId heq)
  have hne : (cmp t.hybridTime t'.hybridTime).swap ≠ .eq := by
    rw [cmp_swap]
    exact fun h => heq ((cmp_eq_eq_iff _ _).1 h).symm
  have hthen : ∀ o, (cmp t.hybridTime t'.hybridTime).swap.then o =
      (cmp t.hybridTime t'.hybridTime).swap := fun o => by
    cases h : (cmp t.hybridTime t'.hybridTime).swap <;> first | rfl | exact (hne h).elim
  rw [hthen]
  exact htime.append_of_ne hne _ _

/-! ## Decoding -/

/-- `kMaxBytesPerEncodedHybridTime`. -/
def kMaxBytesPerEncodedHybridTime : ℕ := 30

/-- `kHybridTimeSizeMask`. -/
def kHybridTimeSizeMask : UInt8 := 31

inductive DecodeError
  | varInt (error : FastVarInt.DecodeError)
  /-- "Negative decoded_shifted_write_id: $0. Was trying to decode from: $1". -/
  | negativeWriteId (decoded : ℤ) (slice : KeyBytes)
  /-- "Wrong encoded DocHybridTime size at the end: $0. Expected: $1. Encoded timestamp: $2.". -/
  | wrongSize (sizeAtTheEnd bytesDecoded : ℕ) (encoded : KeyBytes)
  /-- "$0 extra bytes left when decoding a DocHybridTime $1". -/
  | extraBytes (size : ℕ) (encoded : KeyBytes)
  /-- `RuntimeError`, "Got an empty encoded key when looking for a DocHybridTime at the end.". -/
  | emptyKey
  /-- "Encoded HybridTime must be at least one byte, found $0.". -/
  | tooSmall (encodedHtSize : ℕ)
  /-- "Encoded HybridTime can't be more than $0 bytes, found $1.". -/
  | tooLarge (encodedHtSize : ℕ)
  /-- "Trying to extract an encoded HybridTime with a size of $0 bytes from an encoded key of length
  $1 bytes (must be strictly less -- one byte is used for value type).". -/
  | noValueType (encodedHtSize encodedKeySize : ℕ)
  deriving DecidableEq

/-- Decodes the number at `pos`, with the position after it. -/
def decodeVarInt (data : KeyBytes) (pos : ℕ) : Except DecodeError (ℤ × ℕ) :=
  match fastDecodeDescendingSignedVarInt (data.take pos) (data.drop pos) with
  | .error e => .error (.varInt e)
  | .ok (v, slice) => .ok (v, data.length - slice.length)

/-- A time with the decoded components, wrapped as its fields are. -/
def ofDecoded (micros logical shiftedWriteId : ℤ) : DocHybridTime where
  hybridTime := (UInt64.ofInt
    (micros * 2 ^ HybridTime.kBitsForLogicalComponent + (UInt32.ofInt logical).toNat)).toNat
  writeId := (UInt32.ofInt (shiftedWriteId / 2 ^ kNumBitsForHybridTimeSize - 1)).toNat
  isUInt64 := UInt64.toNat_lt _
  isUInt32 := UInt32.toNat_lt _

/-- `GetEncodedSize`. -/
def getEncodedSize (encodedKey : KeyBytes) : ℕ :=
  (encodedKey.getLastD 0 &&& kHybridTimeSizeMask).toNat

/-- `DecodeFrom` for the slice that starts at `start`, with the position where it ends. -/
def decodeFrom (data : KeyBytes) (start : ℕ) : Except DecodeError (DocHybridTime × ℕ) := do
  -- the generation number is ignored
  let (_, pos) ← decodeVarInt data start
  let (micros, pos) ← decodeVarInt data pos
  let (logical, pos) ← decodeVarInt data pos
  let (shifted, stop) ← decodeVarInt data pos
  if shifted < 0 then throw (.negativeWriteId shifted (data.drop pos))
  let encoded := (data.take stop).drop start
  if getEncodedSize encoded ≠ stop - start then
    throw (.wrongSize (getEncodedSize encoded) (stop - start) encoded)
  return (ofDecoded (kZNbaseMicrosecondEpoch + micros) logical shifted, stop)

/-- `CheckEncodedSize`. -/
def checkEncodedSize (encodedHtSize encodedKeySize : ℕ) : Except DecodeError Unit :=
  if encodedKeySize = 0 then .error .emptyKey
  else if encodedHtSize < 1 then .error (.tooSmall encodedHtSize)
  else if kMaxBytesPerEncodedHybridTime < encodedHtSize then .error (.tooLarge encodedHtSize)
  else if encodedKeySize ≤ encodedHtSize then .error (.noValueType encodedHtSize encodedKeySize)
  else .ok ()

/-- `DecodeFromEnd` for the key that is stored after `before`, with what is left of the key. -/
def decodeFromEnd (before key : KeyBytes) : Except DecodeError (DocHybridTime × KeyBytes) := do
  let size := getEncodedSize key
  checkEncodedSize size key.length
  -- `FullyDecodeFrom`
  let (t, stop) ← decodeFrom (before ++ key) (before.length + (key.length - size))
  if stop < before.length + key.length then
    throw (.extraBytes (before.length + key.length - stop) (key.drop (key.length - size)))
  return (t, key.take (key.length - size))

/-- A number is read, whatever comes before and after it. -/
lemma decodeVarInt_encode {data suffix : KeyBytes} {pos : ℕ} {v : ℤ} (hv : v.natAbs < 2 ^ 62)
    (h : data.drop pos = fastEncodeDescendingSignedVarInt v ++ suffix) :
    decodeVarInt data pos = .ok (v, pos + (fastEncodeDescendingSignedVarInt v).length) ∧
      data.drop (pos + (fastEncodeDescendingSignedVarInt v).length) = suffix := by
  have hlen := congrArg length h
  have hpos := length_fastEncodeDescendingSignedVarInt hv
  rw [length_drop, length_append] at hlen
  constructor
  · rw [decodeVarInt, h, fastDecodeDescendingSignedVarInt_encode _ suffix (by omega) (by omega)]
    dsimp only
    congr 2
    omega
  · rw [← drop_drop, h, drop_left]

/-- The last byte has the size in it. -/
lemma encodedInDocDbFormat_concat :
    ∃ x b, t.encodedInDocDbFormat = x ++ [(b &&& 0xe0) ||| ofNat t.size] ∧
      x.length + 1 = t.size := by
  have hne : t.encodedTime ++ fastEncodeDescendingSignedVarInt t.shiftedWriteId ≠ [] :=
    length_pos_iff.1 (size_bounds t).1
  obtain ⟨x, b, hout⟩ := (eq_nil_or_concat _).resolve_left hne
  refine ⟨x, b, ?_, ?_⟩
  · change storeSize t.size _ = _
    rw [hout, concat_eq_append, storeSize_concat]
  · rw [size, hout, length_concat]

/-- The size is the length of the encoding. -/
lemma length_encodedInDocDbFormat : t.encodedInDocDbFormat.length = t.size := by
  obtain ⟨x, b, heq, hlen⟩ := encodedInDocDbFormat_concat t
  rw [heq, length_append, length_singleton, hlen]

/-- The size can be read off the last byte. -/
lemma getEncodedSize_append (p : KeyBytes) :
    getEncodedSize (p ++ t.encodedInDocDbFormat) = t.encodedInDocDbFormat.length := by
  have hsize := size_bounds t
  rw [length_encodedInDocDbFormat]
  obtain ⟨x, b, heq, -⟩ := encodedInDocDbFormat_concat t
  rw [heq, ← append_assoc, getEncodedSize, getLastD_concat, UInt8.toNat_and, UInt8.toNat_or,
    UInt8.toNat_and, UInt8.toNat_ofNat', mod_eq_of_lt (by omega)]
  change ((b.toNat &&& 224) ||| t.size) &&& 2 ^ 5 - 1 = t.size
  rw [and_two_pow_sub_one_eq_mod, or_mod_two_pow, and_mod_two_pow, and_zero, zero_or,
    mod_eq_of_lt (by omega)]

/-- The wraps do nothing. -/
lemma ofDecoded_eq {d : ℕ} (hd : d < 32) :
    ofDecoded
      (kZNbaseMicrosecondEpoch + (t.hybridTime.getPhysicalValueMicros - kZNbaseMicrosecondEpoch))
      t.hybridTime.getLogicalValue (32 * (t.writeId + 1) + d : ℕ) = t := by
  obtain ⟨ht, w, hlt, hw⟩ := t
  have hlog := getLogicalValue_lt ht
  have hphys := getPhysicalValueMicros_eq ht
  have hmod := getLogicalValue_eq ht
  have hht :
      (kZNbaseMicrosecondEpoch + (ht.getPhysicalValueMicros - kZNbaseMicrosecondEpoch) : ℤ) *
          2 ^ 12 +
        (UInt32.ofInt ht.getLogicalValue).toNat = ht := by
    rw [UInt32.ofInt, UInt32.toNat_ofNat']
    omega
  have hid : (32 * (w + 1) + d : ℕ) / (2 : ℤ) ^ 5 - 1 = w := by omega
  rw [ofDecoded, mk.injEq]
  constructor
  · change (UInt64.ofInt (_ * 2 ^ 12 + _)).toNat = _
    rw [hht, UInt64.ofInt, UInt64.toNat_ofNat']
    have hfits := mod_eq_of_lt hlt
    omega
  · change (UInt32.ofInt ((32 * (w + 1) + d : ℕ) / (2 : ℤ) ^ 5 - 1)).toNat = _
    rw [hid, UInt32.ofInt, UInt32.toNat_ofNat']
    omega

/-- A time is decoded whatever is stored before and after it. -/
lemma decodeFrom_encode (before suffix : KeyBytes) :
    decodeFrom (before ++ (t.encodedInDocDbFormat ++ suffix)) before.length =
      .ok (t, before.length + t.encodedInDocDbFormat.length) := by
  have hw := t.isUInt32
  have hsize := getEncodedSize_append t []
  rw [nil_append] at hsize
  have hencoded : ((before ++ (t.encodedInDocDbFormat ++ suffix)).take
      (before.length + t.encodedInDocDbFormat.length)).drop before.length =
        t.encodedInDocDbFormat := by
    rw [← append_assoc, ← length_append, take_left, drop_left]
  have hdrop : (before ++ (t.encodedInDocDbFormat ++ suffix)).drop before.length =
      t.encodedInDocDbFormat ++ suffix := drop_left
  have heq := encodedInDocDbFormat_eq t
  have hstop := congrArg (fun x => (before ++ x).length) heq
  simp only [encodedTime, length_append, ← add_assoc] at hstop
  generalize before ++ (t.encodedInDocDbFormat ++ suffix) = data at *
  simp only [heq, encodedTime, append_assoc] at hdrop
  -- the four numbers, one after the other
  obtain ⟨hgen, hdrop⟩ := decodeVarInt_encode (by decide) hdrop
  obtain ⟨hmicros, hdrop⟩ := decodeVarInt_encode (natAbs_physical_lt t) hdrop
  obtain ⟨hlog, hdrop⟩ := decodeVarInt_encode ((getLogicalValue_lt _).trans (by decide)) hdrop
  obtain ⟨hid, -⟩ := decodeVarInt_encode (v := (_ : ℕ)) (by omega) hdrop
  simp only [decodeFrom, hgen, hmicros, hlog, hid, Except.ok_bind]
  rw [if_neg (by omega), ← hstop, hencoded, add_tsub_cancel_left, if_neg (not_not.2 hsize),
    ofDecoded_eq t (by omega)]
  rfl

/-- A time at the end of a key is decoded. -/
lemma decodeFromEnd_append {p : KeyBytes} (hp : p ≠ []) (before : KeyBytes) :
    decodeFromEnd before (p ++ t.encodedInDocDbFormat) = .ok (t, p) := by
  have hlen := length_encodedInDocDbFormat t
  have hsize := size_bounds t
  have hpos := length_pos_iff.2 hp
  have hdec := decodeFrom_encode t (before ++ p) []
  rw [append_nil, append_assoc, length_append] at hdec
  rw [decodeFromEnd, getEncodedSize_append, length_append, add_tsub_cancel_right, hdec,
    checkEncodedSize, if_neg (by omega), if_neg (by omega),
    if_neg (by rw [kMaxBytesPerEncodedHybridTime]; omega), if_neg (by omega)]
  simp only [Except.ok_bind]
  rw [if_neg (by omega), take_left]
  rfl

/-- A time is decoded from its encoding, wherever it is stored, and later times come first. Where
a key ends, the last byte tells its size. -/
theorem encodedInDocDbFormat_codec (t t' : DocHybridTime) (before suffix p : KeyBytes) :
    decodeFrom (before ++ (t.encodedInDocDbFormat ++ suffix)) before.length =
        .ok (t, before.length + t.encodedInDocDbFormat.length) ∧
      compareBytes t.encodedInDocDbFormat t'.encodedInDocDbFormat = (t.compareTo t').swap ∧
      (t.encodedInDocDbFormat <+: t'.encodedInDocDbFormat → t = t') ∧
      getEncodedSize (p ++ t.encodedInDocDbFormat) = t.encodedInDocDbFormat.length ∧
      (p ≠ [] → decodeFromEnd before (p ++ t.encodedInDocDbFormat) = .ok (t, p)) := by
  have horder := agrees_encodedInDocDbFormat t t'
  refine ⟨decodeFrom_encode t before suffix, horder.compareBytes_eq, ?_, getEncodedSize_append t p,
    fun hp => decodeFromEnd_append t hp before⟩
  intro hpre
  have hdec := decodeFrom_encode t [] []
  rw [(horder.eq_of_isPrefix hpre).2, decodeFrom_encode t' [] []] at hdec
  exact (Prod.mk.inj (Except.ok.inj hdec)).1.symm

/-- `kMin`. -/
def kMin : DocHybridTime := ⟨HybridTime.kMin, 0, Nat.two_pow_pos 64, Nat.two_pow_pos 32⟩

/-- `DecodeFromEnd` asks for a byte before the time. -/
theorem not_decodeFromEnd_encode :
    decodeFromEnd [] kMin.encodedInDocDbFormat = .error (.noValueType 11 11) := by
  decide

end DocHybridTime
