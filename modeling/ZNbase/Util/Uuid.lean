import ZNbase.Docdb.ValueType
import ZNbase.Lib.OrderedEncoding

/-!
# UUIDs

`Uuid` of `util/uuid.h`: its order and its encoding in keys. Both start with the version, and a
version 1 UUID is then ordered by its timestamp.

The version is what `boost::uuids::uuid::version` gives, which is a parameter of the order. The
encoding has the four bits of the version as they are, so that the two agree where the version is
ordered as these bits are; with the version that RFC 4122 specifies, they agree for all UUIDs
(`Uuid.encodeToComparable_codec`).
-/

/-- `Uuid`. -/
structure Uuid where
  data : List UInt8
  size : data.length = 16
  deriving DecidableEq

namespace Uuid

open ByteOrder

/-- The nil UUID. -/
def nil : Uuid := ⟨List.replicate 16 0, rfl⟩

variable (u : Uuid)

/-- A byte of a UUID. -/
def byte (i : ℕ) : UInt8 := u.data.getD i 0

variable (b : UInt8)

/-- The version as RFC 4122 specifies it. -/
def rfcVersion : ℤ := ((u.byte 6).toNat / 16 : ℕ)

/-- The bytes at some positions. -/
def pick (positions : List ℕ) : KeyBytes := positions.map u.byte

/-- The positions of the bytes in the order they are compared, for a version. -/
def positions (version : ℤ) : List ℕ :=
  if version = 1 then [6, 7, 4, 5, 0, 1, 2, 3, 8, 9, 10, 11, 12, 13, 14, 15]
  else [0, 1, 2, 3, 4, 5, 6, 7, 8, 9, 10, 11, 12, 13, 14, 15]

/-- `operator<` with a version. The loops over the bytes stop at the first difference. -/
def lessBy (version : Uuid → ℤ) (u v : Uuid) : Bool :=
  if version u < version v then true
  else if version v < version u then false
  else compareBytes (u.pick (positions (version u))) (v.pick (positions (version u))) = .lt

/-- `CompareUsingLessThan`. -/
def compare (version : Uuid → ℤ) (u v : Uuid) : Ordering :=
  if lessBy version u v then .lt else if lessBy version v u then .gt else .eq

/-- `ToTimestampBytes`. -/
def toTimestampBytes : KeyBytes := u.pick [6, 7, 4, 5, 0, 1, 2, 3]

/-- The high bits of a byte. -/
def highHalf : UInt8 := (b &&& 0xf0) >>> 4

/-- The low bits of a byte before the high bits of the next one. -/
def shifted (a b : UInt8) : UInt8 := ((a &&& 0x0f) <<< 4) ||| highHalf b

/-- `ToVersionFirstBytes`. -/
def toVersionFirstBytes : KeyBytes :=
  [(u.byte 6 &&& 0xf0) ||| highHalf (u.byte 0), shifted (u.byte 0) (u.byte 1),
    shifted (u.byte 1) (u.byte 2), shifted (u.byte 2) (u.byte 3), shifted (u.byte 3) (u.byte 4),
    shifted (u.byte 4) (u.byte 5), ((u.byte 5 &&& 0x0f) <<< 4) ||| (u.byte 6 &&& 0x0f), u.byte 7]

/-- `EncodeToComparable`. Whether `version` is `version_time_based`, RFC 4122 has in byte 6. -/
def encodeToComparable : KeyBytes :=
  (if u.rfcVersion = 1 then u.toTimestampBytes else u.toVersionFirstBytes) ++
    u.pick [8, 9, 10, 11, 12, 13, 14, 15]

/-- `FromTimestampBytes` or `FromVersionFirstBytes` by the first byte, and the rest as it is. -/
def fromComparableBytes (bytes : KeyBytes) : Uuid :=
  let b := fun i => bytes.getD i 0
  let lsb := [b 8, b 9, b 10, b 11, b 12, b 13, b 14, b 15]
  if b 0 &&& 0xf0 = 0x10 then ⟨[b 4, b 5, b 6, b 7, b 2, b 3, b 0, b 1] ++ lsb, rfl⟩
  else
    ⟨[shifted (b 0) (b 1), shifted (b 1) (b 2), shifted (b 2) (b 3), shifted (b 3) (b 4),
      shifted (b 4) (b 5), shifted (b 5) (b 6), (b 0 &&& 0xf0) ||| (b 6 &&& 0x0f), b 7] ++ lsb, rfl⟩

/-- The statuses of `DecodeFromComparableSlice`, both `InvalidArgument`. -/
inductive DecodeError
  /-- "Size of slice: $0 is smaller than provided size_hint: $1" -/
  | smallerThanHint (size sizeHint : ℕ)
  /-- "Decode error: Size of slice is invalid: $0" -/
  | invalidSize (size : ℕ)
  deriving DecidableEq

/-- `DecodeFromComparableSlice`. -/
def decodeFromComparableSlice (slice : KeyBytes) (sizeHint : ℕ := 0) : Except DecodeError Uuid :=
  let expectedSize := if sizeHint = 0 then slice.length else sizeHint
  if slice.length < expectedSize then .error (.smallerThanHint slice.length expectedSize)
  else if expectedSize ≠ 16 then .error (.invalidSize expectedSize)
  else .ok (fromComparableBytes slice)

/-- An encoded UUID has 16 bytes. -/
@[simp] lemma length_encodeToComparable : u.encodeToComparable.length = 16 := by
  rw [encodeToComparable]
  split_ifs <;> rfl

/-! ## Half bytes -/

lemma toNat_highHalf : (highHalf b).toNat = b.toNat / 16 :=
  forall_byte (P := fun b => (highHalf b).toNat = b.toNat / 16) (by decide +kernel) b

lemma toNat_and_high : (b &&& 0xf0).toNat = 2 ^ 4 * (b.toNat / 16) :=
  forall_byte (P := fun b => (b &&& 0xf0).toNat = 2 ^ 4 * (b.toNat / 16)) (by decide +kernel) b

lemma toNat_and_low : (b &&& 0x0f).toNat = b.toNat % 16 :=
  forall_byte (P := fun b => (b &&& 0x0f).toNat = b.toNat % 16) (by decide +kernel) b

lemma toNat_low_shiftLeft : ((b &&& 0x0f) <<< 4).toNat = 2 ^ 4 * (b.toNat % 16) :=
  forall_byte (P := fun b => ((b &&& 0x0f) <<< 4).toNat = 2 ^ 4 * (b.toNat % 16))
    (by decide +kernel) b

/-- Two half bytes. -/
lemma toNat_or {a b : UInt8} {m n : ℕ} (ha : a.toNat = 2 ^ 4 * m) (hb : b.toNat = n)
    (hn : n < 16) : (a ||| b).toNat = 16 * m + n := by
  rw [UInt8.toNat_or, ha, hb, ← Nat.two_pow_add_eq_or_of_lt hn]

lemma toNat_shifted (a b : UInt8) : (shifted a b).toNat = 16 * (a.toNat % 16) + b.toNat / 16 :=
  toNat_or (toNat_low_shiftLeft a) (toNat_highHalf b) (by have := b.toNat_lt; omega)

/-! ## The order -/

/-- The first half of a UUID as a number. -/
def msb : ℕ := natOfBytes (u.pick [0, 1, 2, 3, 4, 5, 6, 7])

/-- The version comes first, and the bits before and after it follow. -/
lemma natOfBytes_toVersionFirstBytes :
    natOfBytes u.toVersionFirstBytes =
      u.msb / 2 ^ 12 % 16 * 2 ^ 60 + u.msb / 2 ^ 16 * 2 ^ 12 + u.msb % 2 ^ 12 := by
  have h0 := (u.byte 0).toNat_lt
  have h6 := (u.byte 6).toNat_lt
  have h7 := (u.byte 7).toNat_lt
  have hfirst : (u.byte 6 &&& 0xf0 ||| highHalf (u.byte 0)).toNat =
      16 * ((u.byte 6).toNat / 16) + (u.byte 0).toNat / 16 :=
    toNat_or (toNat_and_high _) (toNat_highHalf _) (by omega)
  have hsixth : ((u.byte 5 &&& 0x0f) <<< 4 ||| u.byte 6 &&& 0x0f).toNat =
      16 * ((u.byte 5).toNat % 16) + (u.byte 6).toNat % 16 :=
    toNat_or (toNat_low_shiftLeft _) (toNat_and_low _) (by omega)
  simp only [msb, pick, toVersionFirstBytes, natOfBytes, List.map_cons, List.map_nil,
    List.foldl_cons, List.foldl_nil, toNat_shifted]
  omega

/-- The version decides, then the bytes. -/
def compareBy (version : Uuid → ℤ) (u v : Uuid) : Ordering :=
  (cmp (version u) (version v)).then
    (compareBytes (u.pick (positions (version u))) (v.pick (positions (version u))))

/-- `operator<` is the first outcome of the comparison. -/
lemma lessBy_eq (version : Uuid → ℤ) (u v : Uuid) :
    lessBy version u v = decide (compareBy version u v = .lt) := by
  rw [lessBy, compareBy]
  rcases lt_trichotomy (version u) (version v) with h | h | h
  · rw [(cmp_eq_lt_iff _ _).2 h, if_pos h]
    rfl
  · rw [if_neg h.not_lt, if_neg h.not_gt, h, cmp_self_eq_eq]
    rfl
  · rw [(cmp_eq_gt_iff _ _).2 h, if_neg h.not_gt, if_pos h]
    rfl

/-- The comparison is turned around with the UUIDs. -/
lemma swap_compareBy (version : Uuid → ℤ) (u v : Uuid) :
    (compareBy version u v).swap = compareBy version v u := by
  rw [compareBy, compareBy, Ordering.swap_then, cmp_swap, swap_compareBytes]
  rcases eq_or_ne (version u) (version v) with h | h
  · rw [h]
  · -- The bytes are not compared then.
    have hne := mt (cmp_eq_eq_iff _ _).1 h.symm
    cases hcmp : cmp (version v) (version u) with
    | eq => exact absurd hcmp hne
    | _ => rfl

/-- Two calls of `operator<` are the comparison. -/
lemma compare_eq (version : Uuid → ℤ) (u v : Uuid) :
    compare version u v = compareBy version u v := by
  rw [compare, lessBy_eq, lessBy_eq, ← swap_compareBy _ u v]
  cases compareBy version u v <;> rfl

lemma compare_self (version : Uuid → ℤ) : compare version u u = .eq := by
  rw [compare_eq, compareBy, cmp_self_eq_eq, compareBytes_self]
  rfl

/-- The first byte starts with the version. -/
lemma encodeToComparable_head :
    ∃ b r, u.encodeToComparable = b :: r ∧ b.toNat / 16 = (u.byte 6).toNat / 16 := by
  rw [encodeToComparable]
  split_ifs
  · exact ⟨_, _, rfl, rfl⟩
  · refine ⟨_, _, rfl, ?_⟩
    have h0 := (u.byte 0).toNat_lt
    rw [toNat_or (toNat_and_high _) (toNat_highHalf _) (by omega)]
    omega

lemma length_toVersionFirstBytes (u v : Uuid) :
    u.toVersionFirstBytes.length = v.toVersionFirstBytes.length := rfl

/-- Without the version, the bits stay in their order. -/
lemma compareBytes_toVersionFirstBytes {u v : Uuid}
    (h : (u.byte 6).toNat / 16 = (v.byte 6).toNat / 16) :
    compareBytes u.toVersionFirstBytes v.toVersionFirstBytes =
      compareBytes (u.pick [0, 1, 2, 3, 4, 5, 6, 7]) (v.pick [0, 1, 2, 3, 4, 5, 6, 7]) := by
  have hnibble : ∀ u : Uuid, u.msb / 2 ^ 12 % 16 = (u.byte 6).toNat / 16 := by
    intro u
    have h6 := (u.byte 6).toNat_lt
    have h7 := (u.byte 7).toNat_lt
    simp only [msb, pick, natOfBytes, List.map_cons, List.map_nil, List.foldl_cons, List.foldl_nil]
    omega
  rw [compareBytes_eq_cmp (length_toVersionFirstBytes u v), compareBytes_eq_cmp (by rfl),
    natOfBytes_toVersionFirstBytes, natOfBytes_toVersionFirstBytes, hnibble]
  change _ = cmp u.msb v.msb
  have hu := hnibble u
  have hv := hnibble v
  exact cmp_congr (by omega) (by omega)

/-- The version is in the first bits of the encoding. -/
lemma agrees_of_rfcVersion_lt {u v : Uuid} (h : u.rfcVersion < v.rfcVersion) :
    Agrees .lt u.encodeToComparable v.encodeToComparable := by
  obtain ⟨b, r, hb, hbn⟩ := encodeToComparable_head u
  obtain ⟨c, q, hc, hcn⟩ := encodeToComparable_head v
  rw [rfcVersion, rfcVersion] at h
  rw [hb, hc]
  exact .head _ _ (UInt8.lt_iff_toNat_lt.2 (by omega))

/-- The encoding keeps the order with the version of RFC 4122. -/
lemma agrees_compareBy (u v : Uuid) :
    Agrees (compareBy rfcVersion u v) u.encodeToComparable v.encodeToComparable := by
  rw [compareBy]
  rcases lt_trichotomy u.rfcVersion v.rfcVersion with h | h | h
  · rw [(cmp_eq_lt_iff _ _).2 h]
    exact agrees_of_rfcVersion_lt h
  · have hcode := (prefixFree_length 16).agrees (length_encodeToComparable u)
      (length_encodeToComparable v)
    rw [h, cmp_self_eq_eq]
    suffices hbytes : compareBytes u.encodeToComparable v.encodeToComparable =
        compareBytes (u.pick (positions v.rfcVersion)) (v.pick (positions v.rfcVersion)) from
      hbytes ▸ hcode
    rw [encodeToComparable, encodeToComparable, positions]
    simp only [h]
    split_ifs
    · rfl
    · rw [rfcVersion, rfcVersion] at h
      rw [compareBytes_append_append (length_toVersionFirstBytes u v),
        compareBytes_toVersionFirstBytes (by omega), ← compareBytes_append_append (by rfl)]
      rfl
  · rw [(cmp_eq_gt_iff _ _).2 h]
    exact (agrees_of_rfcVersion_lt h).swap

lemma data_eq_pick : u.data = u.pick (List.range 16) :=
  List.ext_getElem u.size (by simp +contextual [pick, byte])

/-- Whatever the version is, only equal UUIDs are equal for the order. -/
lemma compare_eq_eq_iff (version : Uuid → ℤ) {u v : Uuid} : compare version u v = .eq ↔ u = v := by
  refine ⟨fun h => ?_, fun h => h ▸ compare_self u version⟩
  rw [compare_eq, compareBy, Ordering.then_eq_eq] at h
  have hlen : ∀ u : Uuid, (u.pick (positions (version v))).length = 16 := fun u => by
    rw [pick, List.length_map, positions]
    split_ifs <;> rfl
  have hmem : ∀ i < 16, i ∈ positions (version v) := by
    rw [positions]
    split_ifs <;> decide
  have hpick := (prefixFree_length 16).agrees (hlen u) (hlen v)
  rw [(cmp_eq_eq_iff _ _).1 h.1] at h
  rw [h.2] at hpick
  have hbyte := List.map_inj_left.1 (hpick : u.pick _ = v.pick _)
  have hdata : u.data = v.data := by
    rw [data_eq_pick u, data_eq_pick v]
    exact List.map_inj_left.2 fun i hi => hbyte i (hmem i (List.mem_range.1 hi))
  exact Uuid.mk.injEq .. ▸ hdata

/-! ## Decoding -/

lemma and_high_eq_iff : b &&& 0xf0 = 0x10 ↔ b.toNat / 16 = 1 :=
  forall_byte (P := fun b => b &&& 0xf0 = 0x10 ↔ b.toNat / 16 = 1) (by decide +kernel) b

/-- The bytes are put back to their places. -/
lemma fromComparableBytes_encodeToComparable : fromComparableBytes u.encodeToComparable = u := by
  suffices h : (fromComparableBytes u.encodeToComparable).data = u.data by
    exact Uuid.mk.injEq .. ▸ h
  -- The first byte tells which bytes were moved.
  obtain ⟨b, r, hb, hbn⟩ := encodeToComparable_head u
  have hbranch : b &&& 0xf0 = 0x10 ↔ u.rfcVersion = 1 := by
    rw [and_high_eq_iff, hbn, rfcVersion, Nat.cast_eq_one]
  have hb0 : b = u.encodeToComparable.getD 0 0 := by rw [hb]; rfl
  rw [hb0] at hbranch
  rw [fromComparableBytes, data_eq_pick u]
  simp only [hbranch]
  rw [encodeToComparable]
  split_ifs with h
  · rfl
  · have hlt : ∀ i, (u.byte i).toNat < 256 := fun i => (u.byte i).toNat_lt
    have h0 := hlt 0
    have h1 := hlt 1
    have h5 := hlt 5
    have hfirst := toNat_or (toNat_and_high (u.byte 6)) (toNat_highHalf (u.byte 0)) (by omega)
    have hlast := toNat_or (toNat_low_shiftLeft (u.byte 5)) (toNat_and_low (u.byte 6)) (by omega)
    have hhalves := toNat_or (toNat_and_high (u.byte 6 &&& 0xf0 ||| highHalf (u.byte 0)))
      (toNat_and_low ((u.byte 5 &&& 0x0f) <<< 4 ||| u.byte 6 &&& 0x0f)) (by omega)
    have hbyte : ∀ i j k,
        shifted (shifted (u.byte i) (u.byte j)) (shifted (u.byte j) (u.byte k)) = u.byte j := by
      intro i j k
      have hj := hlt j
      have hk := hlt k
      rw [← UInt8.toNat_inj, toNat_shifted, toNat_shifted, toNat_shifted]
      omega
    simp [toVersionFirstBytes, pick, List.range_succ, hbyte, ← UInt8.toNat_inj, toNat_shifted,
      hfirst, hlast, hhalves]
    omega

lemma decodeFromComparableSlice_encodeToComparable :
    decodeFromComparableSlice u.encodeToComparable = .ok u := by
  simp [decodeFromComparableSlice, fromComparableBytes_encodeToComparable]

/-- The encoding of a UUID is decoded to it and has the UUIDs in their order, which is a strict
total order. -/
theorem encodeToComparable_codec (u v w : Uuid) :
    decodeFromComparableSlice u.encodeToComparable = .ok u ∧
    (compareBytes u.encodeToComparable v.encodeToComparable = .lt ↔ lessBy rfcVersion u v) ∧
    ¬lessBy rfcVersion u u ∧
    (lessBy rfcVersion u v → lessBy rfcVersion v w → lessBy rfcVersion u w) ∧
    (lessBy rfcVersion u v ∨ u = v ∨ lessBy rfcVersion v u) := by
  have hcompare : ∀ u v,
      compareBytes u.encodeToComparable v.encodeToComparable = compareBy rfcVersion u v :=
    fun u v => (agrees_compareBy u v).compareBytes_eq
  have hless : ∀ u v, lessBy rfcVersion u v ↔
      natOfBytes u.encodeToComparable < natOfBytes v.encodeToComparable := by
    intro u v
    rw [lessBy_eq, decide_eq_true_iff, ← hcompare, compareBytes_eq_cmp (by simp), cmp_eq_lt_iff]
  refine ⟨decodeFromComparableSlice_encodeToComparable u, ?_, ?_, ?_, ?_⟩
  · rw [hcompare, lessBy_eq, decide_eq_true_iff]
  · rw [hless]
    exact lt_irrefl _
  · rw [hless, hless, hless]
    exact lt_trans
  · rw [hless, hless]
    rcases lt_trichotomy (natOfBytes u.encodeToComparable) (natOfBytes v.encodeToComparable)
      with h | h | h
    · exact .inl h
    · -- Equal encodings are decoded to one UUID.
      have heq := agrees_compareBy u v
      rw [← hcompare, compareBytes_eq_cmp (by simp), h, cmp_self_eq_eq] at heq
      rw [← fromComparableBytes_encodeToComparable u, ← fromComparableBytes_encodeToComparable v]
      exact .inr (.inl (congrArg _ heq))
    · exact .inr (.inr h)

end Uuid
