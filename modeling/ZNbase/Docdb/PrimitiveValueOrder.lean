import ZNbase.Docdb.PrimitiveValue
import Mathlib.Tactic.IntervalCases

/-!
# The order of primitive values in keys

`AppendToKey` keeps the order of `CompareTo` for the pairs of values of `PrimitiveValue.SameOrder`
(`PrimitiveValue.compareBytes_appendToKey`), for each family of types and for frozen values of any
depth. What it leaves out are the pairs in whose comparison one of these comes first:
- floating point numbers: a NaN is equal to everything, and -0 to 0, but their encodings differ;
- UUIDs whose order is not that of their versions in RFC 4122, see `Uuid`;
- two ids of transactions or tables, which are compared in descending order and encoded in ascending
  order;
- `kMaxByte`, the highest byte and the lowest enumerator;
- sets of intent types that are encoded as other sets;
- the end of a frozen value, if the element of the other one is of a type beyond the end marks.

For two scalars these are exactly the pairs whose order is not kept, and so they are for frozen
values, unless a floating point number or a set of intent types is inside: where only one of the two
orders tells such elements apart, what follows them can still make up for it.
-/

open List ByteOrder ValueType

namespace PrimitiveValue

/-! ## Numbers -/

variable {o : Ordering}

/-- Ascending encodings, or descending ones in the reversed order. -/
lemma agrees_directed {isDescending : Bool} {x y x' y' : KeyBytes} (h : Agrees o x y)
    (h' : Agrees o.swap x' y') :
    Agrees (Scalar.directed isDescending o) (if isDescending then x' else x)
      (if isDescending then y' else y) := by
  cases isDescending with
  | false => exact h
  | true => exact h'

/-- Subtracting from the highest number turns the order around. -/
lemma agrees_bigEndian_sub {w m n : ℕ} (hm : m < 256 ^ w) (hn : n < 256 ^ w) :
    Agrees (cmp m n).swap (bigEndian w (256 ^ w - 1 - m)) (bigEndian w (256 ^ w - 1 - n)) := by
  have hanti : StrictAntiOn (fun k => 256 ^ w - 1 - k) (Set.Iio (256 ^ w)) := by
    intro a _ b hb hab
    have hb' : b < 256 ^ w := hb
    change 256 ^ w - 1 - b < 256 ^ w - 1 - a
    omega
  rw [cmp_swap, ← hanti.cmp_map_eq hm hn]
  exact agrees_bigEndian (by omega) (by omega)

/-- Numbers of a fixed width, complemented for a descending order. -/
lemma agrees_bigEndian_directed {w m n : ℕ} (hm : m < 256 ^ w) (hn : n < 256 ^ w)
    (isDescending : Bool) :
    Agrees (Scalar.directed isDescending (cmp m n))
      (bigEndian w (if isDescending then 256 ^ w - 1 - m else m))
      (bigEndian w (if isDescending then 256 ^ w - 1 - n else n)) := by
  rw [apply_ite (bigEndian w), apply_ite (bigEndian w)]
  exact agrees_directed (agrees_bigEndian hm hn) (agrees_bigEndian_sub hm hn)

/-- Numbers and timestamps are encoded in their order, or in the reversed one. -/
lemma agrees_appendNumber (t : NumberType) (v w : t.Value) :
    Agrees (Scalar.directed t.isDescending (cmp v.1 w.1)) (appendNumber t v)
      (appendNumber t w) := by
  obtain ⟨hv, hv'⟩ := v.2
  obtain ⟨hw, hw'⟩ := w.2
  have hcmp : cmp v.1 w.1 = cmp (v.1 + t.offset).toNat (w.1 + t.offset).toNat := by
    have hmono : StrictMonoOn Int.toNat (Set.Ici 0) := fun a ha b hb hab =>
      (Int.toNat_lt_toNat (lt_of_le_of_lt ha hab)).2 hab
    rw [hmono.cmp_map_eq hv hw, cmp_add_right]
  rw [hcmp]
  exact agrees_bigEndian_directed ((Int.toNat_lt hv).2 (by push_cast; exact hv'))
    ((Int.toNat_lt hw).2 (by push_cast; exact hw')) _

/-! ## Floating point numbers -/

namespace RealType

variable {t : RealType}

lemma two_mul_signMask (t : RealType) : 2 * t.signMask = 256 ^ t.width := by
  cases t <;> rfl

/-- The number that is encoded. -/
def comparable (t : RealType) (x : t.Value) : ℕ :=
  if t.signMask ≤ x.1 then 256 ^ t.width - 1 - x.1 else x.1 + t.signMask

/-- The bits that are encoded fit the width of the number. -/
lemma comparable_lt (x : t.Value) : t.comparable x < 256 ^ t.width := by
  have hx := x.2
  have := two_mul_signMask t
  rw [comparable]
  split_ifs <;> omega

/-- Different bits are encoded as different ones. -/
lemma comparable_injective {x y : t.Value} (h : t.comparable x = t.comparable y) : x.1 = y.1 := by
  have hx := x.2
  have hy := y.2
  have := two_mul_signMask t
  rw [comparable, comparable] at h
  split_ifs at h <;> omega

/-- Without two zeros, the encoded numbers are in the order of the values. -/
lemma cmp_comparable {x y : t.Value} (h : ¬(t.rank x = 0 ∧ t.rank y = 0)) :
    cmp (t.rank x) (t.rank y) = cmp (t.comparable x) (t.comparable y) := by
  have hx := x.2
  have hy := y.2
  have hmask := two_mul_signMask t
  rw [rank, rank] at *
  rw [comparable, comparable]
  apply cmp_congr <;> split_ifs at * <;> omega

/-- `CompareTo` of floating point numbers. -/
def compare (t : RealType) (x y : t.Value) : Ordering :=
  if t.less x y then .lt else if t.less y x then .gt else .eq

/-- The comparison of the processor is that of the encoded numbers, but for a NaN and two zeros. -/
lemma compare_eq_iff (x y : t.Value) : t.compare x y = cmp (t.comparable x) (t.comparable y) ↔
    x.1 = y.1 ∨ (t.isNan x = false ∧ t.isNan y = false) ∧ ¬(t.rank x = 0 ∧ t.rank y = 0) := by
  have hself : ∀ x : t.Value, t.compare x x = .eq := fun x => by simp [compare, less]
  constructor
  · intro h
    by_contra hnot
    push Not at hnot
    have hne := mt (cmp_eq_eq_iff _ _).1 (mt comparable_injective hnot.1)
    refine hne (h ▸ ?_)
    -- the processor does not tell them apart
    by_cases hnan : t.isNan x = false ∧ t.isNan y = false
    · have hzero := hnot.2 hnan
      simp [compare, less, hzero.1, hzero.2]
    · rw [not_and_or, Bool.not_eq_false, Bool.not_eq_false] at hnan
      rcases hnan with hnan | hnan <;> simp [compare, less, hnan]
  · rintro (heq | ⟨hnan, hzero⟩)
    · obtain rfl : x = y := Subtype.ext heq
      rw [hself, cmp_self_eq_eq]
    · rw [← cmp_comparable hzero, cmp, cmpUsing, compare]
      simp only [less, hnan.1, hnan.2, Bool.not_false, Bool.true_and, decide_eq_true_eq]

end RealType

/-- The encoded numbers are in their order. -/
lemma agrees_appendReal {t : RealType} (x y : t.Value) :
    Agrees (Scalar.directed t.isDescending (cmp (t.comparable x) (t.comparable y)))
      (appendReal t x) (appendReal t y) :=
  agrees_bigEndian_directed (RealType.comparable_lt x) (RealType.comparable_lt y) _

/-! ## Strings -/

/-- A character other than the end mark. -/
def encodeChar (c : UInt8) : KeyBytes := if c = 0 then [0, 1] else [c]

/-- The encoding of a string is that of its characters, and two zeros. -/
lemma encodeStr_zero (s : KeyBytes) : encodeStr 0 s = s.flatMap encodeChar ++ [0, 0] := by
  simp only [encodeStr, UInt8.zero_xor]
  rfl

/-- In descending order all bytes are complemented. -/
lemma encodeStr_ff (s : KeyBytes) : encodeStr 0xff s = (encodeStr 0 s).map complement := by
  have hchar : ∀ c : UInt8,
      (if c = 0 then [(0xff : UInt8), (0xff : UInt8) ^^^ 1] else [(0xff : UInt8) ^^^ c]) =
      (encodeChar c).map complement :=
    forall_byte (by decide +kernel)
  rw [encodeStr_zero, map_append, map_flatMap, encodeStr]
  simp only [hchar]
  rfl

/-- A zero is escaped by bytes that are below every other character. -/
lemma agrees_encodeChar (a b : UInt8) : Agrees (cmp a b) (encodeChar a) (encodeChar b) := by
  have hbel : ∀ {a b : UInt8}, a < b → Below (encodeChar a) (encodeChar b) := by
    intro a b h
    have hb : b ≠ 0 := (UInt8.zero_le.trans_lt h).ne'
    rw [encodeChar, encodeChar]
    split_ifs with ha
    · exact .head _ _ (ha ▸ h)
    · exact .head _ _ h
  exact agrees_cmp hbel hbel

/-- The end mark comes before any character. -/
lemma end_below_encodeChar (c : UInt8) (x : KeyBytes) : Below [0, 0] (encodeChar c ++ x) := by
  rw [encodeChar]
  split_ifs with hc
  · exact .tail _ (.head _ _ (by decide))
  · exact .head _ _ (UInt8.pos_iff_ne_zero.2 hc)

/-- Strings are encoded in the order of their bytes. -/
lemma agrees_encodeStr (s s' : KeyBytes) :
    Agrees (compareBytes s s') (encodeStr 0 s) (encodeStr 0 s') := by
  rw [encodeStr_zero, encodeStr_zero]
  induction s generalizing s' with
  | nil =>
    cases s' with
    | nil => exact rfl
    | cons b s' =>
      rw [flatMap_cons, append_assoc]
      exact end_below_encodeChar b _
  | cons a s ih =>
    cases s' with
    | nil =>
      rw [flatMap_cons, append_assoc]
      exact end_below_encodeChar a _
    | cons b s' =>
      rw [flatMap_cons, flatMap_cons, append_assoc, append_assoc]
      exact (agrees_encodeChar a b).append (ih s')

/-- Strings in either direction. -/
lemma agrees_appendString (isDescending : Bool) (s s' : KeyBytes) :
    Agrees (Scalar.directed isDescending (compareBytes s s')) (appendString isDescending s)
      (appendString isDescending s') := by
  rw [appendString, appendString]
  cases isDescending with
  | false => exact agrees_encodeStr s s'
  | true =>
    rw [if_pos rfl, encodeStr_ff, encodeStr_ff]
    exact (agrees_encodeStr s s').map complement_strictAnti

/-- The decoder stops at the end of the string and gives it back. -/
lemma decodeEncodedStr_encodeStr (endOfString : UInt8) (s suffix : KeyBytes) :
    decodeEncodedStr endOfString (encodeStr endOfString s ++ suffix) = .ok (s, suffix) := by
  have hxor : ∀ c : UInt8, (endOfString ^^^ c) ^^^ endOfString = c := fun c => by
    rw [UInt8.xor_comm endOfString, UInt8.xor_assoc, UInt8.xor_self, UInt8.xor_zero]
  have hne : ∀ c : UInt8, c ≠ 0 → endOfString ^^^ c ≠ endOfString := fun c hc heq => by
    have hc' := hxor c
    rw [heq, UInt8.xor_self] at hc'
    exact hc hc'.symm
  rw [encodeStr]
  induction s with
  | nil => simp [decodeEncodedStr]
  | cons c s ih =>
    rw [flatMap_cons, append_assoc, append_assoc]
    rw [append_assoc] at ih
    by_cases hc : c = 0
    · rw [if_pos hc, hc, cons_append, singleton_append, decodeEncodedStr, if_pos rfl,
        if_neg (hne 1 (by decide)), if_pos rfl, ih, Except.map]
    · rw [if_neg hc, singleton_append, decodeEncodedStr.eq_def]
      dsimp only
      rw [if_neg (hne c hc), ih, Except.map, hxor]

/-- The codec of strings in keys, in both directions. -/
theorem appendString_codec (isDescending : Bool) (x y suffix : KeyBytes) :
    decodeString isDescending (appendString isDescending x ++ suffix) = .ok (x, suffix) ∧
      compareBytes (appendString isDescending x) (appendString isDescending y) =
        Scalar.directed isDescending (compareBytes x y) ∧
      (appendString isDescending x <+: appendString isDescending y → x = y) := by
  refine ⟨decodeEncodedStr_encodeStr _ x suffix,
    (agrees_appendString isDescending x y).compareBytes_eq, ?_⟩
  rintro ⟨z, hz⟩
  have hx := decodeEncodedStr_encodeStr (if isDescending then 0xff else 0) x z
  have hy := decodeEncodedStr_encodeStr (if isDescending then 0xff else 0) y []
  rw [append_nil] at hy
  change decodeEncodedStr _ (appendString isDescending x ++ z) = _ at hx
  rw [hz] at hx
  cases hx.symm.trans hy
  rfl

/-! ## Decimals and integers of any size -/

/-- The words that can be flipped: that of 0, and those that differ from it in the first byte, also
when they are flipped. -/
def Flippable (x : KeyBytes) : Prop := x = [128] ∨ ∃ b r, x = b :: r ∧ b ≠ 127 ∧ b ≠ 128

variable {b : UInt8}

/-- All but an encoded zero is complemented. -/
lemma flipEncoded_of_ne (h : b ≠ 128) (r : KeyBytes) :
    flipEncoded (b :: r) = (b :: r).map complement := if_neg h

/-- Flipping the bits turns the order to 0 around. -/
lemma agrees_complement (h : b ≠ 127) (h' : b ≠ 128) : cmp 128 (complement b) = (cmp 128 b).swap :=
  forall_byte (P := fun b => b ≠ 127 → b ≠ 128 → cmp 128 (complement b) = (cmp 128 b).swap)
    (by decide +kernel) b h h'

/-- A zero, which is not complemented, stays on the right side of a number that is. -/
lemma agrees_flip_zero {r : KeyBytes} (hb : b ≠ 127) (hb' : b ≠ 128)
    (h : Agrees o [128] (b :: r)) : Agrees o.swap [128] ((b :: r).map complement) := by
  have ho : o = cmp 128 b :=
    h.compareBytes_eq.symm.trans (agrees_cons_of_ne hb'.symm [] r).compareBytes_eq
  have hne : (128 : UInt8) ≠ complement b :=
    forall_byte (P := fun b => b ≠ 127 → 128 ≠ complement b) (by decide +kernel) b hb
  rw [ho, ← agrees_complement hb hb']
  exact agrees_cons_of_ne hne [] _

/-- Descending encodings are in the reversed order. -/
lemma agrees_flipEncoded {x y : KeyBytes} (hx : Flippable x) (hy : Flippable y)
    (h : Agrees o x y) : Agrees o.swap (flipEncoded x) (flipEncoded y) := by
  rcases hx with rfl | ⟨b, r, rfl, hb, hb'⟩
  · rcases hy with rfl | ⟨c, q, rfl, hc, hc'⟩
    · rw [← h.compareBytes_eq]
      exact rfl
    · rw [flipEncoded_of_ne hc']
      exact agrees_flip_zero hc hc' h
  · rw [flipEncoded_of_ne hb']
    rcases hy with rfl | ⟨c, q, rfl, hc, hc'⟩
    · have hflip := (agrees_flip_zero hb hb' h.swap).swap
      rw [Ordering.swap_swap] at hflip
      exact hflip
    · rw [flipEncoded_of_ne hc']
      exact h.map complement_strictAnti

/-- Decimals are encoded in a way that can be turned around. -/
lemma flippable_decimal (d : Decimal) : Flippable d.encodeToComparable := by
  obtain ⟨b, x, hb, ⟨-, hbn, rfl⟩ | ⟨-, -, hbn⟩ | ⟨-, -, hbn⟩⟩ := d.encodeToComparable_head
  · exact .inl (by rw [hb, UInt8.toNat_inj.1 (show b.toNat = (128 : UInt8).toNat from hbn)])
  all_goals
    refine .inr ⟨b, x, hb, ?_, ?_⟩
    all_goals
      rintro rfl
      revert hbn
      decide

/-- So are numbers of any size. -/
lemma flippable_varInt (v : ℤ) : Flippable (VarInt.encodeToComparable 0 v) := by
  rw [VarInt.encodeToComparable_zero, signed]
  by_cases hzero : v.natAbs = 0
  · exact .inl (by rw [hzero, if_neg (by omega)]; decide)
  -- the magnitude is above that of 0, which is the byte 128
  obtain ⟨b, x, hb, hbn⟩ : ∃ b x, VarInt.magnitude 0 v.natAbs = b :: x ∧ 128 < b := by
    have hbel : Below [128] (VarInt.magnitude 0 v.natAbs) :=
      VarInt.magnitude_below (r := 0) (by decide) (Nat.pos_of_ne_zero hzero)
    cases hm : VarInt.magnitude 0 v.natAbs with
    | nil => exact absurd hm hbel.ne_nil_right
    | cons b x =>
      rw [hm] at hbel
      exact ⟨b, x, rfl, hbel.head_lt⟩
  rw [hb]
  split_ifs
  · refine .inr ⟨complement b, x.map complement, rfl, ?_⟩
    exact forall_byte (P := fun b => 128 < b → complement b ≠ 127 ∧ complement b ≠ 128)
      (by decide +kernel) b hbn
  · refine .inr ⟨b, x, rfl, ?_⟩
    exact forall_byte (P := fun b => 128 < b → b ≠ 127 ∧ b ≠ 128) (by decide +kernel) b hbn

/-! ## Scalars -/

/-- All value types but `kMaxByte` are below 128. -/
lemma Kind.valueType_lt {k : Kind} (h : k ≠ .constant .kMaxByte) : k.valueType.toNat < 128 := by
  cases k with
  | hybridTime => decide
  | _ t => cases t <;> first | decide | exact absurd rfl h

/-- Below 128 the enumerators are in the order of the bytes. -/
lemma Kind.cmp_toInt {k k' : Kind} (h : k ≠ .constant .kMaxByte) (h' : k' ≠ .constant .kMaxByte) :
    cmp (toInt k.valueType) (toInt k'.valueType) = cmp k.valueType k'.valueType := by
  have htoInt : ∀ t : UInt8, t.toNat < 128 → toInt t = t.toNat :=
    forall_byte (by decide +kernel)
  have hmono : StrictMono UInt8.toNat := fun _ _ => UInt8.lt_iff_toNat_lt.1
  rw [htoInt _ (valueType_lt h), htoInt _ (valueType_lt h'), Nat.strictMono_cast.cmp_map_eq,
    hmono.cmp_map_eq]

/-- `kMaxByte` is the lowest enumerator and the highest byte. -/
lemma Kind.cmp_toInt_iff {k k' : Kind} (hne : k ≠ k') :
    cmp (toInt k.valueType) (toInt k'.valueType) = cmp k.valueType k'.valueType ↔
      k ≠ .constant .kMaxByte ∧ k' ≠ .constant .kMaxByte := by
  have hmax : ∀ t : UInt8, t.toNat < 128 →
      cmp (toInt kMaxByte) (toInt t) ≠ cmp kMaxByte t ∧
        cmp (toInt t) (toInt kMaxByte) ≠ cmp t kMaxByte :=
    forall_byte (by decide +kernel)
  refine ⟨fun h => ⟨?_, ?_⟩, fun h => cmp_toInt h.1 h.2⟩
  · rintro rfl
    exact (hmax _ (valueType_lt hne.symm)).1 h
  · rintro rfl
    exact (hmax _ (valueType_lt hne)).2 h

/-- Different types have different enumerators. -/
lemma Kind.toInt_valueType_ne {k k' : Kind} (h : k ≠ k') :
    toInt k.valueType ≠ toInt k'.valueType := by
  intro heq
  refine valueType_injective.ne h ?_
  simpa using congrArg Int8.toUInt8 (Int8.toInt_inj.1 heq)

namespace Scalar

variable (version : Uuid → ℤ)

/-- The values of one type that `CompareTo` puts in the order of their encodings. -/
def PayloadAgrees : Scalar → Scalar → Prop
  -- the same bits, or neither a NaN nor two zeros
  | real t x, real t' y =>
    x.1 = y.1 ∨ (t.isNan x = false ∧ t'.isNan y = false) ∧ ¬(t.rank x = 0 ∧ t'.rank y = 0)
  -- `operator<`, turned around for all but `kUuid`, against the version bits and the bytes, turned
  -- around for `kUuidDescending`
  | uuid t u, uuid _ u' =>
    directed (t ≠ .kUuid) (Uuid.compare version u u') =
      directed (t = .kUuidDescending) (Uuid.compareBy Uuid.rfcVersion u u')
  -- the values against the sets they are encoded as
  | intents t v, intents t' w =>
    cmp v.toNat w.toNat = cmp (appendIntentTypeSet v t) (appendIntentTypeSet w t')
  | _, _ => True

/-- The values that `CompareTo` puts in the order of their encodings. -/
def SameOrder (v w : Scalar) : Prop :=
  if v.kind = w.kind then v.PayloadAgrees version w
  else v.kind ≠ .constant .kMaxByte ∧ w.kind ≠ .constant .kMaxByte

/-- The values that are encoded in the same way only if `CompareTo` says that they are equal. -/
def IsExact : Scalar → Prop
  | real _ _ | intents _ _ => False
  | _ => True

lemma directed_eq_eq {isDescending : Bool} : directed isDescending o = .eq ↔ o = .eq := by
  cases isDescending <;> cases o <;> simp [directed]

lemma directed_inj {o' : Ordering} {isDescending : Bool} :
    directed isDescending o = directed isDescending o' ↔ o = o' := by
  cases isDescending <;> cases o <;> cases o' <;> simp [directed]

/-- What is to be known about values of one type: no encoding continues another, where `CompareTo`
is the order of the encodings, and that the same values are equal for both. -/
structure PayloadSpec (v w : Scalar) : Prop where
  agrees : Agrees (compareBytes v.payload w.payload) v.payload w.payload
  eq_iff : comparePayload version v w = compareBytes v.payload w.payload ↔ v.PayloadAgrees version w
  exact : v.IsExact → (comparePayload version v w = .eq ↔ compareBytes v.payload w.payload = .eq)

variable {version} in
/-- A type whose comparison is the order of its encodings for all values. -/
lemma PayloadSpec.of_agrees {v w : Scalar}
    (h : Agrees (comparePayload version v w) v.payload w.payload)
    (hsame : v.PayloadAgrees version w) : PayloadSpec version v w :=
  ⟨h.self, iff_of_true h.compareBytes_eq.symm hsame, fun _ => by rw [h.compareBytes_eq]⟩

/-- UUIDs, whose two orders can differ. -/
lemma payloadSpec_uuid (t : UuidType) (u u' : Uuid) :
    PayloadSpec version (.uuid t u) (.uuid t u') := by
  have hstring := agrees_appendString (t = .kUuidDescending) u.encodeToComparable
    u'.encodeToComparable
  have hbytes := hstring.compareBytes_eq
  rw [(Uuid.agrees_compareBy u u').compareBytes_eq] at hbytes
  refine ⟨hstring.self, by rw [payload, payload, hbytes]; exact Iff.rfl, fun _ => ?_⟩
  rw [payload, payload, hbytes, comparePayload, directed_eq_eq, directed_eq_eq,
    Uuid.compare_eq_eq_iff, ← Uuid.compare_eq, Uuid.compare_eq_eq_iff]

/-- Floating point numbers, for which a NaN and a negative zero are exceptions. -/
lemma payloadSpec_real (t : RealType) (x y : t.Value) :
    PayloadSpec version (.real t x) (.real t y) := by
  have hreal := agrees_appendReal x y
  refine ⟨hreal.self, ?_, fun h => h.elim⟩
  rw [payload, payload, hreal.compareBytes_eq, comparePayload, dif_pos rfl, directed_inj]
  exact RealType.compare_eq_iff x y

/-- Sets of intent types, which are encoded as other sets. -/
lemma payloadSpec_intents (t : IntentsType) (v w : UInt16) :
    PayloadSpec version (.intents t v) (.intents t w) := by
  have hset := agrees_singleton (appendIntentTypeSet v t) (appendIntentTypeSet w t)
  refine ⟨hset.self, ?_, fun h => h.elim⟩
  rw [payload, payload, hset.compareBytes_eq]
  exact Iff.rfl

/-- Values of one type. -/
lemma payloadSpec {v w : Scalar} (hkind : v.kind = w.kind) : PayloadSpec version v w := by
  cases v with
  | constant t =>
    cases w with
    | constant t' => exact .of_agrees rfl trivial
    | _ => cases hkind
  | number t v =>
    cases w with
    | number t' w =>
      obtain rfl := Kind.number.inj hkind
      exact .of_agrees (agrees_appendNumber t v w) trivial
    | _ => cases hkind
  | string t s =>
    cases w with
    | string t' s' =>
      obtain rfl := Kind.string.inj hkind
      exact .of_agrees (agrees_appendString t.isDescending s s') trivial
    | _ => cases hkind
  | real t x =>
    cases w with
    | real t' y =>
      obtain rfl := Kind.real.inj hkind
      exact payloadSpec_real version t x y
    | _ => cases hkind
  | decimal isDescending d =>
    cases w with
    | decimal isDescending' d' =>
      obtain rfl := Kind.decimal.inj hkind
      -- the bytes are flipped for a descending column
      have hagr := d.agrees_encodeToComparable d'
      exact .of_agrees (agrees_directed hagr
        (agrees_flipEncoded (flippable_decimal d) (flippable_decimal d') hagr)) trivial
    | _ => cases hkind
  | varInt isDescending v =>
    cases w with
    | varInt isDescending' w =>
      obtain rfl := Kind.varInt.inj hkind
      have hagr := (VarInt.agrees_encodeToComparable v w).self
      exact .of_agrees (agrees_directed hagr
        (agrees_flipEncoded (flippable_varInt v) (flippable_varInt w) hagr)) trivial
    | _ => cases hkind
  | uuid t u =>
    cases w with
    | uuid t' u' =>
      obtain rfl := Kind.uuid.inj hkind
      exact payloadSpec_uuid version t u u'
    | _ => cases hkind
  | column t id =>
    cases w with
    | column t' id' =>
      have hlt : ∀ id : ColumnId, id.1.natAbs < 2 ^ 64 := fun id => id.2.trans (by decide)
      exact .of_agrees (FastVarInt.agrees_fastEncodeSignedVarInt (hlt id) (hlt id')) trivial
    | _ => cases hkind
  | hybridTime t =>
    cases w with
    | hybridTime t' => exact .of_agrees (t.agrees_encodedInDocDbFormat t') trivial
    | _ => cases hkind
  | intents t v =>
    cases w with
    | intents t' w =>
      obtain rfl := Kind.intents.inj hkind
      exact payloadSpec_intents version t v w
    | _ => cases hkind

/-- The type decides, then the value. -/
lemma agrees_appendToKey (v w : Scalar) :
    Agrees ((cmp v.valueType w.valueType).then (compareBytes v.payload w.payload))
      v.appendToKey w.appendToKey :=
  agrees_cons fun h => (payloadSpec Uuid.rfcVersion (Kind.valueType_injective h)).agrees

/-- `AppendToKey` keeps the order of `CompareTo` exactly for these. -/
lemma compareTo_eq_iff (v w : Scalar) :
    compareTo version v w = compareBytes v.appendToKey w.appendToKey ↔ v.SameOrder version w := by
  rw [(agrees_appendToKey v w).compareBytes_eq, compareTo, SameOrder]
  by_cases hkind : v.kind = w.kind
  · rw [if_pos hkind, valueType, valueType, hkind, cmp_self_eq_eq, cmp_self_eq_eq]
    exact (payloadSpec version hkind).eq_iff
  · rw [if_neg hkind, valueType, valueType, cmp_then_of_ne (Kind.toInt_valueType_ne hkind),
      cmp_then_of_ne (Kind.valueType_injective.ne hkind)]
    exact Kind.cmp_toInt_iff hkind

/-- Exact values are equal if and only if their encodings are. -/
lemma compareTo_exact {v w : Scalar} (h : v.IsExact) :
    compareTo version v w = .eq ↔ compareBytes v.appendToKey w.appendToKey = .eq := by
  rw [(agrees_appendToKey v w).compareBytes_eq, compareTo, Ordering.then_eq_eq, Ordering.then_eq_eq,
    cmp_eq_eq_iff, cmp_eq_eq_iff]
  by_cases hkind : v.kind = w.kind
  · rw [valueType, valueType, hkind, (payloadSpec version hkind).exact h]
    simp
  · exact iff_of_false (fun heq => Kind.toInt_valueType_ne hkind heq.1)
      fun heq => Kind.valueType_injective.ne hkind heq.1

end Scalar

/-! ## Frozen values -/

/-- The mark at the end of a frozen value. -/
def groupEnd (isDescending : Bool) : UInt8 :=
  if isDescending then kGroupEndDescending else kGroupEnd

/-- An element of this type comes after the end of a frozen value, or before it in a descending
one. -/
def AfterEnd (isDescending : Bool) (valueType : UInt8) : Prop :=
  if isDescending then valueType < kGroupEndDescending else kGroupEnd < valueType

instance (isDescending : Bool) (valueType : UInt8) : Decidable (AfterEnd isDescending valueType) :=
  inferInstanceAs (Decidable (ite _ _ _))

variable (version : Uuid → ℤ)

mutual

/-- The values that `CompareTo` puts in the order of their encodings, or in whose comparison it does
not come to elements that it does not. -/
def SameOrder : PrimitiveValue → PrimitiveValue → Prop
  | scalar s, w =>
    match w with
    | scalar s' => s.SameOrder version s'
    | frozen _ _ => s.kind ≠ .constant .kMaxByte
  | frozen isDescending elems, w =>
    match w with
    | scalar s' => s'.kind ≠ .constant .kMaxByte
    | frozen isDescending' elems' =>
      isDescending = isDescending' →
        ComponentsAgree (AfterEnd isDescending) (AfterEnd isDescending) elems elems'

/-- The same for lists, up to the first components that `CompareTo` tells apart. What the type of
the next component has to be where one of the lists ends, is given for both. -/
def ComponentsAgree (after after' : UInt8 → Prop) :
    List PrimitiveValue → List PrimitiveValue → Prop
  | [], [] => True
  | [], w :: _ => after w.valueType
  | v :: _, [] => after' v.valueType
  | v :: vs, w :: ws =>
    SameOrder v w ∧ (v.compareTo version w = .eq → ComponentsAgree after after' vs ws)

end

mutual

/-- Whether a value and its elements are encoded in the same way only if they are equal. -/
def IsExact : PrimitiveValue → Prop
  | scalar s => s.IsExact
  | frozen _ elems => AllExact elems

def AllExact : List PrimitiveValue → Prop
  | [] => True
  | v :: vs => v.IsExact ∧ AllExact vs

end

/-- The elements of a frozen value. -/
def elems : PrimitiveValue → List PrimitiveValue
  | scalar _ => []
  | frozen _ elems => elems

lemma IsExact.allExact_elems {v : PrimitiveValue} (h : v.IsExact) : AllExact v.elems := by
  cases v with
  | scalar s => exact trivial
  | frozen isDescending elems => exact h

/-- An encoding starts with the type of the value. -/
lemma appendToKey_eq (v : PrimitiveValue) : ∃ rest, v.appendToKey = v.valueType :: rest := by
  cases v with
  | scalar s => exact ⟨_, by rw [appendToKey]; rfl⟩
  | frozen isDescending elems => exact ⟨_, by rw [appendToKey]; rfl⟩

/-- Values of two types. -/
lemma agrees_of_kind_ne {v w : PrimitiveValue} (hne : v.kind ≠ w.kind) :
    Agrees (cmp v.valueType w.valueType) v.appendToKey w.appendToKey := by
  obtain ⟨x, hx⟩ := appendToKey_eq v
  obtain ⟨y, hy⟩ := appendToKey_eq w
  rw [hx, hy]
  exact agrees_cons_of_ne (Kind.valueType_injective.ne hne) _ _

/-- Values of different types are compared by their enumerators. -/
lemma compareTo_of_kind_ne {v w : PrimitiveValue} (hne : v.kind ≠ w.kind) :
    compareTo version v w = cmp (toInt v.valueType) (toInt w.valueType) := by
  cases v with
  | scalar s =>
    cases w with
    | scalar s' => exact cmp_then_of_ne (Kind.toInt_valueType_ne hne) _
    | frozen d' elems' => rfl
  | frozen d elems =>
    cases w with
    | scalar s' => rfl
    | frozen d' elems' => exact cmp_then_of_ne (Kind.toInt_valueType_ne hne) _

lemma kind_ne_frozen (s : Scalar) (isDescending : Bool) : s.kind ≠ .frozen isDescending := by
  intro hkind
  cases s <;> cases hkind

/-- No type has the mark of an end as its byte. -/
lemma Kind.valueType_ne_groupEnd (k : Kind) (isDescending : Bool) :
    groupEnd isDescending ≠ k.valueType := by
  cases isDescending <;> cases k with
  | hybridTime => decide
  | _ t => cases t <;> decide

/-- The end of a frozen value and a further element. -/
lemma agrees_groupEnd (isDescending : Bool) (v : PrimitiveValue) (x : KeyBytes) :
    Agrees (cmp (groupEnd isDescending) v.valueType) [groupEnd isDescending]
      (v.appendToKey ++ x) := by
  obtain ⟨rest, hrest⟩ := appendToKey_eq v
  rw [hrest]
  exact agrees_cons_of_ne (v.kind.valueType_ne_groupEnd isDescending) _ _

lemma directed_gt (isDescending : Bool) :
    Scalar.directed isDescending .gt = (Scalar.directed isDescending .lt).swap := by
  cases isDescending <;> rfl

/-- A shorter list is less, in the order of the encodings, exactly if the next element of the longer
one comes after the end mark. -/
lemma directed_eq_cmp_groupEnd (isDescending : Bool) (valueType : UInt8) :
    Scalar.directed isDescending .lt = cmp (groupEnd isDescending) valueType ↔
      AfterEnd isDescending valueType := by
  rw [eq_comm]
  cases isDescending with
  | false => exact cmp_eq_lt_iff _ _
  | true => exact cmp_eq_gt_iff _ _

mutual

/-- No encoding continues another. -/
lemma agrees_appendToKey : (v w : PrimitiveValue) →
    Agrees (compareBytes v.appendToKey w.appendToKey) v.appendToKey w.appendToKey
  | scalar s, scalar s' => (Scalar.agrees_appendToKey s s').self
  | scalar s, frozen d elems =>
    (agrees_of_kind_ne (v := scalar s) (w := frozen d elems) (kind_ne_frozen s d)).self
  | frozen d elems, scalar s =>
    (agrees_of_kind_ne (v := frozen d elems) (w := scalar s) (kind_ne_frozen s d).symm).self
  | frozen d elems, frozen d' elems' => by
    by_cases hkind : d = d'
    · subst hkind
      rw [appendToKey, appendToKey]
      exact ((agrees_appendElems d elems elems').append_left [_]).self
    · exact (agrees_of_kind_ne (v := frozen d elems) (w := frozen d' elems')
        (mt Kind.frozen.inj hkind)).self

/-- No list of elements with its end mark continues another. -/
lemma agrees_appendElems (isDescending : Bool) : (vs ws : List PrimitiveValue) →
    Agrees (compareBytes (appendElems vs ++ [groupEnd isDescending])
        (appendElems ws ++ [groupEnd isDescending]))
      (appendElems vs ++ [groupEnd isDescending]) (appendElems ws ++ [groupEnd isDescending])
  | [], [] => Agrees.self (o := .eq) rfl
  | [], w :: ws => by
    rw [appendElems, appendElems, append_assoc]
    exact (agrees_groupEnd isDescending w _).self
  | v :: vs, [] => by
    rw [appendElems, appendElems, append_assoc]
    exact (agrees_groupEnd isDescending v _).swap.self
  | v :: vs, w :: ws => by
    rw [appendElems, appendElems, append_assoc, append_assoc]
    exact ((agrees_appendToKey v w).append (agrees_appendElems isDescending vs ws)).self

end

/-- The order of the encodings of elements is that of the first ones, then that of the rest. -/
lemma compareBytes_appendElems_cons (isDescending : Bool) (v w : PrimitiveValue)
    (vs ws : List PrimitiveValue) :
    compareBytes (appendElems (v :: vs) ++ [groupEnd isDescending])
        (appendElems (w :: ws) ++ [groupEnd isDescending]) =
      (compareBytes v.appendToKey w.appendToKey).then
        (compareBytes (appendElems vs ++ [groupEnd isDescending])
          (appendElems ws ++ [groupEnd isDescending])) := by
  rw [appendElems, appendElems, append_assoc, append_assoc,
    (agrees_appendToKey v w).compareBytes_append_append]

/-- Frozen values are compared by their elements and end marks. -/
lemma compareBytes_frozen (isDescending : Bool) (vs ws : List PrimitiveValue) :
    compareBytes (frozen isDescending vs).appendToKey (frozen isDescending ws).appendToKey =
      compareBytes (appendElems vs ++ [groupEnd isDescending])
        (appendElems ws ++ [groupEnd isDescending]) := by
  rw [appendToKey, appendToKey]
  exact ((agrees_appendElems isDescending vs ws).append_left [_]).compareBytes_eq

/-- `CompareTo` compares frozen values element by element. -/
lemma compareTo_frozen (isDescending : Bool) (vs ws : List PrimitiveValue) :
    compareTo version (frozen isDescending vs) (frozen isDescending ws) =
      compareElems version isDescending vs ws := by
  have hself : cmp (toInt (frozen isDescending vs).valueType)
      (toInt (frozen isDescending ws).valueType) = .eq := cmp_self_eq_eq _
  exact congrArg (Ordering.then · _) hself

/-- Values of two types are ordered by them, so that only `kMaxByte` matters. -/
lemma compareTo_eq_iff_of_kind_ne {v w : PrimitiveValue} (hne : v.kind ≠ w.kind) :
    compareTo version v w = compareBytes v.appendToKey w.appendToKey ↔
      v.kind ≠ .constant .kMaxByte ∧ w.kind ≠ .constant .kMaxByte := by
  rw [compareTo_of_kind_ne version hne, (agrees_of_kind_ne hne).compareBytes_eq]
  exact Kind.cmp_toInt_iff hne

/-- Of two different types none is `kMaxByte`. -/
lemma sameOrder_iff_of_kind_ne {v w : PrimitiveValue} (hne : v.kind ≠ w.kind) :
    SameOrder version v w ↔ v.kind ≠ .constant .kMaxByte ∧ w.kind ≠ .constant .kMaxByte := by
  cases v with
  | scalar s =>
    cases w with
    | scalar s' => exact (if_neg hne : s.SameOrder version s' = _) ▸ Iff.rfl
    | frozen d' elems' => rw [SameOrder]; simp [kind]
  | frozen d elems =>
    cases w with
    | scalar s' => rw [SameOrder]; simp [kind]
    | frozen d' elems' =>
      rw [SameOrder]
      exact iff_of_true (fun heq => absurd (congrArg Kind.frozen heq) hne) (by simp [kind])

/-- Values of different types are not equal, and neither are their encodings. -/
lemma compareTo_exact_of_kind_ne {v w : PrimitiveValue} (hne : v.kind ≠ w.kind) :
    compareTo version v w = .eq ↔ compareBytes v.appendToKey w.appendToKey = .eq := by
  rw [compareTo_of_kind_ne version hne, (agrees_of_kind_ne hne).compareBytes_eq, cmp_eq_eq_iff,
    cmp_eq_eq_iff]
  exact iff_of_false (Kind.toInt_valueType_ne hne) (Kind.valueType_injective.ne hne)

mutual

/-- Exact values of any depth are equal if and only if their encodings are. -/
lemma compareTo_exact : (v w : PrimitiveValue) → v.IsExact →
    (compareTo version v w = .eq ↔ compareBytes v.appendToKey w.appendToKey = .eq)
  | scalar s, scalar s', h => by
    rw [IsExact] at h
    exact Scalar.compareTo_exact version h
  | scalar s, frozen d elems, _ => compareTo_exact_of_kind_ne version (kind_ne_frozen s d)
  | frozen d elems, scalar s, _ => compareTo_exact_of_kind_ne version (kind_ne_frozen s d).symm
  | frozen d elems, frozen d' elems', h => by
    by_cases hkind : d = d'
    · subst hkind
      rw [compareTo_frozen, compareBytes_frozen]
      exact compareElems_exact d elems elems' h
    · exact compareTo_exact_of_kind_ne version (mt Kind.frozen.inj hkind)

/-- The same for the elements of frozen values. -/
lemma compareElems_exact (isDescending : Bool) : (vs ws : List PrimitiveValue) → AllExact vs →
    (compareElems version isDescending vs ws = .eq ↔
      compareBytes (appendElems vs ++ [groupEnd isDescending])
        (appendElems ws ++ [groupEnd isDescending]) = .eq)
  | [], [], _ => by simp [compareElems, compareBytes_self]
  | [], w :: ws, _ => by
    rw [compareElems, appendElems, appendElems, append_assoc, nil_append,
      (agrees_groupEnd isDescending w _).compareBytes_eq, Scalar.directed_eq_eq, cmp_eq_eq_iff]
    exact iff_of_false (by decide) (w.kind.valueType_ne_groupEnd isDescending)
  | v :: vs, [], _ => by
    rw [compareElems, appendElems, appendElems, append_assoc, nil_append,
      (agrees_groupEnd isDescending v _).swap.compareBytes_eq, Scalar.directed_eq_eq, cmp_swap,
      cmp_eq_eq_iff]
    exact iff_of_false (by decide) (v.kind.valueType_ne_groupEnd isDescending).symm
  | v :: vs, w :: ws, h => by
    rw [compareElems, compareBytes_appendElems_cons, Ordering.then_eq_eq, Ordering.then_eq_eq,
      compareTo_exact v w h.1, compareElems_exact isDescending vs ws h.2]

end

mutual

/-- `AppendToKey` keeps the order of `CompareTo` for these, and no others if the elements of frozen
values are exact. -/
lemma compareTo_spec : (v w : PrimitiveValue) →
    (SameOrder version v w → compareTo version v w = compareBytes v.appendToKey w.appendToKey) ∧
    (AllExact v.elems → compareTo version v w = compareBytes v.appendToKey w.appendToKey →
      SameOrder version v w)
  | scalar s, scalar s' => by
    have hiff := Scalar.compareTo_eq_iff version s s'
    exact ⟨hiff.2, fun _ => hiff.1⟩
  | scalar s, frozen d elems => by
    have hne : (scalar s).kind ≠ (frozen d elems).kind := kind_ne_frozen s d
    rw [sameOrder_iff_of_kind_ne version hne, ← compareTo_eq_iff_of_kind_ne version hne]
    exact ⟨id, fun _ => id⟩
  | frozen d elems, scalar s => by
    have hne : (frozen d elems).kind ≠ (scalar s).kind := (kind_ne_frozen s d).symm
    rw [sameOrder_iff_of_kind_ne version hne, ← compareTo_eq_iff_of_kind_ne version hne]
    exact ⟨id, fun _ => id⟩
  | frozen d elems, frozen d' elems' => by
    by_cases hkind : d = d'
    · subst hkind
      obtain ⟨henough, hneeded⟩ := compareElems_spec d elems elems'
      rw [compareTo_frozen, compareBytes_frozen, SameOrder]
      exact ⟨fun h => henough (h rfl), fun hexact h _ => hneeded hexact h⟩
    · have hne : (frozen d elems).kind ≠ (frozen d' elems').kind := mt Kind.frozen.inj hkind
      rw [sameOrder_iff_of_kind_ne version hne, ← compareTo_eq_iff_of_kind_ne version hne]
      exact ⟨id, fun _ => id⟩

/-- The condition on the elements is enough, and is needed if those of the first list are exact. -/
lemma compareElems_spec (isDescending : Bool) : (vs ws : List PrimitiveValue) →
    (ComponentsAgree version (AfterEnd isDescending) (AfterEnd isDescending) vs ws →
      compareElems version isDescending vs ws =
        compareBytes (appendElems vs ++ [groupEnd isDescending])
          (appendElems ws ++ [groupEnd isDescending])) ∧
    (AllExact vs → compareElems version isDescending vs ws =
        compareBytes (appendElems vs ++ [groupEnd isDescending])
          (appendElems ws ++ [groupEnd isDescending]) →
      ComponentsAgree version (AfterEnd isDescending) (AfterEnd isDescending) vs ws)
  | [], [] => by simp [compareElems, compareBytes_self, ComponentsAgree]
  | [], w :: ws => by
    rw [compareElems, appendElems, appendElems, append_assoc, nil_append,
      (agrees_groupEnd isDescending w _).compareBytes_eq, directed_eq_cmp_groupEnd, ComponentsAgree]
    exact ⟨id, fun _ => id⟩
  | v :: vs, [] => by
    rw [compareElems, appendElems, appendElems, append_assoc, nil_append,
      (agrees_groupEnd isDescending v _).swap.compareBytes_eq, directed_gt, Ordering.swap_inj,
      directed_eq_cmp_groupEnd, ComponentsAgree]
    exact ⟨id, fun _ => id⟩
  | v :: vs, w :: ws => by
    obtain ⟨henough, hneeded⟩ := compareTo_spec v w
    -- the rest is compared if the first elements are equal
    obtain ⟨henough', hneeded'⟩ := compareElems_spec isDescending vs ws
    rw [compareElems, compareBytes_appendElems_cons, ComponentsAgree]
    refine ⟨fun h => then_eq_then (henough h.1) fun heq => henough' (h.2 heq), fun hexact h => ?_⟩
    obtain ⟨hfirst, hrest⟩ := of_then_eq_then (compareTo_exact version v w hexact.1) h
    exact ⟨hneeded hexact.1.allExact_elems hfirst, fun heq => hneeded' hexact.2 (hrest heq)⟩

end

end PrimitiveValue
