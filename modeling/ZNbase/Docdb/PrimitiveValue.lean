import ZNbase.Common.DocHybridTime
import ZNbase.Util.Decimal
import ZNbase.Util.Uuid

/-!
# Primitive values

`PrimitiveValue` of `docdb/primitive_value.cc`: the values that a key is made of, `AppendToKey` and
`CompareTo`.

- The types that are encoded in one way are one family: constants, numbers of a fixed width,
  strings, floating point numbers, decimals, integers of any size, UUIDs, column ids, hybrid times
  and sets of intent types. A frozen value is a list of values. Not modelled are the types that
  `AppendToKey` refuses.
- A number is an integer within the range of its type. Flipping the sign bit adds half of the range,
  and flipping all bits subtracts from the highest number.
- The version by which UUIDs are compared is a parameter, see `Uuid`.
-/

open ByteOrder ValueType

namespace PrimitiveValue

/-- The types without a value. -/
inductive ConstantType
  | kNullLow
  | kNullHigh
  | kCounter
  | kSSForward
  | kSSReverse
  | kFalse
  | kTrue
  | kFalseDescending
  | kTrueDescending
  | kLowest
  | kHighest
  | kMaxByte
  deriving DecidableEq

def ConstantType.valueType : ConstantType → UInt8
  | kNullLow => ValueType.kNullLow
  | kNullHigh => ValueType.kNullHigh
  | kCounter => ValueType.kCounter
  | kSSForward => ValueType.kSSForward
  | kSSReverse => ValueType.kSSReverse
  | kFalse => ValueType.kFalse
  | kTrue => ValueType.kTrue
  | kFalseDescending => ValueType.kFalseDescending
  | kTrueDescending => ValueType.kTrueDescending
  | kLowest => ValueType.kLowest
  | kHighest => ValueType.kHighest
  | kMaxByte => ValueType.kMaxByte

/-- The types that are encoded as a number of a fixed width. -/
inductive NumberType
  | kInt32
  | kInt32Descending
  | kInt64
  | kInt64Descending
  | kUInt32
  | kUInt32Descending
  | kUInt64
  | kUInt64Descending
  | kTimestamp
  | kTimestampDescending
  | kArrayIndex
  | kUInt16Hash
  | kPgTableOid
  | kWriteId
  deriving DecidableEq

namespace NumberType

def valueType : NumberType → UInt8
  | kInt32 => ValueType.kInt32
  | kInt32Descending => ValueType.kInt32Descending
  | kInt64 => ValueType.kInt64
  | kInt64Descending => ValueType.kInt64Descending
  | kUInt32 => ValueType.kUInt32
  | kUInt32Descending => ValueType.kUInt32Descending
  | kUInt64 => ValueType.kUInt64
  | kUInt64Descending => ValueType.kUInt64Descending
  | kTimestamp => ValueType.kTimestamp
  | kTimestampDescending => ValueType.kTimestampDescending
  | kArrayIndex => ValueType.kArrayIndex
  | kUInt16Hash => ValueType.kUInt16Hash
  | kPgTableOid => ValueType.kPgTableOid
  | kWriteId => ValueType.kWriteId

/-- The number of bytes. -/
def width : NumberType → ℕ
  | kUInt16Hash => 2
  | kInt32 | kInt32Descending | kUInt32 | kUInt32Descending | kPgTableOid | kWriteId => 4
  | kInt64 | kInt64Descending | kUInt64 | kUInt64Descending | kTimestamp | kTimestampDescending
  | kArrayIndex => 8

def isSigned : NumberType → Bool
  | kUInt32 | kUInt32Descending | kUInt64 | kUInt64Descending | kUInt16Hash | kPgTableOid => false
  | _ => true

def isDescending : NumberType → Bool
  | kInt32Descending | kInt64Descending | kUInt32Descending | kUInt64Descending
  | kTimestampDescending => true
  | _ => false

/-- What is added to a number to encode it. -/
def offset (t : NumberType) : ℤ := if t.isSigned then 256 ^ t.width / 2 else 0

/-- The numbers of a type. -/
def Value (t : NumberType) : Type := { v : ℤ // 0 ≤ v + t.offset ∧ v + t.offset < 256 ^ t.width }

end NumberType

/-- The types that are encoded as a string: of characters, or of the bytes of an address. -/
inductive StringType
  | kString
  | kStringDescending
  | kInetaddress
  | kInetaddressDescending
  deriving DecidableEq

namespace StringType

def valueType : StringType → UInt8
  | kString => ValueType.kString
  | kStringDescending => ValueType.kStringDescending
  | kInetaddress => ValueType.kInetaddress
  | kInetaddressDescending => ValueType.kInetaddressDescending

def isDescending : StringType → Bool
  | kStringDescending | kInetaddressDescending => true
  | _ => false

end StringType

/-- The floating point types. -/
inductive RealType
  | kFloat
  | kFloatDescending
  | kDouble
  | kDoubleDescending
  deriving DecidableEq

namespace RealType

def valueType : RealType → UInt8
  | kFloat => ValueType.kFloat
  | kFloatDescending => ValueType.kFloatDescending
  | kDouble => ValueType.kDouble
  | kDoubleDescending => ValueType.kDoubleDescending

def width : RealType → ℕ
  | kFloat | kFloatDescending => 4
  | kDouble | kDoubleDescending => 8

/-- The lowest bit of the exponent. -/
def fractionBits : RealType → ℕ
  | kFloat | kFloatDescending => 23
  | kDouble | kDoubleDescending => 52

def isDescending : RealType → Bool
  | kFloatDescending | kDoubleDescending => true
  | _ => false

variable (t : RealType)

/-- The bit patterns of a type. -/
def Value : Type := { bits : ℕ // bits < 256 ^ t.width }

/-- The sign bit. -/
def signMask : ℕ := 256 ^ t.width / 2

/-- The number that a bit pattern stands for, up to scaling by its exponent: the order of the
magnitudes is that of the patterns, and both zeros are 0. -/
def rank (x : t.Value) : ℤ :=
  if t.signMask ≤ x.1 then -((x.1 - t.signMask : ℕ) : ℤ) else x.1

/-- `IsNanFloat`, `IsNanDouble`: all bits of the exponent are set, and some bit of the fraction. -/
def isNan (x : t.Value) : Bool :=
  t.signMask - 2 ^ t.fractionBits < x.1 % t.signMask

/-- The comparison of the processor, by which a NaN is not less than anything. -/
def less (x y : t.Value) : Bool := !t.isNan x && !t.isNan y && t.rank x < t.rank y

end RealType

/-- The types of UUIDs. -/
inductive UuidType
  | kUuid
  | kUuidDescending
  | kTransactionApplyState
  | kExternalTransactionId
  | kTransactionId
  | kTableId
  deriving DecidableEq

def UuidType.valueType : UuidType → UInt8
  | kUuid => ValueType.kUuid
  | kUuidDescending => ValueType.kUuidDescending
  | kTransactionApplyState => ValueType.kTransactionApplyState
  | kExternalTransactionId => ValueType.kExternalTransactionId
  | kTransactionId => ValueType.kTransactionId
  | kTableId => ValueType.kTableId

/-- The types of column ids. -/
inductive ColumnType
  | kColumnId
  | kSystemColumnId
  deriving DecidableEq

def ColumnType.valueType : ColumnType → UInt8
  | kColumnId => ValueType.kColumnId
  | kSystemColumnId => ValueType.kSystemColumnId

/-- A column id, of 32 bits. -/
def ColumnId : Type := { id : ℤ // id.natAbs < 2 ^ 32 }

/-- The types of sets of intent types. -/
inductive IntentsType
  | kIntentTypeSet
  | kObsoleteIntentTypeSet
  | kObsoleteIntentType
  deriving DecidableEq

def IntentsType.valueType : IntentsType → UInt8
  | kIntentTypeSet => ValueType.kIntentTypeSet
  | kObsoleteIntentTypeSet => ValueType.kObsoleteIntentTypeSet
  | kObsoleteIntentType => ValueType.kObsoleteIntentType

/-- The types of values, by how they are encoded. -/
inductive Kind
  | constant (t : ConstantType)
  | number (t : NumberType)
  | string (t : StringType)
  | real (t : RealType)
  | decimal (isDescending : Bool)
  | varInt (isDescending : Bool)
  | uuid (t : UuidType)
  | column (t : ColumnType)
  | hybridTime
  | intents (t : IntentsType)
  | frozen (isDescending : Bool)
  deriving DecidableEq

namespace Kind

def valueType : Kind → UInt8
  | constant t => t.valueType
  | number t => t.valueType
  | string t => t.valueType
  | real t => t.valueType
  | decimal isDescending => if isDescending then kDecimalDescending else kDecimal
  | varInt isDescending => if isDescending then kVarIntDescending else kVarInt
  | uuid t => t.valueType
  | column t => t.valueType
  | hybridTime => kHybridTime
  | intents t => t.valueType
  | frozen isDescending => if isDescending then kFrozenDescending else kFrozen

def all : List Kind :=
  [.kNullLow, .kNullHigh, .kCounter, .kSSForward, .kSSReverse, .kFalse, .kTrue, .kFalseDescending,
    .kTrueDescending, .kLowest, .kHighest, .kMaxByte].map constant ++
  [.kInt32, .kInt32Descending, .kInt64, .kInt64Descending, .kUInt32, .kUInt32Descending, .kUInt64,
    .kUInt64Descending, .kTimestamp, .kTimestampDescending, .kArrayIndex, .kUInt16Hash,
    .kPgTableOid,
    .kWriteId].map number ++
  [.kString, .kStringDescending, .kInetaddress, .kInetaddressDescending].map string ++
  [.kFloat, .kFloatDescending, .kDouble, .kDoubleDescending].map real ++
  [.kUuid, .kUuidDescending, .kTransactionApplyState, .kExternalTransactionId, .kTransactionId,
    .kTableId].map uuid ++
  [.kColumnId, .kSystemColumnId].map column ++
  [.kIntentTypeSet, .kObsoleteIntentTypeSet, .kObsoleteIntentType].map intents ++
  [decimal, varInt, frozen].flatMap (fun kind => [kind false, kind true]) ++ [hybridTime]

/-- The kind of a value type. -/
def ofValueType (valueType : UInt8) : Option Kind := all.find? (·.valueType = valueType)

lemma ofValueType_valueType (k : Kind) : ofValueType k.valueType = some k := by
  cases k with
  | hybridTime => rfl
  | _ t => cases t <;> rfl

lemma valueType_injective : Function.Injective valueType := by
  intro a b h
  apply Option.some.inj
  rw [← ofValueType_valueType, h, ofValueType_valueType]

end Kind

/-- A value that is not a list. -/
inductive Scalar
  | constant (t : ConstantType)
  | number (t : NumberType) (v : t.Value)
  | string (t : StringType) (s : KeyBytes)
  | real (t : RealType) (x : t.Value)
  | decimal (isDescending : Bool) (d : Decimal)
  | varInt (isDescending : Bool) (v : ℤ)
  | uuid (t : UuidType) (u : Uuid)
  | column (t : ColumnType) (id : ColumnId)
  | hybridTime (t : DocHybridTime)
  | intents (t : IntentsType) (v : UInt16)

/-! ## Encoding -/

/-- `AppendEncodedStrToKey` with `TerminateEncodedKeyStr`. -/
def encodeStr (endOfString : UInt8) (s : KeyBytes) : KeyBytes :=
  s.flatMap (fun c => if c = 0 then [endOfString, endOfString ^^^ 1] else [endOfString ^^^ c]) ++
    [endOfString, endOfString]

/-- `AppendString`, `AppendDescendingString`. -/
def appendString (isDescending : Bool) (s : KeyBytes) : KeyBytes :=
  encodeStr (if isDescending then 0xff else 0) s

/-- What is wrong with an encoded string. -/
inductive StrCorruption
  /-- "Encoded string ends with only one \0x%02x". -/
  | endsWithOnlyOne
  /-- "Invalid sequence in encoded string". -/
  | invalidSequence (got : UInt8)

/-- `DecodeEncodedStr`, with what is left of the slice. Without an end mark the string is all of
it. -/
def decodeEncodedStr (endOfString : UInt8) : KeyBytes → Except StrCorruption (KeyBytes × KeyBytes)
  | [] => .ok ([], [])
  | b :: slice =>
    if b = endOfString then
      match slice with
      | [] => .error .endsWithOnlyOne
      | c :: slice =>
        if c = endOfString then .ok ([], slice)
        else if c = endOfString ^^^ 1 then
          (decodeEncodedStr endOfString slice).map fun r => (0 :: r.1, r.2)
        else .error (.invalidSequence c)
    else (decodeEncodedStr endOfString slice).map fun r => ((b ^^^ endOfString) :: r.1, r.2)

/-- `DecodeZeroEncodedStr`, `DecodeComplementZeroEncodedStr`. -/
def decodeString (isDescending : Bool) : KeyBytes → Except StrCorruption (KeyBytes × KeyBytes) :=
  decodeEncodedStr (if isDescending then 0xff else 0)

/-- `AppendDecimalDescending` and `AppendVarIntDescending`: all bits are flipped, except for 0. -/
def flipEncoded (encoded : KeyBytes) : KeyBytes :=
  match encoded with
  | b :: rest => if b = 128 then [b] else (b :: rest).map complement
  | [] => []

/-- `AppendInt32`, `AppendDescendingInt32` and the like. -/
def appendNumber (t : NumberType) (v : t.Value) : KeyBytes :=
  let n := (v.1 + t.offset).toNat
  bigEndian t.width (if t.isDescending then 256 ^ t.width - 1 - n else n)

/-- `AppendFloatToKey`, `AppendDoubleToKey`. -/
def appendReal (t : RealType) (x : t.Value) : KeyBytes :=
  let v := if t.signMask ≤ x.1 then 256 ^ t.width - 1 - x.1 else x.1 + t.signMask
  bigEndian t.width (if t.isDescending then 256 ^ t.width - 1 - v else v)

/-- `ObsoleteIntentTypeToSet`: the strong, and the weak snapshot write. -/
def obsoleteIntentTypeToSet (t : UInt8) : UInt8 := if t = 7 then 12 else if t = 6 then 3 else 0

/-- `ObsoleteIntentTypeSetToNew`: the two bits of an index change places. -/
def obsoleteIntentTypeSetToNew (types : UInt8) : UInt8 :=
  (types &&& (9 : UInt8)) ||| ((types &&& (2 : UInt8)) <<< 1) ||| ((types &&& (4 : UInt8)) >>> 1)

/-- `AppendIntentTypeSet`. A set has 4 bits, and the obsolete types are of 8 bits. -/
def appendIntentTypeSet (v : UInt16) : IntentsType → UInt8
  | .kIntentTypeSet => v.toUInt8 &&& 15
  | .kObsoleteIntentTypeSet => obsoleteIntentTypeSetToNew v.toUInt8
  | .kObsoleteIntentType => obsoleteIntentTypeToSet v.toUInt8

namespace Scalar

def kind : Scalar → Kind
  | constant t => .constant t
  | number t _ => .number t
  | string t _ => .string t
  | real t _ => .real t
  | decimal isDescending _ => .decimal isDescending
  | varInt isDescending _ => .varInt isDescending
  | uuid t _ => .uuid t
  | column t _ => .column t
  | hybridTime _ => .hybridTime
  | intents t _ => .intents t

def valueType (v : Scalar) : UInt8 := v.kind.valueType

/-- What follows the value type. -/
def payload : Scalar → KeyBytes
  | constant _ => []
  | number t v => appendNumber t v
  | string t s => appendString t.isDescending s
  | real t x => appendReal t x
  | decimal isDescending d =>
    if isDescending then flipEncoded d.encodeToComparable else d.encodeToComparable
  | varInt isDescending v =>
    if isDescending then flipEncoded (VarInt.encodeToComparable 0 v)
      else VarInt.encodeToComparable 0 v
  | uuid t u => appendString (t = .kUuidDescending) u.encodeToComparable
  | column _ id => FastVarInt.fastEncodeSignedVarInt id.1
  | hybridTime t => t.encodedInDocDbFormat
  | intents t v => [appendIntentTypeSet v t]

/-- `AppendToKey`. -/
def appendToKey (v : Scalar) : KeyBytes := v.valueType :: v.payload

/-- The order of two values of a type, the other way around for a descending type. -/
def directed (isDescending : Bool) (o : Ordering) : Ordering := if isDescending then o.swap else o

variable (version : Uuid → ℤ)

/-- The part of `CompareTo` after the types have been found equal. -/
def comparePayload : Scalar → Scalar → Ordering
  | number t v, number _ w => directed t.isDescending (cmp v.1 w.1)
  | string t s, string _ s' => directed t.isDescending (compareBytes s s')
  | real t x, real t' y =>
    if h : t' = t then
      let y : t.Value := h ▸ y
      directed t.isDescending (if t.less x y then .lt else if t.less y x then .gt else .eq)
    else .eq
  | decimal isDescending d, decimal _ d' =>
    directed isDescending (compareBytes d.encodeToComparable d'.encodeToComparable)
  | varInt isDescending v, varInt _ w =>
    directed isDescending
      (compareBytes (VarInt.encodeToComparable 0 v) (VarInt.encodeToComparable 0 w))
  -- all of the types but `kUuid` fall through to the descending one
  | uuid t u, uuid _ u' => directed (t ≠ .kUuid) (Uuid.compare version u u')
  | column _ id, column _ id' => cmp id.1 id'.1
  | hybridTime t, hybridTime t' => (t.compareTo t').swap
  | intents _ v, intents _ w => cmp v.toNat w.toNat
  | _, _ => .eq

/-- `CompareTo`. -/
def compareTo (v w : Scalar) : Ordering :=
  (cmp (toInt v.valueType) (toInt w.valueType)).then (comparePayload version v w)

end Scalar

end PrimitiveValue

/-- `PrimitiveValue`: a value, or a frozen list of values. -/
inductive PrimitiveValue
  | scalar (s : PrimitiveValue.Scalar)
  | frozen (isDescending : Bool) (elems : List PrimitiveValue)

namespace PrimitiveValue

def kind : PrimitiveValue → Kind
  | scalar s => s.kind
  | frozen isDescending _ => .frozen isDescending

def valueType (v : PrimitiveValue) : UInt8 := v.kind.valueType

mutual

/-- `AppendToKey`. -/
def appendToKey : PrimitiveValue → KeyBytes
  | scalar s => s.appendToKey
  | frozen isDescending elems =>
    (if isDescending then kFrozenDescending else kFrozen) ::
      (appendElems elems ++
        [if isDescending then kGroupEndDescending else kGroupEnd])

/-- The elements of a frozen value. -/
def appendElems : List PrimitiveValue → KeyBytes
  | [] => []
  | v :: vs => appendToKey v ++ appendElems vs

end

variable (version : Uuid → ℤ)

mutual

/-- `CompareTo`. -/
def compareTo : PrimitiveValue → PrimitiveValue → Ordering
  | scalar s, w =>
    match w with
    | scalar s' => s.compareTo version s'
    | frozen _ _ => cmp (toInt s.valueType) (toInt w.valueType)
  | frozen isDescending elems, w =>
    match w with
    | scalar s' =>
      cmp (toInt (frozen isDescending elems).valueType) (toInt s'.valueType)
    | frozen _ elems' =>
      (cmp (toInt (frozen isDescending elems).valueType) (toInt w.valueType)).then
        (compareElems isDescending elems elems')

/-- The elements of frozen values, then the numbers of them. -/
def compareElems (isDescending : Bool) : List PrimitiveValue → List PrimitiveValue → Ordering
  | [], [] => .eq
  | [], _ :: _ => Scalar.directed isDescending .lt
  | _ :: _, [] => Scalar.directed isDescending .gt
  | v :: vs, w :: ws => (compareTo v w).then (compareElems isDescending vs ws)

end

end PrimitiveValue
