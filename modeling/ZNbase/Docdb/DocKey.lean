import ZNbase.Util.Uuid

/-!
# Encoded document keys

The encoding of `DocKey` and `SubDocKey`, and the parts of `docdb/doc_key.cc` that find the ends of
the components in an encoded key without decoding their values.

A key has a co-located table id (if any), a hash code with the hashed components (if any), the range
components and the subkeys. The hashed components and the range components each end with
`kGroupEnd`.

- A slice that is consumed is what is left of it; a position in a key is the number of bytes before
  it.
- `decodeKey` stands for `PrimitiveValue::DecodeKey` without an output: what is left after one
  value. Loops run over at most as many values as there are bytes, since every value has at least
  one.
-/

open ValueType

/-- What is wrong with a key. All but one of these are `Corruption`. -/
inductive Corruption
  /-- "Unexpected end of key when decoding document key". -/
  | unexpectedEndOfKey
  /-- "Expected a primitive value type, got $0". -/
  | expectedPrimitiveValueType (got : UInt8)
  /-- "Not enough bytes for cotable id: $0". -/
  | notEnoughBytesForCotableId
  /-- "Not enough bytes for pgtable id: $0". -/
  | notEnoughBytesForPgtableId
  /-- "Expected first value type to be primitive or GroupEnd, got $0 in $1". -/
  | expectedPrimitiveOrGroupEnd (got : UInt8)
  /-- "Could not decode a 16-bit hash component of a document key: only $0 bytes left". -/
  | notEnoughBytesForHash (left : ℕ)
  /-- "Range keys group end expected at $0 in $1". -/
  | rangeKeysGroupEndExpected (position : ℕ)
  /-- "An empty slice is not a valid encoded SubDocKey". -/
  | emptySlice
  /-- "Expected an encoded SubDocKey starting with a cotable id to be at least $0 bytes long". -/
  | tooShortForCotableId
  /-- "Expected an encoded SubDocKey starting with a pgtable id to be at least $0 bytes long". -/
  | tooShortForPgtableId
  /-- "Range key part missing, expected at least a kGroupEnd". -/
  | rangeKeyPartMissing
  /-- "Range key part is not terminated with a kGroupEnd". -/
  | rangeKeyPartNotTerminated
  /-- "Expected to reach the end of the key after decoding last valid subkey". -/
  | expectedEndOfKey
  /-- "Key starting with group end: $0". -/
  | keyStartingWithGroupEnd
  /-- "Unable to decode key prefixes from: $0". -/
  | unableToDecodeKeyPrefixes
  /-- "Found too few bytes in the end of a SubDocKey for a type-prefixed hybrid_time: $0". -/
  | tooFewBytesForHybridTime
  /-- `NotSupported`: "Not supported to have both require_hybrid_time and allow_special". -/
  | notSupported
  /-- An error of `PrimitiveValue::DecodeKey`. -/
  | primitiveValue
  /-- An error of `Uuid::DecodeFromComparableSlice`. -/
  | cotableId (error : Uuid.DecodeError)
  deriving DecidableEq

/-! ## Decoding -/

/-- `kUuidSize`. -/
def kUuidSize : ℕ := 16

/-- `DocKeyPart`. -/
inductive DocKeyPart
  | upToId
  | upToHashCode
  | upToHash
  | upToHashOrFirstRange
  | wholeDocKey
  deriving DecidableEq

namespace DocKey

/-- `HasPrimitiveValue`. It consumes a group end. -/
def hasPrimitiveValue (allowSpecial : Bool) : KeyBytes → Except Corruption (Bool × KeyBytes)
  | [] => .error .unexpectedEndOfKey
  | t :: slice =>
    if t = kGroupEnd then .ok (false, slice)
    else if isPrimitiveValueType t then .ok (true, t :: slice)
    else if allowSpecial && isSpecialValueType t then .ok (true, t :: slice)
    else .error (.expectedPrimitiveValueType t)

section

variable (decodeKey : KeyBytes → Except Corruption KeyBytes)

/-- `ConsumePrimitiveValueFromKey`, with whether there was a value. -/
def consumePrimitiveValueFromKey (slice : KeyBytes) : Except Corruption (Bool × KeyBytes) := do
  let (found, slice) ← hasPrimitiveValue false slice
  if found then
    let slice ← decodeKey slice
    return (true, slice)
  else return (false, slice)

/-- `ConsumePrimitiveValuesFromKey`, for at most as many values as are given first. -/
def consumePrimitiveValuesFromKey (allowSpecial : Bool) : ℕ → KeyBytes → Except Corruption KeyBytes
  | 0, slice => .ok slice
  | limit + 1, slice => do
    let (found, slice) ← hasPrimitiveValue allowSpecial slice
    if found then
      let slice ← decodeKey slice
      consumePrimitiveValuesFromKey allowSpecial limit slice
    else return slice

/-- `DecodeCotableId`, with whether there is one. -/
def decodeCotableId : KeyBytes → Except Corruption (Bool × KeyBytes)
  | [] => .ok (false, [])
  | t :: slice =>
    if t ≠ kTableId then .ok (false, t :: slice)
    else if slice.length < kUuidSize then .error .notEnoughBytesForCotableId
    else .ok (true, slice.drop kUuidSize)

/-- `DecodePgtableId`, with whether there is one. -/
def decodePgtableId : KeyBytes → Except Corruption (Bool × KeyBytes)
  | [] => .ok (false, [])
  | t :: slice =>
    if t ≠ kPgTableOid then .ok (false, t :: slice)
    else if slice.length < 4 then .error .notEnoughBytesForPgtableId
    else .ok (true, slice.drop 4)

/-- The table id of either kind. -/
def decodeTableId (slice : KeyBytes) : Except Corruption KeyBytes := do
  let (hasCotableId, slice) ← decodeCotableId slice
  if hasCotableId then return slice
  let (_, slice) ← decodePgtableId slice
  return slice

/-- `DecodeHashCode`, with whether there is one. -/
def decodeHashCode (allowSpecial : Bool) : KeyBytes → Except Corruption (Bool × KeyBytes)
  | [] => .ok (false, [])
  | t :: slice =>
    if t = kGroupEnd then .ok (false, t :: slice)
    else if !(isPrimitiveValueType t || allowSpecial && isSpecialValueType t) then
      .error (.expectedPrimitiveOrGroupEnd t)
    else if t ≠ kUInt16Hash then .ok (false, t :: slice)
    else if slice.length < 2 then .error (.notEnoughBytesForHash (slice.length + 1))
    else .ok (true, slice.drop 2)

/-- `MaxRangeComponentsToDecode`, for a slice with the range components. -/
def maxRangeComponentsToDecode (part : DocKeyPart) (hashPresent : Bool) (slice : KeyBytes) : ℕ :=
  match part with
  | .wholeDocKey => slice.length + 1
  | .upToHashOrFirstRange => if hashPresent then 0 else 1
  | .upToId | .upToHashCode | .upToHash => 0

/-- `DoDecode`: what is left after a part of the key. -/
def doDecode (part : DocKeyPart) (allowSpecial : Bool) (slice : KeyBytes) :
    Except Corruption KeyBytes := do
  let slice ← decodeTableId slice
  if part = .upToId then return slice
  let (hashPresent, slice) ← decodeHashCode allowSpecial slice
  if hashPresent && part = .upToHashCode then return slice
  let slice ←
    if hashPresent
      then consumePrimitiveValuesFromKey decodeKey allowSpecial (slice.length + 1) slice
    else .ok slice
  if slice = [] then return slice
  consumePrimitiveValuesFromKey decodeKey allowSpecial
    (maxRangeComponentsToDecode part hashPresent slice) slice

/-- `DocKey::EncodedSize`. -/
def encodedSize (slice : KeyBytes) (part : DocKeyPart) (allowSpecial : Bool) :
    Except Corruption ℕ := do
  let rest ← doDecode decodeKey part allowSpecial slice
  return slice.length - rest.length

end

end DocKey

namespace SubDocKey

section

variable (decodeKey : KeyBytes → Except Corruption KeyBytes)

/-- `DecodeSubkey`, with whether there was one. -/
def decodeSubkey : KeyBytes → Except Corruption (Bool × KeyBytes)
  | [] => .ok (false, [])
  | t :: slice =>
    if t ≠ kHybridTime then do
      let slice ← decodeKey (t :: slice)
      return (true, slice)
    else .ok (false, t :: slice)

/-- The positions in a key of `size` bytes at which `consume` ends, as long as it finds something;
with what is left. -/
def consumeWhile (consume : KeyBytes → Except Corruption (Bool × KeyBytes)) (size : ℕ) :
    ℕ → KeyBytes → Except Corruption (List ℕ × KeyBytes)
  | 0, slice => .ok ([], slice)
  | limit + 1, slice => do
    let (found, slice) ← consume slice
    if found then
      let (ends, rest) ← consumeWhile consume size limit slice
      return ((size - slice.length) :: ends, rest)
    else return ([], slice)

variable (key : KeyBytes)

/-- Counts the group end of the range components to the last position. -/
def addRangeGroupEnd (out : List ℕ) : Except Corruption (List ℕ) :=
  match out.getLast? with
  | none => .ok out
  | some last =>
    if key[last]? = some kGroupEnd then .ok (out.dropLast ++ [last + 1])
    else .error (.rangeKeysGroupEndExpected last)

/-- `DecodePrefixLengths`. -/
def decodePrefixLengths : Except Corruption (List ℕ) := do
  let hashedPartSize ← DocKey.encodedSize decodeKey key .upToHash false
  let out := if hashedPartSize ≠ 0 then [hashedPartSize] else []
  let slice := key.drop hashedPartSize
  let (rangeEnds, slice) ← consumeWhile (DocKey.consumePrimitiveValueFromKey decodeKey) key.length
    (slice.length + 1) slice
  let out ← addRangeGroupEnd key (out ++ rangeEnds)
  let (subkeyEnds, _) ← consumeWhile (decodeSubkey decodeKey) key.length (slice.length + 1) slice
  return out ++ subkeyEnds

end

end SubDocKey
