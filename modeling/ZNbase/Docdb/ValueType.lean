import Mathlib.Data.List.DropRight

/-!
# Value types

The value types of `docdb/value_type.h` that decide how an encoded key is read. A value type is the
first byte of what it is the type of.
-/

/-- The bytes of a key, or of a part of it. -/
abbrev KeyBytes := List UInt8

namespace ValueType

def kLowest : UInt8 := 0

def kTransactionApplyState : UInt8 := 7

def kExternalTransactionId : UInt8 := 8

def kIntentTypeSet : UInt8 := 13

def kObsoleteIntentTypeSet : UInt8 := 15

def kObsoleteIntentType : UInt8 := 20

def kGreaterThanIntentType : UInt8 := 21

/-- Ends the hashed and the range components of a key. -/
def kGroupEnd : UInt8 := 33

def kHybridTime : UInt8 := 35

def kNullLow : UInt8 := 36

def kCounter : UInt8 := 37

def kSSForward : UInt8 := 38

def kSSReverse : UInt8 := 39

def kRedisSet : UInt8 := 40

def kRedisList : UInt8 := 41

def kRedisTS : UInt8 := 43

def kRedisSortedSet : UInt8 := 44

def kInetaddress : UInt8 := 45

def kInetaddressDescending : UInt8 := 46

def kPgTableOid : UInt8 := 48

def kFrozen : UInt8 := 60

def kFrozenDescending : UInt8 := 62

def kArray : UInt8 := 65

def kVarInt : UInt8 := 66

def kFloat : UInt8 := 67

def kDouble : UInt8 := 68

def kDecimal : UInt8 := 69

def kFalse : UInt8 := 70

def kUInt16Hash : UInt8 := 71

def kInt32 : UInt8 := 72

def kInt64 : UInt8 := 73

def kSystemColumnId : UInt8 := 74

def kColumnId : UInt8 := 75

def kDoubleDescending : UInt8 := 76

def kFloatDescending : UInt8 := 77

def kUInt32 : UInt8 := 79

def kString : UInt8 := 83

def kTrue : UInt8 := 84

def kUInt64 : UInt8 := 85

def kTombstone : UInt8 := 88

def kArrayIndex : UInt8 := 91

def kUuid : UInt8 := 95

def kUuidDescending : UInt8 := 96

def kStringDescending : UInt8 := 97

def kInt64Descending : UInt8 := 98

def kTimestampDescending : UInt8 := 99

def kDecimalDescending : UInt8 := 100

def kInt32Descending : UInt8 := 101

def kVarIntDescending : UInt8 := 102

def kUInt32Descending : UInt8 := 103

def kTrueDescending : UInt8 := 104

def kFalseDescending : UInt8 := 105

def kUInt64Descending : UInt8 := 106

def kTimestamp : UInt8 := 115

def kWriteId : UInt8 := 119

def kTransactionId : UInt8 := 120

def kTableId : UInt8 := 121

def kObject : UInt8 := 123

def kNullHigh : UInt8 := 124

/-- Ends a frozen value in a descending column. -/
def kGroupEndDescending : UInt8 := 125

def kHighest : UInt8 := 126

def kMaxByte : UInt8 := 255

/-- The enumerator. It is given as a character, so that `kMaxByte` is -1. -/
def toInt (t : UInt8) : ℤ := t.toInt8.toInt

/-- `IsObjectType`. -/
def isObjectType (t : UInt8) : Bool :=
  t == kRedisTS || t == kObject || t == kRedisSet || t == kRedisSortedSet || t == kSSForward ||
    t == kSSReverse || t == kRedisList

/-- `IsCollectionType`. -/
def isCollectionType (t : UInt8) : Bool := isObjectType t || t == kArray

/-- `IsPrimitiveValueType`. -/
def isPrimitiveValueType (t : UInt8) : Bool :=
  (kNullLow ≤ t && t ≤ kNullHigh && !isCollectionType t && t != kTombstone) ||
    t == kTransactionApplyState || t == kExternalTransactionId

/-- `IsSpecialValueType`. -/
def isSpecialValueType (t : UInt8) : Bool :=
  t == kLowest || t == kHighest || t == kMaxByte || t == kIntentTypeSet ||
    t == kGreaterThanIntentType

lemma ne_kGroupEnd_of_isPrimitiveValueType {t : UInt8} (h : isPrimitiveValueType t = true) :
    t ≠ kGroupEnd := by
  rintro rfl
  exact absurd h (by decide)

lemma ne_kHybridTime_of_isPrimitiveValueType {t : UInt8} (h : isPrimitiveValueType t = true) :
    t ≠ kHybridTime := by
  rintro rfl
  exact absurd h (by decide)

end ValueType
