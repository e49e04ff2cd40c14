import ZNbase.Docdb.ValueType
import ZNbase.Lib.Bytes
import Mathlib.Data.List.Sort

/-!
# Partitions

`Partition` and `PartitionSchema` of `common/partition.cc`: how the key space of a table is cut into
the partitions of its tablets.

- There are three ways to create partitions: from a number of tablets (`CreateHashPartitions`), from
  the split points of the schema (`CreateRangePartitions`), and from hash buckets and split rows, as
  it is left from Kudu.
- A partition key is a byte string. The empty one stands for no bound, at the start as well as at
  the end.
- How a row is encoded and hashed (`EncodeColumns`, `BucketForRow`) is not modelled: a split row is
  given with the encoding of its range columns, a row with its buckets, its hash and the encoding of
  its range columns. None of these can fail.
-/

/-- `Partition`. -/
structure PartitionSchema.Partition where
  hashBuckets : List ℕ := []
  partitionKeyStart : KeyBytes := []
  partitionKeyEnd : KeyBytes := []
  deriving DecidableEq

/-- `YBHashSchema`. -/
inductive YBHashSchema
  | kMultiColumnHash
  | kRedisHash
  | kPgsqlHash
  deriving DecidableEq

/-- `HashBucketSchema`. -/
structure HashBucketSchema where
  numBuckets : ℕ
  /-- A number of 32 bits; `Validate` rejects the negative ones. -/
  isInt32 : numBuckets < 2 ^ 31
  deriving DecidableEq

/-- `PartitionSchema`. -/
structure PartitionSchema where
  hashSchema : Option YBHashSchema := none
  hashBucketSchemas : List HashBucketSchema := []
  /-- The columns of the range schema. -/
  rangeColumnIds : List ℕ := []
  /-- The split points of the range schema. -/
  splits : List KeyBytes := []
  deriving DecidableEq

/-- Why partitions cannot be created. -/
inductive PartitionError
  /-- "max_partition_key $0 should be in ($1, $2]." -/
  | maxPartitionKey
  /-- "num_tablets should be greater than 0. ..." -/
  | numTablets
  /-- "Schema containing both hash and range partitioning is not yet supported". -/
  | hashAndRange
  /-- "Range partition column ID $0 not found in table schema." -/
  | columnNotFound (columnId : ℕ)
  /-- "Duplicate column in range partition". -/
  | duplicateColumn (columnIdx : ℕ)
  /-- "Split rows may only contain values for range partitioned columns". -/
  | notRangeColumn (columnIdx : ℕ)
  /-- "Split rows must contain a value for at least one range partition column". -/
  | emptySplitRow
  /-- "Duplicate split row". -/
  | duplicateSplitRow (key : KeyBytes)
  deriving DecidableEq

/-- A split row: the columns that are set, and the encoding of its range columns. -/
structure SplitRow where
  columns : List ℕ
  key : KeyBytes
  deriving DecidableEq

namespace PartitionSchema.Partition

open ByteOrder

/-- `kEncodedBucketSize`. -/
def kEncodedBucketSize : ℕ := 4

/-- `range_key`: what comes after the hash buckets. -/
def rangeKey (p : Partition) (partitionKey : KeyBytes) : KeyBytes :=
  let hashSize := kEncodedBucketSize * p.hashBuckets.length
  if hashSize < partitionKey.length then partitionKey.drop hashSize else []

/-- `range_key_start`. -/
def rangeKeyStart (p : Partition) : KeyBytes := p.rangeKey p.partitionKeyStart

/-- `range_key_end`. -/
def rangeKeyEnd (p : Partition) : KeyBytes := p.rangeKey p.partitionKeyEnd

/-- `ContainsKey`. -/
def containsKey (p : Partition) (partitionKey : KeyBytes) : Bool :=
  p.partitionKeyStart ≤ partitionKey ∧ (p.partitionKeyEnd = [] ∨ partitionKey < p.partitionKeyEnd)

end PartitionSchema.Partition

namespace PartitionSchema

open ByteOrder PartitionSchema.Partition

/-- `kMaxPartitionKey`. -/
def kMaxPartitionKey : ℕ := 65535

/-- `kRedisClusterSlots`. -/
def kRedisClusterSlots : ℕ := 16384

/-- `EncodeMultiColumnHashValue`. -/
def encodeMultiColumnHashValue (hashValue : UInt16) : KeyBytes :=
  [(hashValue >>> 8).toUInt8, (hashValue &&& 0xff).toUInt8]

/-- The encoder of a bucket: 32 bits, big-endian. -/
def hashEncode (bucket : ℕ) : KeyBytes := bigEndian 4 bucket

/-- `CreateRangePartitions`, from the start of the next partition on. -/
def createRangePartitionsLoop (startKey : KeyBytes) : List KeyBytes → List Partition
  | [] => [{ partitionKeyStart := startKey }]
  | split :: splits =>
    { partitionKeyStart := startKey, partitionKeyEnd := split } ::
      createRangePartitionsLoop split splits

variable (schema : PartitionSchema)

/-- `CreateRangePartitions`. -/
def createRangePartitions : List Partition :=
  createRangePartitionsLoop [] schema.splits

/-- The loop of `CreateHashPartitions`, for the partitions that are left. -/
def createHashPartitionsLoop (numTablets : ℕ) (partitionInterval : UInt16) :
    ℕ → ℕ → UInt16 → List Partition
  | 0, _, _ => []
  | left + 1, partitionIndex, pstart =>
    let pend := UInt16.ofNat ((partitionIndex + 1) * partitionInterval.toNat)
    { partitionKeyStart := if partitionIndex ≠ 0 then encodeMultiColumnHashValue pstart else []
      partitionKeyEnd :=
        if partitionIndex < numTablets - 1 then encodeMultiColumnHashValue pend else [] } ::
      createHashPartitionsLoop numTablets partitionInterval left (partitionIndex + 1) pend

/-- `CreateHashPartitions`. -/
def createHashPartitions (numTablets : ℤ) (maxPartitionKey : ℤ) :
    Except PartitionError (List Partition) :=
  if maxPartitionKey ≤ 0 ∨ kMaxPartitionKey < maxPartitionKey then .error .maxPartitionKey
  else if numTablets ≤ 0 then .error .numTablets
  else
    let numTablets := numTablets.toNat
    let partitionInterval := UInt16.ofNat (maxPartitionKey.toNat / numTablets)
    .ok (createHashPartitionsLoop numTablets partitionInterval numTablets 0 0)

/-- The number of hash values that are divided between the tablets. -/
def maxPartitionKey : ℕ :=
  if schema.hashSchema = some .kRedisHash then kRedisClusterSlots else kMaxPartitionKey

/-- `CreatePartitions` for a number of tablets. -/
def createPartitions (numTablets : ℤ) :
    Except PartitionError (List Partition) :=
  let isRangePartitioning := 0 < schema.rangeColumnIds.length
  if schema.hashSchema.isSome ∧ isRangePartitioning then .error .hashAndRange
  else
    match schema.hashSchema with
    | some .kPgsqlHash | some .kMultiColumnHash => createHashPartitions numTablets kMaxPartitionKey
    | some .kRedisHash => createHashPartitions numTablets kRedisClusterSlots
    | none =>
      if isRangePartitioning then .ok schema.createRangePartitions
      else createHashPartitions numTablets kMaxPartitionKey

/-- One more hash bucket component: every partition is replicated for each bucket. -/
def addHashBuckets (partitions : List Partition) (bucketSchema : HashBucketSchema) :
    List Partition :=
  partitions.flatMap fun base => (List.range bucketSchema.numBuckets).map fun bucket =>
    { hashBuckets := base.hashBuckets ++ [bucket]
      partitionKeyStart := base.partitionKeyStart ++ hashEncode bucket
      partitionKeyEnd := base.partitionKeyEnd ++ hashEncode bucket }

/-- The range columns of the schema of the table; `columns` are the ids of its columns. -/
def rangeColumnIdxs (columns : List ℕ) :
    List ℕ → List ℕ → Except PartitionError (List ℕ)
  | [], idxs => .ok idxs
  | columnId :: columnIds, idxs =>
    match columns.idxOf? columnId with
    | none => .error (.columnNotFound columnId)
    | some idx =>
      if idx ∈ idxs then .error (.duplicateColumn idx)
      else rangeColumnIdxs columns columnIds (idxs ++ [idx])

/-- The start keys of the split rows, in order; a set in the source. -/
def addSplitRow (numColumns : ℕ) (rangeIdxs : List ℕ) (startKeys : List KeyBytes) (row : SplitRow) :
    Except PartitionError (List KeyBytes) :=
  let set := (List.range numColumns).filter (· ∈ row.columns)
  match set.find? (· ∉ rangeIdxs) with
  | some idx => .error (.notRangeColumn idx)
  | none =>
    if set = [] then .error .emptySplitRow
    else if row.key ∈ startKeys then .error (.duplicateSplitRow row.key)
    else .ok (startKeys.orderedInsert (· ≤ ·) row.key)

/-- The ranges of a partition, from the start key of the next range on. -/
def addRanges (base : Partition) (startKey : KeyBytes) : List KeyBytes → List Partition
  | [] => [{ base with partitionKeyStart := base.partitionKeyStart ++ startKey }]
  | endKey :: endKeys =>
    { base with
      partitionKeyStart := base.partitionKeyStart ++ startKey
      partitionKeyEnd := base.partitionKeyEnd ++ endKey } :: addRanges base endKey endKeys

/-- The loop that clears the start of a partition from its last bucket on, as long as the buckets
are zero. -/
def clearStart (buckets : List ℕ) : ℕ → KeyBytes → KeyBytes
  | 0, key => key
  | i + 1, key =>
    if buckets.getD i 0 ≠ 0 then key
    else clearStart buckets i (key.take (kEncodedBucketSize * i))

/-- The loop that sets the end of a partition to the next bucket, from its last bucket on. -/
def advanceEnd (buckets numBuckets : List ℕ) : ℕ → KeyBytes → KeyBytes
  | 0, key => key
  | i + 1, key =>
    let key := key.take (kEncodedBucketSize * i)
    let hashBucket := buckets.getD i 0 + 1
    if hashBucket ≠ numBuckets.getD i 0 then key ++ hashEncode hashBucket
    else advanceEnd buckets numBuckets i key

/-- The pass that fills the holes of the key space. -/
def fillIn (numBuckets : List ℕ) (p : Partition) : Partition :=
  let size := p.hashBuckets.length
  { p with
    partitionKeyStart :=
      if p.rangeKeyStart = [] then clearStart p.hashBuckets size p.partitionKeyStart
      else p.partitionKeyStart
    partitionKeyEnd :=
      if p.rangeKeyEnd = [] then advanceEnd p.hashBuckets numBuckets size p.partitionKeyEnd
      else p.partitionKeyEnd }

/-- `CreatePartitions` for split rows. -/
def createPartitionsForSplitRows (splitRows : List SplitRow)
    (columns : List ℕ) : Except PartitionError (List Partition) := do
  let partitions := schema.hashBucketSchemas.foldl addHashBuckets [{}]
  let rangeIdxs ← rangeColumnIdxs columns schema.rangeColumnIds []
  let startKeys ← splitRows.foldlM (addSplitRow columns.length rangeIdxs) []
  let partitions := partitions.flatMap fun base => addRanges base [] startKeys
  return partitions.map (fillIn (schema.hashBucketSchemas.map (·.numBuckets)))

/-- What is read of a row: its buckets, the hash of its hash columns, and the encoding of its range
columns. -/
structure RowKeys where
  buckets : List ℕ := []
  hashKey : KeyBytes := []
  rangeKey : KeyBytes := []
  deriving DecidableEq

/-- `EncodeKey`: the partition key of a row. -/
def encodeKey (row : RowKeys) : KeyBytes :=
  if schema.hashSchema.isSome then row.hashKey
  else row.buckets.flatMap hashEncode ++ row.rangeKey

/-- `PartitionContainsRowImpl`. -/
def partitionContainsRow (p : Partition) (row : RowKeys) : Bool :=
  if row.buckets ≠ p.hashBuckets then false
  else
    -- the range columns are not encoded
    let partitionKey := if schema.hashSchema.isSome then row.hashKey else []
    p.rangeKeyStart ≤ partitionKey ∧ (p.rangeKeyEnd = [] ∨ partitionKey < p.rangeKeyEnd)

/-- The check of `Validate` on the buckets. -/
def validBuckets : Bool :=
  schema.hashBucketSchemas.all fun bucketSchema => 2 ≤ bucketSchema.numBuckets

end PartitionSchema
