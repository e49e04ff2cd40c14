import ZNbase.Consensus.Log
import ZNbase.Lib.Update

/-!
# The log cache

`LogCache` of `consensus/log_cache.cc`: recent operations by index, in front of the log.

- `cache` is the map `cache_`. It has an operation with the smallest id at index 0, which is never
  removed.
- `ReadOps` reads a stretch that is missing in the cache from the log in one call and cuts it at
  the size limit. That is the same as reading its operations one by one, which `readLoop` does.
- How many bytes an eviction frees is left out. An eviction that stops early is an eviction up to
  a smaller index.
-/

/-- Results of the cache and of the queue that can fail. -/
inductive ReadStatus
  | incomplete
  | notFound
  deriving DecidableEq

/-- What `ReadOps` returns. -/
structure ReadOpsResult where
  precedingOp : OpId
  messages : List ReplicateMsg
  haveMoreMessages : Bool
  deriving DecidableEq

/-- The state of a `LogCache`. -/
structure LogCache where
  cache : ℕ → Option ReplicateMsg
  nextSequentialOpIndex : ℕ
  minPinnedOpIndex : ℕ

namespace LogCache

/-- The operation the cache has at index 0. -/
def zeroOp : ReplicateMsg :=
  { id := OpId.min0, hybridTime := HybridTime.kMin, opType := .noOp, byteSize := 0 }

/-- `Init` of a new cache. -/
def init (precedingOp : OpId) : LogCache where
  cache := Function.update (fun _ => none) 0 (some zeroOp)
  nextSequentialOpIndex := precedingOp.index + 1
  minPinnedOpIndex := precedingOp.index + 1

variable (c : LogCache)

/-- Puts an operation into the cache. -/
def insert (msg : ReplicateMsg) : LogCache :=
  { c with
    cache := Function.update c.cache msg.id.index (some msg)
    nextSequentialOpIndex := msg.id.index + 1 }

/-- `PrepareAppendOperations`, for a batch that is not empty. `none` is a failed `CHECK`: the batch
leaves a gap. -/
def prepareAppendOperations (first : ReplicateMsg) (msgs : List ReplicateMsg) :
    Option LogCache :=
  if first.id.index ≤ c.nextSequentialOpIndex then
    -- a batch that does not follow on the last one overwrites what was there
    let overwritten : LogCache :=
      { c with
        cache := fun i =>
          if first.id.index ≤ i ∧ i < c.nextSequentialOpIndex then none else c.cache i }
    some ((first :: msgs).foldl insert overwritten)
  else none

/-- `AppendOperations`: the cache after it, and the index bound to `LogCallback`. -/
def appendOperations (msgs : List ReplicateMsg) : Option (LogCache × ℕ) :=
  match msgs with
  | [] => some (c, 0)
  | first :: rest =>
    (c.prepareAppendOperations first rest).map fun c' =>
      (c', ((first :: rest).getLast (by simp)).id.index)

/-- `LogCallback` of an append that succeeded. -/
def logCallback (lastIdxInBatch : ℕ) : LogCache :=
  if c.minPinnedOpIndex ≤ lastIdxInBatch then
    { c with minPinnedOpIndex := lastIdxInBatch + 1 }
  else c

/-- The operation at an index, from the cache or from the log. -/
def lookup (l : Log) (index : ℕ) : Option ReplicateMsg :=
  c.cache index <|> l.entryAt index

/-- `LookupOpId`. -/
def lookupOpId (l : Log) (opIndex : ℕ) : Except ReadStatus OpId :=
  if c.nextSequentialOpIndex ≤ opIndex then .error .incomplete
  else
    match c.lookup l opIndex with
    | some msg => .ok msg.id
    | none => .error .notFound

/-- The loop of `ReadOps` over `fuel` operations from `nextIndex` on. Returns the operations read
and the space that remains. -/
def readLoop (c : LogCache) (l : Log) :
    ℕ → ℕ → ℤ → Bool → Except ReadStatus (List ReplicateMsg × ℤ)
  | 0, _, remaining, _ => .ok ([], remaining)
  | fuel + 1, nextIndex, remaining, first =>
    if remaining < 0 then .ok ([], remaining)
    else
      match c.lookup l nextIndex with
      | none => .error .notFound
      | some msg =>
        let remaining' := remaining - msg.byteSize
        -- the first operation is returned even if it is over the limit
        if remaining' < 0 ∧ ¬first then .ok ([], remaining')
        else
          match readLoop c l fuel (nextIndex + 1) remaining' false with
          | .error e => .error e
          | .ok (msgs, r) => .ok (msg :: msgs, r)

/-- What the loop reads is the beginning of a list that has what is looked up. -/
lemma readLoop_isPrefix {c : LogCache} {l : Log} {fuel k : ℕ} {remaining r : ℤ} {first : Bool}
    {ops msgs : List ReplicateMsg}
    (hops : ∀ i, k ≤ i → i < k + fuel → ∀ m ∈ c.lookup l i, ops[i - k]? = some m)
    (hread : c.readLoop l fuel k remaining first = .ok (msgs, r)) : msgs <+: ops := by
  induction fuel generalizing k remaining first ops msgs with
  | zero =>
    -- the loop is at its end
    cases hread
    exact List.nil_prefix
  | succ fuel ih =>
    rw [readLoop] at hread
    split_ifs at hread
    · cases hread
      exact List.nil_prefix
    split at hread
    · cases hread
    rename_i msg hmsg
    dsimp only at hread
    split_ifs at hread
    · cases hread
      exact List.nil_prefix
    split at hread
    · cases hread
    rename_i rest r' hrest
    cases hread
    -- one message more, which is the next one of the list
    have hhead := hops k le_rfl (by omega) msg hmsg
    cases ops with
    | nil => simp at hhead
    | cons op ops =>
      obtain rfl : op = msg := by simpa using hhead
      refine (List.prefix_cons_inj op).2 (ih (fun i hk hi m hm => ?_) hrest)
      have htail := hops i (by omega) (by omega) m hm
      rwa [show i - k = i - (k + 1) + 1 by omega, List.getElem?_cons_succ] at htail

/-- `ReadOps`. A `toOpIndex` of 0 reads up to the last operation. -/
def readOps (l : Log) (afterOpIndex toOpIndex : ℕ) (maxSizeBytes : ℤ) :
    Except ReadStatus ReadOpsResult :=
  match c.lookupOpId l afterOpIndex with
  | .error e => .error e
  | .ok precedingOp =>
    let toIndex :=
      if 0 < toOpIndex then min (toOpIndex + 1) c.nextSequentialOpIndex
      else c.nextSequentialOpIndex
    match c.readLoop l (toIndex - (afterOpIndex + 1)) (afterOpIndex + 1) maxSizeBytes true with
    | .error e => .error e
    | .ok (messages, remaining) => .ok ⟨precedingOp, messages, decide (remaining < 0)⟩

/-- `EvictThroughOp`. The operations from `minPinnedOpIndex` on are still on their way to the
log. -/
def evictThroughOp (index : ℕ) : LogCache :=
  { c with
    cache := fun i =>
      if i ≠ 0 ∧ i ≤ index ∧ i < c.minPinnedOpIndex then none else c.cache i }

end LogCache
