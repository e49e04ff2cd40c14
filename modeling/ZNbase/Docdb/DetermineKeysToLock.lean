import ZNbase.Docdb.EnumerateIntents
import ZNbase.Docdb.Intent

/-!
# The keys to lock

`DetermineKeysToLock` and `FilterKeysToLock` of `docdb/docdb.cc`: the keys that a write locks, with
the intent types for each of them, before they are given to the lock manager.
-/

open ValueType

/-- `LockBatchEntries`: keys with intent types. -/
abbrev LockBatchEntries := List (KeyBytes × IntentTypeSet)

/-- `DocOperation`, as far as locking is concerned. -/
structure DocOperation where
  /-- `GetDocPaths` with `GetDocPathsMode::kLock`: the paths, and the isolation level. -/
  getDocPaths : Except Corruption (List KeyBytes × IsolationLevel)
  requireReadSnapshot : Bool

/-- What a write locks keys for. -/
structure LockRequest where
  docWriteOps : List DocOperation
  /-- The keys of the read pairs. -/
  readPairs : List KeyBytes := []
  isolationLevel : IsolationLevel
  operationKind : OperationKind
  rowMarkType : RowMarkType
  transactionalTable : Bool
  partialRangeKeyIntents : Bool

/-- An error, or the end of the process. -/
inductive LockError
  | corruption (e : Corruption)
  /-- A read pair with no key. -/
  | fatal
  deriving DecidableEq

namespace DetermineKeysToLock

/-- `ApplyIntent`: group ends are not a part of the key to lock. -/
def applyIntent (key : KeyBytes) (intentTypes : IntentTypeSet) (keysLocked : LockBatchEntries) :
    Except Corruption LockBatchEntries :=
  match key with
  | [] => .ok (keysLocked ++ [([], intentTypes)])
  | t :: rest =>
    if t = kGroupEnd then
      if rest ≠ [] then .error .keyStartingWithGroupEnd else .ok (keysLocked ++ [([], intentTypes)])
    else .ok (keysLocked ++ [((t :: rest).rdropWhile (· = kGroupEnd), intentTypes)])

/-- `ApplyIntent` for one key after the other. -/
def applyIntents (keys : List (KeyBytes × IntentTypeSet)) (keysLocked : LockBatchEntries) :
    Except Corruption LockBatchEntries :=
  keys.foldlM (fun keysLocked x => applyIntent x.1 x.2 keysLocked) keysLocked

section

variable (decodeKey : KeyBytes → Except Corruption KeyBytes)

/-- The intents of a path: weak ones for what comes before it, and a strong one. -/
def pathIntents (transactionalTable : Bool) (strong : IntentTypeSet) (path : KeyBytes)
    (keyPrefixLengths : List ℕ) : LockBatchEntries :=
  let weak := strong.strongToWeak
  let root := if path ≠ [] ∧ transactionalTable then [([], weak)] else []
  let ancestors := keyPrefixLengths.dropLast.map fun length => (path.take length, weak)
  root ++ ancestors ++ [(path, strong)]

/-- What is locked for a path. -/
def lockPath (transactionalTable : Bool) (strong : IntentTypeSet) (path : KeyBytes)
    (keysLocked : LockBatchEntries) : Except Corruption LockBatchEntries := do
  let keyPrefixLengths ← SubDocKey.decodePrefixLengths decodeKey path
  if keyPrefixLengths = [] then .error .unableToDecodeKeyPrefixes
  else applyIntents (pathIntents transactionalTable strong path keyPrefixLengths) keysLocked

/-- The strong intent types of an operation. -/
def strongIntentTypes (req : LockRequest) (op : DocOperation) (opLevel : IsolationLevel) :
    IntentTypeSet :=
  let level := if req.isolationLevel ≠ .nonTransactional then req.isolationLevel else opLevel
  let types := getStrongIntentTypeSet level req.operationKind req.rowMarkType
  if req.isolationLevel = .serializableIsolation ∧ req.operationKind = .write ∧
      op.requireReadSnapshot then {.strongRead, .strongWrite}
  else types

def liftCorruption {α : Type} : Except Corruption α → Except LockError α
  | .ok a => .ok a
  | .error e => .error (.corruption e)

/-- What is locked for an operation. -/
def lockOperation (req : LockRequest) (op : DocOperation) (keysLocked : LockBatchEntries) :
    Except LockError LockBatchEntries := do
  let (paths, opLevel) ← liftCorruption op.getDocPaths
  let strong := strongIntentTypes req op opLevel
  liftCorruption (paths.foldlM
    (fun keysLocked path => lockPath decodeKey req.transactionalTable strong path keysLocked)
    keysLocked)

/-- What is locked for the intents of a read pair. -/
def lockIntents (partialRangeKeyIntents : Bool) (key : KeyBytes) (keysLocked : LockBatchEntries) :
    Except Corruption LockBatchEntries := do
  let intents := enumerateWeakIntents decodeKey key partialRangeKeyIntents
  let keysLocked ← applyIntents (intents.calls.map fun intent => (intent.key, {.weakRead}))
    keysLocked
  let strong ← intents.result
  applyIntent strong {.strongRead} keysLocked

/-- What is locked for a read pair, of which `EnumerateIntents` checks that the key is not empty. -/
def lockReadPair (partialRangeKeyIntents : Bool) (key : KeyBytes) (keysLocked : LockBatchEntries) :
    Except LockError LockBatchEntries :=
  if key = [] then .error .fatal
  else liftCorruption (lockIntents decodeKey partialRangeKeyIntents key keysLocked)

end

end DetermineKeysToLock

open DetermineKeysToLock in
/-- `DetermineKeysToLock`: the keys to lock, and `need_read_snapshot`. -/
def determineKeysToLock (decodeKey : KeyBytes → Except Corruption KeyBytes) (req : LockRequest) :
    Except LockError (LockBatchEntries × Bool) := do
  let keysLocked ← req.docWriteOps.foldlM
    (fun keysLocked op => lockOperation decodeKey req op keysLocked) []
  let keysLocked ← req.readPairs.foldlM
    (fun keysLocked key => lockReadPair decodeKey req.partialRangeKeyIntents key keysLocked)
      keysLocked
  return (keysLocked, req.docWriteOps.any (·.requireReadSnapshot))

namespace DetermineKeysToLock

/-- The loop of `FilterKeysToLock`: entries with the same key, one after the other, become one. -/
def mergeAdjacent : KeyBytes × IntentTypeSet → LockBatchEntries → LockBatchEntries
  | w, [] => [w]
  | w, it :: rest =>
    if it.1 = w.1 then mergeAdjacent (w.1, w.2 ∪ it.2) rest else w :: mergeAdjacent it rest

end DetermineKeysToLock

/-- `FilterKeysToLock`. -/
def filterKeysToLock (keysLocked : LockBatchEntries) : LockBatchEntries :=
  match keysLocked.mergeSort (fun lhs rhs => decide (lhs.1 ≤ rhs.1)) with
  | [] => []
  | w :: rest => DetermineKeysToLock.mergeAdjacent w rest
