import ZNbase.Docdb.Intent
import ZNbase.Lib.PackedCounters

/-!
# The shared lock manager

`SharedLockManager` of `docdb/shared_lock_manager.cc`: locks on keys, taken in batches. For each key
that is locked or waited for there is a `LockedBatchEntry`, in which the holders of each intent type
are counted; the four counters share one word, which is changed by compare-and-swap only.

The state is that of all calls of `Lock` and `Unlock` at once. A step is one access of one call to
the shared state, so that a run is an interleaving of calls.

- `Reserve` and `Cleanup` hold the global mutex and are one step each. An entry is a number; entries
  that are not used are kept in a free list.
- A call that finds a conflict waits on a condition variable. It can wake up at any time, since a
  condition variable can wake up spuriously; what `Unlock` does to wake it up is left out.
- `compare_exchange_weak` can fail without a reason.
-/

open Function PackedCounters

/-- `LockState`: the counters of an entry, of `kIntentTypeBits` each. -/
abbrev LockState := ℕ

namespace LockState

def kIntentTypeBits : ℕ := 16

/-- `IntentTypeMask`. -/
def intentTypeMask (t : IntentType) : LockState := fieldMask kIntentTypeBits t.toNat

/-- `kIntentTypeSetConflicts`, by `GenerateConflicts`. -/
def setConflicts (s : IntentTypeSet) : LockState :=
  (IntentTypeSet.toList s).foldl
    (fun r t => IntentType.all.foldl
      (fun r other => if t.conflicts other then r ||| intentTypeMask other else r) r) 0

/-- `kIntentTypeSetAdd`, by `GenerateByMask`. -/
def setAdd (s : IntentTypeSet) : LockState :=
  (IntentTypeSet.toList s).foldl (fun r t => r ||| 1 <<< (t.toNat * kIntentTypeBits)) 0

/-- Addition and subtraction of 64 bits. -/
def add (x y : LockState) : LockState := (x + y) % 2 ^ 64

def sub (x y : LockState) : LockState := (x + 2 ^ 64 - y) % 2 ^ 64

end LockState

/-- `LockedBatchEntry`. -/
structure LockedBatchEntry where
  refCount : ℕ := 0
  numHolding : LockState := 0
  numWaiters : ℕ := 0
  deriving DecidableEq

/-- `LockBatchEntry`, with the entry it was given. -/
structure LockBatchEntry (κ : Type) where
  key : κ
  intentTypes : IntentTypeSet
  locked : ℕ
  deriving DecidableEq

/-- Where a call is in the `Lock` of one entry. -/
inductive LockPc
  | load
  | compare (old : LockState)
  /-- Registered as a waiter, before the value is loaded again. -/
  | recheck
  | wait (old : LockState)
  deriving DecidableEq

/-- Where a call is in the `Unlock` of one entry. -/
inductive UnlockPc
  | load
  | compare (old : LockState)
  deriving DecidableEq

/-- Where the call for a batch is. -/
inductive BatchState (κ : Type)
  | idle
  /-- `Lock` has locked the entries before `i`. -/
  | locking (entries : List (LockBatchEntry κ)) (i : ℕ) (pc : LockPc)
  /-- `Lock` has returned true. -/
  | granted (entries : List (LockBatchEntry κ))
  /-- `Unlock`, or a `Lock` that failed, has still to unlock the entries before `i`. -/
  | unlocking (entries : List (LockBatchEntry κ)) (i : ℕ) (pc : UnlockPc)
  deriving DecidableEq

structure SharedLockManager (β κ : Type) where
  /-- `locks_`. -/
  locks : κ → Option ℕ := fun _ => none
  /-- The size of `lock_entries_`. -/
  numEntries : ℕ := 0
  freeLockEntries : List ℕ := []
  entry : ℕ → LockedBatchEntry := fun _ => {}
  batch : β → BatchState κ := fun _ => .idle

namespace SharedLockManager

variable {β κ : Type} [DecidableEq β] [DecidableEq κ]

variable (m : SharedLockManager β κ)

def setEntry (p : ℕ) (e : LockedBatchEntry) : SharedLockManager β κ :=
  { m with entry := update m.entry p e }

def setBatch (b : β) (s : BatchState κ) : SharedLockManager β κ :=
  { m with batch := update m.batch b s }

/-! ## Entries -/

/-- The entry for a key. A key that has none gets a free one, or a new one. -/
def findEntry (key : κ) : ℕ × SharedLockManager β κ :=
  match m.locks key with
  | some p => (p, m)
  | none =>
    match m.freeLockEntries.getLast? with
    | some p =>
      (p, { m with
        locks := update m.locks key (some p)
        freeLockEntries := m.freeLockEntries.dropLast })
    | none =>
      (m.numEntries, { m with
        locks := update m.locks key (some m.numEntries)
        numEntries := m.numEntries + 1 })

/-- One step of the loop of `Reserve`. -/
def reserveKey (key : κ) : ℕ × SharedLockManager β κ :=
  let (p, m) := m.findEntry key
  (p, m.setEntry p { m.entry p with refCount := (m.entry p).refCount + 1 })

/-- `Reserve`. -/
def reserve (m : SharedLockManager β κ) :
    List (κ × IntentTypeSet) → List (LockBatchEntry κ) × SharedLockManager β κ
  | [] => ([], m)
  | (key, intentTypes) :: rest =>
    let (p, m) := m.reserveKey key
    let (entries, m) := m.reserve rest
    (⟨key, intentTypes, p⟩ :: entries, m)

/-- One step of the loop of `Cleanup`. -/
def cleanupKey (x : LockBatchEntry κ) : SharedLockManager β κ :=
  let refCount := (m.entry x.locked).refCount - 1
  let m := m.setEntry x.locked { m.entry x.locked with refCount := refCount }
  if refCount = 0 then
    { m with
      locks := update m.locks x.key none
      freeLockEntries := m.freeLockEntries ++ [x.locked] }
  else m

/-- `Cleanup`. -/
def cleanup (entries : List (LockBatchEntry κ)) :
    SharedLockManager β κ :=
  entries.foldl cleanupKey m

/-! ## Calls -/

/-- What happens to a call at a point where more than one thing can. -/
inductive Choice
  | normal
  /-- A compare-and-swap fails without a reason. -/
  | spurious
  /-- The deadline of a wait has passed. -/
  | timeout
  deriving DecidableEq

/-- `LockedBatchEntry::Lock`, of entry `i` of the batch, by one step. -/
def lockStep (b : β) (entries : List (LockBatchEntry κ)) (i : ℕ)
    (x : LockBatchEntry κ) (choice : Choice) : LockPc → SharedLockManager β κ
  | .load => m.setBatch b (.locking entries i (.compare (m.entry x.locked).numHolding))
  | .compare old =>
    let e := m.entry x.locked
    if old &&& LockState.setConflicts x.intentTypes = 0 then
      if choice = .spurious ∨ e.numHolding ≠ old then
        m.setBatch b (.locking entries i (.compare e.numHolding))
      else
        (m.setEntry x.locked
          { e with numHolding := LockState.add old (LockState.setAdd x.intentTypes) }).setBatch b
            (.locking entries (i + 1) .load)
    else
      (m.setEntry x.locked { e with numWaiters := e.numWaiters + 1 }).setBatch b
        (.locking entries i .recheck)
  | .recheck =>
    let e := m.entry x.locked
    if e.numHolding &&& LockState.setConflicts x.intentTypes = 0 then
      (m.setEntry x.locked { e with numWaiters := e.numWaiters - 1 }).setBatch b
        (.locking entries i (.compare e.numHolding))
    else m.setBatch b (.locking entries i (.wait e.numHolding))
  | .wait old =>
    let e := m.entry x.locked
    let m := m.setEntry x.locked { e with numWaiters := e.numWaiters - 1 }
    if choice = .timeout then m.setBatch b (.unlocking entries i .load)
    else m.setBatch b (.locking entries i (.compare old))

/-- `LockedBatchEntry::Unlock`, of entry `i` of the batch, by one step. -/
def unlockStep (b : β) (entries : List (LockBatchEntry κ)) (i : ℕ)
    (x : LockBatchEntry κ) (choice : Choice) : UnlockPc → SharedLockManager β κ
  | .load => m.setBatch b (.unlocking entries (i + 1) (.compare (m.entry x.locked).numHolding))
  | .compare old =>
    let e := m.entry x.locked
    if choice = .spurious ∨ e.numHolding ≠ old then
      m.setBatch b (.unlocking entries (i + 1) (.compare e.numHolding))
    else
      (m.setEntry x.locked
        { e with numHolding := LockState.sub old (LockState.setAdd x.intentTypes) }).setBatch b
          (.unlocking entries i .load)

/-- The next step of the call for a batch. -/
def run (b : β) (choice : Choice) : Option (SharedLockManager β κ) :=
  match m.batch b with
  | .idle | .granted _ => none
  | .locking entries i pc =>
    match entries[i]? with
    | some x => some (m.lockStep b entries i x choice pc)
    | none => some (m.setBatch b (.granted entries))
  | .unlocking entries 0 _ => some ((m.cleanup entries).setBatch b .idle)
  | .unlocking entries (i + 1) pc =>
    match entries[i]? with
    | some x => some (m.unlockStep b entries i x choice pc)
    | none => none

inductive Event (β κ : Type)
  /-- `Lock` is called for a batch. -/
  | lock (b : β) (keys : List (κ × IntentTypeSet))
  /-- `Unlock` is called for a batch. -/
  | unlock (b : β)
  | run (b : β) (choice : Choice)

/-- The state after a step; `none` if the step is not possible. -/
def step : Event β κ → Option (SharedLockManager β κ)
  | .lock b keys =>
    match m.batch b with
    | .idle =>
      let (entries, m) := m.reserve keys
      some (m.setBatch b (.locking entries 0 .load))
    | _ => none
  | .unlock b =>
    match m.batch b with
    | .granted entries => some (m.setBatch b (.unlocking entries entries.length .load))
    | _ => none
  | .run b choice => m.run b choice

def Step (e : Event β κ) (m' : SharedLockManager β κ) : Prop :=
  m.step e = some m'

end SharedLockManager
