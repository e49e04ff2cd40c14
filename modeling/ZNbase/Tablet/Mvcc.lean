import Mathlib.Data.List.Sort
import ZNbase.Common.HybridTime

/-!
# The MVCC manager

`MvccManager` of `tablet/mvcc.cc`: the queue of the hybrid times of tracked operations, the
aborted times that still sit in it, and the safe times that were handed out.

- Every public call is one function on the state. They all run under `mutex_`, so an
  interleaving of calls is a sequence of them.
- `none` stands for a call that does not return: a failed `CHECK`, a fatal log line, or a wait
  that is not over in this state.
- A reading of `clock_->Now()` is an argument `now`. `ndebug` says whether the build defines
  `NDEBUG`, which two of the calls depend on.
- The operation trace and the texts it adds to the fatal messages are left out.
-/

open HybridTime

/-- How a safe time was obtained. -/
inductive SafeTimeSource
  | kUnknown
  | kNow
  | kNextInQueue
  | kHybridTimeLease
  | kPropagated
  | kLastReplicated
  deriving DecidableEq

/-- A safe time and how it was obtained. -/
structure SafeTimeWithSource where
  safeTime : HybridTime := kMin
  source : SafeTimeSource := .kUnknown
  deriving DecidableEq

/-- The hybrid time leader lease a caller passes in. -/
structure FixedHybridTimeLease where
  time : HybridTime := kInvalid
  lease : HybridTime := kMax
  deriving DecidableEq

/-- The default value, with the lease at the largest physical time, stands for no lease. -/
def FixedHybridTimeLease.empty (l : FixedHybridTimeLease) : Bool :=
  kMaxHybridTimePhysicalMicros ≤ getPhysicalValueMicros l.lease

/-- The state of an `MvccManager`. `aborted` is the min-heap `aborted_`, smallest time first. -/
structure MvccManager where
  queue : List HybridTime := []
  aborted : List HybridTime := []
  lastReplicated : HybridTime := kMin
  propagatedSafeTime : HybridTime := kMin
  leaderOnlyMode : Bool := false
  maxSafeTimeReturnedWithLease : SafeTimeWithSource := {}
  maxSafeTimeReturnedWithoutLease : SafeTimeWithSource := {}
  maxSafeTimeReturnedForFollower : SafeTimeWithSource := {}
  deriving DecidableEq

namespace MvccManager

/-! ## Finishing operations -/

/-- The loop of `PopFront`: drops the front of the queue while it is the smallest aborted time. -/
def popAborted : List HybridTime → List HybridTime → Option (List HybridTime × List HybridTime)
  | queue, [] => some (queue, [])
  | [], _ :: _ => none
  | front :: queue, top :: aborted =>
    if front ≠ top then
      if front < top then some (front :: queue, top :: aborted) else none
    else popAborted queue aborted

variable (m : MvccManager)

/-- Drops the front of the queue, and the aborted operations that come to the front. -/
def popFront : Option MvccManager :=
  let queue := m.queue.tail
  if m.aborted.length ≤ queue.length then
    (popAborted queue m.aborted).map fun r => { m with queue := r.1, aborted := r.2 }
  else none

variable (ht : HybridTime)

/-- The operation at the front was replicated. -/
def replicated : Option MvccManager :=
  match m.queue with
  | [] => none
  | front :: _ =>
    if front = ht then m.popFront.map fun m' => { m' with lastReplicated := ht } else none

/-- An operation was aborted. Unless it is at the front it stays queued until it gets there. -/
def abort : Option MvccManager :=
  match m.queue with
  | [] => none
  | front :: _ =>
    if front = ht then m.popFront
    else some { m with aborted := m.aborted.orderedInsert (· ≤ ·) ht }

/-! ## Adding operations -/

/-- The loop of `AddPending` that drops a run of aborted times from the queue, starting where the
smallest of them is. -/
def eraseAborted : List HybridTime → List HybridTime → List HybridTime × List HybridTime
  | ht :: queue, top :: aborted =>
    if ht = top then eraseAborted queue aborted else (ht :: queue, top :: aborted)
  -- With the heap emptied by the last turn, `aborted_.top()` reads the slot of the time popped
  -- last. That time is below `ht`, so the loop ends here too.
  | queue, aborted => (queue, aborted)

/-- Drops a run of aborted times from the queue if they keep `ht` from being added. -/
def dropAbortedTail : Option MvccManager :=
  match m.queue.getLast?, m.aborted with
  | some back, top :: _ =>
    if ht ≤ back then
      let below := m.queue.takeWhile (· < top)
      let fromTop := m.queue.dropWhile (· < top)
      if fromTop = [] then none
      else
        let r := eraseAborted fromTop m.aborted
        some { m with queue := below ++ r.1, aborted := r.2 }
    else some m
  | _, _ => some m

/-- What the hybrid time of a new operation has to exceed. -/
def sanityCheckLowerBound : HybridTime :=
  let lastHtInQueue := m.queue.getLast?.getD kMin
  max m.maxSafeTimeReturnedWithLease.safeTime
    (max m.maxSafeTimeReturnedWithoutLease.safeTime
      (max m.maxSafeTimeReturnedForFollower.safeTime
        (max m.propagatedSafeTime (max m.lastReplicated lastHtInQueue))))

/-- The hybrid time an operation gets given the lower bound on it: a release build raises a time
that the leader assigned itself. -/
def assignHybridTime (ndebug isFollowerSide : Bool) (ht bound : HybridTime) : HybridTime :=
  if ht ≤ bound ∧ ndebug ∧ ¬ isFollowerSide ∧ isValid bound ∧ bound ≠ kMax then incremented bound
  else ht

variable (ndebug : Bool)

/-- Adds an operation. On a follower `provided` is the time the leader gave it; an invalid
`provided` means that this server is to assign one. Returns the time the operation got. -/
def addPending (m : MvccManager) (provided now : HybridTime) :
    Option (MvccManager × HybridTime) :=
  let isFollowerSide : Bool := isValid provided
  let ht := if isFollowerSide then provided else now
  (m.dropAbortedTail ht).bind fun m' =>
    let bound := m'.sanityCheckLowerBound
    let final := assignHybridTime ndebug isFollowerSide ht bound
    if final ≤ bound then none else some ({ m' with queue := m'.queue ++ [final] }, final)

/-! ## Safe times -/

/-- What a waiting call returned: a safe time, or `kInvalid` once its deadline passed. -/
inductive SafeTimeResult
  | safeTime (t : HybridTime)
  | timedOut
  deriving DecidableEq

/-- The safe time the predicate of `DoGetSafeTime` computes, with its source. -/
def safeTimeCandidate (l : FixedHybridTimeLease) (now : HybridTime) :
    SafeTimeWithSource :=
  let maxReturned := m.maxSafeTimeReturnedWithLease.safeTime
  let fromQueue : SafeTimeWithSource :=
    match m.queue with
    | [] => ⟨if isValid l.time then max maxReturned l.time else now, .kNow⟩
    | front :: _ => ⟨decremented front, .kNextInQueue⟩
  let usedLease := max l.lease maxReturned
  let limited : SafeTimeWithSource :=
    if ¬ l.empty ∧ usedLease < fromQueue.safeTime then ⟨usedLease, .kHybridTimeLease⟩
    else fromQueue
  { limited with safeTime := max limited.safeTime m.lastReplicated }

/-- `DoGetSafeTime`. A call with no deadline (`CoarseTimePoint::max()`) goes on waiting while its
predicate does not hold; one with a deadline is modelled at its last look at the state. -/
def doGetSafeTime (m : MvccManager) (minAllowed : HybridTime) (hasDeadline : Bool)
    (l : FixedHybridTimeLease) (now : HybridTime) : Option (MvccManager × SafeTimeResult) :=
  if isValid l.lease ∧ minAllowed ≤ l.lease ∧ (l.empty ∨ isValid l.time ∨ ndebug) then
    let result := m.safeTimeCandidate l now
    if minAllowed ≤ result.safeTime then
      let enforcedMinTime := if l.empty then m.maxSafeTimeReturnedWithoutLease.safeTime
        else m.maxSafeTimeReturnedWithLease.safeTime
      if enforcedMinTime ≤ result.safeTime then
        let m' := if l.empty then { m with maxSafeTimeReturnedWithoutLease := result }
          else { m with maxSafeTimeReturnedWithLease := result }
        some (m', .safeTime result.safeTime)
      else none
    else if hasDeadline then some (m, .timedOut) else none
  else none

/-- The safe time the predicate of `SafeTimeForFollower` computes, with its source. -/
def followerCandidate : SafeTimeWithSource :=
  if m.lastReplicated < m.propagatedSafeTime then
    match m.queue with
    | [] => ⟨m.propagatedSafeTime, .kPropagated⟩
    | front :: _ =>
      if m.propagatedSafeTime < front then ⟨m.propagatedSafeTime, .kPropagated⟩
      else ⟨decremented front, .kNextInQueue⟩
  else ⟨m.lastReplicated, .kLastReplicated⟩

/-- `SafeTime`. -/
def safeTime (m : MvccManager) (minAllowed : HybridTime) (hasDeadline : Bool)
    (l : FixedHybridTimeLease) (now : HybridTime) : Option (MvccManager × SafeTimeResult) :=
  m.doGetSafeTime ndebug minAllowed hasDeadline l now

/-- `SafeTimeForFollower`. With a single replica nothing propagates safe times, and the call is
answered as one without a lease. -/
def safeTimeForFollower (m : MvccManager) (minAllowed : HybridTime)
    (hasDeadline : Bool) (now : HybridTime) : Option (MvccManager × SafeTimeResult) :=
  if m.leaderOnlyMode then m.doGetSafeTime ndebug minAllowed hasDeadline {} now
  else
    let result := m.followerCandidate
    if minAllowed ≤ result.safeTime then
      if m.maxSafeTimeReturnedForFollower.safeTime ≤ result.safeTime then
        some ({ m with maxSafeTimeReturnedForFollower := result }, .safeTime result.safeTime)
      else none
    else if hasDeadline then some (m, .timedOut) else none

/-! ## Propagated safe times and modes -/

/-- `SetPropagatedSafeTimeOnFollower`: a lower time than before is ignored. -/
def setPropagatedSafeTimeOnFollower : MvccManager :=
  if m.propagatedSafeTime ≤ ht then { m with propagatedSafeTime := ht } else m

/-- `UpdatePropagatedSafeTimeOnLeader`: takes the current safe time, unless that would move the
propagated one back, which is fatal in a debug build. -/
def updatePropagatedSafeTimeOnLeader (m : MvccManager) (l : FixedHybridTimeLease)
    (now : HybridTime) : Option MvccManager :=
  match m.doGetSafeTime ndebug kMin false l now with
  | some (m', .safeTime t) =>
    if m'.propagatedSafeTime ≤ t then some { m' with propagatedSafeTime := t }
    else if ndebug then some m' else none
  | _ => none

/-- `SetLastReplicated`, used after bootstrap. -/
def setLastReplicated : MvccManager :=
  { m with lastReplicated := ht }

/-- `SetLeaderOnlyMode`. -/
def setLeaderOnlyMode (leaderOnly : Bool) : MvccManager :=
  { m with leaderOnlyMode := leaderOnly }

end MvccManager
