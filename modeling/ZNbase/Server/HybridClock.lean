import ZNbase.Common.HybridTime

/-!
# The hybrid clock

`HybridClock` of `server/hybrid_clock.cc`, for any number of threads that call `NowWithError` and
`Update` at the same time.

- The clock is one atomic value, `components_`. Between two atomic operations on it a thread only
  computes, so the steps of a thread are the atomic operations, the readings of the physical clock,
  and the begin and the end of a call.
- `compare_exchange_weak` may fail although the value is the expected one.
- A `LOG(FATAL)` stops the process.
-/

open HybridTime

/-- `PhysicalTime`. -/
structure PhysicalTime where
  timePoint : ℕ
  maxError : ℕ
  deriving DecidableEq

/-- `HybridClockComponents`. -/
structure HybridClockComponents where
  lastUsec : ℕ := 0
  logical : ℕ := 0
  deriving DecidableEq

namespace HybridTime

/-- `FromMicrosecondsAndLogicalValue`, with the wrap-around of 64 bits. -/
def fromMicrosecondsAndLogicalValue (micros logical : ℕ) : HybridTime :=
  (micros <<< kBitsForLogicalComponent + logical) % 2 ^ 64

/-- `FromMicros`. -/
def fromMicros (micros : ℕ) : HybridTime := fromMicrosecondsAndLogicalValue micros 0

end HybridTime

namespace HybridClockComponents

instance : LT HybridClockComponents where
  lt a b := a.lastUsec < b.lastUsec ∨ a.lastUsec = b.lastUsec ∧ a.logical < b.logical

lemma lt_def {a b : HybridClockComponents} :
    a < b ↔ a.lastUsec < b.lastUsec ∨ a.lastUsec = b.lastUsec ∧ a.logical < b.logical := Iff.rfl

instance (a b : HybridClockComponents) : Decidable (a < b) := inferInstanceAs (Decidable (_ ∨ _))

/-- `HandleLogicalComponentOverflow`; nothing if the logical component is too high. -/
def handleLogicalComponentOverflow (c : HybridClockComponents) : Option HybridClockComponents :=
  if kLogicalBitMask < c.logical then
    if 2 ^ kBitsForLogicalComponent < c.logical then none
    else some
      { lastUsec := (c.lastUsec + c.logical >>> kBitsForLogicalComponent) % 2 ^ 64
        logical := c.logical &&& kLogicalBitMask }
  else some c

end HybridClockComponents

namespace HybridClock

/-- The flags of the check for clock skew. -/
structure SkewControl where
  maxClockSkewUsec : ℕ := 500000
  /-- `fail_on_out_of_range_clock_skew`, and the check is enabled. -/
  fail : Bool := true
  deriving DecidableEq

/-- What a thread calls. -/
inductive Call
  | nowWithError
  | update (toUpdate : HybridTime)
  deriving DecidableEq

/-- What a call returns. -/
inductive Result
  | now (hybridTime : HybridTime) (maxErrorUsec : ℕ)
  | updated (toUpdate : HybridTime)
  deriving DecidableEq

/-- Where a thread is, with its local variables. -/
inductive Pc
  | idle
  /-- Before `components_.load` of `NowWithError`. -/
  | nowStarted
  /-- Before `clock_->Now()`. -/
  | nowLoaded (current : HybridClockComponents)
  /-- Before the `compare_exchange_weak` with the physical time. -/
  | nowFast (now : PhysicalTime) (current : HybridClockComponents)
  /-- Before the `compare_exchange_weak` with the next logical value. -/
  | nowSlow (now : PhysicalTime) (current : HybridClockComponents)
  /-- Before `components_.load` of `Update`. -/
  | updateStarted (toUpdate : HybridTime)
  /-- Before the `compare_exchange_weak` of `Update`. -/
  | updateLoop (toUpdate : HybridTime) (new current : HybridClockComponents)
  | returning (result : Result)
  deriving DecidableEq

/-- The loop condition of the fast path. -/
def nextAttempt (now : PhysicalTime) (current : HybridClockComponents) : Pc :=
  if current.lastUsec < now.timePoint then .nowFast now current else .nowSlow now current

/-- The loop condition of `Update`. -/
def nextUpdate (toUpdate : HybridTime) (new current : HybridClockComponents) : Pc :=
  if current < new then .updateLoop toUpdate new current else .returning (.updated toUpdate)

/-- What the slow path returns after it has stored `new`. -/
def slowResult (now : PhysicalTime) (new : HybridClockComponents) : Result :=
  .now (decremented (fromMicrosecondsAndLogicalValue new.lastUsec new.logical))
    (((new.lastUsec : ℤ) - (now.timePoint - now.maxError)) % 2 ^ 64).toNat

variable {θ : Type}

/-- The clock and its threads. -/
structure State (θ : Type) where
  components : HybridClockComponents := {}
  pc : θ → Pc := fun _ => .idle
  crashed : Bool := false

/-- A step of a thread. -/
inductive Event (θ : Type)
  | start (thread : θ) (call : Call)
  | load (thread : θ)
  /-- A reading of the physical clock; none if it is an error. -/
  | readClock (thread : θ) (reading : Option PhysicalTime)
  /-- `compare_exchange_weak`, which may fail for no reason. -/
  | compareExchange (thread : θ) (spurious : Bool)
  | ret (thread : θ) (result : Result)
  deriving DecidableEq

namespace State

def crash (s : State θ) : State θ := { s with crashed := true }

variable [DecidableEq θ]

/-- A thread goes on, and the components change. -/
def move (s : State θ) (components : HybridClockComponents) (thread : θ) (pc : Pc) : State θ :=
  { s with components, pc := Function.update s.pc thread pc }

/-- A thread goes on. -/
def setPc (s : State θ) (thread : θ) (pc : Pc) : State θ := s.move s.components thread pc

/-- The begin of a call; `Update` returns at once if the time is not valid. -/
def startCall (s : State θ) (thread : θ) : Call → State θ
  | .nowWithError => s.setPc thread .nowStarted
  | .update toUpdate =>
    if isValid toUpdate then s.setPc thread (.updateStarted toUpdate)
    else s.setPc thread (.returning (.updated toUpdate))

/-- After `clock_->Now()`. -/
def readNow (control : SkewControl) (s : State θ) (thread : θ) (current : HybridClockComponents)
    (now : PhysicalTime) : State θ :=
  if now.timePoint < current.lastUsec then
    if control.maxClockSkewUsec < current.lastUsec - now.timePoint ∧ control.fail then s.crash
    else s.setPc thread (.nowSlow now current)
  else s.setPc thread (nextAttempt now current)

/-- After `components_.load` of `Update`. -/
def loadUpdate (s : State θ) (thread : θ) (toUpdate : HybridTime) : State θ :=
  let new : HybridClockComponents := ⟨getPhysicalValueMicros toUpdate, getLogicalValue toUpdate + 1⟩
  match new.handleLogicalComponentOverflow with
  | none => s.crash
  | some new => s.setPc thread (nextUpdate toUpdate new s.components)

/-- `compare_exchange_weak` of the fast path. -/
def exchangeFast (s : State θ) (thread : θ) (now : PhysicalTime) (current : HybridClockComponents)
    (spurious : Bool) : State θ :=
  if s.components = current ∧ ¬spurious then
    s.move ⟨now.timePoint, 1⟩ thread (.returning (.now (fromMicros now.timePoint) now.maxError))
  else s.setPc thread (nextAttempt now s.components)

/-- `compare_exchange_weak` of the slow path. -/
def exchangeSlow (s : State θ) (thread : θ) (now : PhysicalTime) (current : HybridClockComponents)
    (spurious : Bool) : State θ :=
  match HybridClockComponents.handleLogicalComponentOverflow ⟨current.lastUsec, current.logical + 1⟩
    with
  | none => s.crash
  | some new =>
    if s.components = current ∧ ¬spurious then s.move new thread (.returning (slowResult now new))
    else s.setPc thread (.nowSlow now s.components)

/-- `compare_exchange_weak` of `Update`. -/
def exchangeUpdate (s : State θ) (thread : θ) (toUpdate : HybridTime)
    (new current : HybridClockComponents) (spurious : Bool) : State θ :=
  if s.components = current ∧ ¬spurious then s.move new thread (.returning (.updated toUpdate))
  else s.setPc thread (nextUpdate toUpdate new s.components)

/-- What a step does, if it can be taken. -/
def step (control : SkewControl) (s : State θ) (e : Event θ) : Option (State θ) :=
  if s.crashed then none
  else
    match e with
    | .start thread call =>
      match s.pc thread with
      | .idle => some (s.startCall thread call)
      | _ => none
    | .load thread =>
      match s.pc thread with
      | .nowStarted => some (s.setPc thread (.nowLoaded s.components))
      | .updateStarted toUpdate => some (s.loadUpdate thread toUpdate)
      | _ => none
    | .readClock thread reading =>
      match s.pc thread with
      | .nowLoaded current =>
        match reading with
        | none => some s.crash
        | some now => some (s.readNow control thread current now)
      | _ => none
    | .compareExchange thread spurious =>
      match s.pc thread with
      | .nowFast now current => some (s.exchangeFast thread now current spurious)
      | .nowSlow now current => some (s.exchangeSlow thread now current spurious)
      | .updateLoop toUpdate new current =>
        some (s.exchangeUpdate thread toUpdate new current spurious)
      | _ => none
    | .ret thread result =>
      if s.pc thread = .returning result then some (s.setPc thread .idle) else none

def Step (control : SkewControl) (s : State θ) (e : Event θ) (s' : State θ) : Prop :=
  s.step control e = some s'

end State

end HybridClock
