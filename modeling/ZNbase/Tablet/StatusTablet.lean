import ZNbase.Lib.Run
import ZNbase.Tablet.TransactionCoordinator

/-!
# The replicas of a status tablet

The transaction coordinators of all replicas of a status tablet, with the log that they replicate.

Of consensus only what it gives to a coordinator is kept. There is one log of replicated records, of
which every replica has processed a part. One replica at a time is a leader that is ready: it serves
calls, and records are appended by it. Once it is deposed a part of what it has appended and not yet
replicated is in the log of every later leader (`depose`); the rest is lost, and reported as aborted
to the replica that has appended it. A replica becomes a leader that is ready when it has processed
everything that is replicated.

- A request is bound to the term in which it was submitted. Before it is appended it can wait in the
  queue of the preparer for any time, also until its replica is a leader again, in a later term.
  Then it is not appended, and `ProcessAborted` is called for it.
- A leader whose lease has expired processes records, and polls, as if it was none.
- `AddPending` lets in a hybrid time only when it is above those of the records before.
- Leader leases make sure that a call is served by the last leader that got ready.
-/

open HybridTime

/-- A record of the log. -/
structure StatusRecord (ι τ : Type) where
  operation : UpdateTxnOperationState ι τ
  hybridTime : HybridTime
  deriving DecidableEq

namespace StatusRecord

variable {ι τ : Type}

def state (r : StatusRecord ι τ) : TransactionStatePB ι τ := r.operation.request

end StatusRecord

structure StatusReplica (ι τ : Type) where
  /-- How many records of the log the replica has processed. -/
  applied : ℕ := 0
  managed : ManagedTransactions ι τ := fun _ => none
  /-- Requests that were submitted and not yet appended, with the term they are bound to. -/
  submitted : List (ℕ × UpdateTxnOperationState ι τ) := []
  /-- Requests that were appended and will not be replicated. -/
  lost : List (UpdateTxnOperationState ι τ) := []

structure StatusTablet (ν ι τ : Type) where
  log : List (StatusRecord ι τ) := []
  /-- What the leader has appended and not yet replicated. -/
  pending : List (StatusRecord ι τ) := []
  leader : Option ν := none
  /-- The term of the last leader that got ready. -/
  term : ℕ := 0
  replica : ν → StatusReplica ι τ := fun _ => {}
  nextNumber : ℕ := 0
  /-- The transactions for which `CREATED` was sent. -/
  created : List ι := []
  /-- The transactions and tablets for which `APPLIED_IN_ONE_OF_INVOLVED_TABLETS` was sent. -/
  confirmed : List (ι × τ) := []
  /-- The last value that was read from the clock of a replica. -/
  clock : ν → HybridTime := fun _ => kMin
  /-- The highest hybrid time lease that the leader has used. -/
  lease : HybridTime := kMin
  /-- The highest hybrid time lease that an earlier leader has used. -/
  oldLease : HybridTime := kMin

namespace StatusTablet

variable {ν ι τ : Type} [DecidableEq ν] [DecidableEq ι] [DecidableEq τ]

inductive Event (ν ι τ : Type)
  /-- A client sends a request to the leader. -/
  | handle (request : TransactionStatePB ι τ) (now : HybridTime)
  /-- The leader is asked to abort a transaction. -/
  | abort (id : ι)
  /-- The leader is asked for the status of transactions. -/
  | getStatus (ids : List ι) (now htLease : HybridTime)
  | poll (n : ν) (leading : Bool) (now : HybridTime) (ids : List ι)
  /-- The leader appends a request that was submitted, with a hybrid time. -/
  | append (number : ℕ) (hybridTime : HybridTime)
  /-- A request of a replica fails to be replicated. -/
  | fail (n : ν) (number : ℕ)
  /-- The first pending record is replicated, and processed by the leader. -/
  | commit (leading : Bool) (now : HybridTime)
  /-- A replica processes the next record, not as a leader. -/
  | apply (n : ν)
  /-- The leader loses its leadership. The first `kept` pending records are replicated by others. -/
  | depose (kept : ℕ)
  /-- A replica gets ready as the leader of a new term. -/
  | elect (n : ν)
  /-- A replica that is not the leader starts again, and processes the log from its beginning. -/
  | restart (n : ν)
  deriving DecidableEq

variable (s : StatusTablet ν ι τ)

def setReplica (n : ν) (r : StatusReplica ι τ) : StatusTablet ν ι τ :=
  { s with replica := Function.update s.replica n r }

/-- A call of the coordinator of a replica, and then what it has postponed. -/
def call (n : ν) (leading : Bool)
    (f : ManagedTransactions ι τ → PostponedLeaderActions ι τ →
      ManagedTransactions ι τ × PostponedLeaderActions ι τ) :
    StatusTablet ν ι τ × List (StatusAnswer ι) :=
  let r := s.replica n
  let (managed, acts) := f r.managed
    { leaderTerm := if leading then some s.term else none, nextNumber := s.nextNumber }
  let submitted := if acts.leader then acts.updates.map (s.term, ·) else []
  ({ s with nextNumber := acts.nextNumber }.setReplica n
      { r with managed, submitted := r.submitted ++ submitted },
    acts.answers)

def readClock (n : ν) (now : HybridTime) : StatusTablet ν ι τ :=
  { s with clock := Function.update s.clock n now }

/-- The hybrid time of the last record of a log, `LastReplicatedHybridTime` for the records that are
replicated. -/
def lastHybridTime (log : List (StatusRecord ι τ)) : HybridTime :=
  (log.getLast?.map (·.hybridTime)).getD kMin

/-- `HtLeaseExpiration`. -/
def htLeaseExpiration (htLease : HybridTime) : HybridTime :=
  max htLease (lastHybridTime s.log)

/-- The hybrid time of a request of the leader, which is invalid until the request is appended. -/
def hybridTimeOf (operation : UpdateTxnOperationState ι τ) : HybridTime :=
  ((s.pending.find? (·.operation = operation)).map (·.hybridTime)).getD kInvalid

/-- The statuses that clients send. -/
def clientStatus (request : TransactionStatePB ι τ) : Bool :=
  match request.status with
  | .created => request.transactionId ∉ s.created
  | .pending | .committed | .appliedInOneOfInvolvedTablets => true
  | .aborted | .appliedInAllInvolvedTablets => false

/-- What clients have said with a request. -/
def recordRequest (request : TransactionStatePB ι τ) :
    StatusTablet ν ι τ :=
  match request.status with
  | .created => { s with created := request.transactionId :: s.created }
  | .appliedInOneOfInvolvedTablets =>
    { s with confirmed := request.tablets.map (request.transactionId, ·) ++ s.confirmed }
  | _ => s

/-- The state after a step with the answers that it gives; `none` if the step is not possible.
`timeout` is the time after which a transaction expires. -/
def step (timeout : ℤ) (s : StatusTablet ν ι τ) :
    Event ν ι τ → Option (StatusTablet ν ι τ × List (StatusAnswer ι))
  | .handle request now =>
    s.leader.bind fun n =>
      if s.clientStatus request then
        let operation : UpdateTxnOperationState ι τ := ⟨s.nextNumber, request⟩
        let s := { (s.recordRequest request).readClock n now with nextNumber := s.nextNumber + 1 }
        some (s.call n true fun m acts => m.handle timeout now operation acts)
      else none
  | .abort id => s.leader.map fun n => s.call n true fun m acts => m.abort id acts
  | .getStatus ids now htLease =>
    s.leader.map fun n =>
      ({ s.readClock n now with lease := max s.lease (s.htLeaseExpiration htLease) },
        (s.replica n).managed.getStatus now (s.htLeaseExpiration htLease) s.hybridTimeOf ids)
  | .poll n leading now ids =>
    if leading → s.leader = some n then
      some ((s.readClock n now).call n leading fun m acts => m.poll timeout now ids acts)
    else none
  | .append number hybridTime =>
    s.leader.bind fun n =>
      ((s.replica n).submitted.find? fun x => x.1 = s.term ∧ x.2.number = number).bind fun x =>
        if lastHybridTime (s.log ++ s.pending) < hybridTime then
          let r := s.replica n
          let s : StatusTablet ν ι τ :=
            { s.readClock n hybridTime with pending := s.pending ++ [⟨x.2, hybridTime⟩] }
          some (s.setReplica n { r with submitted := r.submitted.erase x }, [])
        else none
  | .fail n number =>
    let r := s.replica n
    match r.submitted.find? fun x => x.2.number = number with
    | some x =>
      some ((s.setReplica n { r with submitted := r.submitted.erase x }).call n false
        fun m acts => m.processAborted x.2.request acts)
    | none =>
      (r.lost.find? fun x => x.number = number).map fun x =>
        (s.setReplica n { r with lost := r.lost.erase x }).call n false
          fun m acts => m.processAborted x.request acts
  | .commit leading now =>
    s.leader.bind fun n =>
      match s.pending with
      | [] => none
      | record :: pending =>
        let r := s.replica n
        let s : StatusTablet ν ι τ :=
          { s.readClock n now with log := s.log ++ [record], pending }
        some ((s.setReplica n { r with applied := r.applied + 1 }).call n leading fun m acts =>
          m.processReplicated timeout now record.state record.hybridTime acts)
  | .apply n =>
    if s.leader = some n then none
    else
      let r := s.replica n
      s.log[r.applied]?.map fun record =>
        (s.setReplica n { r with applied := r.applied + 1 }).call n false fun m acts =>
          m.processReplicated timeout kMin record.state record.hybridTime acts
  | .depose kept =>
    s.leader.map fun n =>
      let r := s.replica n
      let lost := (s.pending.drop kept).map (·.operation)
      let s : StatusTablet ν ι τ := { s with
        log := s.log ++ s.pending.take kept
        pending := []
        leader := none
        lease := kMin
        oldLease := max s.oldLease s.lease }
      (s.setReplica n { r with lost := r.lost ++ lost }, [])
  | .elect n =>
    let r := s.replica n
    if s.leader = none ∧ r.applied = s.log.length ∧ r.lost = [] then
      some ({ s with leader := some n, term := s.term + 1 }, [])
    else none
  | .restart n => if s.leader = some n then none else some (s.setReplica n {}, [])

def Step (timeout : ℤ) (s : StatusTablet ν ι τ) (e : Event ν ι τ) (s' : StatusTablet ν ι τ) :
    Prop :=
  ∃ answers, s.step timeout e = some (s', answers)

end StatusTablet
