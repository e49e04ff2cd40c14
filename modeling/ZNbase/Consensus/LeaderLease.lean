import ZNbase.Consensus.Messages

/-!
# Leader leases

`LeaseData` of `consensus/leader_lease.h`: the expiration of a lease and who holds it. A lease over
`CoarseTimePoint` bounds a real time interval, a lease over `MicrosTime` a range of hybrid times.
An empty `holder_uuid` is `none`.
-/

/-- A lease with its holder. -/
structure LeaseData (ι τ : Type*) where
  holderUuid : Option ι
  expiration : τ
  deriving DecidableEq

namespace LeaseData

variable {ι τ : Type*}

/-- The lease that nobody holds. -/
def none (noneValue : τ) : LeaseData ι τ := ⟨.none, noneValue⟩

/-- Takes the other lease over if it expires later. -/
def tryUpdate [LT τ] [DecidableLT τ] (l rhs : LeaseData ι τ) : LeaseData ι τ :=
  if l.expiration < rhs.expiration then rhs else l

end LeaseData

/-- `CoarseTimeLease`. -/
abbrev CoarseTimeLease (ι : Type*) := LeaseData ι CoarseTimePoint

/-- `PhysicalComponentLease`. -/
abbrev PhysicalComponentLease (ι : Type*) := LeaseData ι MicrosTime

/-- `CoarseTimeLease` without a holder. -/
def CoarseTimeLease.none {ι : Type*} : CoarseTimeLease ι := LeaseData.none CoarseTimePoint.min

/-- `PhysicalComponentLease` without a holder. -/
def PhysicalComponentLease.none {ι : Type*} : PhysicalComponentLease ι := LeaseData.none 0

/-- `LeaderLeaseStatus`. -/
inductive LeaderLeaseStatus
  | hasLease
  | oldLeaderMayHaveLease
  | noMajorityReplicatedLease
  deriving DecidableEq
