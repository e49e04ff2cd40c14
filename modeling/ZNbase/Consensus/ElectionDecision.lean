import ZNbase.Consensus.LeaderElection
import ZNbase.Lib.Run

/-!
# How an election is decided

`LeaderElection` of `consensus/leader_election.cc` with the threads that run it. The callback of a
reply holds the lock twice: it counts the reply (`VoteResponseRpcCallback`), and then it looks for a
decision (`CheckForDecision`). Other callbacks run in between, so an election can be decided for a
while before it has responded.

- `Running` is an election with `has_responded_`, where `Run` and the callbacks are, and what the
  decision callback was called with. `counted` are the replies that were looked at, in order.
- A reply that arrives after the response is not looked at.
- `decision_of_run`: once `Run` and all callbacks are done, the decision callback has run once. The
  election was won if and only if a majority of grants and no higher term was among the replies that
  were looked at, and the leases are the latest ones of the grants.
- A higher term that is counted between a majority and the check for it cancels the election.
-/

open List

/-! ## The latest of some leases -/

namespace LeaseData

variable {ι τ : Type*} [LinearOrder τ] {l : LeaseData ι τ} {ls : List (LeaseData ι τ)}

/-- The lease is one of a list, or the one for none, and no lease of the list expires later. -/
structure IsLatest (noLease l : LeaseData ι τ) (ls : List (LeaseData ι τ)) : Prop where
  mem : l = noLease ∨ l ∈ ls
  le : ∀ l' ∈ ls, l'.expiration ≤ l.expiration
  noLease_le : noLease.expiration ≤ l.expiration

lemma isLatest_nil (l : LeaseData ι τ) : IsLatest l l [] := ⟨.inl rfl, by simp, le_rfl⟩

/-- The later of two leases is kept. -/
lemma IsLatest.tryUpdate {noLease : LeaseData ι τ} (h : IsLatest noLease l ls)
    (rhs : LeaseData ι τ) :
    IsLatest noLease (l.tryUpdate rhs) (ls ++ [rhs]) := by
  rw [LeaseData.tryUpdate]
  split_ifs with hlt
  · refine ⟨.inr (by simp), ?_, h.noLease_le.trans hlt.le⟩
    intro l' hl'
    rcases mem_append.1 hl' with hold | hnew
    · exact (h.le l' hold).trans hlt.le
    · rw [mem_singleton.1 hnew]
  · refine ⟨h.mem.imp_right (mem_append_left _), ?_, h.noLease_le⟩
    intro l' hl'
    rcases mem_append.1 hl' with hold | hnew
    · exact h.le l' hold
    · rw [mem_singleton.1 hnew]
      exact not_lt.1 hlt

end LeaseData

/-! ## The threads of an election -/

/-- A reply to the call of a voter, with the time at which it is looked at. `none` is a call that
failed. -/
structure VoteReply (ι : Type*) where
  voter : ι
  response : Option (VoteResponse ι)
  now : CoarseTimePoint
  deriving DecidableEq

/-- The voter has replied and does not know of pre-elections, and this is one. -/
def VoteReply.lacksPreelection {ι : Type*} (reply : VoteReply ι) (request : VoteRequest ι) : Bool :=
  request.preelection && reply.response.any fun r => !r.preelection

/-- `ElectionResult`, the argument of the decision callback. -/
structure ElectionResult (ι : Type*) where
  decision : ElectionVote
  higherTerm : Option ℕ
  preelectionsNotSupportedByUuid : Option ι
  oldLeaderLease : CoarseTimeLease ι
  oldLeaderHtLease : PhysicalComponentLease ι
  deriving DecidableEq

namespace LeaderElection

variable {ι : Type*} [DecidableEq ι]

/-- `HandleHigherTermUnlocked`. -/
def handleHigherTerm (e : LeaderElection ι) (r : VoteResponse ι) : LeaderElection ι :=
  if e.decision = none then
    { e with decision := some .denied, higherTerm := some r.responderTerm }
  else e

/-- `HandleVoteDeniedUnlocked`, in an election that may be decided. -/
def handleVoteDeniedUnlocked (e : LeaderElection ι) (voter : ι) (r : VoteResponse ι) :
    LeaderElection ι :=
  if e.consensusTerm < r.responderTerm then e.handleHigherTerm r else e.recordVote voter .denied

/-- The part of `VoteResponseRpcCallback` that looks at the reply. -/
def countReplyUnlocked (e : LeaderElection ι) (reply : VoteReply ι) : LeaderElection ι :=
  match reply.response with
  | none => e.recordVote reply.voter .denied
  | some r =>
    if e.request.preelection ∧ ¬r.preelection then e.handleVoteDeniedUnlocked reply.voter r
    else if r.voteGranted then e.handleVoteGranted reply.voter r reply.now
    else e.handleVoteDeniedUnlocked reply.voter r

/-- An election with the threads that run it. -/
structure Running (ι : Type*) where
  election : LeaderElection ι
  /-- A voter that does not know of pre-elections. -/
  preelectionsNotSupportedByUuid : Option ι := none
  hasResponded : Bool := false
  /-- What the decision callback was called with. -/
  results : List (ElectionResult ι) := []
  /-- The voters that `Run` has still to ask; `none` before its check for a decision. -/
  toAsk : Option (List ι) := none
  /-- The voters that were asked and have not replied. -/
  waiting : List ι := []
  /-- The voters whose replies are counted and whose callbacks have still to check for a
  decision. -/
  checking : List ι := []
  /-- The replies that were looked at. -/
  counted : List (VoteReply ι) := []

/-- What the threads of an election do. -/
inductive RunningEvent (ι : Type*)
  | runChecks
  | runAsks
  | countReply (reply : VoteReply ι)
  | check (voter : ι)
  deriving DecidableEq

namespace Running

/-- An election that is about to run: the candidate has voted for itself. -/
def init (request : VoteRequest ι) (data : LeaderElectionData) (voters : List ι) : Running ι where
  election :=
    { request := request
      data := data
      counter :=
        ({ numVoters := voters.length, majoritySize := majoritySize voters.length } :
          VoteCounter ι).registerVote request.candidateUuid .granted }

/-- The result that is passed to the decision callback. -/
def result (x : Running ι) (decision : ElectionVote) : ElectionResult ι where
  decision := decision
  higherTerm := x.election.higherTerm
  preelectionsNotSupportedByUuid := x.preelectionsNotSupportedByUuid
  oldLeaderLease := x.election.oldLeaderLease
  oldLeaderHtLease := x.election.oldLeaderHtLease

/-- `CheckForDecision`. -/
def checkForDecision (x : Running ι) : Running ι :=
  let e := x.election.checkForDecision
  match e.decision with
  | none => x
  | some d =>
    if x.hasResponded then { x with election := e }
    else { x with election := e, hasResponded := true, results := x.results ++ [x.result d] }

/-- A step of one of the threads, in an election with these voters. -/
def step (voters : List ι) (x : Running ι) : RunningEvent ι → Option (Running ι)
  | .runChecks =>
    if x.toAsk = none then
      some { x.checkForDecision with
        toAsk := some (voters.filter (· ≠ x.election.request.candidateUuid)) }
    else none
  | .runAsks =>
    match x.toAsk with
    | some (v :: rest) =>
      -- an election that is decided asks no more voters
      if x.election.decision ≠ none then some { x with toAsk := some [] }
      else some { x with toAsk := some rest, waiting := v :: x.waiting }
    | _ => none
  | .countReply reply =>
    if reply.voter ∈ x.waiting then
      let x := { x with waiting := x.waiting.erase reply.voter }
      if x.hasResponded then some x
      else
        some { x with
          election := x.election.countReplyUnlocked reply
          preelectionsNotSupportedByUuid :=
            if reply.lacksPreelection x.election.request then some reply.voter
            else x.preelectionsNotSupportedByUuid
          checking := reply.voter :: x.checking
          counted := x.counted ++ [reply] }
    else none
  | .check v =>
    if v ∈ x.checking then some { x.checkForDecision with checking := x.checking.erase v }
    else none

/-- `Run` and all callbacks are done. -/
def Done (x : Running ι) : Prop := x.toAsk = some [] ∧ x.waiting = [] ∧ x.checking = []

end Running

end LeaderElection

/-! ## What the replies say -/

/-- What a reply counts as. -/
inductive VoteOutcome (ι : Type*)
  | granted (r : VoteResponse ι)
  | denied
  | higherTerm (term : ℕ)
  deriving DecidableEq

namespace VoteReply

variable {ι : Type*}

variable (request : VoteRequest ι)

variable (reply : VoteReply ι)

/-- What a reply counts as. In a pre-election, a voter that does not know of pre-elections grants
nothing. -/
def outcome : VoteOutcome ι :=
  match reply.response with
  | none => .denied
  | some r =>
    if r.voteGranted ∧ ¬(request.preelection ∧ ¬r.preelection) then .granted r
    else if (if request.preelection then request.candidateTerm - 1 else request.candidateTerm)
        < r.responderTerm then .higherTerm r.responderTerm
    else .denied

def isGrant : Bool :=
  match reply.outcome request with
  | .granted _ => true
  | _ => false

def isHigherTerm : Bool :=
  match reply.outcome request with
  | .higherTerm _ => true
  | _ => false

/-- The vote that is registered for a reply. -/
def vote? : Option (ι × ElectionVote) :=
  match reply.outcome request with
  | .granted _ => some (reply.voter, .granted)
  | .denied => some (reply.voter, .denied)
  | .higherTerm _ => none

/-- The lease of an old leader that comes with a grant. -/
def lease? : Option (CoarseTimeLease ι) :=
  match reply.outcome request with
  | .granted r =>
    r.remainingLeaderLeaseDurationMs.map fun ms => ⟨r.leaderLeaseUuid, reply.now + ms * nsPerMs⟩
  | _ => none

/-- The hybrid time lease of an old leader that comes with a grant. -/
def htLease? : Option (PhysicalComponentLease ι) :=
  match reply.outcome request with
  | .granted r => r.leaderHtLeaseExpiration.map fun expiration => ⟨r.leaderHtLeaseUuid, expiration⟩
  | _ => none

lemma voter_of_vote? {request : VoteRequest ι} {reply : VoteReply ι} {vote : ι × ElectionVote}
    (h : reply.vote? request = some vote) : vote.1 = reply.voter := by
  rw [vote?] at h
  cases hout : reply.outcome request with
  | granted r | denied =>
    rw [hout] at h
    rw [← Option.some.inj h]
  | higherTerm term => simp [hout] at h

end VoteReply

/-! ## The votes and leases of the replies -/

namespace VoteCounter

variable {ι : Type*} {c : VoteCounter ι}

/-- Every vote is counted as one of the two. -/
lemma yesVotes_add_noVotes : c.yesVotes + c.noVotes = c.votes.length := by
  rw [c.votes.length_eq_countP_add_countP fun v => v.2 = .granted]
  congr 1
  refine countP_congr fun v _ => ?_
  cases v.2 <;> simp

end VoteCounter

namespace LeaderElection

variable {ι : Type*} [DecidableEq ι] {request : VoteRequest ι} {voters : List ι}
  {counted : List (VoteReply ι)} {reply : VoteReply ι} {e : LeaderElection ι}

/-- How a reply is counted, by what it says. -/
lemma countReplyUnlocked_eq (e : LeaderElection ι) (reply : VoteReply ι) :
    e.countReplyUnlocked reply =
      match reply.outcome e.request with
      | .granted r => e.handleVoteGranted reply.voter r reply.now
      | .denied => e.recordVote reply.voter .denied
      | .higherTerm term =>
        if e.decision = none then { e with decision := some .denied, higherTerm := some term }
        else e := by
  rw [countReplyUnlocked, VoteReply.outcome]
  cases reply.response with
  | none => rfl
  | some r =>
    dsimp only
    by_cases hpre : e.request.preelection ∧ ¬r.preelection
    · rw [if_pos hpre, if_neg fun h => h.2 hpre, handleVoteDeniedUnlocked, consensusTerm,
        handleHigherTerm]
      split_ifs <;> rfl
    · by_cases hgrant : r.voteGranted
      · rw [if_neg hpre, if_pos hgrant, if_pos ⟨hgrant, hpre⟩]
      · rw [if_neg hpre, if_neg hgrant, if_neg fun h => hgrant h.1, handleVoteDeniedUnlocked,
          consensusTerm, handleHigherTerm]
        split_ifs <;> rfl

/-- What an election has counted are the replies it has looked at and the vote of the candidate. -/
structure Tally (request : VoteRequest ι) (voters : List ι) (counted : List (VoteReply ι))
    (e : LeaderElection ι) : Prop where
  request_eq : e.request = request
  numVoters : e.counter.numVoters = voters.length
  majority : e.counter.majoritySize = majoritySize voters.length
  votes : e.counter.votes =
    (request.candidateUuid, .granted) :: counted.filterMap (VoteReply.vote? request)
  lease : LeaseData.IsLatest CoarseTimeLease.none e.oldLeaderLease
    (counted.filterMap (VoteReply.lease? request))
  htLease : LeaseData.IsLatest PhysicalComponentLease.none e.oldLeaderHtLease
    (counted.filterMap (VoteReply.htLease? request))

/-- An election is decided for what its counter says, or a higher term has ended it. -/
def Open (request : VoteRequest ι) (counted : List (VoteReply ι)) (e : LeaderElection ι) : Prop :=
  e.decision = none ∧ (∀ reply ∈ counted, ¬reply.isHigherTerm request) ∨
    e.decision = some .denied ∧ ∃ reply ∈ counted, reply.isHigherTerm request

/-- The result is the one of the replies that were looked at. -/
structure Decides (request : VoteRequest ι) (voters : List ι)
    (counted : List (VoteReply ι)) (result : ElectionResult ι) : Prop where
  granted_iff : result.decision = .granted ↔
    (∀ reply ∈ counted, ¬reply.isHigherTerm request) ∧
      majoritySize voters.length ≤ 1 + counted.countP (VoteReply.isGrant request)
  lease : LeaseData.IsLatest CoarseTimeLease.none result.oldLeaderLease
    (counted.filterMap (VoteReply.lease? request))
  htLease : LeaseData.IsLatest PhysicalComponentLease.none result.oldLeaderHtLease
    (counted.filterMap (VoteReply.htLease? request))

namespace Tally

section

variable (h : Tally request voters counted e)

include h

/-- A new voter is registered. -/
lemma registerVote (hvoters : voters.Nodup)
    (hd : (request.candidateUuid :: (counted ++ [reply]).map (·.voter)).Subperm voters)
    (vote : ElectionVote) :
    e.counter.registerVote reply.voter vote =
      { e.counter with votes := e.counter.votes ++ [(reply.voter, vote)] } := by
  -- it has not voted before
  have hnew : reply.voter ∉ e.counter.votes.map (·.1) := by
    intro hmem
    have hold : reply.voter ∈ request.candidateUuid :: counted.map (·.voter) := by
      rw [h.votes] at hmem
      refine mem_cons.2 ((mem_cons.1 hmem).imp_right ?_)
      simp only [mem_map, mem_filterMap]
      rintro ⟨vote, ⟨other, hoth, hvote⟩, hvoter⟩
      exact ⟨other, hoth, (VoteReply.voter_of_vote? hvote).symm.trans hvoter⟩
    obtain ⟨l, hperm, hsub⟩ := hd
    have hndp := hperm.nodup_iff.1 (hvoters.sublist hsub)
    rw [map_append, ← cons_append, nodup_append] at hndp
    exact hndp.2.2 _ hold _ (by simp) rfl
  -- and there is room for its vote
  have hroom : e.counter.yesVotes + e.counter.noVotes ≠ e.counter.numVoters := by
    have hlen := hd.length_le
    rw [length_cons, length_map] at hlen
    have hle := length_filterMap_le (VoteReply.vote? request) counted
    rw [VoteCounter.yesVotes_add_noVotes, h.votes, h.numVoters]
    simp only [length_cons, length_append] at hlen ⊢
    omega
  rw [VoteCounter.registerVote, if_neg hnew, if_neg hroom]

/-- An election counts the reply of a new voter. -/
lemma countReplyUnlocked (hvoters : voters.Nodup)
    (hd : (request.candidateUuid :: (counted ++ [reply]).map (·.voter)).Subperm voters) :
    Tally request voters (counted ++ [reply]) (e.countReplyUnlocked reply) := by
  -- the voter was not counted before, so that its vote is
  have hrec (vote : ElectionVote) := h.registerVote hvoters hd vote
  obtain rfl := h.request_eq
  cases hout : reply.outcome e.request with
  | granted r =>
    rw [countReplyUnlocked_eq, hout]
    refine ⟨h.request_eq, ?_, ?_, ?_, ?_, ?_⟩
    · simp only [handleVoteGranted, recordVote, hrec, h.numVoters]
    · simp only [handleVoteGranted, recordVote, hrec, h.majority]
    · simp only [handleVoteGranted, recordVote, hrec, h.votes]
      simp [VoteReply.vote?, hout]
    · cases hms : r.remainingLeaderLeaseDurationMs with
      | none => simpa [handleVoteGranted, recordVote, VoteReply.lease?, hout, hms] using h.lease
      | some ms =>
        simpa [handleVoteGranted, recordVote, VoteReply.lease?, hout, hms]
          using h.lease.tryUpdate ⟨r.leaderLeaseUuid, reply.now + ms * nsPerMs⟩
    · cases hms : r.leaderHtLeaseExpiration with
      | none => simpa [handleVoteGranted, recordVote, VoteReply.htLease?, hout, hms] using h.htLease
      | some ms =>
        simpa [handleVoteGranted, recordVote, VoteReply.htLease?, hout, hms]
          using h.htLease.tryUpdate ⟨r.leaderHtLeaseUuid, ms⟩
  | denied =>
    rw [countReplyUnlocked_eq, hout]
    refine ⟨h.request_eq, ?_, ?_, ?_, ?_, ?_⟩
    · rw [recordVote, hrec, h.numVoters]
    · rw [recordVote, hrec, h.majority]
    · rw [recordVote, hrec, h.votes]
      simp [VoteReply.vote?, hout]
    · simpa [recordVote, VoteReply.lease?, hout] using h.lease
    · simpa [recordVote, VoteReply.htLease?, hout] using h.htLease
  | higherTerm term =>
    -- a higher term is neither a vote nor a lease
    have hsame : Tally e.request voters (counted ++ [reply]) e :=
      ⟨h.request_eq, h.numVoters, h.majority, by simpa [VoteReply.vote?, hout] using h.votes,
        by simpa [VoteReply.lease?, hout] using h.lease,
        by simpa [VoteReply.htLease?, hout] using h.htLease⟩
    rw [countReplyUnlocked_eq, hout]
    split_ifs
    · exact ⟨hsame.request_eq, hsame.numVoters, hsame.majority, hsame.votes, hsame.lease,
        hsame.htLease⟩
    · exact hsame

section

omit [DecidableEq ι]

/-- The candidate's own vote, and those that are granted. -/
lemma yesVotes : e.counter.yesVotes = 1 + counted.countP (VoteReply.isGrant request) := by
  rw [VoteCounter.yesVotes, h.votes, countP_cons_of_pos (by simp), countP_filterMap, Nat.add_comm]
  congr 1
  refine countP_congr fun reply _ => ?_
  simp only [VoteReply.vote?, VoteReply.isGrant]
  cases reply.outcome request <;> simp

/-- If nobody has replied with a higher term, then every reply is counted. -/
lemma length_votes (hterm : ∀ reply ∈ counted, ¬reply.isHigherTerm request) :
    e.counter.votes.length = counted.length + 1 := by
  rw [h.votes, length_cons, length_filterMap_eq_countP, countP_eq_length.2]
  intro reply hreply
  have hnot := hterm reply hreply
  simp only [VoteReply.vote?, VoteReply.isHigherTerm] at hnot ⊢
  cases hout : reply.outcome request <;> simp_all

/-- The election is won with a majority. -/
lemma getDecision_eq_granted_iff : e.counter.getDecision = some .granted ↔
      majoritySize voters.length ≤ 1 + counted.countP (VoteReply.isGrant request) := by
  rw [VoteCounter.getDecision, h.majority, h.yesVotes]
  split_ifs <;> simp_all

/-- A check for a decision finds the one of the replies. -/
lemma decides (hopen : Open request counted e)
    {d : ElectionVote} (hdec : e.checkForDecision.decision = some d) {result : ElectionResult ι}
    (hres : result.decision = d) (hlease : result.oldLeaderLease = e.oldLeaderLease)
    (hhtLease : result.oldLeaderHtLease = e.oldLeaderHtLease) :
    Decides request voters counted result := by
  refine ⟨?_, hlease ▸ h.lease, hhtLease ▸ h.htLease⟩
  rw [hres]
  rcases hopen with ⟨hnone, hterm⟩ | ⟨hden, reply, hreply, hhigher⟩
  · have hget : e.counter.getDecision = some d := by
      rw [checkForDecision, if_pos hnone] at hdec
      cases hc : e.counter.getDecision with
      | none => simp [hc, hnone] at hdec
      | some d' => simpa [hc] using hdec
    rw [← h.getDecision_eq_granted_iff, hget]
    exact ⟨fun hd => ⟨hterm, congrArg some hd⟩, fun hd => Option.some.inj hd.2⟩
  · -- a higher term has ended the election, whatever the counter says
    have hd : d = .denied := by
      rw [checkForDecision, if_neg (by simp [hden]), hden] at hdec
      exact Option.some.inj hdec.symm
    refine ⟨fun hg => ?_, fun hall => absurd hhigher (hall.1 reply hreply)⟩
    rw [hd] at hg
    cases hg

/-- Once all voters have replied, there is a decision. -/
lemma getDecision_ne_none (hterm : ∀ reply ∈ counted, ¬reply.isHigherTerm request)
    (hall : voters.length ≤ counted.length + 1) : e.counter.getDecision ≠ none := by
  have hsum := h.length_votes hterm
  rw [← VoteCounter.yesVotes_add_noVotes] at hsum
  have hmaj := h.majority
  have hnum := h.numVoters
  rw [majoritySize] at hmaj
  rw [VoteCounter.getDecision]
  split_ifs with hyes hno
  · simp
  · simp
  · omega

/-- A decision is recorded. -/
lemma checkForDecision : Tally request voters counted e.checkForDecision := by
  rw [LeaderElection.checkForDecision]
  split_ifs
  · cases e.counter.getDecision
    · exact h
    · exact ⟨h.request_eq, h.numVoters, h.majority, h.votes, h.lease, h.htLease⟩
  · exact h

end

end

end Tally

omit [DecidableEq ι] in
/-- If there is still no decision, there was nothing to decide. -/
lemma decision_of_checkForDecision (h : e.checkForDecision.decision = none) :
    e.checkForDecision = e ∧ e.decision = none ∧ e.counter.getDecision = none := by
  by_cases hnone : e.decision = none
  · cases hget : e.counter.getDecision with
    | none => simp [LeaderElection.checkForDecision, hnone, hget]
    | some d => simp [LeaderElection.checkForDecision, hnone, hget] at h
  · simp [LeaderElection.checkForDecision, hnone] at h

/-- A reply keeps an election open. -/
lemma Open.countReplyUnlocked (h : Open e.request counted e) :
    Open e.request (counted ++ [reply]) (e.countReplyUnlocked reply) := by
  -- only a higher term decides at once
  have hdec : (e.countReplyUnlocked reply).decision =
      if reply.isHigherTerm e.request ∧ e.decision = none then some .denied else e.decision := by
    rw [countReplyUnlocked_eq, VoteReply.isHigherTerm]
    cases reply.outcome e.request with
    | granted r => simp [handleVoteGranted, recordVote]
    | denied => simp [recordVote]
    | higherTerm term => by_cases hnone : e.decision = none <;> simp [hnone]
  rw [Open, hdec]
  by_cases hterm : reply.isHigherTerm e.request
  · refine .inr ⟨?_, reply, by simp, hterm⟩
    rcases h with ⟨hnone, -⟩ | ⟨hden, -⟩
    · rw [if_pos ⟨hterm, hnone⟩]
    · rw [if_neg (by simp [hden]), hden]
  · rw [if_neg fun h => hterm h.1]
    refine h.imp (fun ⟨hnone, hall⟩ => ⟨hnone, ?_⟩)
      fun ⟨hden, other, hoth, hhigher⟩ =>
        ⟨hden, other, mem_append_left _ hoth, hhigher⟩
    intro other hoth
    rcases mem_append.1 hoth with hold | hnew
    · exact hall other hold
    · rwa [mem_singleton.1 hnew]

/-! ## The threads -/

namespace Running

variable {x x' : Running ι} {event : RunningEvent ι} {data : LeaderElectionData}

/-- The candidate, the voters whose replies were looked at, and those that were or are to be
asked. -/
def members (candidate : ι) (voters : List ι) (x : Running ι) : List ι :=
  candidate ::
    (x.counted.map (·.voter) ++ (x.waiting ++ x.toAsk.getD (voters.filter (· ≠ candidate))))

/-- What holds while an election runs. -/
structure Inv (request : VoteRequest ι) (voters : List ι) (x : Running ι) : Prop where
  tally : Tally request voters x.counted x.election
  distinct : (x.members request.candidateUuid voters).Subperm voters
  /-- Voters are passed over only if the election is decided. -/
  all : x.election.decision = none → voters.length ≤ (x.members request.candidateUuid voters).length
  isOpen : x.hasResponded = false → Open request x.counted x.election ∧ x.results = []
  /-- Where there is a decision and no response, a thread has still to check. -/
  checked : x.hasResponded = false → x.toAsk ≠ none → x.checking = [] →
    x.election.decision = none ∧ x.election.counter.getDecision = none
  responded : x.hasResponded = true → x.election.decision ≠ none ∧
    ∃ result, x.results = [result] ∧ Decides request voters x.counted result

/-- At first every other voter is to be asked. -/
lemma members_init (hvoters : voters.Nodup) (hcand : request.candidateUuid ∈ voters) :
    ((init request data voters).members request.candidateUuid voters).Perm voters := by
  have hfilter : voters.filter (· ≠ request.candidateUuid) =
      voters.erase request.candidateUuid := by
    rw [hvoters.erase_eq_filter]
    exact filter_congr fun v _ => decide_not.trans rfl
  simp only [members, hfilter]
  exact (perm_cons_erase hcand).symm

/-- The invariant holds at first. -/
lemma inv_init (hvoters : voters.Nodup) (hcand : request.candidateUuid ∈ voters) :
    Inv request voters (init request data voters) := by
  have hcounter : (init request data voters).election.counter =
      { numVoters := voters.length, majoritySize := majoritySize voters.length,
        votes := [(request.candidateUuid, .granted)] } := by
    have hroom : 0 ≠ voters.length := (length_pos_of_mem hcand).ne
    simp [init, VoteCounter.registerVote, VoteCounter.yesVotes, VoteCounter.noVotes, hroom]
  have hmem : ((init request data voters).members request.candidateUuid voters).Perm voters :=
    members_init hvoters hcand
  refine ⟨⟨rfl, ?_, ?_, ?_, LeaseData.isLatest_nil _, LeaseData.isLatest_nil _⟩, hmem.subperm,
    fun _ => hmem.length_eq.ge, fun _ => ⟨.inl ⟨rfl, by simp [init]⟩, rfl⟩, ?_, ?_⟩
  · rw [hcounter]
  · rw [hcounter]
  · rw [hcounter]
    rfl
  · exact fun _ hrun => absurd rfl hrun
  · rintro ⟨⟩

/-- A reply does not take a decision back. -/
lemma decision_countReplyUnlocked (h : (e.countReplyUnlocked reply).decision = none) :
    e.decision = none := by
  rw [countReplyUnlocked_eq] at h
  cases hout : reply.outcome e.request with
  | granted r => simpa [hout, handleVoteGranted, recordVote] using h
  | denied => simpa [hout, recordVote] using h
  | higherTerm term =>
    rw [hout] at h
    split_ifs at h
    exact h

omit [DecidableEq ι] in
/-- What a check for a decision does. -/
lemma checkForDecision_cases (x : Running ι) :
    x.election.decision = none ∧ x.election.counter.getDecision = none ∧ x.checkForDecision = x ∨
    x.hasResponded = true ∧
      x.checkForDecision = { x with election := x.election.checkForDecision } ∨
    x.hasResponded = false ∧ ∃ d, x.election.checkForDecision.decision = some d ∧
      x.checkForDecision =
        { x with
          election := x.election.checkForDecision
          hasResponded := true
          results := x.results ++ [x.result d] } := by
  rw [checkForDecision]
  cases hdec : x.election.checkForDecision.decision with
  | none =>
    obtain ⟨-, hnone, hget⟩ := decision_of_checkForDecision hdec
    exact .inl ⟨hnone, hget, rfl⟩
  | some d =>
    cases hresp : x.hasResponded with
    | true => exact .inr (.inl ⟨rfl, rfl⟩)
    | false => exact .inr (.inr ⟨rfl, d, rfl, rfl⟩)

omit [DecidableEq ι] in
lemma decision_checkForDecision (h : x.election.checkForDecision.decision = none) :
    x.election.decision = none := (decision_of_checkForDecision h).2.1

/-- The last step of a callback keeps the invariant. -/
lemma Inv.checkForDecision (h : Inv request voters x) : Inv request voters x.checkForDecision := by
  rcases checkForDecision_cases x with ⟨-, -, heq⟩ | ⟨hresp, heq⟩ | ⟨hresp, d, hdec, heq⟩
  · rwa [heq]
  · rw [heq]
    have hfalse {p : Prop} (hr : x.hasResponded = false) : p := by simp [hresp] at hr
    exact ⟨h.tally.checkForDecision, h.distinct, fun hnone =>
      h.all (decision_checkForDecision hnone),
      hfalse, hfalse, fun hr =>
        ⟨fun hnone => (h.responded hr).1 (decision_checkForDecision hnone), (h.responded hr).2⟩⟩
  · obtain ⟨hopen, hnil⟩ := h.isOpen hresp
    rw [heq]
    refine ⟨h.tally.checkForDecision, h.distinct,
      fun hnone => h.all (decision_checkForDecision hnone), ?_, ?_, fun _ => ⟨by simp [hdec], ?_⟩⟩
    · rintro ⟨⟩
    · rintro ⟨⟩
    · exact ⟨x.result d, by simp [hnil], h.tally.decides hopen hdec rfl rfl rfl⟩

omit [DecidableEq ι] in
/-- An election that has not responded to a check is not decided. -/
lemma undecided_of_checkForDecision (h : x.checkForDecision.hasResponded = false) :
    x.checkForDecision.election.decision = none ∧
      x.checkForDecision.election.counter.getDecision = none := by
  rcases checkForDecision_cases x with ⟨hnone, hget, heq⟩ | ⟨hresp, heq⟩ | ⟨-, d, -, heq⟩
  · rw [heq]
    exact ⟨hnone, hget⟩
  · rw [heq] at h
    simp [hresp] at h
  · rw [heq] at h
    cases h

omit [DecidableEq ι] in
/-- A check leaves the threads where they are. -/
lemma checkForDecision_threads (x : Running ι) :
    x.checkForDecision.toAsk = x.toAsk ∧ x.checkForDecision.checking = x.checking := by
  rcases checkForDecision_cases x with ⟨-, -, heq⟩ | ⟨-, heq⟩ | ⟨-, d, -, heq⟩ <;>
    rw [heq] <;> exact ⟨rfl, rfl⟩

/-- The threads move, and the election does not. -/
lemma Inv.moves (h : Inv request voters x) (toAsk : Option (List ι)) (waiting checking : List ι)
    (hmem : (Running.members request.candidateUuid voters
      { x with toAsk := toAsk, waiting := waiting, checking := checking }).Subperm
        (x.members request.candidateUuid voters))
    (hall : x.election.decision = none → (x.members request.candidateUuid voters).length ≤
      (Running.members request.candidateUuid voters
        { x with toAsk := toAsk, waiting := waiting, checking := checking }).length)
    (hchk : x.hasResponded = false → toAsk ≠ none → checking = [] →
      x.election.decision = none ∧ x.election.counter.getDecision = none) :
    Inv request voters { x with toAsk := toAsk, waiting := waiting, checking := checking } :=
  ⟨h.tally, hmem.trans h.distinct, fun hnone => (h.all hnone).trans (hall hnone), h.isOpen, hchk,
    h.responded⟩

/-- The reply of a voter is looked at. -/
lemma Inv.countReply (hvoters : voters.Nodup) (h : Inv request voters x)
    (hwait : reply.voter ∈ x.waiting) (hresp : x.hasResponded = false) (unsupported : Option ι) :
    Inv request voters
      { x with
        election := x.election.countReplyUnlocked reply
        preelectionsNotSupportedByUuid := unsupported
        waiting := x.waiting.erase reply.voter
        checking := reply.voter :: x.checking
        counted := x.counted ++ [reply] } := by
  set y : Running ι := { x with
    election := x.election.countReplyUnlocked reply
    preelectionsNotSupportedByUuid := unsupported
    waiting := x.waiting.erase reply.voter
    checking := reply.voter :: x.checking
    counted := x.counted ++ [reply] } with hy
  -- a voter that was waited for is now among those that are counted
  have hperm :
      (y.members request.candidateUuid voters).Perm (x.members request.candidateUuid voters) := by
    refine List.Perm.cons _ ?_
    rw [map_append, append_assoc]
    refine List.Perm.append_left _ ?_
    exact (perm_cons_erase hwait).symm.append_right _
  have hdist := hperm.subperm.trans h.distinct
  have hcnt : (request.candidateUuid :: (x.counted ++ [reply]).map (·.voter)).Subperm voters :=
    ((sublist_append_left _ _).cons_cons _).subperm.trans hdist
  -- the election is open, or denied by a higher term
  have hopen : Open request (x.counted ++ [reply]) (x.election.countReplyUnlocked reply) := by
    have hopen := (h.isOpen hresp).1
    rw [← h.tally.request_eq] at hopen ⊢
    exact hopen.countReplyUnlocked
  refine ⟨h.tally.countReplyUnlocked hvoters hcnt, hdist, fun hnone => ?_,
    fun _ => ⟨hopen, (h.isOpen hresp).2⟩, fun _ _ hnil => ?_, fun htrue => ?_⟩
  · rw [hperm.length_eq]
    exact h.all (decision_countReplyUnlocked hnone)
  · cases hnil
  · cases hresp.symm.trans htrue

/-- Every event keeps the invariant. -/
lemma Inv.step (hvoters : voters.Nodup) (h : Inv request voters x)
    (hstep : x.step voters event = some x') : Inv request voters x' := by
  obtain ⟨hask, hchecking⟩ := checkForDecision_threads x
  cases event with
  | runChecks =>
    rw [Running.step] at hstep
    split_ifs at hstep with hnone
    cases hstep
    rw [h.tally.request_eq]
    -- from now on the others are to be asked
    have hsame : Running.members request.candidateUuid voters
        { x.checkForDecision with toAsk := some (voters.filter (· ≠ request.candidateUuid)) } =
          x.checkForDecision.members request.candidateUuid voters := by
      rw [members, members, hask, hnone]
      rfl
    exact h.checkForDecision.moves _ _ _ (hsame ▸ List.Subperm.refl _) (fun _ => hsame ▸ le_rfl)
      fun hresp _ _ => undecided_of_checkForDecision hresp
  | runAsks =>
    rw [Running.step] at hstep
    split at hstep
    · rename_i v rest hrest
      split_ifs at hstep with hdec
      · cases hstep
        -- the rest need not be asked after a decision
        refine h.moves _ _ _ ?_ (fun hnone => absurd hnone hdec)
          fun hresp _ => h.checked hresp (by simp [hrest])
        simp only [members, Option.getD_some, append_nil]
        exact (((sublist_append_left _ _).append_left _).cons_cons _).subperm
      · cases hstep
        have hperm : (Running.members request.candidateUuid voters
            { x with toAsk := some rest, waiting := v :: x.waiting }).Perm
              (x.members request.candidateUuid voters) := by
          simp only [members, hrest]
          exact .cons _ (.append_left _ perm_middle.symm)
        exact h.moves _ _ _ hperm.subperm (fun _ => hperm.length_eq.ge)
          fun hresp _ => h.checked hresp (by simp [hrest])
    · cases hstep
  | countReply reply =>
    rw [Running.step] at hstep
    by_cases hwait : reply.voter ∈ x.waiting
    · rw [if_pos hwait] at hstep
      by_cases hresp : x.hasResponded
      · rw [if_pos hresp] at hstep
        cases hstep
        -- a reply after the callback is not counted
        refine h.moves x.toAsk _ x.checking ?_
          (fun hnone => absurd hnone (h.responded hresp).1) fun hr => by simp [hresp] at hr
        exact (((erase_sublist.append_right _).append_left _).cons_cons _).subperm
      · rw [if_neg hresp] at hstep
        cases hstep
        exact h.countReply hvoters hwait (by simpa using hresp) _
    · rw [if_neg hwait] at hstep
      cases hstep
  | check v =>
    rw [Running.step] at hstep
    split_ifs at hstep
    cases hstep
    exact h.checkForDecision.moves x.checkForDecision.toAsk x.checkForDecision.waiting _
      (List.Subperm.refl _) (fun _ => le_rfl) fun hresp _ _ => undecided_of_checkForDecision hresp

/-- Once `Run` and all callbacks are done, the decision callback has run once, for the replies that
were looked at. -/
lemma Inv.done (h : Inv request voters x) (hdone : x.Done) :
    ∃ result, x.results = [result] ∧ Decides request voters x.counted result := by
  cases hresp : x.hasResponded with
  | true => exact (h.responded hresp).2
  | false =>
    obtain ⟨hask, hwait, hchecking⟩ := hdone
    -- no thread is left to check, so that every voter was asked and has replied
    obtain ⟨hnone, hget⟩ := h.checked hresp (by simp [hask]) hchecking
    have hterm : ∀ reply ∈ x.counted, ¬reply.isHigherTerm request := by
      rcases (h.isOpen hresp).1 with ⟨-, hterm⟩ | ⟨hden, -⟩
      · exact hterm
      · simp [hnone] at hden
    have hlen : voters.length ≤ x.counted.length + 1 := by
      simpa [members, hask, hwait] using h.all hnone
    exact absurd hget (h.tally.getDecision_ne_none hterm hlen)

/-- Once `Run` and all callbacks are done, the decision callback has run once. The election is won
if and only if a majority of grants and no higher term was among the replies that were looked at,
which are those that came before the response, and the leases are the latest ones of the grants. -/
theorem decision_of_run {data : LeaderElectionData} {events : List (RunningEvent ι)}
    (hvoters : voters.Nodup) (hcandidate : request.candidateUuid ∈ voters)
    (hrun : Run (fun x event x' => step voters x event = some x')
      (init request data voters) events x)
    (hdone : x.Done) :
    ∃ result, x.results = [result] ∧ Decides request voters x.counted result := by
  have hinv : Inv request voters x :=
    hrun.invariant (fun _ _ _ h hstep => h.step hvoters hstep) (inv_init hvoters hcandidate)
  exact hinv.done hdone

/-- A majority of grants and no higher term are among the first replies of a list. -/
def MajorityFirst (request : VoteRequest ι) (voters : List ι) (counted : List (VoteReply ι)) :
    Prop :=
  ∃ pre suf, counted = pre ++ suf ∧ (∀ reply ∈ pre, ¬reply.isHigherTerm request) ∧
    majoritySize voters.length ≤ 1 + pre.countP (VoteReply.isGrant request)

/-- Replica 0 of three asks for votes in term 2. -/
def threeVotersRequest : VoteRequest (Fin 3) := ⟨0, 2, ⟨1, 1⟩, false, false⟩

/-- A vote for it, from a replica that knows of a lease of replica 2. -/
def grantWithLease : VoteResponse (Fin 3) :=
  { responderTerm := 2, voteGranted := true, remainingLeaderLeaseDurationMs := some 3,
    leaderLeaseUuid := some 2 }

/-- The vote of replica 1 is enough, and the call to replica 2 fails. -/
def wonByOne : List (RunningEvent (Fin 3)) :=
  [.runChecks, .runAsks, .runAsks, .countReply ⟨1, some grantWithLease, 5⟩, .check 1,
    .countReply ⟨2, none, 6⟩]

theorem decision_of_run_wonByOne :
    ∃ x : Running (Fin 3), Run (fun x event x' => step [0, 1, 2] x event = some x')
        (init threeVotersRequest {} [0, 1, 2]) wonByOne x ∧
      x.Done ∧ x.counted.length = 1 ∧
      ∃ result, x.results = [result] ∧ Decides threeVotersRequest [0, 1, 2] x.counted result := by
  obtain ⟨x, hrun, hdone, hlen⟩ : ∃ x : Running (Fin 3),
      Run (fun x event x' => step [0, 1, 2] x event = some x')
        (init threeVotersRequest {} [0, 1, 2]) wonByOne x ∧ x.Done ∧ x.counted.length = 1 :=
    ⟨_, Run.of_exec rfl, ⟨rfl, rfl, rfl⟩, rfl⟩
  exact ⟨x, hrun, hdone, hlen, decision_of_run (by decide) (by decide) hrun hdone⟩

/-- Replica 1 makes the majority, and before its callback checks for it, replica 2 replies with a
higher term: the election is lost. -/
theorem not_granted_of_majorityFirst :
    ∃ x : Running (Fin 3),
      Run (fun x event x' => step [0, 1, 2] x event = some x')
        (init threeVotersRequest {} [0, 1, 2])
        [.runChecks, .runAsks, .runAsks, .countReply ⟨1, some grantWithLease, 5⟩,
          .countReply ⟨2, some { responderTerm := 7, voteGranted := false }, 6⟩, .check 1,
          .check 2] x ∧
      x.Done ∧ MajorityFirst threeVotersRequest [0, 1, 2] x.counted ∧
      ∃ result, x.results = [result] ∧ result.decision = .denied := by
  exact ⟨_, Run.of_exec rfl, ⟨rfl, rfl, rfl⟩, ⟨[_], [_], rfl, by decide, by decide⟩, _, rfl, rfl⟩

end Running

end LeaderElection
