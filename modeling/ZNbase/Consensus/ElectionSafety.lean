import ZNbase.Consensus.ReplicaLog
import ZNbase.Lib.Quorum

/-!
# Election safety

In every run of the replicas, with crashes, a replica casts its vote of a term for one candidate
only, and all elections of a term that are won are won by the same candidate.

The invariant `ElectionInv` says that a vote that was cast is remembered by the voter, in memory and
on disk, for as long as the voter is in the term of the vote; that what an election has counted was
cast; and that a leader has won an election of its term. Steps that are `Quiet` at every replica
keep it. What remains are the three places where the source does more: an election a replica starts,
a vote, and a won election.
-/

open Option List Cluster RaftConsensus LeaderElection

/-! ## Counting votes -/

namespace VoteCounter

variable {ι : Type*} [DecidableEq ι] {c : VoteCounter ι} {voter : ι} {vote : ElectionVote}

lemma registerVote_majoritySize : (c.registerVote voter vote).majoritySize = c.majoritySize := by
  simp only [registerVote]
  split_ifs <;> rfl

/-- No voter is counted twice. -/
lemma nodup_registerVote (h : (c.votes.map (·.1)).Nodup) :
    ((c.registerVote voter vote).votes.map (·.1)).Nodup := by
  simp only [registerVote]
  split_ifs with hmem
  · exact h
  · exact h
  · rw [map_append, nodup_append]
    refine ⟨h, nodup_singleton _, ?_⟩
    rintro a ha b hb rfl
    rw [mem_singleton.1 hb] at ha
    exact hmem ha

/-- A counted vote was counted before or is the new one. -/
lemma mem_registerVote {v : ι × ElectionVote} (h : v ∈ (c.registerVote voter vote).votes) :
    v ∈ c.votes ∨ v = (voter, vote) := by
  simp only [registerVote] at h
  split_ifs at h
  · exact .inl h
  · exact .inl h
  · simpa using h

/-- As many voters as there are yes votes have been counted with a yes. -/
lemma yesVotes_le_countP {voters : List ι} {p : ι → Bool} (hndp : (c.votes.map (·.1)).Nodup)
    (hmem : ∀ v ∈ c.votes, v.1 ∈ voters) (hp : ∀ v ∈ c.votes, v.2 = .granted → p v.1) :
    c.yesVotes ≤ voters.countP p := by
  have hsub : ((c.votes.filter fun v => v.2 = .granted).map (·.1)).Nodup :=
    hndp.sublist (filter_sublist.map _)
  have hlen : c.yesVotes = ((c.votes.filter fun v => v.2 = .granted).map (·.1)).length := by
    rw [length_map, yesVotes, countP_eq_length_filter]
  rw [hlen]
  refine length_le_countP_of_nodup hsub ?_ ?_
  · intro w hw
    obtain ⟨v, hv, rfl⟩ := mem_map.1 hw
    exact hmem v (mem_of_mem_filter hv)
  · intro w hw
    obtain ⟨v, hv, rfl⟩ := mem_map.1 hw
    exact hp v (mem_of_mem_filter hv) (by simpa using (mem_filter.1 hv).2)

end VoteCounter

namespace LeaderElection

variable {ι : Type} {e e' : LeaderElection ι} {v voter : ι}

/-- The replica `v` has granted its vote: it is the candidate, or it has sent such a reply. -/
def VotedBy (e : LeaderElection ι) (v : ι) : Prop :=
  v = e.request.candidateUuid ∨ ∃ reply, e.replies v = some reply ∧ reply.voteGranted

/-- What an election has counted was cast, and it is only decided by a majority. -/
structure Counted (voters : List ι) (e : LeaderElection ι) : Prop where
  candidate : e.request.candidateUuid ∈ voters
  majority : e.counter.majoritySize = majoritySize voters.length
  nodup : (e.counter.votes.map (·.1)).Nodup
  votes : ∀ w ∈ e.counter.votes, w.1 ∈ voters ∧ (w.2 = .granted → e.VotedBy w.1)
  decision : e.decision = some .granted → e.counter.majoritySize ≤ e.counter.yesVotes

/-- The call and the replies of the voters are the same, and the election is still won if it was. -/
structure Same (e e' : LeaderElection ι) : Prop where
  request : e'.request = e.request
  replies : e'.replies = e.replies
  granted : e.decision = some .granted → e'.decision = some .granted

lemma Same.refl (e : LeaderElection ι) : Same e e := ⟨rfl, rfl, id⟩

/-- The voters are the same. -/
lemma Same.votedBy_iff (h : Same e e') : e'.VotedBy v ↔ e.VotedBy v := by
  rw [VotedBy, VotedBy, h.request, h.replies]

variable [DecidableEq ι]

variable {reply : VoteResponse ι} {voters : List ι} {now : CoarseTimePoint}

/-- A vote in an election that has got a reply was there before, or is the one of the reply. -/
lemma VotedBy.of_reply
    (h : VotedBy { e with replies := Function.update e.replies voter (some reply) } v) :
    e.VotedBy v ∨ v = voter ∧ reply.voteGranted = true := by
  rcases h with hv | ⟨reply', hreply', hg⟩
  · exact .inl (.inl hv)
  · simp only [Function.update_eq_some_iff] at hreply'
    rcases hreply' with ⟨hv, rfl⟩ | ⟨-, hreply'⟩
    · exact .inr ⟨hv, hg⟩
    · exact .inl (.inr ⟨reply', hreply', hg⟩)

omit [DecidableEq ι] in
/-- To look for a decision does not change who has voted. -/
lemma same_checkForDecision : Same e e.checkForDecision := by
  simp only [checkForDecision]
  split_ifs with hnone
  · split
    · exact ⟨rfl, rfl, fun h => by simp [hnone] at h⟩
    · exact .refl e
  · exact .refl e

omit [DecidableEq ι] in
/-- A decision is made from the votes that are counted. -/
lemma Counted.checkForDecision (h : Counted voters e) : Counted voters e.checkForDecision := by
  simp only [LeaderElection.checkForDecision]
  split_ifs with hnone
  · split
    · rename_i d hd
      refine { h with decision := fun hgr => ?_ }
      obtain rfl : d = .granted := Option.some.inj hgr
      simp only [VoteCounter.getDecision] at hd
      split_ifs at hd with hyes
      · exact hyes
      · cases hd
    · exact h
  · exact h

/-- A vote is counted if it was given. -/
lemma Counted.recordVote {vote : ElectionVote} (h : Counted voters e) (hvoter : voter ∈ voters)
    (hvote : vote = .granted → e.VotedBy voter) (hopen : e.decision ≠ some .granted) :
    Counted voters (e.recordVote voter vote) where
  candidate := h.candidate
  majority := by
    rw [← h.majority]
    exact VoteCounter.registerVote_majoritySize
  nodup := VoteCounter.nodup_registerVote h.nodup
  votes w hw := by
    rcases VoteCounter.mem_registerVote hw with hold | rfl
    · exact h.votes w hold
    · exact ⟨hvoter, hvote⟩
  decision hgr := absurd hgr hopen

/-- A reply of a voter, or a failed call, keeps the count right. -/
lemma Counted.handleVoteDenied (h : Counted voters e) (hvoter : voter ∈ voters)
    (hopen : e.decision ≠ some .granted) :
    Counted voters (e.handleVoteDenied voter reply) := by
  simp only [LeaderElection.handleVoteDenied]
  split_ifs
  · exact { h with decision := by simp }
  · exact h.recordVote hvoter (by simp) hopen

/-- A reply that grants a vote is counted. -/
lemma Counted.handleVoteGranted (h : Counted voters e) (hvoter : voter ∈ voters)
    (hvote : e.VotedBy voter) (hopen : e.decision ≠ some .granted) :
    Counted voters (e.handleVoteGranted voter reply now) :=
  Counted.recordVote { h with } hvoter (fun _ => hvote) hopen

/-- Every kind of reply is counted as what it is. -/
lemma Counted.countReply {reply : Option (VoteResponse ι)} (h : Counted voters e)
    (hvoter : voter ∈ voters) (hreply : ∀ r ∈ reply, e.replies voter = some r)
    (hopen : e.decision ≠ some .granted) :
    Counted voters (e.countReply voter reply now) := by
  simp only [LeaderElection.countReply]
  split
  · exact h.recordVote hvoter (by simp) hopen
  · rename_i r
    split_ifs with hpre hgr
    · exact h.handleVoteDenied hvoter hopen
    · exact h.handleVoteGranted hvoter (.inr ⟨r, hreply r rfl, hgr⟩) hopen
    · exact h.handleVoteDenied hvoter hopen

/-- A reply is counted once, and a decision is looked for. -/
lemma Counted.voteResponseRpcCallback {reply : Option (VoteResponse ι)} (h : Counted voters e)
    (hvoter : voter ∈ voters) (hreply : ∀ r ∈ reply, e.replies voter = some r) :
    Counted voters (e.voteResponseRpcCallback voter reply now) := by
  have hret : Counted voters { e with returned := Function.update e.returned voter true } :=
    { h with }
  simp only [LeaderElection.voteResponseRpcCallback]
  split_ifs with hopen
  · exact (hret.countReply hvoter hreply (by simp [hopen])).checkForDecision
  · exact hret

/-- A reply that denies the vote changes neither the request nor the replies. -/
lemma handleVoteDenied_request :
    (e.handleVoteDenied voter reply).request = e.request ∧
    (e.handleVoteDenied voter reply).replies = e.replies := by
  simp only [handleVoteDenied]
  split_ifs <;> exact ⟨rfl, rfl⟩

/-- Neither does any other reply. -/
lemma countReply_request {reply : Option (VoteResponse ι)} :
    (e.countReply voter reply now).request = e.request ∧ (e.countReply voter reply now).replies =
      e.replies := by
  simp only [countReply]
  split
  · exact ⟨rfl, rfl⟩
  · split_ifs
    · exact handleVoteDenied_request
    · exact ⟨rfl, rfl⟩
    · exact handleVoteDenied_request

/-- The callback of a reply does not change who has voted. -/
lemma same_voteResponseRpcCallback {reply : Option (VoteResponse ι)} :
    Same e (e.voteResponseRpcCallback voter reply now) := by
  simp only [voteResponseRpcCallback]
  split_ifs with hopen
  · refine ⟨same_checkForDecision.request.trans countReply_request.1,
      same_checkForDecision.replies.trans countReply_request.2, ?_⟩
    intro hgr
    simp [hopen] at hgr
  · exact ⟨rfl, rfl, id⟩

end LeaderElection

/-! ## Votes of a replica -/

variable {updateBusy : Bool} {data : LeaderElectionData}

namespace RaftConsensus

open ReplicaState (Quiet)

variable {ι : Type} [DecidableEq ι] {r r' : RaftConsensus ι} {self : ι} {cfg : RaftConfig ι}
  {request : VoteRequest ι} {response : VoteResponse ι}

/-- A vote for a candidate: the replica moves to the term of the candidate, in which it had voted
for nobody else, and the vote is on disk. -/
structure Votes (n : ι) (request : VoteRequest ι) (a b : ReplicaState ι) : Prop where
  term_le : a.currentTerm ≤ request.candidateTerm
  free : a.currentTerm = request.candidateTerm →
    a.votedFor = none ∨ a.votedFor = some request.candidateUuid
  term : b.currentTerm = request.candidateTerm
  vote : b.votedFor = some request.candidateUuid
  flushed : a.flushed = ⟨a.currentTerm, a.votedFor⟩ → b.flushed = ⟨b.currentTerm, b.votedFor⟩
  leader : b.leaderUuid = some n → a.leaderUuid = some n ∧ b.currentTerm = a.currentTerm

omit [DecidableEq ι] in
/-- The leases in a reply change nothing about the vote. -/
lemma withOldLeaderLeases_spec (s : ReplicaState ι) (now : CoarseTimePoint)
    (response : VoteResponse ι) :
    (withOldLeaderLeases s now response).1.voteGranted = response.voteGranted ∧
      (withOldLeaderLeases s now response).2.metadata = s.metadata := by
  refine ⟨?_, ReplicaState.metadata_remainingOldLeaderLeaseDuration s now⟩
  simp only [withOldLeaderLeases]
  split_ifs <;> split <;> rfl

omit [DecidableEq ι] in
/-- The last part of a call for a vote either changes nothing about votes, or casts the vote. -/
lemma decideVote_spec (self : ι) {now : CoarseTimePoint}
    (hterm : r.state.currentTerm ≤ request.candidateTerm)
    (hpre : request.preelection = false → r.state.currentTerm = request.candidateTerm)
    (hfree : r.state.currentTerm = request.candidateTerm → r.state.votedFor = none)
    (h : r.decideVote request now = (r', response)) :
    Quiet self r.state r'.state ∧ (response.voteGranted → request.preelection = true) ∨
      request.preelection = false ∧ Votes self request r.state r'.state := by
  obtain ⟨hgr, hmeta⟩ := withOldLeaderLeases_spec r.state now (voteGranted request)
  simp only [decideVote] at h
  split_ifs at h with hold hp
  · cases h
    exact .inl ⟨.refl self r.state, by simp [voteDenied]⟩
  · cases h
    exact .inl ⟨.of_metadata_eq hmeta, fun _ => hp⟩
  cases h
  simp only [ReplicaState.metadata, Prod.mk.injEq] at hmeta
  have hp' : request.preelection = false := by simpa using hp
  refine .inr ⟨hp', hterm, fun heq => .inl (hfree heq), ?_, rfl, fun _ => rfl, ?_⟩
  · exact hmeta.1.trans (hpre hp')
  · intro hl
    exact ⟨hmeta.2.2.1 ▸ hl, hmeta.1⟩

/-- A call for a vote changes nothing about votes, or casts the vote. -/
lemma requestVote_spec {now : CoarseTimePoint}
    (h : r.requestVote self request now updateBusy = (r', response)) :
    Quiet self r.state r'.state ∧ (response.voteGranted → request.preelection = true) ∨
      Votes self request r.state r'.state := by
  simp only [requestVote] at h
  split_ifs at h with hbusy halive hold hvoted hsame hadv
  iterate 3
    · cases h
      exact .inl ⟨.refl self r.state, by simp [voteDenied]⟩
  · cases h
    exact .inr ⟨hvoted.1.ge, fun _ => .inr hsame, hvoted.1.symm, hsame, id, fun hl => ⟨hl, rfl⟩⟩
  · cases h
    exact .inl ⟨.refl self r.state, by simp [voteDenied]⟩
  · -- the replica moves to the candidate's term first
    have hq := r.quiet_handleTermAdvance self request.candidateTerm
    have hterm : (r.handleTermAdvance self request.candidateTerm).state.currentTerm =
        request.candidateTerm := by
      rw [handleTermAdvance_state_of_lt hadv.1]
      rfl
    have hnone : (r.handleTermAdvance self request.candidateTerm).state.votedFor = none := by
      rw [handleTermAdvance_state_of_lt hadv.1]
      rfl
    rcases decideVote_spec self hterm.le (fun _ => hterm) (fun _ => hnone) h with
      ⟨hq', hpre⟩ | ⟨-, hv⟩
    · exact .inl ⟨hq.trans hq', hpre⟩
    refine .inr ⟨hadv.1.le, fun heq => absurd heq hadv.1.ne, hv.term, hv.vote, ?_, ?_⟩
    · exact fun hf => hv.flushed (hq.flushed hf)
    · intro hl
      obtain ⟨hl', ht⟩ := hv.leader hl
      obtain ⟨hl'', ht'⟩ := hq.leader hl'
      exact ⟨hl'', ht.trans ht'⟩
  · have hle : r.state.currentTerm ≤ request.candidateTerm := not_lt.1 hold
    have hfree : r.state.currentTerm = request.candidateTerm → r.state.votedFor = none := by
      intro heq
      by_contra hne
      exact hvoted ⟨heq.symm, isSome_iff_ne_none.2 hne⟩
    have hpre : request.preelection = false → r.state.currentTerm = request.candidateTerm := by
      intro hp
      by_contra hne
      exact hadv ⟨lt_of_le_of_ne hle hne, by simp [hp]⟩
    rcases decideVote_spec self hle hpre hfree h with hq | ⟨-, hv⟩
    · exact .inl hq
    · exact .inr hv

/-- The state of a replica that starts an election, and the election. A pre-election leaves the
term and the vote alone. -/
structure Starts (n : ι) (cfg : RaftConfig ι) (pre : Bool) (a b : ReplicaState ι)
    (e : LeaderElection ι) : Prop where
  candidate : e.request.candidateUuid = n
  preelection : e.request.preelection = pre
  replies : ∀ v, e.replies v = none
  counted : n ∈ cfg.voters → e.Counted cfg.voters
  quiet : pre = true → Quiet n a b
  term : pre = false → e.electionTerm = b.currentTerm ∧ a.currentTerm < b.currentTerm
  vote : pre = false → b.votedFor = some n ∧
    b.flushed = ⟨b.currentTerm, b.votedFor⟩ ∧ b.leaderUuid = none

omit [DecidableEq ι] in
/-- A new election has at most the vote of the candidate. -/
lemma counted_checkForDecision_new {voters : List ι} {e : LeaderElection ι}
    (hcand : e.request.candidateUuid ∈ voters)
    (hmaj : e.counter.majoritySize = majoritySize voters.length)
    (hvotes : e.counter.votes = [] ∨ e.counter.votes = [(e.request.candidateUuid, .granted)])
    (hdec : e.decision = none) : e.checkForDecision.Counted voters := by
  refine Counted.checkForDecision ⟨hcand, hmaj, ?_, ?_, by simp [hdec]⟩
  · rcases hvotes with h | h <;> simp [h]
  · rcases hvotes with h | h
    · simp [h]
    · intro w hw
      rw [h, mem_singleton] at hw
      subst hw
      exact ⟨hcand, fun _ => .inl rfl⟩

/-- An election is created in a new term in which the candidate has voted for itself, or is a
pre-election. -/
lemma createElection_spec (r : RaftConsensus ι) (self : ι) (cfg : RaftConfig ι)
    (data : LeaderElectionData) (pre : Bool) :
    Starts self cfg pre r.state (r.createElection self cfg data pre).1.state
      (r.createElection self cfg data pre).2 := by
  -- the own vote is counted, unless the majority is reached without it
  have hvotes : ∀ k : ℕ,
      (VoteCounter.registerVote ⟨cfg.voters.length, k, []⟩ self .granted).votes = [] ∨
        (VoteCounter.registerVote ⟨cfg.voters.length, k, []⟩ self .granted).votes =
          [(self, .granted)] := by
    intro k
    simp only [VoteCounter.registerVote]
    split_ifs <;> simp
  have hcnt : self ∈ cfg.voters → (r.createElection self cfg data pre).2.Counted cfg.voters := by
    intro hself
    simp only [createElection]
    exact counted_checkForDecision_new hself VoteCounter.registerVote_majoritySize (hvotes _) rfl
  have hsame : ∀ e : LeaderElection ι, e.Same e.checkForDecision := fun _ =>
    same_checkForDecision
  have hterm : (r.handleTermAdvance self (r.state.currentTerm + 1)).state =
      r.state.setCurrentTerm (r.state.currentTerm + 1) :=
    handleTermAdvance_state_of_lt (Nat.lt_succ_self _)
  refine ⟨?_, ?_, ?_, hcnt, ?_, ?_, ?_⟩
  · exact congrArg VoteRequest.candidateUuid (hsame _).request
  · exact congrArg VoteRequest.preelection (hsame _).request
  · exact congrFun (hsame _).replies
  · -- a pre-election changes nothing
    rintro rfl
    exact .refl self r.state
  · -- a real one is in the next term, with the own vote
    rintro rfl
    refine ⟨(congrArg VoteRequest.candidateTerm (hsame _).request).trans rfl, ?_⟩
    simp [createElection, hterm, ReplicaState.setCurrentTerm, ReplicaState.setVotedForCurrentTerm,
      ReplicaState.flush]
  · rintro rfl
    simp [createElection, hterm, ReplicaState.setCurrentTerm, ReplicaState.setVotedForCurrentTerm,
      ReplicaState.flush]

/-- Starting an election changes nothing about votes, or starts one. -/
lemma doStartElection_spec {preelection : Bool} {ctx : ApplyContext} {e : Option (LeaderElection ι)}
    (h : r.doStartElection self cfg data preelection ctx = some (r', e)) :
    (e = none ∧ Quiet self r.state r'.state) ∨
      ∃ e', e = some e' ∧ Starts self cfg preelection r.state r'.state e' := by
  simp only [doStartElection] at h
  split_ifs at h with hlead hpend
  · -- the replica is the leader already
    cases h
    exact .inl ⟨rfl, .refl self r.state⟩
  · simp only [bind_eq_bind, bind_eq_some_iff] at h
    obtain ⟨⟨ok, s⟩, hadv, h⟩ := h
    -- the pending operations are committed before
    have hmeta := ReplicaState.metadata_advanceCommittedOpId hadv
    split_ifs at h
    · cases h
      have hs := createElection_spec { r with state := s } self cfg data preelection
      simp only [ReplicaState.metadata, Prod.mk.injEq] at hmeta
      refine .inr ⟨_, rfl, { hs with quiet := ?_, term := ?_ }⟩
      · intro hp
        refine Quiet.trans (.of_metadata_eq ?_) (hs.quiet hp)
        simp only [ReplicaState.metadata, hmeta]
      · intro hp
        exact ⟨(hs.term hp).1, hmeta.1 ▸ (hs.term hp).2⟩
    · split at h
      all_goals
        cases h
        exact .inl ⟨rfl, .of_metadata_eq hmeta⟩
  · cases h
    exact .inr ⟨_, rfl, createElection_spec r self cfg data preelection⟩

/-- The callback of an election changes nothing about votes, or starts an election, or makes the
candidate that has won an election of its term leader. -/
lemma doElectionCallback_spec {e : LeaderElection ι} {ctx : ApplyContext}
    {started : Option (LeaderElection ι)}
    (h : r.doElectionCallback self cfg e ctx = some (r', started)) :
    ((started = none ∧ Quiet self r.state r'.state) ∨
        ∃ e', started = some e' ∧ Starts self cfg false r.state r'.state e') ∨
      started = none ∧ e.request.preelection = false ∧ e.electionTerm = r.state.currentTerm ∧
        e.decision = some .granted ∧
        r' = r.becomeLeader self cfg e.oldLeaderLease e.oldLeaderHtLease := by
  simp only [doElectionCallback] at h
  split at h
  · rename_i hgr
    split_ifs at h with hterm hpre hlead
    · cases h
      exact .inl (.inl ⟨rfl, .refl self r.state⟩)
    · exact .inl (doStartElection_spec h)
    · cases h
      exact .inl (.inl ⟨rfl, .refl self r.state⟩)
    · cases h
      have hpre' : e.request.preelection = false := by simpa using hpre
      rw [hpre', not_not] at hterm
      exact .inr ⟨rfl, hpre', hterm, hgr, rfl⟩
  · cases h
    exact .inl (.inl ⟨rfl, r.quiet_handleTermAdvance self _⟩)

end RaftConsensus

/-! ## The invariant -/

namespace Cluster

open ReplicaState (Quiet)

variable {ι : Type} {cfg : ClusterConfig ι} {s s' : Cluster ι} {term : ℕ}

/-- The replica `v` has cast its vote of the term for `c`: a call of an election of `c` was granted,
or `c` is `v` itself and has started the election. -/
def CastVote (s : Cluster ι) (v : ι) (term : ℕ) (c : ι) : Prop :=
  ∃ id e, s.elections id = some e ∧ e.request.preelection = false ∧ e.electionTerm = term ∧
    e.request.candidateUuid = c ∧ e.VotedBy v

/-- The replica `c` has won an election of the term. -/
def WonElection (s : Cluster ι) (c : ι) (term : ℕ) : Prop :=
  ∃ id e, s.elections id = some e ∧ e.request.preelection = false ∧ e.electionTerm = term ∧
    e.request.candidateUuid = c ∧ e.decision = some .granted

/-- What the replicas remember of the votes they have cast, and what the elections have counted. -/
structure ElectionInv (cfg : ClusterConfig ι) (s : Cluster ι) : Prop where
  flushed :
    ∀ n, (s.node n).state.flushed = ⟨(s.node n).state.currentTerm, (s.node n).state.votedFor⟩
  cast : ∀ v term c, s.CastVote v term c → term ≤ (s.node v).state.currentTerm ∧
    (term = (s.node v).state.currentTerm → (s.node v).state.votedFor = some c)
  unique : ∀ v term c c', s.CastVote v term c → s.CastVote v term c' → c = c'
  counted : ∀ id e, s.elections id = some e → e.Counted cfg.voters
  leader : ∀ n, (s.node n).state.leaderUuid = some n →
    s.WonElection n (s.node n).state.currentTerm
  caller : ∀ id c, s.updateRpcs id = some c → c.request.callerUuid ≠ c.dest

/-- There are no elections at first. -/
lemma electionInv_init [DecidableEq ι] : ElectionInv cfg (init : Cluster ι) where
  flushed _ := rfl
  cast v term c := by
    rintro ⟨id, e, he, -⟩
    simp [init] at he
  unique v term c c' := by
    rintro ⟨id, e, he, -⟩
    simp [init] at he
  counted id e he := by simp [init] at he
  leader n hn := by simp [init, RaftConsensus.init] at hn
  caller id c hc := by simp [init] at hc

/-! ## Quiet steps -/

/-- A vote was cast before if the elections were there with the same calls and replies. -/
lemma CastVote.of_same {v c : ι} (hc : s'.CastVote v term c)
    (h : ∀ id e', s'.elections id = some e' → ∃ e, s.elections id = some e ∧ e.Same e') :
    s.CastVote v term c := by
  obtain ⟨id, e', he', hpre, hterm, hcand, hv⟩ := hc
  obtain ⟨e, he, hsame⟩ := h id e' he'
  rw [electionTerm, hsame.request] at hterm
  exact ⟨id, e, he, hsame.request ▸ hpre, hterm, hsame.request ▸ hcand, hsame.votedBy_iff.1 hv⟩

/-- A won election stays won if each election keeps its call and a granted decision. -/
lemma WonElection.mono {c : ι} (hw : s.WonElection c term)
    (h : ∀ id e, s.elections id = some e → ∃ e', s'.elections id = some e' ∧
      e'.request = e.request ∧ (e.decision = some .granted → e'.decision = some .granted)) :
    s'.WonElection c term := by
  obtain ⟨id, e, he, hpre, hterm, hcand, hg⟩ := hw
  obtain ⟨e', he', hreq, hgr⟩ := h id e he
  rw [electionTerm, ← hreq] at hterm
  exact ⟨id, e', he', hreq ▸ hpre, hterm, hreq ▸ hcand, hgr hg⟩

/-- A step that is quiet at every replica, and in which no vote is cast. -/
lemma ElectionInv.of_quiet (h : ElectionInv cfg s)
    (hcast : ∀ v term c, s'.CastVote v term c → s.CastVote v term c)
    (hwon : ∀ c term, s.WonElection c term → s'.WonElection c term)
    (hqui : ∀ n, Quiet n (s.node n).state (s'.node n).state)
    (hcnt : ∀ id e, s'.elections id = some e → e.Counted cfg.voters)
    (hcall : ∀ id c, s'.updateRpcs id = some c → c.request.callerUuid ≠ c.dest) :
    ElectionInv cfg s' where
  flushed n := (hqui n).flushed (h.flushed n)
  cast v term c hc := by
    obtain ⟨hle, hvote⟩ := h.cast v term c (hcast v term c hc)
    refine ⟨hle.trans (hqui v).term_le, ?_⟩
    intro hterm
    have heq : (s'.node v).state.currentTerm = (s.node v).state.currentTerm :=
      le_antisymm (hterm ▸ hle) (hqui v).term_le
    rw [(hqui v).vote heq]
    exact hvote (hterm.trans heq)
  unique v term c c' hc hc' := h.unique v term c c' (hcast v term c hc) (hcast v term c' hc')
  counted := hcnt
  leader n hn := by
    obtain ⟨hl, hterm⟩ := (hqui n).leader hn
    rw [hterm]
    exact hwon _ _ (h.leader n hl)
  caller := hcall

/-- The replica `v` takes a step in which nobody else casts a vote. What it has voted in the term
that it is then in is what it remembers. -/
lemma ElectionInv.of_vote (h : ElectionInv cfg s) {v : ι} (hoth : ∀ m, m ≠ v → s'.node m = s.node m)
    (hterm : (s.node v).state.currentTerm ≤ (s'.node v).state.currentTerm)
    (hflu : (s'.node v).state.flushed = ⟨(s'.node v).state.currentTerm, (s'.node v).state.votedFor⟩)
    (hold : ∀ c, s.CastVote v (s'.node v).state.currentTerm c → (s'.node v).state.votedFor = some c)
    (hcast : ∀ w term c, s'.CastVote w term c → s.CastVote w term c ∨
      (w = v ∧ term = (s'.node v).state.currentTerm ∧ (s'.node v).state.votedFor = some c))
    (hwon : ∀ c term, s.WonElection c term → s'.WonElection c term)
    (hlead : (s'.node v).state.leaderUuid = some v → s'.WonElection v (s'.node v).state.currentTerm)
    (hcnt : ∀ id e, s'.elections id = some e → e.Counted cfg.voters)
    (hcall : ∀ id c, s'.updateRpcs id = some c → c.request.callerUuid ≠ c.dest) :
    ElectionInv cfg s' where
  flushed m := by
    by_cases hm : m = v
    · rw [hm, hflu]
    · rw [hoth m hm, h.flushed m]
  cast w term c hc := by
    -- a vote that was cast before, or the new one
    rcases hcast w term c hc with hc | ⟨rfl, rfl, hvote⟩
    · obtain ⟨hle, hvote⟩ := h.cast w term c hc
      by_cases hw : w = v
      · subst hw
        exact ⟨hle.trans hterm, fun heq => hold c (heq ▸ hc)⟩
      · rw [hoth w hw]
        exact ⟨hle, hvote⟩
    · exact ⟨le_rfl, fun _ => hvote⟩
  unique w term c c' hc hc' := by
    rcases hcast w term c hc with hc | ⟨rfl, rfl, hvote⟩
    · rcases hcast w term c' hc' with hc' | ⟨rfl, rfl, hvote⟩
      · exact h.unique w term c c' hc hc'
      · -- an old vote of this term is the new one
        exact Option.some.inj ((hold c hc).symm.trans hvote)
    · rcases hcast w _ c' hc' with hc' | ⟨-, -, hvote'⟩
      · exact Option.some.inj (hvote.symm.trans (hold c' hc'))
      · exact Option.some.inj (hvote.symm.trans hvote')
  counted := hcnt
  leader m hm := by
    by_cases hmv : m = v
    · subst hmv
      exact hlead hm
    · rw [hoth m hmv] at hm ⊢
      exact hwon _ _ (h.leader m hm)
  caller := hcall

variable [DecidableEq ι]

variable {r : RaftConsensus ι}

/-- A change of one replica is quiet for all of them. -/
lemma quiet_setNode {n : ι} (hqui : Quiet n (s.node n).state r.state) (m : ι) :
    Quiet m (s.node m).state ((s.setNode n r).node m).state := by
  by_cases hm : m = n
  · subst hm
    simpa using hqui
  · rw [setNode_node_of_ne _ hm]
    exact .refl m _

/-- A replica takes a quiet step. -/
lemma ElectionInv.setNode (h : ElectionInv cfg s) {n : ι}
    (hqui : Quiet n (s.node n).state r.state) : ElectionInv cfg (s.setNode n r) := by
  exact h.of_quiet (fun _ _ _ hc => hc) (fun _ _ hw => hw) (quiet_setNode hqui) h.counted h.caller

/-- A replica changes in its queue, its log or its clocks only. -/
lemma ElectionInv.setNode_of_state_eq (h : ElectionInv cfg s) {n : ι}
    (hr : r.state = (s.node n).state) : ElectionInv cfg (s.setNode n r) :=
  h.setNode (hr ▸ .refl n _)

variable {id : ℕ}

omit [DecidableEq ι] in
/-- An election is replaced by one with the same call that is won if it was. -/
lemma WonElection.setElection {e e' : LeaderElection ι} {c : ι}
    (hw : s.WonElection c term) (he : s.elections id = some e) (hreq : e'.request = e.request)
    (hgr : e.decision = some .granted → e'.decision = some .granted) :
    (s.setElection id e').WonElection c term := by
  refine hw.mono fun id' e₁ he₁ => ?_
  by_cases hid : id' = id
  · subst hid
    obtain rfl : e = e₁ := Option.some.inj (he.symm.trans he₁)
    exact ⟨e', by simp, hreq, hgr⟩
  · exact ⟨e₁, (s.setElection_elections_of_ne hid e').trans he₁, rfl, fun hg => hg⟩

section

variable (h : ElectionInv cfg s)

include h

section

omit [DecidableEq ι]

/-- An election changes in nothing but what it has counted. -/
lemma ElectionInv.setElection {e e' : LeaderElection ι}
    (he : s.elections id = some e) (hsame : e.Same e') (hcnt : e'.Counted cfg.voters) :
    ElectionInv cfg (s.setElection id e') := by
  refine h.of_quiet (fun _ _ _ hc => hc.of_same fun id' e₁ he₁ => ?_)
    (fun _ _ hw => hw.setElection he hsame.request hsame.granted) (fun n => .refl n _)
    (fun id' e₁ he₁ => ?_) h.caller
  · rcases elections_of_setElection he₁ with ⟨rfl, rfl⟩ | ⟨-, hold⟩
    · exact ⟨e, he, hsame⟩
    · exact ⟨e₁, hold, .refl e₁⟩
  · rcases elections_of_setElection he₁ with ⟨-, rfl⟩ | ⟨-, hold⟩
    · exact hcnt
    · exact h.counted id' e₁ hold

/-- Updates are not part of the invariant, but that nobody sends one to itself. -/
lemma ElectionInv.setUpdateRpc {c : UpdateRpc ι}
    (hc : c.request.callerUuid ≠ c.dest) : ElectionInv cfg (s.setUpdateRpc id c) := by
  refine h.of_quiet (fun _ _ _ hc => hc) (fun _ _ hw => hw) (fun n => .refl n _) h.counted ?_
  simp only [Cluster.setUpdateRpc, Function.update_eq_some_iff]
  rintro id' c' (⟨-, rfl⟩ | ⟨-, hc'⟩)
  · exact hc
  · exact h.caller id' c' hc'

/-- Requests to start an election are not part of the invariant. -/
lemma ElectionInv.setRunElectionRpc {c : RunElectionRpc ι} :
    ElectionInv cfg (s.setRunElectionRpc id c) :=
  h.of_quiet (fun _ _ _ hc => hc) (fun _ _ hw => hw) (fun n => .refl n _) h.counted h.caller

end

/-! ## Elections, votes and leaders -/

variable {n : ι} {r : RaftConsensus ι} {pre : Bool}

/-- A replica starts an election and adds it under an id that is not used. -/
lemma ElectionInv.startElection {e : LeaderElection ι} (hn : n ∈ cfg.voters)
    (hid : s.elections id = none) (hs : Starts n cfg.toRaftConfig pre (s.node n).state r.state e) :
    ElectionInv cfg ((s.setNode n r).setElection id e) := by
  have hself : ((s.setNode n r).setElection id e).node n = r := s.setNode_node_self n r
  have hoth : ∀ m, m ≠ n → ((s.setNode n r).setElection id e).node m = s.node m :=
    fun m hm => s.setNode_node_of_ne hm r
  have hcnt : ∀ id' e', ((s.setNode n r).setElection id e).elections id' = some e' →
      e'.Counted cfg.voters := by
    intro id' e' he'
    rcases elections_of_setElection he' with ⟨-, rfl⟩ | ⟨-, hold⟩
    · exact hs.counted hn
    · exact h.counted id' e' hold
  -- what was cast before, and the own vote if this is no pre-election
  have hcast : ∀ v term c, ((s.setNode n r).setElection id e).CastVote v term c →
      s.CastVote v term c ∨ pre = false ∧ v = n ∧ c = n ∧ term = r.state.currentTerm := by
    rintro v term c ⟨id', e', he', hpre, hterm, hcand, hv⟩
    rcases elections_of_setElection he' with ⟨-, rfl⟩ | ⟨-, hold⟩
    · rw [hs.preelection] at hpre
      refine .inr ⟨hpre, ?_, hcand.symm.trans hs.candidate, hterm.symm.trans (hs.term hpre).1⟩
      rcases hv with hv | ⟨reply, hreply, -⟩
      · exact hv.trans hs.candidate
      · rw [hs.replies v] at hreply
        cases hreply
    · exact .inl ⟨id', e', hold, hpre, hterm, hcand, hv⟩
  have hwon : ∀ c term, s.WonElection c term →
      ((s.setNode n r).setElection id e).WonElection c term := fun c term hw =>
    hw.mono fun id' e' he' => ⟨e', elections_setElection_of_none hid he', rfl, fun hg => hg⟩
  cases pre with
  | true =>
    refine h.of_quiet (fun v term c hc => ?_) hwon (quiet_setNode (hs.quiet rfl)) hcnt h.caller
    rcases hcast v term c hc with hold | ⟨hfalse, -⟩
    · exact hold
    · cases hfalse
  | false =>
    obtain ⟨hvote, hflu, hlead⟩ := hs.vote rfl
    obtain ⟨-, hlt⟩ := hs.term rfl
    refine h.of_vote hoth ?_ ?_ ?_ ?_ hwon ?_ hcnt h.caller <;> rw [hself]
    · exact hlt.le
    · exact hflu
    · -- votes of the past are of earlier terms
      intro c hc
      exact absurd (h.cast n _ c hc).1 (not_le.2 hlt)
    · intro v term c hc
      rcases hcast v term c hc with hold | ⟨-, hv, rfl, hterm⟩
      · exact .inl hold
      · exact .inr ⟨hv, hterm, hvote⟩
    · intro hl
      rw [hlead] at hl
      cases hl

/-- A voter answers a call of an election, quietly or with its vote. -/
lemma ElectionInv.vote {e : LeaderElection ι} {v : ι} {reply : VoteResponse ι}
    (he : s.elections id = some e) (hnone : e.replies v = none)
    (hv : Quiet v (s.node v).state r.state ∧ (reply.voteGranted → e.request.preelection = true) ∨
      Votes v e.request (s.node v).state r.state) :
    ElectionInv cfg ((s.setNode v r).setElection id
      { e with replies := Function.update e.replies v (some reply) }) := by
  set e' : LeaderElection ι := { e with replies := Function.update e.replies v (some reply) }
    with he'
  have hself : ((s.setNode v r).setElection id e').node v = r := s.setNode_node_self v r
  have hoth : ∀ m, m ≠ v → ((s.setNode v r).setElection id e').node m = s.node m :=
    fun m hm => s.setNode_node_of_ne hm r
  have hvoted : ∀ w, e.VotedBy w → e'.VotedBy w := by
    rintro w (hw | ⟨reply', hreply', hg⟩)
    · exact .inl hw
    · refine .inr ⟨reply', ?_, hg⟩
      have hne : w ≠ v := by
        rintro rfl
        rw [hnone] at hreply'
        cases hreply'
      simpa [he', hne] using hreply'
  have hcnt : ∀ id' e₁, ((s.setNode v r).setElection id e').elections id' = some e₁ →
      e₁.Counted cfg.voters := by
    intro id' e₁ he₁
    rcases elections_of_setElection he₁ with ⟨-, rfl⟩ | ⟨-, hold⟩
    · have hc := h.counted id e he
      exact { hc with
        votes := fun w hw => ⟨(hc.votes w hw).1, fun hg => hvoted _ ((hc.votes w hw).2 hg)⟩ }
    · exact h.counted id' e₁ hold
  have hwon : ∀ c term, s.WonElection c term →
      ((s.setNode v r).setElection id e').WonElection c term := fun c term hw =>
    WonElection.setElection hw he rfl fun hg => hg
  have hcast : ∀ w term c, ((s.setNode v r).setElection id e').CastVote w term c →
      s.CastVote w term c ∨ (w = v ∧ reply.voteGranted = true ∧ e.request.preelection = false ∧
        term = e.request.candidateTerm ∧ c = e.request.candidateUuid) := by
    rintro w term c ⟨id', e₁, he₁, hpre, hterm, hcand, hw⟩
    rcases elections_of_setElection he₁ with ⟨-, rfl⟩ | ⟨-, hold⟩
    · rcases hw.of_reply with hw | ⟨rfl, hg⟩
      · exact .inl ⟨id, e, he, hpre, hterm, hcand, hw⟩
      · exact .inr ⟨rfl, hg, hpre, hterm.symm, hcand.symm⟩
    · exact .inl ⟨id', e₁, hold, hpre, hterm, hcand, hw⟩
  rcases hv with ⟨hqui, hpre⟩ | hvotes
  · -- a reply that is no vote
    refine h.of_quiet (fun w term c hc => ?_) hwon (quiet_setNode hqui) hcnt h.caller
    rcases hcast w term c hc with hold | ⟨-, hg, hp, -⟩
    · exact hold
    · rw [hpre hg] at hp
      cases hp
  · refine h.of_vote hoth ?_ ?_ ?_ ?_ hwon ?_ hcnt h.caller <;> rw [hself]
    · exact hvotes.term ▸ hvotes.term_le
    · exact hvotes.flushed (h.flushed v)
    · -- the vote goes to the candidate that the voter has voted for in the term, if there is one
      intro c hc
      rw [hvotes.term] at hc
      obtain ⟨hle, hvote⟩ := h.cast v _ c hc
      have heq := le_antisymm hvotes.term_le hle
      rw [hvotes.vote]
      rcases hvotes.free heq with hfree | hsame
      · rw [hvote heq.symm] at hfree
        cases hfree
      · rw [← hsame, hvote heq.symm]
    · intro w term c hc
      rcases hcast w term c hc with hold | ⟨hw, -, -, rfl, rfl⟩
      · exact .inl hold
      · exact .inr ⟨hw, hvotes.term.symm, hvotes.vote⟩
    · intro hl
      obtain ⟨hl, hterm⟩ := hvotes.leader hl
      exact hterm ▸ hwon _ _ (h.leader v hl)

/-- A replica that has won an election of its term becomes leader. -/
lemma ElectionInv.becomeLeader (hwon : s.WonElection n (s.node n).state.currentTerm)
    (hterm : r.state.currentTerm = (s.node n).state.currentTerm)
    (hvote : r.state.votedFor = (s.node n).state.votedFor)
    (hflu : r.state.flushed = (s.node n).state.flushed) : ElectionInv cfg (s.setNode n r) := by
  refine h.of_vote (fun m hm => s.setNode_node_of_ne hm r) ?_ ?_ ?_ (fun _ _ _ hc => .inl hc)
    (fun _ _ hw => hw) (fun _ => ?_) h.counted h.caller <;>
    rw [setNode_node_self, hterm]
  · rw [hflu, hvote, h.flushed n]
  · intro c hc
    exact hvote.trans ((h.cast n _ c hc).2 rfl)
  · exact hwon

/-! ## Every step -/

/-- A quiet change, or one that starts an election. -/
lemma ElectionInv.setNodeWithElection {e : Option (LeaderElection ι)} (hn : n ∈ cfg.voters)
    (hr : (e = none ∧ Quiet n (s.node n).state r.state) ∨
      ∃ e', e = some e' ∧ Starts n cfg.toRaftConfig pre (s.node n).state r.state e')
    (hs : s.setNodeWithElection n id (r, e) = some s') : ElectionInv cfg s' := by
  rcases hr with ⟨rfl, hqui⟩ | ⟨e', rfl, hstarts⟩
  · cases hs
    exact h.setNode hqui
  · simp only [Cluster.setNodeWithElection] at hs
    split_ifs at hs with hid
    cases hs
    exact h.startElection hn hid hstarts

variable {ctx : ApplyContext} {newId tie : ℕ}

/-- An election starts. -/
lemma ElectionInv.step_startElection (hs : s.startElection cfg n id data pre ctx = some s') :
    ElectionInv cfg s' := by
  simp only [Cluster.startElection] at hs
  split_ifs at hs with hn
  split at hs
  · cases hs
  · rename_i r hr
    exact h.setNodeWithElection hn.1 (doStartElection_spec hr) hs

/-- A voter handles a request for its vote. -/
lemma ElectionInv.step_handleVoteRequest {v : ι}
    (hs : s.handleVoteRequest cfg id v updateBusy = some s') :
    ElectionInv cfg s' := by
  simp only [handleVoteRequest] at hs
  split at hs
  · cases hs
  · rename_i e he
    split_ifs at hs with hv
    cases hs
    exact h.vote he hv.2.2.1 (requestVote_spec rfl)

/-- A candidate gets a reply, or learns that a call has failed. -/
lemma ElectionInv.step_handleVoteReply {v : ι} {failed : Bool}
    (hs : s.handleVoteReply cfg id v failed = some s') : ElectionInv cfg s' := by
  simp only [handleVoteReply] at hs
  split at hs
  · cases hs
  rename_i e he
  split_ifs at hs with hv hfailed
  all_goals
    cases hs
    exact h.setElection he same_voteResponseRpcCallback
      ((h.counted id e he).voteResponseRpcCallback hv.1 (by simp))

/-- A candidate learns how its election ended. -/
lemma ElectionInv.step_electionCallback (hs : s.electionCallback cfg id newId ctx = some s') :
    ElectionInv cfg s' := by
  simp only [electionCallback] at hs
  split at hs
  · cases hs
  rename_i e he
  split_ifs at hs with hpend
  split at hs
  · cases hs
  rename_i r hr
  have hcnt := h.counted id e he
  have h' : ElectionInv cfg (s.setElection id { e with callbackPending := false }) :=
    h.setElection he ⟨rfl, rfl, fun hg => hg⟩ { hcnt with }
  obtain ⟨r, started⟩ := r
  -- the candidate has won, or the change is quiet or starts the election after a pre-election
  rcases doElectionCallback_spec hr with
    hqui | ⟨rfl, hpre, hterm, hgr, rfl⟩
  · exact h'.setNodeWithElection hcnt.candidate hqui hs
  · cases hs
    refine h'.becomeLeader ⟨id, { e with callbackPending := false }, ?_, hpre, hterm, rfl,
      hgr⟩ rfl rfl rfl
    simp

/-- A step of one replica that is quiet. -/
lemma ElectionInv.onNode {f : RaftConsensus ι → Option (RaftConsensus ι)}
    (hf : ∀ r, f (s.node n) = some r → Quiet n (s.node n).state r.state)
    (hs : s.onNode n f = some s') : ElectionInv cfg s' := by
  simp only [Cluster.onNode, map_eq_some_iff] at hs
  obtain ⟨r, hr, rfl⟩ := hs
  exact h.setNode (hf r hr)

/-- A replica handles an update. -/
lemma ElectionInv.step_handleUpdate {numPrepared : ℕ} {earlyCommit markCommitted : ApplyContext}
    (hs : s.handleUpdate cfg id numPrepared earlyCommit markCommitted tie = some s') :
    ElectionInv cfg s' := by
  simp only [handleUpdate] at hs
  split at hs
  · cases hs
  rename_i c hc
  split_ifs at hs
  split at hs
  · cases hs
  · rename_i r result hr
    cases hs
    have hcall := h.caller id c hc
    exact (h.setNode (quiet_updateReplica hcall hr)).setUpdateRpc hcall

/-- An update returns, and can start an election. -/
lemma ElectionInv.step_updateReturns {nowHt : HybridTime}
    (hs : s.updateReturns cfg id nowHt newId pre ctx = some s') :
    ElectionInv cfg s' := by
  simp only [updateReturns] at hs
  split at hs
  · cases hs
  rename_i c hc
  split at hs
  · have h' : ∀ status,
        ElectionInv cfg ((s.setNode c.dest { s.node c.dest with clock := nowHt }).setUpdateRpc id
          { c with status := status }) := by
      intro status
      apply ElectionInv.setUpdateRpc
      · exact h.setNode_of_state_eq rfl
      · exact h.caller id c hc
    split_ifs at hs
    · exact (h' _).step_startElection hs
    · cases hs
      exact h' _
  · cases hs

/-- A leader handles the reply to an update. -/
lemma ElectionInv.step_handleUpdateReply (hs : s.handleUpdateReply cfg id tie = some s') :
    ElectionInv cfg s' := by
  simp only [handleUpdateReply] at hs
  split at hs
  · cases hs
  split at hs
  · split_ifs at hs
    · cases hs
      exact h.setNode_of_state_eq rfl
    · obtain ⟨queue, -, rfl⟩ := map_eq_some_iff.1 hs
      exact h.setNode_of_state_eq rfl
  · cases hs

/-- A crash loses the leader and nothing that is on disk. -/
lemma ElectionInv.step_crash {point : CrashPoint}
    {recovered : RaftConsensus ι} (hs : s.crash n point recovered = some s') :
    ElectionInv cfg s' := by
  simp only [crash] at hs
  split at hs
  · cases hs
  rename_i metadata hmeta
  split_ifs at hs with hrecov
  cases hs
  obtain ⟨hflu, hterm, hvote, hlead, -⟩ := hrecov
  -- the metadata on disk is that in memory, or a new term without a vote
  have hdisk : (s.node n).state.currentTerm ≤ metadata.currentTerm ∧
      (metadata.currentTerm = (s.node n).state.currentTerm →
        metadata.votedFor = (s.node n).state.votedFor) := by
    cases point with
    | idle =>
      obtain rfl : (s.node n).state.flushed = metadata := by
        simpa [metadataAtCrash] using hmeta
      rw [h.flushed n]
      exact ⟨le_rfl, fun _ => rfl⟩
    | startingElection =>
      obtain rfl : ⟨(s.node n).state.currentTerm + 1, none⟩ = metadata := by
        simpa [metadataAtCrash] using hmeta
      exact ⟨Nat.le_succ _, fun heq => absurd heq (Nat.succ_ne_self _)⟩
    | voting id =>
      simp only [metadataAtCrash] at hmeta
      split at hmeta
      · cases hmeta
      · split_ifs at hmeta with hnew
        cases hmeta
        exact ⟨hnew.2.le, fun heq => absurd heq hnew.2.ne'⟩
  have hqui : Quiet n (s.node n).state recovered.state := by
    refine ⟨hterm ▸ hdisk.1, ?_, ?_, ?_⟩
    · intro heq
      rw [hvote]
      exact hdisk.2 (hterm.symm.trans heq)
    · intro _
      rw [hflu, hterm, hvote]
    · intro hl
      rw [hlead] at hl
      cases hl
  have hdrop : ElectionInv cfg (s.dropCalls n) := by
    have hmap : ∀ id e', (s.dropCalls n).elections id = some e' →
        ∃ e, s.elections id = some e ∧ e.Same e' ∧
          (e.Counted cfg.voters → e'.Counted cfg.voters) := by
      intro id e' he'
      obtain ⟨e, he, rfl⟩ := map_eq_some_iff.1 he'
      refine ⟨e, he, ?_, ?_⟩
      · split_ifs
        · exact ⟨rfl, rfl, fun hg => hg⟩
        · exact .refl e
      · intro hc
        split_ifs
        · exact { hc with }
        · exact hc
    refine h.of_quiet (fun _ _ _ hc => hc.of_same fun id e' he' => ?_)
      (fun _ _ hw => hw.mono fun id e he => ?_) (fun m => .refl m _) ?_ ?_
    · obtain ⟨e, he, hsame, -⟩ := hmap id e' he'
      exact ⟨e, he, hsame⟩
    · refine ⟨_, map_eq_some_iff.2 ⟨e, he, rfl⟩, ?_⟩
      split_ifs <;> exact ⟨rfl, fun hg => hg⟩
    · intro id e' he'
      obtain ⟨e, he, -, hcnt⟩ := hmap id e' he'
      exact hcnt (h.counted id e he)
    · intro id c' hc'
      obtain ⟨c, hc, rfl⟩ := map_eq_some_iff.1 hc'
      have hcall := h.caller id c hc
      split_ifs <;> exact hcall
  exact hdrop.setNode hqui

/-- Every event keeps the invariant. -/
lemma ElectionInv.step {ev : ClusterEvent ι} (hs : Step cfg s ev s') : ElectionInv cfg s' := by
  cases ev with
  | tick d =>
    cases hs
    exact h.of_quiet (fun _ _ _ hc => hc) (fun _ _ hw => hw) (fun n => .refl n _) h.counted h.caller
  | startElection n id ignoreLiveLeader pre => exact h.step_startElection hs
  | handleVoteRequest id v updateBusy => exact h.step_handleVoteRequest hs
  | handleVoteReply id v failed => exact h.step_handleVoteReply hs
  | electionCallback id newId ctx => exact h.step_electionCallback hs
  | appendNoOp n nowHt =>
    simp only [Step, Cluster.step] at hs
    refine h.onNode (fun r hr => ?_) hs
    -- the append of the no-op changes nothing about votes
    split_ifs at hr
    exact .of_metadata_eq ((metadata_appendNewRoundsToQueue hr).trans rfl)
  | replicate n rounds =>
    simp only [Step, Cluster.step, Cluster.replicate, replicateBatch] at hs
    split_ifs at hs
    · obtain ⟨r, hr, rfl⟩ := map_eq_some_iff.1 hs
      exact h.setNode (.of_metadata_eq ((metadata_appendNewRoundsToQueue hr).trans rfl))
    · cases hs
  | sendUpdate n peer id nowHt safeTime =>
    simp only [Step, Cluster.step, Cluster.sendUpdate] at hs
    split_ifs at hs with hpeer
    split at hs
    · cases hs
    rename_i request queue hreq
    cases hs
    -- the update is for another replica
    obtain ⟨p, hrequested⟩ := PeerMessageQueue.requestForPeer_spec hreq
    apply ElectionInv.setUpdateRpc
    · exact h.setNode_of_state_eq rfl
    · rw [hrequested.caller.1]
      exact hpeer.2.1.symm
  | updateNotSent n peer nowHt safeTime =>
    simp only [Step, Cluster.step, Cluster.updateNotSent] at hs
    split_ifs at hs
    cases hs
    exact h.setNode_of_state_eq rfl
  | handleUpdate id numPrepared earlyCommit markCommitted tie => exact h.step_handleUpdate hs
  | updateReturns id nowHt newId pre ctx => exact h.step_updateReturns hs
  | handleUpdateReply id tie => exact h.step_handleUpdateReply hs
  | updateFails id =>
    simp only [Step, Cluster.step, Cluster.updateFails] at hs
    split at hs
    · cases hs
    · split_ifs at hs
      cases hs
      exact h.setNode_of_state_eq rfl
  | runNotification n ctx =>
    simp only [Step, Cluster.step] at hs
    refine h.onNode (fun r hr => ?_) hs
    split_ifs at hr
    exact quiet_runNotification hr
  | processBatch n | groupWork n =>
    refine h.onNode (fun r hr => ?_) hs
    obtain ⟨log, -, rfl⟩ := map_eq_some_iff.1 hr
    exact Quiet.refl n (s.node n).state
  | runCallback n tie =>
    simp only [Step, Cluster.step] at hs
    refine h.onNode (fun r hr => ?_) hs
    simp only [runCallback] at hr
    split at hr
    · cases hr
    · obtain ⟨queue, -, rfl⟩ := map_eq_some_iff.1 hr
      exact Quiet.refl n (s.node n).state
  | rollOver n | evict n index =>
    simp only [Step, Cluster.step] at hs
    refine h.onNode (fun r hr => ?_) hs
    cases hr
    exact Quiet.refl n (s.node n).state
  | stepDown n newLeader id =>
    simp only [Step, Cluster.step, Cluster.stepDown] at hs
    split_ifs at hs
    -- the leader becomes a follower in the same term
    have h' := h.setNode ((s.node n).quiet_becomeReplica n)
    split at hs
    · cases hs
      exact h'
    · cases hs
      exact h'.setRunElectionRpc
  | handleRunElection id newId pre ctx =>
    simp only [Step, Cluster.step, Cluster.handleRunElection] at hs
    split at hs
    · cases hs
    · split_ifs at hs
      exact h.setRunElectionRpc.step_startElection hs
  | crash n point recovered => exact h.step_crash hs

/-! ## Election safety -/

/-- Two candidates that have won an election of a term have been voted for by the same replica. -/
lemma ElectionInv.wonElection_unique {c c' : ι}
    (hc : s.WonElection c term) (hc' : s.WonElection c' term) : c = c' := by
  classical
  obtain ⟨id, e, he, hpre, hterm, hcand, hg⟩ := hc
  obtain ⟨id', e', he', hpre', hterm', hcand', hg'⟩ := hc'
  -- a majority of the voters has granted its vote
  have hmaj : ∀ {id e}, s.elections id = some e → e.decision = some .granted →
      majoritySize cfg.voters.length ≤ cfg.voters.countP fun v => decide (e.VotedBy v) := by
    intro id e he hg
    have hcnt := h.counted id e he
    rw [← hcnt.majority]
    refine (hcnt.decision hg).trans
      (VoteCounter.yesVotes_le_countP hcnt.nodup (fun w hw => (hcnt.votes w hw).1) ?_)
    intro w hw hgr
    simpa using (hcnt.votes w hw).2 hgr
  have hsize : cfg.voters.length < 2 * majoritySize cfg.voters.length := by
    simp only [majoritySize]
    omega
  -- a voter of both elections has voted for one candidate only
  obtain ⟨v, -, hv, hv'⟩ := exists_mem_of_majorities hsize (hmaj he hg) (hmaj he' hg')
  exact h.unique v term c c' ⟨id, e, he, hpre, hterm, hcand, by simpa using hv⟩
    ⟨id', e', he', hpre', hterm', hcand', by simpa using hv'⟩

end

/-- The invariant holds in every state of a run. -/
lemma electionInv_run {es : List (ClusterEvent ι)} (hrun : Run (Step cfg) init es s) :
    ElectionInv cfg s :=
  hrun.invariant (fun _ _ _ h hs => h.step hs) electionInv_init

/-- In every run, with any number of crashes, a replica has voted for at most one candidate in a
term, at most one candidate has won an election of a term, and only a candidate that has is
leader. -/
theorem election_safety {es : List (ClusterEvent ι)} (hrun : Run (Step cfg) init es s) :
    (∀ v term c c', s.CastVote v term c → s.CastVote v term c' → c = c') ∧
      (∀ term c c', s.WonElection c term → s.WonElection c' term → c = c') ∧
      ∀ n, (s.node n).isLeader n → s.WonElection n (s.node n).state.currentTerm := by
  have h := electionInv_run hrun
  refine ⟨h.unique, fun _ _ _ => h.wonElection_unique, ?_⟩
  intro n hn
  exact h.leader n (by simpa [isLeader, ReplicaState.isLeader] using hn)

/-- Three replicas. -/
def threeReplicas : ClusterConfig (Fin 3) where
  voters := [0, 1, 2]
  nodup := by decide

/-- Replica 0 wins the election of term 1 with the vote of replica 1, which stops and starts again
and then turns replica 2 away. -/
def electionWithCrash : List (ClusterEvent (Fin 3)) :=
  [.startElection 0 0 false false, .handleVoteRequest 0 1 false, .handleVoteReply 0 1 false,
    .electionCallback 0 9 {}, .startElection 2 1 true false,
    .crash 1 .idle
      { RaftConsensus.init 1 with
        state := { currentTerm := 1, votedFor := some 0, flushed := ⟨1, some 0⟩ } },
    .handleVoteRequest 1 1 false]

theorem election_safety_threeReplicas :
    ∃ s, Run (Step threeReplicas) init electionWithCrash s ∧
      ((s.node 0).isLeader 0 = true ∧ s.WonElection 0 1) ∧
      ∀ c, s.WonElection c 1 → c = 0 := by
  have hsome : (Run.exec (step threeReplicas) init electionWithCrash).isSome := by decide +kernel
  obtain ⟨s, hs⟩ := isSome_iff_exists.1 hsome
  have hrun : Run (Step threeReplicas) init electionWithCrash s := Run.of_exec hs
  have hlead : ((Run.exec (step threeReplicas) init electionWithCrash).map
      fun s => ((s.node 0).isLeader 0, (s.node 0).state.currentTerm)) = some (true, 1) := by
    decide +kernel
  rw [hs, map_some, Option.some.injEq, Prod.mk.injEq] at hlead
  have hwon := (election_safety hrun).2.2 0 hlead.1
  rw [hlead.2] at hwon
  exact ⟨s, hrun, ⟨hlead.1, hwon⟩, fun c hc => (election_safety hrun).2.1 1 c 0 hc hwon⟩

end Cluster
