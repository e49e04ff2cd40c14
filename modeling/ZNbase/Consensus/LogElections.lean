import ZNbase.Consensus.LogSteps

/-!
# Elections and the replicated log

The invariant of the replicated log is kept by elections: a candidate remembers the log it has
started with, a voter votes for a candidate whose log is not behind its own, and a candidate that
has won becomes leader with the log it has started with.
-/

open Function List OpLog Raft Option RaftConsensus LeaderElection

namespace Cluster

open ReplicaState (Quiet)
open RaftConsensus (QueueKept SameRole)

variable {ι : Type} [DecidableEq ι] {cfg : ClusterConfig ι} {s s' : Cluster ι} {a a' : Abstract ι}
  {cand : ℕ → List ReplicateMsg} {n : ι} {T : ℕ}

/-! ## Counting votes -/

variable {id : ℕ} {e : LeaderElection ι} {ctx : ApplyContext} {v : ι} {e' : LeaderElection ι}
  {now : CoarseTimePoint} {r : RaftConsensus ι} {data : LeaderElectionData} {pre updateBusy : Bool}

/-- A replica changes and keeps its log, its term and the ballots may grow. The elections are those
of before, with the same calls, and one that is over stays over. Pre-elections do not matter. -/
lemma LogInv.of_elections (h : LogInv cfg s a cand)
    (hoth : ∀ m, m ≠ v → s'.node m = s.node m) (hupdateRpcs : s'.updateRpcs = s.updateRpcs)
    (hrunElectionRpcs : s'.runElectionRpcs = s.runElectionRpcs)
    (hwon : ∀ m T, s.WonElection m T → s'.WonElection m T)
    (hback : ∀ id e, s'.elections id = some e → e.request.preelection = false →
      ∃ e₀, s.elections id = some e₀ ∧ e.request = e₀.request ∧
        (e₀.callbackPending = false → e₀.decision ≠ none → e.callbackPending = false ∧
          e.decision ≠ none))
    (helec : ElectionInv cfg s')
    (hterm : (s.node v).state.currentTerm ≤ (s'.node v).state.currentTerm)
    (hlog : (s'.node v).state.log = (s.node v).state.log)
    (hnode : NodeInv cfg.voters a (s.Leads a v) v (s'.node v))
    (hperf : s.Performing v (s'.node v))
    (ballot : ι → ℕ → Option (List ReplicateMsg))
    (hraft : Inv cfg.voters opTerm { a with
      term := fun m => if m = v then (s'.node v).state.currentTerm else a.term m, ballot :=
        ballot })
    (hball : ∀ id e w, s'.elections id = some e → e.request.preelection = false →
      e.VotedBy w → ballot w e.electionTerm = some (cand id)) :
    LogInv cfg s' { a with
      term := fun m => if m = v then (s'.node v).state.currentTerm else a.term m,
      ballot := ballot } cand := by
  set a' : Abstract ι := { a with
    term := fun m => if m = v then (s'.node v).state.currentTerm else a.term m,
    ballot := ballot } with ha'
  have hle : Le opTerm a a' := { Le.setTerm ((h.term v).trans_le hterm) with }
  have hg : Grows s s' a a' v := ⟨hle, hoth, hwon, fun _ => .inl, fun _ => .inl rfl⟩
  have hleads : ∀ m T, s'.Leads a' m T ↔ s.Leads a m T := fun m T =>
    ⟨fun hm => h.leads_of_leads hg helec hm hm.1, hg.leads⟩
  refine h.of_grows hg helec hraft (if_pos rfl) (hlog ▸ h.log v) (fun m hm => ⟨if_neg hm, rfl⟩)
    h.indexed (fun T hl => h.acked v T ((hleads v T).1 hl))
    (hnode.mono hle (hleads v) fun _ _ => rfl) ?_ ?_ hupdateRpcs hrunElectionRpcs hperf
  · intro id₁ e₁ he₁ hpre
    obtain ⟨e₀, he₀, hreq, hdone⟩ := hback id₁ e₁ he₁ hpre
    have hT : e₁.electionTerm = e₀.electionTerm := by
      rw [electionTerm, hreq, electionTerm]
    have hc := h.candidate id₁ e₀ he₀ (hreq ▸ hpre)
    refine ⟨hc.wellFormed.mono hle, hc.indexed, hT ▸ hc.pos, hT ▸ hc.term, hreq ▸ hc.last,
      fun w hw => hball id₁ e₁ w he₁ hpre hw, ?_, ?_⟩
    · rw [hT, hreq]
      intro hcur hnot
      by_cases hcv : e₀.request.candidateUuid = v
      · rw [hcv] at hcur ⊢
        -- a candidate that is in the term of its election was in it before
        have hcast :=
          (h.election.cast v e₀.electionTerm v ⟨id₁, e₀, he₀, hreq ▸ hpre, rfl, hcv,
          .inl hcv.symm⟩).1
        have hcur₀ := hc.log
        rw [hcv] at hcur₀
        rw [hlog]
        exact hcur₀ (by omega) hnot
      · rw [hoth _ hcv] at hcur ⊢
        exact hc.log hcur hnot
    · rw [hT, hreq]
      intro hl
      obtain ⟨hpend, hdec⟩ := hc.done ((hleads _ _).1 hl)
      exact hdone hpend hdec
  · intro id₁ id₂ e₁ e₂ he₁ he₂ hpre₁ hpre₂ hcand hT
    obtain ⟨e₃, he₃, hreq₃, -⟩ := hback id₁ e₁ he₁ hpre₁
    obtain ⟨e₄, he₄, hreq₄, -⟩ := hback id₂ e₂ he₂ hpre₂
    rw [hreq₃] at hpre₁ hcand
    rw [hreq₄] at hpre₂ hcand
    rw [electionTerm, electionTerm, hreq₃, hreq₄] at hT
    exact h.single id₁ id₂ e₃ e₄ he₃ he₄ hpre₁ hpre₂ hcand hT

/-- The replicas do not change, and no vote is cast. -/
lemma LogInv.of_node_eq (h : LogInv cfg s a cand) (v : ι) (hs : s'.node = s.node)
    (hupdateRpcs : s'.updateRpcs = s.updateRpcs)
    (hrunElectionRpcs : s'.runElectionRpcs = s.runElectionRpcs)
    (hwon : ∀ m T, s.WonElection m T → s'.WonElection m T)
    (hback : ∀ id e, s'.elections id = some e → e.request.preelection = false →
      ∃ e₀, s.elections id = some e₀ ∧ e.request = e₀.request ∧ e.replies = e₀.replies ∧
        (e₀.callbackPending = false → e₀.decision ≠ none → e.callbackPending = false ∧
          e.decision ≠ none))
    (helec : ElectionInv cfg s') : LogInv cfg s' a cand := by
  -- the voters are as before, so that nothing changes for the abstract protocol
  have hterm : (fun m => if m = v then (s'.node v).state.currentTerm else a.term m) = a.term := by
    funext m
    split_ifs with hm
    · rw [hs, hm, h.term]
    · rfl
  have h' := h.of_elections (fun m _ => by rw [hs]) hupdateRpcs
    hrunElectionRpcs hwon ?_ helec (by rw [hs]) (by rw [hs]) (hs ▸ h.node v)
    (hs ▸ h.performing v) a.ballot (by rw [hterm]; exact h.raft) ?_
  · rwa [hterm] at h'
  · intro id e he hpre
    obtain ⟨e₀, he₀, hreq, -, hdone⟩ := hback id e he hpre
    exact ⟨e₀, he₀, hreq, hdone⟩
  · intro id e w he hpre hw
    obtain ⟨e₀, he₀, hreq, hreplies, -⟩ := hback id e he hpre
    rw [VotedBy, hreq, hreplies] at hw
    rw [electionTerm, hreq]
    exact (h.candidate id e₀ he₀ (hreq ▸ hpre)).ballot w hw

/-- The call and the replies of an election stay, and an election that is over stays over. -/
lemma LogInv.setElection (h : LogInv cfg s a cand)
    (he : s.elections id = some e) (hsame : e.Same e') (hcnt : e'.Counted cfg.voters)
    (hdone : e.callbackPending = false → e.decision ≠ none → e'.callbackPending = false ∧
      e'.decision ≠ none) :
    LogInv cfg (s.setElection id e') a cand := by
  refine h.of_node_eq e.request.candidateUuid rfl rfl rfl
    (fun _ _ hw => hw.setElection he hsame.request hsame.granted) (fun id₁ e₁ he₁ _ => ?_)
    (h.election.setElection he hsame hcnt)
  rcases elections_of_setElection he₁ with ⟨rfl, rfl⟩ | ⟨-, hold⟩
  · exact ⟨e, he, hsame.request, hsame.replies, hdone⟩
  · exact ⟨e₁, hold, rfl, rfl, fun h₁ h₂ => ⟨h₁, h₂⟩⟩

/-- A reply after the decision is only noted. -/
lemma voteResponseRpcCallback_of_decided {voter : ι} {reply : Option (VoteResponse ι)}
    (h : e.decision ≠ none) :
    e.voteResponseRpcCallback voter reply now =
      { e with returned := Function.update e.returned voter true } := by
  simp only [voteResponseRpcCallback, if_neg h]

/-- A candidate gets a reply, or learns that a call has failed. -/
lemma LogInv.step_handleVoteReply (h : LogInv cfg s a cand) {failed : Bool}
    (hs : s.handleVoteReply cfg id v failed = some s') : LogInv cfg s' a cand := by
  simp only [handleVoteReply] at hs
  split at hs
  · cases hs
  rename_i e he
  split_ifs at hs with hv hfailed
  all_goals
    cases hs
    refine h.setElection he same_voteResponseRpcCallback
      ((h.election.counted id e he).voteResponseRpcCallback hv.1 (by simp)) ?_
    intro hpend hdec
    rw [voteResponseRpcCallback_of_decided hdec]
    exact ⟨hpend, hdec⟩

/-! ## Starting an election -/

/-- A replica that starts an election takes over the next term, and leaves its operations alone. -/
lemma createElection_node (cfg : ClusterConfig ι) (n : ι) (r : RaftConsensus ι)
    (data : LeaderElectionData) :
    SameOps (r.handleTermAdvance n (r.state.currentTerm + 1)).state
        (r.createElection n cfg.toRaftConfig data false).1.state ∧
      (r.createElection n cfg.toRaftConfig data false).1 =
        { r.handleTermAdvance n (r.state.currentTerm + 1) with
          state := (r.createElection n cfg.toRaftConfig data false).1.state } ∧
      (r.createElection n cfg.toRaftConfig data false).2.request.lastReceived =
        (r.handleTermAdvance n (r.state.currentTerm + 1)).state.lastReceivedOpId := by
  refine ⟨⟨rfl, rfl, rfl, rfl, rfl, rfl, rfl, rfl⟩, rfl, ?_⟩
  exact congrArg VoteRequest.lastReceived same_checkForDecision.request

lemma createElection_pre (r : RaftConsensus ι) (data : LeaderElectionData) :
    (r.createElection n cfg.toRaftConfig data true).1 = r := rfl

section

variable (h : LogInv cfg s a cand) {op : OpId}

include h

/-- A pre-election is added. -/
lemma LogInv.addPreelection (hid : s.elections id = none)
    (hpre : e.request.preelection = true) (helec : ElectionInv cfg (s.setElection id e)) :
    LogInv cfg (s.setElection id e) a cand := by
  refine h.of_node_eq e.request.candidateUuid rfl rfl rfl
    (fun _ _ hw => hw.mono fun _ e' he' => ⟨e', elections_setElection_of_none hid he', rfl,
      fun hg => hg⟩)
    (fun id' e' he' hpre' => ?_) helec
  rcases elections_of_setElection he' with ⟨-, rfl⟩ | ⟨-, hold⟩
  · rw [hpre] at hpre'
    cases hpre'
  · exact ⟨e', hold, rfl, rfl, fun h₁ h₂ => ⟨h₁, h₂⟩⟩

/-- A replica has cast no vote in the term after its own. -/
lemma LogInv.not_castVote_succ (c : ι) : ¬s.CastVote n ((s.node n).state.currentTerm + 1) c := by
  intro hc
  have := (h.election.cast n _ c hc).1
  omega

/-- An election of a replica in the term after its own is its only one of that term. -/
lemma LogInv.single_addElection {id₁ id₂ : ℕ} {e₁ e₂ : LeaderElection ι}
    (hcand : e.request.candidateUuid = n)
    (hterm : e.electionTerm = (s.node n).state.currentTerm + 1)
    (he₁ : (s.setElection id e).elections id₁ = some e₁)
    (he₂ : (s.setElection id e).elections id₂ = some e₂)
    (hpre₁ : e₁.request.preelection = false) (hpre₂ : e₂.request.preelection = false)
    (hcands : e₁.request.candidateUuid = e₂.request.candidateUuid)
    (hterms : e₁.electionTerm = e₂.electionTerm) : id₁ = id₂ := by
  have hnew : ∀ id' e', s.elections id' = some e' → e'.request.preelection = false →
      e'.request.candidateUuid = n → e'.electionTerm ≠ (s.node n).state.currentTerm + 1 :=
    fun id' e' he' hpre' hcand' hterm' =>
      h.not_castVote_succ n ⟨id', e', he', hpre', hterm', hcand', .inl hcand'.symm⟩
  rcases elections_of_setElection he₁ with ⟨rfl, rfl⟩ | ⟨-, hold₁⟩
  · rcases elections_of_setElection he₂ with ⟨rfl, -⟩ | ⟨-, hold₂⟩
    · rfl
    · exact absurd (hterms.symm.trans hterm) (hnew id₂ e₂ hold₂ hpre₂ (hcands.symm.trans hcand))
  · rcases elections_of_setElection he₂ with ⟨rfl, rfl⟩ | ⟨-, hold₂⟩
    · exact absurd (hterms.trans hterm) (hnew id₁ e₁ hold₁ hpre₁ (hcands.trans hcand))
    · exact h.single id₁ id₂ e₁ e₂ hold₁ hold₂ hpre₁ hpre₂ hcands hterms

/-- A new election, of a replica that has voted for itself with its log. -/
lemma LogInv.candidateInv_addElection {a' : Abstract ι} (hle : Le opTerm a a')
    (hstarts : Starts n cfg.toRaftConfig false (s.node n).state r.state e)
    (hterm : e.electionTerm = (s.node n).state.currentTerm + 1)
    (hlog : r.state.log = (s.node n).state.log)
    (hlast : e.request.lastReceived = lastId (s.node n).state.log)
    (hballot : a'.ballot n e.electionTerm = some (s.node n).state.log)
    (hleads : ¬((s.setNode n r).setElection id e).Leads a' n e.electionTerm) :
    CandidateInv ((s.setNode n r).setElection id e) a' (s.node n).state.log e := by
  have hwf : WellFormed opTerm a (s.node n).state.log := by
    rw [← h.log n]
    exact h.raft.log_wf n
  refine ⟨hwf.mono hle, (h.node n).sound.indexed, hterm ▸ Nat.succ_pos _, ?_, hlast, ?_, ?_, ?_⟩
  · intro m hm
    rw [hterm]
    have hle := h.raft.log_term n m (by rw [h.log n]; exact hm)
    rw [h.term n] at hle
    exact Nat.lt_succ_of_le hle
  · -- nobody but the candidate has voted
    rintro v (hv | ⟨reply, hreply, -⟩)
    · rw [hv, hstarts.candidate]
      exact hballot
    · rw [hstarts.replies v] at hreply
      cases hreply
  · intro _ _
    rw [hstarts.candidate]
    exact (congrArg (·.state.log) (s.setNode_node_self n r)).trans hlog
  · rw [hstarts.candidate]
    exact fun hl => absurd hl hleads

/-- A replica starts an election of the next term, and votes for itself. -/
lemma LogInv.addElection (hid : s.elections id = none) (hn : n ∈ cfg.voters)
    (hstarts : Starts n cfg.toRaftConfig false (s.node n).state r.state e)
    (hterm : r.state.currentTerm = (s.node n).state.currentTerm + 1)
    (hlog : r.state.log = (s.node n).state.log)
    (hlast : e.request.lastReceived = lastId (s.node n).state.log)
    (hnode : NodeInv cfg.voters a (s.Leads a n) n r) (hperf : ∀ p, r.performing p = none) :
    ∃ a' cand', LogInv cfg ((s.setNode n r).setElection id e) a' cand' := by
  set s' := (s.setNode n r).setElection id e with hs'
  set T := (s.node n).state.currentTerm + 1 with hT
  have helec : ElectionInv cfg s' := h.election.startElection hn hid hstarts
  have heT : e.electionTerm = T := (hstarts.term rfl).1.trans hterm
  -- the abstract state: the replica is in the new term, and has voted with its log
  set a₁ : Abstract ι := { a with term := fun m => if m = n then T else a.term m } with ha₁
  have hle₁ : Le opTerm a a₁ := .setTerm ((h.term n).trans_le (Nat.le_succ _))
  have hself₁ : a₁.term n = T := by simp [ha₁]
  set a' := a₁.vote n T (s.node n).state.log with ha'
  have hle : Le opTerm a a' := { hle₁ with }
  have hraft : Inv cfg.voters opTerm a' := by
    refine (h.raft.setTerm hle₁.term).vote (by rw [hself₁]) ?_ ?_
    · rw [← h.log n]
      exact h.raft.log_wf n
    · rw [h.log n]
      exact fun x hx => ⟨x, hx, .inr ⟨rfl, le_rfl⟩⟩
  have hnodeSelf : s'.node n = r := s.setNode_node_self n r
  have hnodeOther : ∀ m, m ≠ n → s'.node m = s.node m := fun m hm => s.setNode_node_of_ne hm r
  have hwon : ∀ m T', s.WonElection m T' → s'.WonElection m T' := fun m T' hw =>
    hw.mono fun _ e' he' => ⟨e', elections_setElection_of_none hid he', rfl, fun hg => hg⟩
  have hg : Grows s s' a a' n :=
    ⟨hle, hnodeOther, hwon, fun _ => .inl, fun _ => .inl rfl⟩
  have hleads : ∀ m T', s'.Leads a' m T' ↔ s.Leads a m T' := fun m T' =>
    ⟨fun hm => h.leads_of_leads hg helec hm hm.1, hg.leads⟩
  refine ⟨a', Function.update cand id (s.node n).state.log, h.of_grows hg helec hraft ?_ ?_
    (fun m hm => ⟨if_neg hm, rfl⟩) h.indexed ?_ ?_ ?_ ?_ rfl rfl ?_⟩
  · rw [hnodeSelf, hterm]
    exact hself₁
  · rw [hnodeSelf, hlog]
    exact h.log n
  · exact fun T' hl' => h.acked n T' ((hleads n T').1 hl')
  · rw [hnodeSelf]
    exact hnode.mono hle (hleads n) fun _ _ => rfl
  · intro id' e' he' hpre'
    rcases elections_of_setElection he' with ⟨rfl, rfl⟩ | ⟨hne, hold⟩
    · rw [update_self]
      refine h.candidateInv_addElection hle hstarts heT hlog hlast ?_ ?_
      · simp [ha', State.vote, heT]
      · rw [heT]
        exact fun hl => h.not_leads_of_lt (Nat.lt_succ_self _) ((hleads n T).1 hl)
    · rw [update_of_ne hne]
      refine (h.candidate id' e' hold hpre').mono hle ?_ ?_ (hleads _ _).1
      · intro v hv
        refine update_update_of_ne ?_
        rintro ⟨rfl, hT'⟩
        exact h.not_castVote_succ _ ⟨id', e', hold, hpre', hT', rfl, hv⟩
      · intro hterm' _
        by_cases hcn : e'.request.candidateUuid = n
        · rw [hcn, hnodeSelf, hterm] at hterm'
          exact absurd ⟨id', e', hold, hpre', hterm'.symm, hcn, .inl hcn.symm⟩
            (h.not_castVote_succ n)
        · rw [hnodeOther _ hcn] at hterm' ⊢
          exact ⟨hterm', rfl⟩
  · intro id₁ id₂ e₁ e₂ he₁ he₂
    exact h.single_addElection hstarts.candidate heT he₁ he₂
  · intro p id' hp
    rw [hnodeSelf, hperf p] at hp
    cases hp

/-- A replica creates an election. -/
lemma LogInv.createElection (hn : n ∈ cfg.voters) (hnoOp : (s.node n).noOpPending = false)
    (hid : s.elections id = none) (data : LeaderElectionData) (pre : Bool) :
    ∃ a' cand', LogInv cfg
      ((s.setNode n ((s.node n).createElection n cfg.toRaftConfig data pre).1).setElection id
        ((s.node n).createElection n cfg.toRaftConfig data pre).2) a' cand' := by
  have hstarts := createElection_spec (s.node n) n cfg.toRaftConfig data pre
  cases pre with
  | true =>
    have helec := h.election.startElection hn hid hstarts
    rw [createElection_pre, setNode_self] at helec ⊢
    exact ⟨a, cand, h.addPreelection hid hstarts.preelection helec⟩
  | false =>
    -- the replica is in a new term, with the log it had
    obtain ⟨hops, heq, hlast⟩ := createElection_node cfg n (s.node n) data
    have hlt := Nat.lt_succ_self (s.node n).state.currentTerm
    have hnode := (h.node n).handleTermAdvance (T := (s.node n).state.currentTerm + 1) hnoOp
      h.not_leads_of_lt
    refine h.addElection hid hn hstarts ?_ ?_ ?_ (heq ▸ hnode.of_sameOps hops) ?_
    · rw [hops.term, handleTermAdvance_state_of_lt hlt]
      rfl
    · rw [hops.log, log_handleTermAdvance]
    · rw [hlast, handleTermAdvance_state_of_lt hlt]
      exact (h.node n).sound.lastReceived
    · intro p
      -- it performs no calls, since it was not the leader of this term
      by_contra hp
      obtain ⟨id', hp⟩ := ne_none_iff_exists'.1 hp
      obtain ⟨heq', -⟩ :=
        performing_handleTermAdvance (fun p id hp => (h.performing n p id hp).1) hp
      have hterm :
          ((s.node n).handleTermAdvance n ((s.node n).state.currentTerm + 1)).state.currentTerm =
          (s.node n).state.currentTerm + 1 := by
        rw [handleTermAdvance_state_of_lt hlt]
        rfl
      rw [heq'] at hterm
      omega

/-! ## Committing for a pending election -/

/-- An operation of the own log that a leader has committed is committed with all before it. -/
lemma LogInv.committedLog_take (hop : CommittedOp cfg.voters a T op)
    (hT : T ≤ (s.node n).state.currentTerm) (hmem : op ∈ (s.node n).state.log.map (·.id)) :
    CommittedLog cfg.voters a (s.node n).state.currentTerm
      ((s.node n).state.log.take op.index) := by
  rcases hop with hzero | ⟨T', i, hT', hch, hi, m, hm, hid⟩
  · exact .inl (by rw [hzero, take_zero])
  obtain ⟨x, hx, hxid⟩ := mem_map.1 hmem
  obtain ⟨j, hj⟩ := mem_iff_getElem?.1 hx
  have hidx : op.index = j + 1 := by
    rw [← hxid]
    exact (h.node n).sound.indexed.index_eq hj
  rw [hidx] at hm
  have hwf := h.raft.log_wf n
  rw [h.log n] at hwf
  have htake := hwf.take_eq (h.raft.logOf_wf T') hj hm (congrArg OpId.term (hxid.trans hid.symm))
  refine .inr ⟨T', i, hT'.trans hT, hch, ?_, ?_⟩
  · exact (length_take_le _ _).trans hi
  · rw [hidx, htake]
    exact take_prefix _ _

/-- A replica that is no leader commits what it may commit. -/
lemma LogInv.commitPending (hlead : (s.node n).isLeader n = false) {ok : Bool} {st : ReplicaState ι}
    (hadvance : (s.node n).state.advanceCommittedOpId ctx op false = some (ok, st))
    (hsafe : op.index ≤ (s.node n).state.lastCommittedOpId.index ∨
      CommittedLog cfg.voters a (s.node n).state.currentTerm ((s.node n).state.log.take op.index)) :
    ∃ a', LogInv cfg (s.setNode n { s.node n with state := st }) a' cand := by
  have hsnd := (h.node n).sound
  have hadv := ReplicaState.advances_advanceCommittedOpId hsnd hadvance
  have hmeta := ReplicaState.metadata_advanceCommittedOpId hadvance
  -- nothing is committed that was not committed before or is not on a majority
  have hcom : CommittedLog cfg.voters a (s.node n).state.currentTerm st.applied := by
    rcases hadv.le with heq | hle
    · rw [heq]
      exact (h.node n).committed
    rcases hsafe with hsafe | hsafe
    · rw [hsnd.lastCommitted_index] at hsafe
      rw [← hadv.applied.eq_of_length_le (hle.trans hsafe)]
      exact (h.node n).committed
    have hpre : st.applied <+: (s.node n).state.log.take op.index := by
      rw [prefix_take_iff, ← hadv.log]
      exact ⟨st.applied_prefix_log, hle⟩
    rcases hsafe with hnil | ⟨T', i, hT', hch, hlen, hl⟩
    · rw [hnil] at hpre
      exact .inl (prefix_nil.1 hpre)
    · exact .inr ⟨T', i, hT', hch, hpre.length_le.trans hlen, hpre.trans hl⟩
  have hnode := (h.node n).commit hmeta hadv hcom fun hl => by simp [hlead] at hl
  have hqui : Quiet n (s.node n).state st := .of_metadata_eq hmeta
  refine ⟨_, h.setNode hqui.term_le hadv.log (h.election.setNode hqui) hnode ?_⟩
  intro p id hp
  simp [(h.performing n p id hp).1] at hlead

end

/-- What an election that waits for an operation commits is committed. -/
def PendingSafe (voters : List ι) (a : Abstract ι) (r : RaftConsensus ι)
    (data : LeaderElectionData) : Prop :=
  data.pendingCommit = true → ∀ op,
    data.mustBeCommittedOpId.getD (r.state.pendingElectionOpId.getD OpId.min0) = op →
    op.index ≤ r.state.lastCommittedOpId.index ∨
      CommittedLog voters a r.state.currentTerm (r.state.log.take op.index)

/-- It may have to commit before. -/
lemma LogInv.doStartElection (h : LogInv cfg s a cand) (hn : n ∈ cfg.voters)
    (hnoOp : (s.node n).noOpPending = false)
    {r : RaftConsensus ι × Option (LeaderElection ι)}
    (hr : (s.node n).doStartElection n cfg.toRaftConfig data pre ctx = some r)
    (hsafe : PendingSafe cfg.voters a (s.node n) data)
    (hs : s.setNodeWithElection n id r = some s') : ∃ a' cand', LogInv cfg s' a' cand' := by
  simp only [RaftConsensus.doStartElection] at hr
  split_ifs at hr with hlead hpend
  · -- the replica is the leader already
    cases hr
    cases hs
    rw [setNode_self]
    exact ⟨a, cand, h⟩
  · simp only [bind_eq_bind, bind_eq_some_iff] at hr
    obtain ⟨⟨ok, st⟩, hadv, hr⟩ := hr
    -- operations that have to be committed are committed first
    obtain ⟨a₁, h₁⟩ := h.commitPending (by simpa using hlead) hadv (hsafe hpend _ rfl)
    have hself := s.setNode_node_self n { s.node n with state := st }
    split_ifs at hr with hidx
    · cases hr
      simp only [setNodeWithElection] at hs
      split_ifs at hs with hid
      cases hs
      have hcreate := h₁.createElection hn (by rw [hself]; exact hnoOp) hid data pre
      rw [hself, setNode_setNode] at hcreate
      exact hcreate
    · split at hr
      · cases hr
        cases hs
        rename_i op _
        -- the election waits for an operation
        have hops : SameOps st { st with pendingElectionOpId := some op } :=
          ⟨rfl, rfl, rfl, rfl, rfl, rfl, rfl, rfl⟩
        have hnode := h₁.node n
        have hperf := h₁.performing n
        have hqui : Quiet n ((s.setNode n { s.node n with state := st }).node n).state
            { st with pendingElectionOpId := some op } := by
          rw [hself]
          exact .of_metadata_eq rfl
        rw [hself] at hnode hperf
        have h₂ := h₁.setNode hqui.term_le (by rw [hself]; rfl) (h₁.election.setNode hqui)
          (hnode.of_sameOps hops) hperf
        rw [setNode_setNode] at h₂
        exact ⟨_, _, h₂⟩
      · cases hr
        cases hs
        exact ⟨a₁, cand, h₁⟩
  · cases hr
    simp only [setNodeWithElection] at hs
    split_ifs at hs with hid
    cases hs
    exact h.createElection hn hnoOp hid data pre

/-- An election starts. -/
lemma LogInv.step_startElection (h : LogInv cfg s a cand)
    (hsafe : PendingSafe cfg.voters a (s.node n) data)
    (hs : s.startElection cfg n id data pre ctx = some s') :
    ∃ a' cand', LogInv cfg s' a' cand' := by
  simp only [Cluster.startElection] at hs
  split_ifs at hs with hguard
  split at hs
  · cases hs
  · rename_i r hr
    exact h.doStartElection hguard.1 (by simpa using hguard.2) hr hsafe hs

/-! ## Votes -/

/-- The order of operation ids compares logs. -/
lemma upToDate_of_lastId_le {l l' : List ReplicateMsg} (hl : Indexed l) (hl' : Indexed l')
    (h : lastId l ≤ lastId l') : UpToDate opTerm l l' := by
  intro x hx
  have hid := lastId_of_getLast? hx
  have hne : l ≠ [] := by
    rintro rfl
    simp at hx
  have hpos := length_pos_iff.2 hne
  rw [OpId.le_def, hl.lastId_index, hl'.lastId_index] at h
  have hne' : l' ≠ [] := by
    rintro rfl
    simp only [lastId_nil, OpId.min0_term, length_nil] at h
    omega
  refine ⟨l'.getLast hne', getLast?_eq_some_getLast hne', ?_⟩
  rw [hid, lastId_of_getLast? (getLast?_eq_some_getLast hne')] at h
  exact h

omit [DecidableEq ι] in
lemma sameOps_remainingOldLeaderLeaseDuration (st : ReplicaState ι) (now : CoarseTimePoint) :
    SameOps st (st.remainingOldLeaderLeaseDuration now).2 := by
  simp only [ReplicaState.remainingOldLeaderLeaseDuration]
  split_ifs <;> exact ⟨rfl, rfl, rfl, rfl, rfl, rfl, rfl, rfl⟩

omit [DecidableEq ι] in
/-- The end of a call for a vote leaves the operations of the voter alone. -/
lemma decideVote_node (r : RaftConsensus ι) (request : VoteRequest ι) (now : CoarseTimePoint) :
    SameOps r.state (r.decideVote request now).1.state ∧
      (r.decideVote request now).1 = { r with state := (r.decideVote request now).1.state } := by
  have hops := sameOps_remainingOldLeaderLeaseDuration r.state now
  simp only [decideVote]
  split_ifs
  · exact ⟨⟨rfl, rfl, rfl, rfl, rfl, rfl, rfl, rfl⟩, rfl⟩
  · exact ⟨hops, rfl⟩
  · exact ⟨{ hops with }, rfl⟩

/-- A voter takes over the term of the candidate, or stays in its term, and leaves its operations
alone. -/
lemma requestVote_node {r' : RaftConsensus ι} {request : VoteRequest ι} {response : VoteResponse ι}
    (h : r.requestVote n request now updateBusy = (r', response)) :
    ∃ T, SameOps (r.handleTermAdvance n T).state r'.state ∧
      r' = { r.handleTermAdvance n T with state := r'.state } := by
  have hstay : r' = r → ∃ T, SameOps (r.handleTermAdvance n T).state r'.state ∧
      r' = { r.handleTermAdvance n T with state := r'.state } := by
    rintro rfl
    refine ⟨0, ?_⟩
    exact ⟨⟨rfl, rfl, rfl, rfl, rfl, rfl, rfl, rfl⟩, rfl⟩
  simp only [requestVote] at h
  split_ifs at h with hbusy halive hold hvoted hvote hadv
  iterate 5
    · exact hstay (Prod.mk.inj h).1.symm
  · have hr : r' = ((r.handleTermAdvance n request.candidateTerm).decideVote request now).1 := by
      rw [h]
    exact ⟨request.candidateTerm, hr ▸ decideVote_node _ _ _⟩
  · have hr : r' = (r.decideVote request now).1 := by rw [h]
    refine ⟨0, ?_⟩
    exact hr ▸ decideVote_node _ _ _

section

variable (h : LogInv cfg s a cand) {newId : ℕ}

include h

/-- A voter replies to a candidate: its term and its ballots grow. -/
lemma LogInv.setReply (he : s.elections id = some e)
    (hs' : s' = (s.setNode v r).setElection id e') (hreq : e'.request = e.request)
    (hpend : e'.callbackPending = e.callbackPending) (hdec : e'.decision = e.decision)
    (helec : ElectionInv cfg s') (hterm : (s.node v).state.currentTerm ≤ r.state.currentTerm)
    (hlog : r.state.log = (s.node v).state.log) (hnode : NodeInv cfg.voters a (s.Leads a v) v r)
    (hperf : s.Performing v r)
    {ballot : ι → ℕ → Option (List ReplicateMsg)}
    (hraft : Inv cfg.voters opTerm { a with
      term := fun m => if m = v then r.state.currentTerm else a.term m, ballot := ballot })
    (hball : ∀ id₁ e₁ w, s'.elections id₁ = some e₁ → e₁.request.preelection = false →
      e₁.VotedBy w → ballot w e₁.electionTerm = some (cand id₁)) : ∃ a', LogInv cfg s' a' cand := by
  subst hs'
  have hoth : ∀ m, m ≠ v → ((s.setNode v r).setElection id e').node m = s.node m :=
    fun m hm => s.setNode_node_of_ne hm r
  refine ⟨_, h.of_elections hoth rfl rfl
    (fun m T hw => WonElection.setElection hw he hreq (hdec.trans ·))
    (fun id₁ e₁ he₁ _ => ?_) helec ?_ ?_ ?_ ?_ _ ?_ hball⟩
  · rcases elections_of_setElection he₁ with ⟨rfl, rfl⟩ | ⟨-, hold⟩
    · exact ⟨e, he, hreq, fun h₁ h₂ => ⟨hpend.trans h₁, hdec ▸ h₂⟩⟩
    · exact ⟨e₁, hold, rfl, fun h₁ h₂ => ⟨h₁, h₂⟩⟩
  all_goals simp only [Cluster.setElection, setNode_node_self]
  exacts [hterm, hlog, hnode, hperf, hraft]

/-- A vote that is there after a reply was cast before it, in this election or another one, or is
the reply. -/
lemma LogInv.ballot_or_reply {response : VoteResponse ι} {id₁ : ℕ} {e₁ : LeaderElection ι} {w : ι}
    (he : s.elections id = some e)
    (he₁ : ((s.setNode v r).setElection id
      { e with replies := Function.update e.replies v (some response) }).elections id₁ = some e₁)
    (hpre : e₁.request.preelection = false) (hw : e₁.VotedBy w) :
    a.ballot w e₁.electionTerm = some (cand id₁) ∨
      id₁ = id ∧ w = v ∧ response.voteGranted = true ∧ e₁.electionTerm = e.electionTerm ∧
        e.request.preelection = false := by
  rcases elections_of_setElection he₁ with ⟨rfl, rfl⟩ | ⟨-, he₀⟩
  · rcases hw.of_reply with hw | ⟨hw, hg⟩
    · exact .inl ((h.candidate id₁ e he hpre).ballot w hw)
    · exact .inr ⟨rfl, hw, hg, rfl, hpre⟩
  · exact .inl ((h.candidate id₁ e₁ he₀ hpre).ballot w hw)

/-- A voter that grants its vote has nothing that the candidate does not have. -/
lemma LogInv.step_handleVoteRequest
    (hsafe : ∀ e, s.elections id = some e → e.request.preelection = false →
      ((s.node v).requestVote v e.request (s.now cfg v) updateBusy).2.voteGranted = true →
      (s.node v).state.lastReceivedOpId ≤ e.request.lastReceived)
    (hs : s.handleVoteRequest cfg id v updateBusy = some s') : ∃ a', LogInv cfg s' a' cand := by
  have helec := h.election.step_handleVoteRequest hs
  simp only [handleVoteRequest] at hs
  split at hs
  · cases hs
  rename_i e he
  split_ifs at hs with hguard
  obtain ⟨-, -, hnone, hnoOp⟩ := hguard
  obtain ⟨r, response, hvote⟩ :
      ∃ r response, (s.node v).requestVote v e.request (s.now cfg v) updateBusy = (r, response) :=
    ⟨_, _, rfl⟩
  have hgr : e.request.preelection = false → response.voteGranted = true →
      (s.node v).state.lastReceivedOpId ≤ e.request.lastReceived := by
    intro hpre hg
    refine hsafe e he hpre ?_
    rw [hvote]
    exact hg
  rw [hvote] at hs
  have hs' := some.inj hs.symm
  obtain ⟨T, hops, heq⟩ := requestVote_node hvote
  have hqui := (s.node v).quiet_handleTermAdvance v T
  have hnode := (h.node v).handleTermAdvance (T := T) (by simpa using hnoOp) h.not_leads_of_lt
  have hterm : (s.node v).state.currentTerm ≤ r.state.currentTerm := by
    rw [hops.term]
    exact hqui.term_le
  have hlog : r.state.log = (s.node v).state.log := by rw [hops.log, log_handleTermAdvance]
  have hperf : s.Performing v r := by
    intro p id' hp
    rw [heq] at hp
    obtain ⟨heq', hp'⟩ :=
      performing_handleTermAdvance (fun p id hp => (h.performing v p id hp).1) hp
    rw [isLeader, ReplicaState.isLeader, hops.leader, hops.term, heq']
    exact h.performing v p id' hp'
  have hle : Le opTerm a _ := .setTerm ((h.term v).trans_le hterm)
  have hnode' : NodeInv cfg.voters a (s.Leads a v) v r := heq ▸ hnode.of_sameOps hops
  by_cases hcast : e.request.preelection = false ∧ response.voteGranted = true
  swap
  · refine h.setReply he hs' rfl rfl rfl helec hterm hlog hnode' hperf (h.raft.setTerm hle.term) ?_
    intro id₁ e₁ w he₁ hpre hw
    rcases h.ballot_or_reply he (hs' ▸ he₁) hpre hw with hb | ⟨-, -, hg, -, hpre'⟩
    · exact hb
    · exact absurd ⟨hpre', hg⟩ hcast
  obtain ⟨hpre, hg⟩ := hcast
  -- the voter is in the term of the candidate, and has a log that is not ahead
  have hvotes := (requestVote_spec hvote).resolve_left fun hq => by
    rw [hq.2 hg] at hpre
    cases hpre
  have hc := h.candidate id e he hpre
  have hup : UpToDate opTerm (a.log v) (cand id) := by
    rw [h.log v]
    refine upToDate_of_lastId_le (h.node v).sound.indexed hc.indexed ?_
    rw [← hc.last, ← (h.node v).sound.lastReceived]
    exact hgr hpre hg
  have hreached : e.electionTerm ≤ if v = v then r.state.currentTerm else a.term v := by
    rw [if_pos rfl]
    exact hvotes.term.ge
  have hraft := (h.raft.setTerm hle.term).vote hreached hc.wellFormed hup
  refine h.setReply he hs' rfl rfl rfl helec hterm hlog hnode' hperf hraft ?_
  intro id₁ e₁ w he₁ hpre₁ hw
  by_cases hwv : w = v ∧ e₁.electionTerm = e.electionTerm
  swap
  · have hne : a.ballot w e₁.electionTerm = some (cand id₁) := by
      rcases h.ballot_or_reply he (hs' ▸ he₁) hpre₁ hw with hb | ⟨-, hw', -, hT, -⟩
      · exact hb
      · exact absurd ⟨hw', hT⟩ hwv
    exact (update_update_of_ne hwv).trans hne
  · obtain ⟨rfl, hT⟩ := hwv
    -- the voter has voted for one candidate, which has one election of the term
    have hself :
        s'.elections id =
        some { e with replies := Function.update e.replies w (some response) } := by
      rw [hs', setElection_elections_self]
    have hcand := helec.unique w e.electionTerm _ _ ⟨id₁, e₁, he₁, hpre₁, hT, rfl, hw⟩
      ⟨id, _, hself, hpre, rfl, rfl, .inr ⟨response, by simp, hg⟩⟩
    have hid : id₁ = id := by
      rcases elections_of_setElection (hs' ▸ he₁) with ⟨hid, -⟩ | ⟨-, he₀⟩
      · exact hid
      · exact h.single id₁ id e₁ e he₀ he hpre₁ hpre hcand hT
    rw [hid, hT]
    simp

/-! ## Leaders -/

/-- The voters of an election that is won are a majority. -/
lemma LogInv.majority_ballot (he : s.elections id = some e)
    (hpre : e.request.preelection = false) (hgr : e.decision = some .granted) :
    Majority cfg.voters fun v => a.ballot v e.electionTerm = some (cand id) := by
  have hcnt := h.election.counted id e he
  have hc := h.candidate id e he hpre
  have hle := VoteCounter.yesVotes_le_countP
    (p := fun v => decide (a.ballot v e.electionTerm = some (cand id))) hcnt.nodup
    (fun w hw => (hcnt.votes w hw).1)
    (fun w hw hg => by simpa using hc.ballot w.1 ((hcnt.votes w hw).2 hg))
  have hmaj := hcnt.decision hgr
  rw [hcnt.majority, majoritySize] at hmaj
  refine Majority.of_countP (p := fun v => decide (a.ballot v e.electionTerm = some (cand id)))
    (by omega) fun v _ hv => by simpa using hv

omit h in
/-- The winner of an election leads its term, besides those that it led before. -/
lemma leads_elect_iff {l : List ReplicateMsg} {T T₁ : ℕ} (hwon : s.WonElection n T) :
    (s.setNode n r).Leads (a.elect n T l) n T₁ ↔ T₁ = T ∨ s.Leads a n T₁ := by
  constructor
  · rintro ⟨rfl | hT₁, hw⟩
    · exact .inl rfl
    · exact .inr ⟨hT₁, hw⟩
  · rintro (rfl | ⟨hT₁, hw⟩)
    · exact ⟨.inl rfl, hwon⟩
    · exact ⟨.inr hT₁, hw⟩

omit h in
/-- The election of a leader changes the winner only, and the log of its term. -/
lemma Grows.elect {l : List ReplicateMsg} {T : ℕ} (hle : Le opTerm a (a.elect n T l))
    (hpos : 0 < T) (hwon : s.WonElection n T) :
    Grows s (s.setNode n r) a (a.elect n T l) n := by
  refine ⟨hle, fun m hm => s.setNode_node_of_ne hm r, fun _ _ hw => hw, ?_, fun T₁ => ?_⟩
  · rintro T₁ (rfl | hT₁)
    · exact .inr ⟨hpos, hwon⟩
    · exact .inl hT₁
  · by_cases hT₁ : T₁ = T
    · rw [hT₁]
      exact .inr hwon
    · exact .inl (elect_logOf_of_ne hT₁)

/-- A candidate that has won an election of its term becomes leader. -/
lemma LogInv.becomeLeader (he : s.elections id = some e) (hpre : e.request.preelection = false)
    (hgr : e.decision = some .granted) (hdone : e.callbackPending = false)
    (hcand : e.request.candidateUuid = n) (hterm : e.electionTerm = (s.node n).state.currentTerm)
    (hlead : (s.node n).isLeader n = false) (hnot : ¬a.elected e.electionTerm)
    (lease : CoarseTimeLease ι) (htLease : PhysicalComponentLease ι) :
    ∃ a', LogInv cfg (s.setNode n ((s.node n).becomeLeader n cfg.toRaftConfig lease htLease))
      a' cand := by
  set r' := (s.node n).becomeLeader n cfg.toRaftConfig lease htLease with hr'
  set T := (s.node n).state.currentTerm with hT
  have hc := h.candidate id e he hpre
  have hlog : (s.node n).state.log = cand id := by
    have := hc.log
    rw [hcand] at this
    exact this hterm.symm hnot
  have hvotes := h.majority_ballot he hpre hgr
  have hpos := hc.pos
  have hl := hc.term
  rw [hterm] at hnot hvotes hpos hl
  have hwon : s.WonElection n T := ⟨id, e, he, hpre, hterm, hcand, hgr⟩
  have hraft := h.raft.elect_of_majority hnot hc.wellFormed hl (h.term n).ge hvotes
  have hle : Le opTerm a (a.elect n T (cand id)) := h.raft.le_elect hnot
  have helec : ElectionInv cfg (s.setNode n r') := h.election.becomeLeader hwon rfl rfl rfl
  have hself := s.setNode_node_self n r'
  have hoth : ∀ m, m ≠ n → (s.setNode n r').node m = s.node m :=
    fun m hm => s.setNode_node_of_ne hm r'
  have hst : ∀ m, ((s.setNode n r').node m).state.currentTerm = (s.node m).state.currentTerm ∧
      ((s.setNode n r').node m).state.log = (s.node m).state.log := by
    intro m
    by_cases hm : m = n
    · rw [hm, hself]
      exact ⟨rfl, rfl⟩
    · rw [hoth m hm]
      exact ⟨rfl, rfl⟩
  have hleads : ∀ T₁, (s.setNode n r').Leads (a.elect n T (cand id)) n T₁ ↔
      T₁ = T ∨ s.Leads a n T₁ := fun _ => leads_elect_iff hwon
  refine ⟨a.elect n T (cand id), h.of_grows (.elect hle hpos hwon) helec hraft
    ((h.term n).trans (hst n).1.symm) ((h.log n).trans (hst n).2.symm) (fun _ _ => ⟨rfl, rfl⟩)
    ?_ ?_ ?_ ?_ h.single rfl rfl ?_⟩
  · intro T₁
    by_cases hT₁ : T₁ = T
    · rw [hT₁, elect_logOf_self]
      exact hc.indexed
    · rw [elect_logOf_of_ne hT₁]
      exact h.indexed T₁
  · intro T₁ hl₁
    by_cases hT₁ : T₁ = T
    · rw [hT₁, elect_logOf_self, h.raft.acked_elect_self hnot, if_pos rfl]
    · rw [elect_acked_of_ne hT₁, elect_logOf_of_ne hT₁]
      exact h.acked n T₁ (((hleads T₁).1 hl₁).resolve_left hT₁)
  · rw [hself]
    refine (h.node n).becomeLeader hle hlead hleads (fun hl₁ => hnot hl₁.1) ?_ ?_ ?_ _ _ _
    · rw [elect_logOf_self, hlog]
    · rcases (h.node n).sound.lastCommitted_mem with hmin | ⟨m, hm, hid⟩
      · exact .inl hmin
      · exact hid ▸ h.known_of_mem_log hm
    · -- the candidate's log has no operation of the term
      rcases (h.node n).sound.lastCommitted_mem with hmin | ⟨m, hm, hid⟩
      · rw [hmin]
        exact hpos
      · exact hid ▸ hl m (hlog ▸ hm)
  · intro id₁ e₁ he₁ hpre₁
    have hc₁ := h.candidate id₁ e₁ he₁ hpre₁
    refine ⟨hc₁.wellFormed.mono hle, hc₁.indexed, hc₁.pos, hc₁.term, hc₁.last, hc₁.ballot, ?_, ?_⟩
    · intro hcur hnot₁
      rw [(hst _).1] at hcur
      rw [(hst _).2]
      exact hc₁.log hcur fun hel => hnot₁ (.inr hel)
    · rintro ⟨hT₁ | hT₁, hw⟩
      · -- the election that was won is the only one of the candidate in the term
        have hn := h.election.wonElection_unique (hT₁ ▸ hw) hwon
        obtain rfl :=
          h.single id₁ id e₁ e he₁ he hpre₁ hpre (hn.trans hcand.symm) (hT₁.trans hterm.symm)
        obtain rfl := some.inj (he.symm.trans he₁)
        exact ⟨hdone, by simp [hgr]⟩
      · exact hc₁.done ⟨hT₁, hw⟩
  · intro p id' hp
    rw [hself] at hp
    simp [(h.performing n p id' hp).1] at hlead

/-- A candidate learns how its election ended. -/
lemma LogInv.step_electionCallback
    (hsafe : ∀ e, s.elections id = some e → e.request.preelection = true →
      PendingSafe cfg.voters a (s.node e.request.candidateUuid) e.data)
    (hs : s.electionCallback cfg id newId ctx = some s') : ∃ a' cand', LogInv cfg s' a' cand' := by
  simp only [electionCallback] at hs
  split at hs
  · cases hs
  rename_i e he
  split_ifs at hs with hguard
  obtain ⟨hpend, hnoOp⟩ := hguard
  rw [Bool.not_eq_true] at hnoOp
  split at hs
  · cases hs
  rename_i r hr
  have hcnt := h.election.counted id e he
  set e' : LeaderElection ι := { e with callbackPending := false } with he'
  have h₁ : LogInv cfg (s.setElection id e') a cand :=
    h.setElection he ⟨rfl, rfl, fun hg => hg⟩ { hcnt with }
      fun hfalse => by simp [hpend] at hfalse
  have hself := s.setElection_elections_self id e'
  -- in some cases the candidate does nothing
  have hstay : r = (s.node e.request.candidateUuid, none) → ∃ a' cand', LogInv cfg s' a' cand' := by
    rintro rfl
    cases hs
    exact ⟨a, cand, (setNode_self (s.setElection id e') _).symm ▸ h₁⟩
  simp only [doElectionCallback] at hr
  split at hr
  · rename_i hgr
    split_ifs at hr with hterm hpre hlead
    · exact hstay (some.inj hr).symm
    · exact h₁.doStartElection hcnt.candidate hnoOp hr (hsafe e he hpre) hs
    · exact hstay (some.inj hr).symm
    cases hr
    cases hs
    have hpre' : e.request.preelection = false := by simpa using hpre
    rw [hpre', not_not] at hterm
    -- the callback runs once, so that nobody leads in the term before
    have hnot : ¬a.elected e.electionTerm := by
      intro hel
      have hwon : s.WonElection e.request.candidateUuid e.electionTerm :=
        ⟨id, e, he, hpre', rfl, rfl, hgr⟩
      have := ((h.candidate id e he hpre').done ⟨hel, hwon⟩).1
      simp [hpend] at this
    rw [Bool.not_eq_true] at hlead
    obtain ⟨a', h'⟩ :=
      h₁.becomeLeader hself hpre' hgr rfl rfl hterm hlead hnot e.oldLeaderLease e.oldLeaderHtLease
    exact ⟨a', cand, h'⟩
  · cases hr
    cases hs
    -- a lost election can bring a higher term
    obtain ⟨a', h'⟩ := h₁.handleTermAdvance (h₁.node _) rfl rfl hnoOp (e.higherTerm.getD 0)
    exact ⟨a', cand, h'⟩

/-! ## Elections that were pending -/

/-- An update returns, and can start an election. -/
lemma LogInv.step_updateReturns {nowHt : HybridTime}
    (hsafe : ∀ c result, s.updateRpcs id = some c → c.status = .waiting result →
      result.startElection = true →
      ((s.node c.dest).state.pendingElectionOpId.getD OpId.min0).index ≤
        (s.node c.dest).state.lastCommittedOpId.index)
    (hs : s.updateReturns cfg id nowHt newId pre ctx = some s') :
    ∃ a' cand', LogInv cfg s' a' cand' := by
  simp only [updateReturns] at hs
  split at hs
  · cases hs
  rename_i c hc
  split at hs
  swap
  · cases hs
  rename_i result hstat
  have hcall := h.update id c hc
  set status : UpdateStatus :=
    .returned { result.response with propagatedHybridTime := some nowHt } with hret
  -- what the response reports was noted when the update was handled
  have h₁ : LogInv cfg (s.setUpdateRpc id { c with status := status }) a cand := by
    refine h.setUpdateRpc ⟨hcall.leads, hcall.slice, hcall.committed, ?_⟩
      (h.election.caller id c hc) ?_
    · intro reported hrep hok
      refine hcall.reported reported ?_ hok
      rw [← hrep]
      simp [UpdateRpc.reported, hstat, hret]
    · intro c₀ hc₀
      obtain rfl : c = c₀ := some.inj (hc.symm.trans hc₀)
      exact ⟨rfl, rfl⟩
  have h₂ := h₁.setNode (r := { s.node c.dest with clock := nowHt }) le_rfl rfl
    (h₁.election.setNode_of_state_eq rfl) ((h₁.node c.dest).of_eq rfl rfl rfl rfl rfl)
    fun p id' hp => h₁.performing c.dest p id' hp
  split_ifs at hs with hguard hstart
  · refine h₂.step_startElection ?_ hs
    rintro - op rfl
    refine .inl ?_
    have hself := (s.setUpdateRpc id { c with status := status }).setNode_node_self c.dest
    rw [hself]
    exact hsafe c result hc hstat hstart
  · cases hs
    exact ⟨_, _, h₂⟩

/-- A replica is told to start an election. -/
lemma LogInv.step_handleRunElection
    (hsafe : ∀ c op, s.runElectionRpcs id = some c → c.request.committedIndex = some op →
      op.index ≤ (s.node c.dest).state.lastCommittedOpId.index ∨
        op ∈ (s.node c.dest).state.log.map (·.id) ∧
          c.callerTerm ≤ (s.node c.dest).state.currentTerm)
    (hs : s.handleRunElection cfg id newId pre ctx = some s') :
    ∃ a' cand', LogInv cfg s' a' cand' := by
  simp only [handleRunElection] at hs
  split at hs
  · cases hs
  rename_i c hc
  split_ifs at hs
  have hcom := h.runElection id c hc
  have h₁ : LogInv cfg (s.setRunElectionRpc id { c with delivered := true }) a cand :=
    h.setRunElectionRpc hcom
  refine h₁.step_startElection ?_ hs
  intro hpend op hop
  obtain ⟨op', hop'⟩ := isSome_iff_exists.1 hpend
  simp only [hop'] at hop
  subst hop
  -- the operation is committed here, or it was for the caller and is in the log
  rcases hsafe c op' hc hop' with hle | ⟨hmem, hle⟩
  · exact .inl hle
  · exact .inr (h.committedLog_take (hcom op' hop') hle hmem)

end

end Cluster
