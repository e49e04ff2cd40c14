import ZNbase.Consensus.ElectionSafety
import ZNbase.Consensus.QueueWatermark

/-!
# The invariant of the replicated log

The replicas are related to an abstract state of `Raft.State`, in which the log of a replica is what
it has received, and the log of a leader stays when the leader is gone. The invariant `LogInv` says
what is true of each replica (`NodeInv`), of each election (`CandidateInv`) and of each call that is
on its way (`UpdateInv`) in terms of the abstract state. It is kept for everything that a step does
not touch as the abstract state grows (`Grows`).
-/

open OpLog Raft

/-- The term in which an operation was created. -/
abbrev opTerm (m : ReplicateMsg) : ℕ := m.id.term

/-- What a replica has said in reply to a call, if it has handled the call. -/
def UpdateRpc.reported {ι : Type} (c : UpdateRpc ι) : Option ConsensusStatus :=
  match c.status with
  | .waiting result => some result.response.status
  | .returned response => some response.status
  | _ => none

namespace Cluster

variable {ι : Type}

/-- The abstract states. -/
abbrev Abstract (ι : Type) := State ι ReplicateMsg

/-! ## What is committed -/

section Committed

variable (voters : List ι) (a : Abstract ι) (T : ℕ)

/-- A leader up to the term `T` has committed an operation at this index or after it. -/
def CommittedIndex (index : ℕ) : Prop :=
  index = 0 ∨ ∃ T' i, T' ≤ T ∧ Chosen voters opTerm a T' i ∧ index ≤ i + 1

/-- A leader up to the term `T` has committed these operations. -/
def CommittedLog (l : List ReplicateMsg) : Prop :=
  l = [] ∨ ∃ T' i, T' ≤ T ∧ Chosen voters opTerm a T' i ∧ l.length ≤ i + 1 ∧ l <+: a.logOf T'

/-- A leader up to the term `T` has committed this operation. -/
def CommittedOp (id : OpId) : Prop :=
  id.index = 0 ∨ ∃ T' i, T' ≤ T ∧ Chosen voters opTerm a T' i ∧ id.index ≤ i + 1 ∧
    ∃ m, (a.logOf T')[id.index - 1]? = some m ∧ m.id = id

/-- The id is one of an operation that some leader up to the term `T` has created. -/
def Known (id : OpId) : Prop :=
  id = OpId.min0 ∨ id.term ≤ T ∧ ∃ m ∈ a.logOf id.term, m.id = id

/-- The replica has acknowledged the operation to the leader of the term, or does not share it with
the leader. -/
def Acknowledged (n : ι) (id : OpId) : Prop :=
  id.index ≤ a.acked n T ∨ id.term < T ∧ ∀ m ∈ a.logOf T, m.id ≠ id

end Committed

/-! ## Replicas -/

/-- What a replica in its current term knows about ids. -/
def knowledge (voters : List ι) (a : Abstract ι) (leads : ℕ → Prop) (r : RaftConsensus ι) :
    Knowledge ι where
  term := r.state.currentTerm
  leads := leads r.state.currentTerm
  known := Known a r.state.currentTerm
  acked p := a.acked p r.state.currentTerm
  replicated id := Known a r.state.currentTerm id ∧
    (id.index ≤ r.state.applied.length ∨
      Majority voters fun p => id.index ≤ a.acked p r.state.currentTerm)

/-- The notifications of a leader's queue are those of earlier terms, and then those of its own. -/
structure NotificationsInv (k : Knowledge ι) (committedTerm : ℕ)
    (old new : List Notification) : Prop where
  oldTerm : ∀ data, .majorityReplOpChange data ∈ old → data.opId.term < k.term
  newOps : ∀ data, .majorityReplOpChange data ∈ new → k.replicated data.opId
  committed : old ≠ [] → committedTerm < k.term

/-- The invariant of a replica `n`, that leads the terms `leads`. -/
structure NodeInv [DecidableEq ι] (voters : List ι) (a : Abstract ι) (leads : ℕ → Prop) (n : ι)
    (r : RaftConsensus ι) : Prop where
  sound : r.state.Sound
  bound : ∀ T, r.boundTerm = some T → leads T ∧ T ≤ r.state.currentTerm
  leading : leads r.state.currentTerm → r.boundTerm = some r.state.currentTerm ∧
    r.state.log = a.logOf r.state.currentTerm ∧
    (r.noOpPending = false → lastId r.state.log = ⟨r.state.currentTerm, r.state.log.length⟩)
  noOpPending : r.noOpPending = true → leads r.state.currentTerm
  leader : r.isLeader n = true → leads r.state.currentTerm
  committed : CommittedLog voters a r.state.currentTerm r.state.applied
  queue : QueueInv (knowledge voters a leads r) n r.queue r.log
  leaderMode : r.queue.mode = .leader → r.isLeader n = true ∧
    r.queue.committedOpId.index ≤ r.state.applied.length
  remote : r.isLeader n = false → ∀ p, p ≠ n → r.queue.peers p = none
  notifications : ∀ data, .majorityReplOpChange data ∈ r.queue.notifications →
    ∃ T, r.boundTerm = some T ∧ data.opId.term ≤ T
  leaderNotifications : r.isLeader n = true → ∃ old new, r.queue.notifications = old ++ new ∧
    NotificationsInv (knowledge voters a leads r) r.state.lastCommittedOpId.term old new

/-! ## Elections and calls -/

/-- The replica was elected, and is the leader, of the term. -/
def Leads (s : Cluster ι) (a : Abstract ι) (n : ι) (T : ℕ) : Prop :=
  a.elected T ∧ s.WonElection n T

/-- The invariant of an election of a candidate that had the log `l`. -/
structure CandidateInv (s : Cluster ι) (a : Abstract ι) (l : List ReplicateMsg)
    (e : LeaderElection ι) : Prop where
  wellFormed : WellFormed opTerm a l
  indexed : Indexed l
  pos : 0 < e.electionTerm
  term : ∀ m ∈ l, m.id.term < e.electionTerm
  last : e.request.lastReceived = lastId l
  ballot : ∀ v, e.VotedBy v → a.ballot v e.electionTerm = some l
  log : (s.node e.request.candidateUuid).state.currentTerm = e.electionTerm →
    ¬a.elected e.electionTerm → (s.node e.request.candidateUuid).state.log = l
  done : s.Leads a e.request.candidateUuid e.electionTerm →
    e.callbackPending = false ∧ e.decision ≠ none

/-- What a replica says when an update has ended well: it acknowledges its last operation, and names
no other one as the last one of its leader. -/
structure StatusInv (a : Abstract ι) (T : ℕ) (n : ι) (status : ConsensusStatus) : Prop where
  lastReceived : Acknowledged a T n status.lastReceived
  currentLeader : status.lastReceivedCurrentLeader = OpId.min0 ∨
    status.lastReceivedCurrentLeader = status.lastReceived

/-- The invariant of a call of `UpdateConsensus`. -/
structure UpdateInv (voters : List ι) (s : Cluster ι) (a : Abstract ι) (c : UpdateRpc ι) :
    Prop where
  leads : s.Leads a c.request.callerUuid c.request.callerTerm
  slice : IsSlice (a.logOf c.request.callerTerm) c.request.precedingId c.request.ops
  committed : CommittedIndex voters a c.request.callerTerm c.request.committedOpId.index
  reported : ∀ status, c.reported = some status → status.error = none →
    StatusInv a c.request.callerTerm c.dest status

/-- A replica `n` in the state `r` waits for calls only as leader, and only for calls of its
term. -/
def Performing [DecidableEq ι] (s : Cluster ι) (n : ι) (r : RaftConsensus ι) : Prop :=
  ∀ p id, r.performing p = some id → r.isLeader n = true ∧
    ∃ c, s.updateRpcs id = some c ∧ c.dest = p ∧ c.request.callerUuid = n ∧
      c.request.callerTerm = r.state.currentTerm

/-- The invariant: `cand` has for each election the log of the candidate. -/
structure LogInv [DecidableEq ι] (cfg : ClusterConfig ι) (s : Cluster ι) (a : Abstract ι)
    (cand : ℕ → List ReplicateMsg) : Prop where
  election : ElectionInv cfg s
  raft : Inv cfg.voters opTerm a
  term : ∀ n, a.term n = (s.node n).state.currentTerm
  log : ∀ n, a.log n = (s.node n).state.log
  indexed : ∀ T, Indexed (a.logOf T)
  leader : ∀ T, a.elected T → 0 < T ∧ ∃ n, s.WonElection n T
  acked : ∀ n T, s.Leads a n T → a.acked n T = (a.logOf T).length
  node : ∀ n, NodeInv cfg.voters a (s.Leads a n) n (s.node n)
  candidate : ∀ id e, s.elections id = some e → e.request.preelection = false →
    CandidateInv s a (cand id) e
  single : ∀ id id' e e', s.elections id = some e → s.elections id' = some e' →
    e.request.preelection = false → e'.request.preelection = false →
    e.request.candidateUuid = e'.request.candidateUuid → e.electionTerm = e'.electionTerm → id = id'
  update : ∀ id c, s.updateRpcs id = some c → UpdateInv cfg.voters s a c
  performing : ∀ n p id, (s.node n).performing p = some id → (s.node n).isLeader n = true ∧
    ∃ c, s.updateRpcs id = some c ∧ c.dest = p ∧ c.request.callerUuid = n ∧
      c.request.callerTerm = (s.node n).state.currentTerm
  runElection : ∀ id c, s.runElectionRpcs id = some c → ∀ op ∈ c.request.committedIndex,
    CommittedOp cfg.voters a c.callerTerm op

/-! ## Growth of the abstract state -/

section Growth

variable {voters : List ι} {a a' : Abstract ι} {T T' index : ℕ} {id : OpId} {n : ι}
  {l : List ReplicateMsg} (hle : Le opTerm a a') {leads : ℕ → Prop}
include hle

/-- What is committed stays so in later terms. -/
lemma CommittedIndex.mono (h : CommittedIndex voters a T index) (hT : T ≤ T') :
    CommittedIndex voters a' T' index := by
  refine h.imp_right ?_
  rintro ⟨T₁, i, hT₁, hch, hi⟩
  exact ⟨T₁, i, hT₁.trans hT, hch.mono hle, hi⟩

lemma CommittedLog.mono (h : CommittedLog voters a T l) (hT : T ≤ T') :
    CommittedLog voters a' T' l := by
  refine h.imp_right ?_
  rintro ⟨T₁, i, hT₁, hch, hi, hl⟩
  exact ⟨T₁, i, hT₁.trans hT, hch.mono hle, hi, hl.trans (hle.logOf T₁)⟩

lemma CommittedOp.mono (h : CommittedOp voters a T id) (hT : T ≤ T') :
    CommittedOp voters a' T' id := by
  refine h.imp_right ?_
  rintro ⟨T₁, i, hT₁, hch, hi, m, hm, hid⟩
  exact ⟨T₁, i, hT₁.trans hT, hch.mono hle, hi, m, (hle.logOf T₁).getElem?_eq_some hm, hid⟩

/-- What is known stays known. -/
lemma Known.mono (h : Known a T id) (hT : T ≤ T') : Known a' T' id := by
  refine h.imp_right ?_
  rintro ⟨hterm, m, hm, hid⟩
  exact ⟨hterm.trans hT, m, (hle.logOf _).subset hm, hid⟩

/-- What is acknowledged stays so. -/
lemma Acknowledged.mono (h : Acknowledged a T n id) (hel : a.elected T) :
    Acknowledged a' T n id := by
  refine h.imp (fun hack => hack.trans (hle.acked n T)) ?_
  rintro ⟨hterm, hnot⟩
  refine ⟨hterm, ?_⟩
  rintro m hm rfl
  rcases hle.new T hel m hm with hm' | hT
  · exact hnot m hm' rfl
  · exact hterm.ne hT

/-- A replica does not lose what it knows. -/
lemma knowledge_le {leads' : ℕ → Prop} {r r' : RaftConsensus ι}
    (hterm : r'.state.currentTerm = r.state.currentTerm)
    (happl : r.state.applied.length ≤ r'.state.applied.length)
    (hleads : leads r.state.currentTerm → leads' r.state.currentTerm) :
    (knowledge voters a leads r).Le (knowledge voters a' leads' r') := by
  refine ⟨hterm, ?_, ?_, ?_, ?_⟩
  · simp only [knowledge, hterm]
    exact hleads
  · intro id hid
    simp only [knowledge, hterm]
    exact Known.mono hle hid le_rfl
  · intro uuid
    simp only [knowledge, hterm]
    exact hle.acked uuid _
  · rintro id ⟨hkno, hrep⟩
    simp only [knowledge, hterm]
    refine ⟨Known.mono hle hkno le_rfl, hrep.imp (fun hi => hi.trans happl) fun hmaj => ?_⟩
    exact hmaj.mono fun p _ hp => hp.trans (hle.acked p _)

/-- What has to be shown of a replica that keeps its term, its role and what it has applied, while
its queue goes on. -/
lemma NodeInv.of_queueStep [DecidableEq ι] {r r' : RaftConsensus ι}
    (h : NodeInv voters a leads n r) (hterm : r'.state.currentTerm = r.state.currentTerm)
    (hlead : r'.state.leaderUuid = r.state.leaderUuid)
    (happl : r'.state.applied = r.state.applied) (hbnd : r'.boundTerm = r.boundTerm)
    (hnoOp : r'.noOpPending = true → r.noOpPending = true) (hsnd : r'.state.Sound)
    (hleading : leads r.state.currentTerm → r'.state.log = a'.logOf r.state.currentTerm ∧
      (r'.noOpPending = false → lastId r'.state.log = ⟨r.state.currentTerm, r'.state.log.length⟩))
    (hinv : QueueInv (knowledge voters a' leads r') n r'.queue r'.log)
    (hstep : QueueStep (knowledge voters a' leads r') r.queue r'.queue) :
    NodeInv voters a' leads n r' := by
  have hisLeader : r'.isLeader n = r.isLeader n := by
    simp only [RaftConsensus.isLeader, ReplicaState.isLeader, hlead]
  have hcom : r'.state.lastCommittedOpId = r.state.lastCommittedOpId := by
    rw [hsnd.lastCommitted, happl, h.sound.lastCommitted]
  have hk : (knowledge voters a leads r).Le (knowledge voters a' leads r') :=
    knowledge_le hle hterm (by rw [happl]) id
  obtain ⟨new, hnew, hdata⟩ := hstep.notifications
  refine ⟨hsnd, ?_, ?_, ?_, ?_, ?_, hinv, ?_, ?_, ?_, ?_⟩
  · rw [hbnd, hterm]
    exact h.bound
  · rw [hbnd, hterm]
    exact fun hl => ⟨(h.leading hl).1, hleading hl⟩
  · rw [hterm]
    exact fun hp => h.noOpPending (hnoOp hp)
  · rw [hisLeader, hterm]
    exact h.leader
  · rw [hterm, happl]
    exact h.committed.mono hle le_rfl
  · rw [hstep.mode, hstep.committed, hisLeader, happl]
    exact h.leaderMode
  · rw [hisLeader]
    exact fun hl p hp => (hstep.tracked p).2 (h.remote hl p hp)
  · intro data hmem
    rw [hbnd]
    rw [hnew] at hmem
    rcases List.mem_append.1 hmem with hmem | hmem
    · exact h.notifications data hmem
    -- a new notification is one of the current term
    obtain ⟨hmode, hkno, -⟩ := hdata data hmem
    rw [hterm] at hkno
    refine ⟨_, (h.leading (h.leader (h.leaderMode hmode).1)).1, ?_⟩
    rcases hkno with hmin | ⟨hle, -⟩
    · rw [hmin]
      exact Nat.zero_le _
    · exact hle
  · rw [hisLeader]
    intro hl
    obtain ⟨old, new', heq, hnot⟩ := h.leaderNotifications hl
    refine ⟨old, new' ++ new, ?_, ?_, ?_, ?_⟩
    · rw [hnew, heq, List.append_assoc]
    · rw [hk.term]
      exact hnot.oldTerm
    · intro data hmem
      rcases List.mem_append.1 hmem with hmem | hmem
      · exact hk.replicated _ (hnot.newOps data hmem)
      · exact (hdata data hmem).2
    · rw [hk.term, hcom]
      exact hnot.committed

/-- A replica that does nothing keeps its invariant. -/
lemma NodeInv.mono [DecidableEq ι] {leads' : ℕ → Prop} {r : RaftConsensus ι}
    (h : NodeInv voters a leads n r) (hleads : ∀ T, leads' T ↔ leads T)
    (hlogOf : ∀ T, leads T → a'.logOf T = a.logOf T) : NodeInv voters a' leads' n r := by
  obtain rfl : leads' = leads := funext fun T => propext (hleads T)
  refine h.of_queueStep hle rfl rfl rfl rfl id h.sound ?_
    (h.queue.mono (knowledge_le hle rfl le_rfl id)) (.refl _)
  intro hl
  rw [hlogOf _ hl]
  exact (h.leading hl).2

end Growth

/-- A step of the replica `n`: only it changes, and only it becomes leader or leads a term whose log
grows. -/
structure Grows (s s' : Cluster ι) (a a' : Abstract ι) (n : ι) : Prop where
  le : Le opTerm a a'
  node : ∀ m, m ≠ n → s'.node m = s.node m
  won : ∀ m T, s.WonElection m T → s'.WonElection m T
  elected : ∀ T, a'.elected T → a.elected T ∨ 0 < T ∧ s'.WonElection n T
  logOf : ∀ T, a'.logOf T = a.logOf T ∨ s'.WonElection n T

section Steps

variable [DecidableEq ι] {cfg : ClusterConfig ι} {s s' : Cluster ι} {a a' : Abstract ι}
  {cand cand' : ℕ → List ReplicateMsg} {n m : ι} {T : ℕ} {c : UpdateRpc ι}

section

omit [DecidableEq ι]

lemma Grows.leads (hg : Grows s s' a a' n) (h : s.Leads a m T) : s'.Leads a' m T :=
  ⟨hg.le.elected T h.1, hg.won m T h.2⟩

/-- A candidate keeps the log of its request, and the voters their votes. -/
lemma CandidateInv.mono {l : List ReplicateMsg} {e : LeaderElection ι}
    (h : CandidateInv s a l e) (hle : Le opTerm a a')
    (hball : ∀ v, e.VotedBy v → a'.ballot v e.electionTerm = a.ballot v e.electionTerm)
    (hlog : (s'.node e.request.candidateUuid).state.currentTerm = e.electionTerm →
      ¬a'.elected e.electionTerm →
      (s.node e.request.candidateUuid).state.currentTerm = e.electionTerm ∧
        (s'.node e.request.candidateUuid).state.log = (s.node e.request.candidateUuid).state.log)
    (hleads : s'.Leads a' e.request.candidateUuid e.electionTerm →
      s.Leads a e.request.candidateUuid e.electionTerm) : CandidateInv s' a' l e where
  wellFormed := h.wellFormed.mono hle
  indexed := h.indexed
  pos := h.pos
  term := h.term
  last := h.last
  ballot v hv := (hball v hv).trans (h.ballot v hv)
  log hterm hnot := by
    obtain ⟨hterm', hlog'⟩ := hlog hterm hnot
    exact hlog'.trans (h.log hterm' fun hel => hnot (hle.elected _ hel))
  done hl := h.done (hleads hl)

/-- An update in flight stays a part of the leader's log. -/
lemma UpdateInv.mono {voters : List ι} (h : UpdateInv voters s a c)
    (hg : Grows s s' a a' n) : UpdateInv voters s' a' c where
  leads := hg.leads h.leads
  slice := h.slice.mono (hg.le.logOf _)
  committed := h.committed.mono hg.le le_rfl
  reported status hstat hok := by
    obtain ⟨hack, hlead⟩ := h.reported status hstat hok
    exact ⟨hack.mono hg.le h.leads.1, hlead⟩

end

section Growing

variable (h : LogInv cfg s a cand) (hg : Grows s s' a a' n) (helection : ElectionInv cfg s')
include h hg helection

/-- A replica that leads a term was leading it before, unless it has become leader. -/
lemma LogInv.leads_of_leads (hl : s'.Leads a' m T) (hT : a.elected T) : s.Leads a m T := by
  obtain ⟨-, n', hn'⟩ := h.leader T hT
  obtain rfl := helection.wonElection_unique hl.2 (hg.won n' T hn')
  exact ⟨hT, hn'⟩

lemma LogInv.leads_iff (hm : m ≠ n) (T : ℕ) : s'.Leads a' m T ↔ s.Leads a m T := by
  refine ⟨fun hl => ?_, hg.leads⟩
  rcases hg.elected T hl.1 with hT | ⟨-, hwon⟩
  · exact h.leads_of_leads hg helection hl hT
  · exact absurd (helection.wonElection_unique hl.2 hwon) hm

/-- A step of one replica keeps the invariant of the others. -/
lemma LogInv.node_of_grows (hm : m ≠ n) : NodeInv cfg.voters a' (s'.Leads a' m) m (s'.node m) := by
  rw [hg.node m hm]
  refine (h.node m).mono hg.le (h.leads_iff hg helection hm) ?_
  intro T hl
  rcases hg.logOf T with heq | hwon
  · exact heq
  · exact absurd (helection.wonElection_unique (hg.won m T hl.2) hwon) hm

variable (hraft : Inv cfg.voters opTerm a')
  (hterm : a'.term n = (s'.node n).state.currentTerm) (hlog : a'.log n = (s'.node n).state.log)
  (hsame : ∀ m, m ≠ n → a'.term m = a.term m ∧ a'.log m = a.log m)
  (hindexed : ∀ T, Indexed (a'.logOf T))
  (hacked : ∀ T, s'.Leads a' n T → a'.acked n T = (a'.logOf T).length)
  (hnode : NodeInv cfg.voters a' (s'.Leads a' n) n (s'.node n))
include hraft hterm hlog hsame hindexed hacked hnode

/-- What has to be shown for a step of the replica `n`. -/
lemma LogInv.of_grows (hcand : ∀ id e, s'.elections id = some e → e.request.preelection = false →
      CandidateInv s' a' (cand' id) e)
    (hsingle : ∀ id id' e e', s'.elections id = some e → s'.elections id' = some e' →
      e.request.preelection = false → e'.request.preelection = false →
      e.request.candidateUuid = e'.request.candidateUuid → e.electionTerm = e'.electionTerm →
      id = id')
    (hcalls : s'.updateRpcs = s.updateRpcs) (hruns : s'.runElectionRpcs = s.runElectionRpcs)
    (hperf : s.Performing n (s'.node n)) : LogInv cfg s' a' cand' where
  election := helection
  raft := hraft
  term m := by
    by_cases hm : m = n
    · rw [hm, hterm]
    · rw [hg.node m hm, (hsame m hm).1, h.term]
  log m := by
    by_cases hm : m = n
    · rw [hm, hlog]
    · rw [hg.node m hm, (hsame m hm).2, h.log]
  indexed := hindexed
  leader T hT := by
    -- the leader of a new term is the replica of this step
    rcases hg.elected T hT with hT | ⟨hpos, hwon⟩
    · obtain ⟨hpos, m, hm⟩ := h.leader T hT
      exact ⟨hpos, m, hg.won m T hm⟩
    · exact ⟨hpos, n, hwon⟩
  acked m T hl := by
    by_cases hm : m = n
    · subst hm
      exact hacked T hl
    have hl' := (h.leads_iff hg helection hm T).1 hl
    -- only the leader of a term appends to its log
    have heq : a'.logOf T = a.logOf T := by
      rcases hg.logOf T with heq | hwon
      · exact heq
      · exact absurd (helection.wonElection_unique hl.2 hwon) hm
    have hle := hraft.acked_le m T
    rw [heq] at hle ⊢
    exact le_antisymm hle (h.acked m T hl' ▸ hg.le.acked m T)
  node m := by
    by_cases hm : m = n
    · subst hm
      exact hnode
    · exact h.node_of_grows hg helection hm
  candidate := hcand
  single := hsingle
  update id c hc := (h.update id c (hcalls ▸ hc)).mono hg
  performing m p id hp := by
    rw [hcalls]
    by_cases hm : m = n
    · subst hm
      exact hperf p id hp
    · rw [hg.node m hm] at hp ⊢
      exact h.performing m p id hp
  runElection id c hc op hop := (h.runElection id c (hruns ▸ hc) op hop).mono hg.le le_rfl

/-- A step that elects nobody and leaves the elections alone. -/
lemma LogInv.of_grows_of_elections_eq (hel : a'.elected = a.elected)
    (hball : a'.ballot = a.ballot) (helections : s'.elections = s.elections)
    (hcand : ¬a.elected (s'.node n).state.currentTerm →
      (s.node n).state.currentTerm = (s'.node n).state.currentTerm →
      (s'.node n).state.log = (s.node n).state.log)
    (hcalls : s'.updateRpcs = s.updateRpcs) (hruns : s'.runElectionRpcs = s.runElectionRpcs)
    (hperf : s.Performing n (s'.node n)) : LogInv cfg s' a' cand := by
  refine h.of_grows hg helection hraft hterm hlog hsame hindexed hacked hnode ?_
    (helections ▸ h.single) hcalls hruns hperf
  intro id e he hpre
  rw [helections] at he
  refine (h.candidate id e he hpre).mono hg.le fun v _ => by rw [hball] ?_ ?_
  · intro heq hnot
    by_cases hn : e.request.candidateUuid = n
    · rw [hn] at heq ⊢
      -- the replica has not left the term of its election
      have hstart := (h.election.cast n e.electionTerm n ⟨id, e, he, hpre, rfl, hn, .inl hn.symm⟩).1
      have hle := hg.le.term n
      rw [h.term n] at hle
      have heq' : (s.node n).state.currentTerm = e.electionTerm := by omega
      refine ⟨heq', hcand ?_ (heq'.trans heq.symm)⟩
      rw [heq, ← hel]
      exact hnot
    · rw [hg.node _ hn] at heq ⊢
      exact ⟨heq, rfl⟩
  · intro hl
    exact h.leads_of_leads hg helection hl (hel ▸ hl.1)

end Growing

variable {r : RaftConsensus ι}

section

variable (h : LogInv cfg s a cand)

include h

/-- A replica changes, and no leader's log does. -/
lemma LogInv.setNode_of_logOf_eq (hle : Le opTerm a a') (hel : a'.elected = a.elected)
    (hlogOf : a'.logOf = a.logOf) (hball : a'.ballot = a.ballot) (hraft : Inv cfg.voters opTerm a')
    (hterm : a'.term n = r.state.currentTerm) (hlog : a'.log n = r.state.log)
    (hsame : ∀ m, m ≠ n → a'.term m = a.term m ∧ a'.log m = a.log m)
    (helection : ElectionInv cfg (s.setNode n r))
    (hnode : NodeInv cfg.voters a' (s.Leads a n) n r)
    (hcand : ¬a.elected r.state.currentTerm →
      (s.node n).state.currentTerm = r.state.currentTerm → r.state.log = (s.node n).state.log)
    (hperf : s.Performing n r) : LogInv cfg (s.setNode n r) a' cand := by
  have hself := s.setNode_node_self n r
  -- no term has a new leader, and no leader has a longer log
  have hg : Grows s (s.setNode n r) a a' n :=
    ⟨hle, fun m hm => s.setNode_node_of_ne hm r, fun _ _ hw => hw, fun T hT => .inl (hel ▸ hT),
      fun T => .inl (by rw [hlogOf])⟩
  have hleads : (s.setNode n r).Leads a' n = s.Leads a n := by
    funext T
    rw [Leads, hel]
    rfl
  refine h.of_grows_of_elections_eq hg helection hraft ?_ ?_ hsame (hlogOf ▸ h.indexed) ?_ ?_ hel
    hball rfl ?_ rfl rfl ?_
  · rw [hself, hterm]
  · rw [hself, hlog]
  · intro T hl
    rw [hleads] at hl
    refine le_antisymm (hraft.acked_le n T) ?_
    rw [hlogOf, ← h.acked n T hl]
    exact hle.acked n T
  · rw [hself, hleads]
    exact hnode
  · rw [hself]
    exact hcand
  · rw [hself]
    exact hperf

/-- A replica changes, and its log does not. -/
lemma LogInv.setNode (hterm : (s.node n).state.currentTerm ≤ r.state.currentTerm)
    (hlog : r.state.log = (s.node n).state.log) (helection : ElectionInv cfg (s.setNode n r))
    (hnode : NodeInv cfg.voters a (s.Leads a n) n r) (hperf : s.Performing n r) :
    LogInv cfg (s.setNode n r) { a with term := fun m =>
      if m = n then r.state.currentTerm else a.term m } cand := by
  have hle : Le opTerm a _ := .setTerm ((h.term n).trans_le hterm)
  exact h.setNode_of_logOf_eq hle rfl rfl rfl (h.raft.setTerm hle.term) (if_pos rfl)
    ((h.log n).trans hlog.symm) (fun m hm => ⟨if_neg hm, rfl⟩) helection
    (hnode.mono hle (fun _ => .rfl) fun _ _ => rfl) (fun _ _ => hlog) hperf

/-- The queue, the clock or the calls of a replica change. -/
lemma LogInv.setNode_of_state_eq (hst : r.state = (s.node n).state)
    (hnode : NodeInv cfg.voters a (s.Leads a n) n r)
    (hperf : ∀ p id, r.performing p = some id → (s.node n).performing p = some id) :
    ∃ a', LogInv cfg (s.setNode n r) a' cand := by
  refine ⟨_, h.setNode (hst ▸ le_rfl) (by rw [hst]) (h.election.setNode_of_state_eq hst) hnode fun p
    id hp => ?_⟩
  rw [RaftConsensus.isLeader, hst]
  exact h.performing n p id (hperf p id hp)

/-- A call is sent, or its status changes. -/
lemma LogInv.setUpdateRpc {id : ℕ} (hc : UpdateInv cfg.voters s a c)
    (hcall : c.request.callerUuid ≠ c.dest)
    (hsame : ∀ c₀, s.updateRpcs id = some c₀ → c.dest = c₀.dest ∧ c.request = c₀.request) :
    LogInv cfg (s.setUpdateRpc id c) a cand := by
  refine { h with
    election := h.election.setUpdateRpc hcall
    candidate := fun id' e he hpre => { h.candidate id' e he hpre with }
    update := ?_
    performing := ?_ }
  · simp only [Cluster.setUpdateRpc, Function.update_eq_some_iff]
    rintro id' c' (⟨-, rfl⟩ | ⟨-, hc'⟩)
    · exact { hc with }
    · exact { h.update id' c' hc' with }
  · intro m p id' hp
    obtain ⟨hlead, c', hc', hdest, hcall', hterm⟩ := h.performing m p id' hp
    refine ⟨hlead, ?_⟩
    by_cases hid : id' = id
    · subst hid
      -- the call that is changed is still the same call
      obtain ⟨hdest', hreq⟩ := hsame c' hc'
      exact ⟨c, s.setUpdateRpc_updateRpcs_self id' c, hdest'.trans hdest, hreq ▸ hcall',
        hreq ▸ hterm⟩
    · exact ⟨c', (s.setUpdateRpc_updateRpcs_of_ne hid c).trans hc', hdest, hcall', hterm⟩

lemma LogInv.setRunElectionRpc {id : ℕ} {c : RunElectionRpc ι}
    (hc : ∀ op ∈ c.request.committedIndex, CommittedOp cfg.voters a c.callerTerm op) :
    LogInv cfg (s.setRunElectionRpc id c) a cand := by
  refine { h with
    election := h.election.setRunElectionRpc
    candidate := fun id' e he hpre => { h.candidate id' e he hpre with }
    update := fun id' c' hc' => { h.update id' c' hc' with }
    runElection := ?_ }
  simp only [Cluster.setRunElectionRpc, Function.update_eq_some_iff]
  rintro id' c' (⟨-, rfl⟩ | ⟨-, hc'⟩) op hop
  · exact hc op hop
  · exact h.runElection id' c' hc' op hop

end

end Steps

end Cluster
