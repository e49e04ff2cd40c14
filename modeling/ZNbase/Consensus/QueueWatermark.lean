import ZNbase.Consensus.FollowerLog

/-!
# What the queue of a leader knows

The queue of a replica and its log keep ids of operations: of what was appended last, of batches on
their way into the log, and of what each peer has received. From them the queue computes what a
majority has.

`Knowledge` says what is true of these ids, in terms that the queue does not know: which ids belong
to operations, how much each peer has acknowledged, and what a majority has. `QueueInv` is the
invariant that the functions of the queue keep for any such knowledge, and `QueueStep` says what
they leave alone and which notifications they add.
-/

open List Function

/-! ## The watermark -/

namespace PeerMessageQueue

variable {ι : Type*} {q : PeerMessageQueue ι} {voters : List ι} {tie : ℕ} {index : ℕ}

/-- Whether a peer counts for an index. -/
def hasReceived (q : PeerMessageQueue ι) (index : ℕ) (uuid : ι) : Bool :=
  (q.peers uuid).any fun p => p.isLastExchangeSuccessful && index ≤ p.lastReceived.index

/-- A peer that has received an index and has answered. -/
lemma hasReceived_iff {uuid : ι} :
    q.hasReceived index uuid = true ↔ ∃ p, q.peers uuid = some p ∧
      p.isLastExchangeSuccessful = true ∧ index ≤ p.lastReceived.index := by
  cases hp : q.peers uuid <;> simp [hasReceived, hp]

/-- The values that the peers with a successful last exchange have. -/
lemma mem_responsiveValues {α : Type*} {extract : TrackedPeer → α} {x : α} :
    x ∈ q.responsiveValues voters extract ↔ ∃ uuid ∈ voters, ∃ p, q.peers uuid = some p ∧
      p.isLastExchangeSuccessful = true ∧ extract p = x := by
  simp only [responsiveValues, mem_filterMap]
  constructor
  · rintro ⟨uuid, huuid, hx⟩
    split at hx
    · rename_i p hp
      split_ifs at hx with hok
      exact ⟨uuid, huuid, p, hp, hok, Option.some.inj hx⟩
    · cases hx
  · rintro ⟨uuid, huuid, p, hp, hok, rfl⟩
    exact ⟨uuid, huuid, by simp [hp, hok]⟩

/-- Values are counted by counting peers. -/
lemma countP_responsiveValues :
    (q.responsiveValues voters fun p => p.lastReceived).countP (fun id => index ≤ id.index) =
      voters.countP (q.hasReceived index) := by
  rw [responsiveValues, countP_filterMap]
  congr 1
  funext uuid
  cases hp : q.peers uuid with
  | none => simp [hasReceived, hp]
  | some p => cases hok : p.isLastExchangeSuccessful <;> simp [hasReceived, hp, hok]

/-- The watermark is an id that a peer has received, and a majority has received its index. -/
lemma opIdWatermark_spec (hw : q.opIdWatermark voters tie ≠ OpId.min0) :
    (∃ uuid ∈ voters, ∃ p, q.peers uuid = some p ∧ p.isLastExchangeSuccessful = true ∧
        p.lastReceived = q.opIdWatermark voters tie) ∧
      majoritySize voters.length ≤
        voters.countP (q.hasReceived (q.opIdWatermark voters tie).index) := by
  rw [← mem_responsiveValues, ← countP_responsiveValues]
  simp only [opIdWatermark] at hw ⊢
  split_ifs at hw ⊢ with hlen
  · exact absurd rfl hw
  split at hw
  · exact absurd rfl hw
  rename_i index hind
  set watermarks := q.responsiveValues voters fun p => p.lastReceived with hwatermarks
  set candidates := watermarks.filter fun id => id.index = index with hcandidates
  -- an element with the index of the n-th element exists, so the choice among ties finds one
  have hne : candidates ≠ [] := by
    obtain ⟨id, hid, heq⟩ := mem_map.1 (mem_of_nthElement_eq_some hind)
    exact ne_nil_of_mem (mem_filter.2 ⟨hid, by simpa using heq⟩)
  have hget : candidates.getD (tie % candidates.length) OpId.min0 ∈ candidates := by
    have hlt : tie % candidates.length < candidates.length :=
      Nat.mod_lt _ (length_pos_iff.2 hne)
    rw [getD_eq_getElem?_getD, getElem?_eq_getElem hlt]
    exact getElem_mem hlt
  obtain ⟨hmem, hidx⟩ := mem_filter.1 hget
  have hidx' : (candidates.getD (tie % candidates.length) OpId.min0).index = index := by
    simpa using hidx
  refine ⟨hmem, ?_⟩
  have hcnt := le_countP_of_nthElement_eq_some hind
  rw [length_map, countP_map] at hcnt
  rw [hidx']
  calc majoritySize voters.length ≤
    watermarks.length - (watermarks.length - majoritySize voters.length) := by omega
    _ ≤ _ := hcnt

end PeerMessageQueue

/-! ## Knowledge -/

/-- What is true of the ids that a replica keeps, while it is in the term `term`. -/
structure Knowledge (ι : Type*) where
  term : ℕ
  /-- The replica is the leader of the term. -/
  leads : Prop
  /-- The id belongs to an operation. -/
  known : OpId → Prop
  /-- The index up to which a peer has acknowledged the operations of this replica. -/
  acked : ι → ℕ
  /-- A majority has the operations up to this one. -/
  replicated : OpId → Prop

/-- The rules of knowledge. -/
structure Knowledge.Lawful {ι : Type*} (k : Knowledge ι) (n : ι) (voters : List ι) : Prop where
  min0 : k.known OpId.min0
  term_le : ∀ id, k.known id → id.term ≤ k.term
  majority : k.leads → ∀ (p : ι → Bool) (id : OpId), k.known id →
    majoritySize voters.length ≤ voters.countP p →
    (∀ uuid, uuid ≠ n → p uuid → id.index ≤ k.acked uuid) → k.replicated id

/-- Knowledge that grows within a term. -/
structure Knowledge.Le {ι : Type*} (k k' : Knowledge ι) : Prop where
  term : k'.term = k.term
  leads : k.leads → k'.leads
  known : ∀ id, k.known id → k'.known id
  acked : ∀ uuid, k.acked uuid ≤ k'.acked uuid
  replicated : ∀ id, k.replicated id → k'.replicated id

/-- All callbacks that the log has still to run. -/
def Log.pendingCallbacks (l : Log) : List AppendCallback :=
  l.callbacks ++ (l.syncBatch ++ l.submitted).map (·.callback)

/-- The ids of a queue and its log are what they are taken for. -/
structure QueueInv {ι : Type*} (k : Knowledge ι) (n : ι) (q : PeerMessageQueue ι) (log : Log) :
    Prop where
  lastAppended : k.known q.lastAppended
  callbacks : ∀ c ∈ log.pendingCallbacks, k.known c.lastId
  localPeer : ∀ p, q.peers n = some p → k.known p.lastReceived
  remotePeer : ∀ uuid p, uuid ≠ n → q.peers uuid = some p → p.isLastExchangeSuccessful = true →
    k.known p.lastReceived ∧ p.lastReceived.index ≤ k.acked uuid
  term : q.mode = .leader → k.leads ∧ q.currentTerm = k.term
  majority : q.mode = .leader → k.replicated q.majorityReplicatedOpId

/-- The queue stays in order when more is known. -/
lemma QueueInv.mono {ι : Type*} {k k' : Knowledge ι} {n : ι} {q : PeerMessageQueue ι} {log : Log}
    (h : QueueInv k n q log) (hle : k.Le k') : QueueInv k' n q log where
  lastAppended := hle.known _ h.lastAppended
  callbacks c hc := hle.known _ (h.callbacks c hc)
  localPeer p hp := hle.known _ (h.localPeer p hp)
  remotePeer uuid p hu hp hok := by
    obtain ⟨hkno, hacked⟩ := h.remotePeer uuid p hu hp hok
    exact ⟨hle.known _ hkno, hacked.trans (hle.acked uuid)⟩
  term hmode := by
    obtain ⟨hleads, hterm⟩ := h.term hmode
    exact ⟨hle.leads hleads, hterm.trans hle.term.symm⟩
  majority hmode := hle.replicated _ (h.majority hmode)

/-- What the functions of the queue leave alone, and the notifications they add. -/
structure QueueStep {ι : Type*} (k : Knowledge ι) (q q' : PeerMessageQueue ι) : Prop where
  mode : q'.mode = q.mode
  committed : q'.committedOpId = q.committedOpId
  tracked : ∀ uuid, q'.peers uuid = none ↔ q.peers uuid = none
  notifications : ∃ new, q'.notifications = q.notifications ++ new ∧
    ∀ data, .majorityReplOpChange data ∈ new → q.mode = .leader ∧ k.replicated data.opId

namespace QueueStep

variable {ι : Type*} {k : Knowledge ι} {q q' q'' : PeerMessageQueue ι}

lemma refl (q : PeerMessageQueue ι) : QueueStep k q q :=
  ⟨rfl, rfl, fun _ => .rfl, [], by simp⟩

/-- Two steps of the queue, one after the other. -/
lemma trans (h : QueueStep k q q') (h' : QueueStep k q' q'') : QueueStep k q q'' := by
  obtain ⟨new, hnew, hdata⟩ := h.notifications
  obtain ⟨new', hnew', hdata'⟩ := h'.notifications
  refine ⟨h'.mode.trans h.mode, h'.committed.trans h.committed,
    fun uuid => (h'.tracked uuid).trans (h.tracked uuid), new ++ new', ?_, ?_⟩
  · rw [hnew', hnew, append_assoc]
  · intro data hmem
    rcases mem_append.1 hmem with hmem | hmem
    · exact hdata data hmem
    · obtain ⟨hmode, hrep⟩ := hdata' data hmem
      exact ⟨h.mode ▸ hmode, hrep⟩

/-- A step that adds no notification. -/
lemma of_eq (hmode : q'.mode = q.mode) (hcom : q'.committedOpId = q.committedOpId)
    (htracked : ∀ uuid, q'.peers uuid = none ↔ q.peers uuid = none)
    (hnotifications : q'.notifications = q.notifications) : QueueStep k q q' :=
  ⟨hmode, hcom, htracked, [], by simp [hnotifications]⟩

end QueueStep

/-! ## The functions of the queue -/

open PeerMessageQueue

variable {ι : Type*} [DecidableEq ι] {k : Knowledge ι} {self uuid : ι} {voters : List ι}
  {q q' : PeerMessageQueue ι} {log log' : Log} {tie : ℕ} {p p' : TrackedPeer} {c : AppendCallback}

/-- The peers that are tracked stay the same. -/
lemma PeerMessageQueue.setPeer_eq_none_iff (hp : q.peers uuid = some p) (u : ι) :
    (q.setPeer uuid p').peers u = none ↔ q.peers u = none := by
  by_cases hu : u = uuid
  · subst hu
    simp [setPeer, hp]
  · simp [setPeer, hu]

/-- A change of one peer is a step of the queue. -/
lemma QueueStep.setPeer (hp : q.peers uuid = some p) : QueueStep k q (q.setPeer uuid p') :=
  .of_eq rfl rfl (setPeer_eq_none_iff hp) rfl

section

variable (h : QueueInv k self q log)

include h

omit [DecidableEq ι] in
/-- The callbacks that a log gives up or has run are not needed. -/
lemma QueueInv.of_callbacks
    (hsub : ∀ c ∈ log'.pendingCallbacks, c ∈ log.pendingCallbacks) : QueueInv k self q log' :=
  ⟨h.lastAppended, fun c hc => h.callbacks c (hsub c hc), h.localPeer, h.remotePeer,
    h.term, h.majority⟩

omit [DecidableEq ι] in
/-- The fields that `QueueInv` reads are the same. -/
lemma QueueInv.of_eq (happd : q'.lastAppended = q.lastAppended) (hpeers : q'.peers = q.peers)
    (hmode : q'.mode = q.mode) (hterm : q'.currentTerm = q.currentTerm)
    (hmaj : q'.majorityReplicatedOpId = q.majorityReplicatedOpId) :
    QueueInv k self q' log := by
  refine ⟨happd ▸ h.lastAppended, h.callbacks, hpeers ▸ h.localPeer, hpeers ▸ h.remotePeer, ?_, ?_⟩
  · rw [hmode, hterm]
    exact h.term
  · rw [hmode, hmaj]
    exact h.majority

/-- What is known about a peer is replaced. -/
lemma QueueInv.setPeer (hself : uuid = self → k.known p'.lastReceived)
    (hremote : uuid ≠ self → p'.isLastExchangeSuccessful = true →
      k.known p'.lastReceived ∧ p'.lastReceived.index ≤ k.acked uuid) :
    QueueInv k self (q.setPeer uuid p') log := by
  refine ⟨h.lastAppended, h.callbacks, ?_, ?_, h.term, h.majority⟩
  all_goals simp only [PeerMessageQueue.setPeer, update_eq_some_iff]
  · rintro p₁ (⟨rfl, rfl⟩ | ⟨-, hp₁⟩)
    · exact hself rfl
    · exact h.localPeer p₁ hp₁
  · rintro u p₁ hu (⟨rfl, rfl⟩ | ⟨-, hp₁⟩) hok
    · exact hremote hu hok
    · exact h.remotePeer u p₁ hu hp₁ hok

/-- The peer keeps what it has received. -/
lemma QueueInv.setPeer_of_eq (hp : q.peers uuid = some p) (hrecv : p'.lastReceived = p.lastReceived)
    (hok : p'.isLastExchangeSuccessful = p.isLastExchangeSuccessful) :
    QueueInv k self (q.setPeer uuid p') log := by
  refine QueueInv.setPeer h ?_ ?_
  · rintro rfl
    exact hrecv ▸ h.localPeer p hp
  · intro hu hok'
    rw [hrecv]
    exact h.remotePeer uuid p hu hp (hok ▸ hok')

omit [DecidableEq ι] in
omit h in
/-- The last one of new operations is noted by the queue and in a callback. -/
lemma PeerMessageQueue.appendOperations_lastId {P : OpId → Prop} {msgs : List ReplicateMsg}
    {committedOpId : OpId} (hlast : P q.lastAppended)
    (hcbs : ∀ c ∈ log.pendingCallbacks, P c.lastId) (hmsgs : ∀ m ∈ msgs, P m.id)
    (happ : q.appendOperations log msgs committedOpId = some (q', log')) :
    P q'.lastAppended ∧ ∀ c ∈ log'.pendingCallbacks, P c.lastId := by
  obtain ⟨⟨cache, lastIdx⟩, -, heq⟩ := Option.map_eq_some_iff.1 happ
  cases heq
  have hlast' : P ((msgs.getLast?.map (·.id)).getD q.lastAppended) := by
    cases hl : msgs.getLast? with
    | none => exact hlast
    | some m => exact hmsgs m (mem_of_getLast? hl)
  refine ⟨hlast', fun c hc => ?_⟩
  have hc' : c ∈ log.pendingCallbacks ∨
      c = ⟨lastIdx, (msgs.getLast?.map (·.id)).getD q.lastAppended⟩ := by
    simpa [Log.pendingCallbacks, Log.asyncAppendReplicates, or_assoc] using hc
  rcases hc' with hc' | rfl
  · exact hcbs c hc'
  · exact hlast'

omit [DecidableEq ι] in
/-- New operations go to the queue and to the log. -/
lemma QueueInv.appendOperations (hk : ∀ id, k.known id → id.term ≤ k.term)
    {msgs : List ReplicateMsg} {committedOpId : OpId} (hmsgs : ∀ m ∈ msgs, k.known m.id)
    (happ : q.appendOperations log msgs committedOpId = some (q', log')) :
    QueueInv k self q' log' ∧ QueueStep k q q' := by
  obtain ⟨hlast, hcbs⟩ := appendOperations_lastId h.lastAppended h.callbacks hmsgs happ
  obtain ⟨⟨cache, lastIdx⟩, -, heq⟩ := Option.map_eq_some_iff.1 happ
  cases heq
  refine ⟨⟨hlast, hcbs, h.localPeer, h.remotePeer, ?_, h.majority⟩,
    .of_eq rfl rfl (fun _ => .rfl) rfl⟩
  intro hmode
  obtain ⟨hleads, hterm⟩ := h.term hmode
  have hle := hk _ hlast
  refine ⟨hleads, ?_⟩
  split_ifs
  · exact hterm
  · rw [hterm]
    exact max_eq_left hle

/-- What a majority has received is replicated, and the observer is told. -/
lemma QueueInv.advanceWatermarks (hk : k.Lawful self voters) (uuid : ι) (tie : ℕ)
    (hmode : q.mode = .leader) :
    QueueInv k self (q.advanceWatermarks self voters uuid tie) log ∧
      QueueStep k q (q.advanceWatermarks self voters uuid tie) := by
  simp only [PeerMessageQueue.advanceWatermarks]
  set w := q.opIdWatermark voters tie with hw
  have hrep : w ≠ OpId.min0 → k.replicated w := by
    intro hne
    obtain ⟨⟨u, -, p, hp, hok, hrecv⟩, hcnt⟩ := opIdWatermark_spec (hw ▸ hne)
    have hkno : k.known w := by
      rw [hw, ← hrecv]
      by_cases hu : u = self
      · subst hu
        exact h.localPeer p hp
      · exact (h.remotePeer u p hu hp hok).1
    refine hk.majority (h.term hmode).1 (q.hasReceived w.index) w hkno (hw ▸ hcnt) ?_
    intro u hu hrecv
    obtain ⟨p, hp, hok, hle⟩ := hasReceived_iff.1 hrecv
    exact hle.trans (h.remotePeer u p hu hp hok).2
  -- the queue with the new watermark
  set q₁ : PeerMessageQueue ι :=
    if w ≠ OpId.min0 then { q with majorityReplicatedOpId := w } else q with hq₁
  have hinv₁ : QueueInv k self q₁ log := by
    rw [hq₁]
    split_ifs with hne
    · exact ⟨h.lastAppended, h.callbacks, h.localPeer, h.remotePeer, h.term, fun _ => hrep hne⟩
    · exact h
  have hstep₁ : QueueStep k q q₁ := by
    rw [hq₁]
    split_ifs
    · exact .of_eq rfl rfl (fun _ => .rfl) rfl
    · exact .refl q
  -- the peer gets its leases, and the watermarks are reported
  have hnotify {q₂ : PeerMessageQueue ι} (hinv₂ : QueueInv k self q₂ log)
      (hstep₂ : QueueStep k q₁ q₂) {data : MajorityReplicatedData}
      (hdata : data.opId = q₂.majorityReplicatedOpId) :
      QueueInv k self { q₂ with notifications :=
          q₂.notifications ++ [.majorityReplOpChange data] } log ∧
        QueueStep k q { q₂ with notifications :=
          q₂.notifications ++ [.majorityReplOpChange data] } := by
    have hmode₂ : q₂.mode = .leader := (hstep₂.mode.trans hstep₁.mode).trans hmode
    refine ⟨hinv₂.of_eq rfl rfl rfl rfl rfl, (hstep₁.trans hstep₂).trans ⟨rfl, rfl, fun _ =>
      .rfl, _, rfl, ?_⟩⟩
    intro data' hdata'
    simp only [mem_singleton, Notification.majorityReplOpChange.injEq] at hdata'
    rw [hdata', hdata]
    exact ⟨hmode₂, hinv₂.majority hmode₂⟩
  cases hp : q₁.peers uuid with
  | some p =>
    apply hnotify
    · exact hinv₁.setPeer_of_eq hp rfl rfl
    · exact .setPeer hp
    · rfl
  | none => exact hnotify hinv₁ (.refl q₁) rfl

/-- A response of a peer. What the queue takes over from a good response of a remote peer has to be
right. -/
lemma QueueInv.responseFromPeer (hk : k.Lawful self voters) {responderTerm : Option ℕ}
    {status : ConsensusStatus} (hself : ∀ p, uuid = self → q.peers uuid = some p →
      k.known (q.updateFromStatus log p status).lastReceived)
    (hremote : ∀ p, uuid ≠ self → q.peers uuid = some p → status.error = none →
      k.known (q.updateFromStatus log p status).lastReceived ∧
        (q.updateFromStatus log p status).lastReceived.index ≤ k.acked uuid)
    (hr : q.responseFromPeer self voters log uuid responderTerm status tie = some q') :
    QueueInv k self q' log ∧ QueueStep k q q' := by
  simp only [PeerMessageQueue.responseFromPeer] at hr
  split at hr
  · cases hr
    exact ⟨h, .refl q⟩
  rename_i p hp
  -- a peer whose exchange was not successful does not count
  have hfailed : ∀ p' :
      TrackedPeer, p' = { q.updateFromStatus log p status with isLastExchangeSuccessful := false } →
      QueueInv k self (q.setPeer uuid p') log := by
    rintro p' rfl
    exact h.setPeer (fun hu => hself p hu hp) (by simp)
  split at hr
  · cases hr
    exact ⟨hfailed _ rfl, .setPeer hp⟩
  · cases hr
    refine ⟨(hfailed _ rfl).of_eq rfl rfl rfl rfl rfl, ?_⟩
    exact (QueueStep.setPeer hp).trans ⟨rfl, rfl, fun _ => .rfl, _, rfl, by simp⟩
  · cases hr
  rename_i hnone
  split_ifs at hr
  have hok : QueueInv k self (q.setPeer uuid
      { q.updateFromStatus log p status with isLastExchangeSuccessful := true }) log :=
    h.setPeer (fun hu => hself p hu hp) fun hu _ => hremote p hu hp hnone
  split at hr
  · rename_i hmode
    cases hr
    obtain ⟨hinv, hstep⟩ := hok.advanceWatermarks hk uuid tie hmode
    exact ⟨hinv, (QueueStep.setPeer hp).trans hstep⟩
  · cases hr
    exact ⟨hok, .setPeer hp⟩

end

omit [DecidableEq ι] in
/-- The queue keeps, for a peer, an id of the response or what it had before. -/
lemma PeerMessageQueue.updateFromStatus_lastReceived (q : PeerMessageQueue ι) (log : Log)
    (p : TrackedPeer) (status : ConsensusStatus) :
    (q.updateFromStatus log p status).lastReceived = status.lastReceived ∨
      (q.updateFromStatus log p status).lastReceived = status.lastReceivedCurrentLeader ∨
      (q.updateFromStatus log p status).lastReceived = p.lastReceived := by
  simp only [updateFromStatus]
  split_ifs
  · exact .inl rfl
  · exact .inr (.inl rfl)
  · exact .inr (.inr rfl)

/-- The callback of an append. -/
lemma QueueInv.appendFinished (h : QueueInv k self q log) (hk : k.Lawful self voters)
    (hc : k.known c.lastId) (hr : q.appendFinished self voters log c tie = some q') :
    QueueInv k self q' log ∧ QueueStep k q q' := by
  simp only [PeerMessageQueue.appendFinished, localPeerAppendFinished] at hr
  set q₁ : PeerMessageQueue ι :=
    if q.lastAppended.index < c.lastId.index then
      { q with logCache := q.logCache.logCallback c.lastIdxInBatch, lastAppended := c.lastId }
    else { q with logCache := q.logCache.logCallback c.lastIdxInBatch } with hq₁
  -- only what is in its own log is noted
  have h₁ : QueueInv k self q₁ log ∧ QueueStep k q q₁ := by
    rw [hq₁]
    split_ifs
    · exact ⟨⟨hc, h.callbacks, h.localPeer, h.remotePeer, h.term, h.majority⟩,
        .of_eq rfl rfl (fun _ => .rfl) rfl⟩
    · exact ⟨h.of_eq rfl rfl rfl rfl rfl, .of_eq rfl rfl (fun _ => .rfl) rfl⟩
  split at hr
  · cases hr
    exact ⟨h₁.1.of_eq rfl rfl rfl rfl rfl, h₁.2.trans (.of_eq rfl rfl (fun _ => .rfl) rfl)⟩
  -- a leader answers itself, as one of its peers
  refine (h₁.1.responseFromPeer hk ?_ ?_ hr).imp id h₁.2.trans
  · intro p _ hp
    rcases updateFromStatus_lastReceived q₁ log p
      { lastReceived := c.lastId, lastReceivedCurrentLeader := c.lastId,
        lastCommittedIdx := q₁.committedOpId.index } with heq | heq | heq
    · exact heq ▸ hc
    · exact heq ▸ hc
    · exact heq ▸ h₁.1.localPeer p hp
  · intro p hu
    exact absurd rfl hu

/-- Callbacks of known operations keep the queue in order. -/
lemma QueueInv.runCallbacks {cfg : RaftConfig ι} (h : QueueInv k self q log)
    (hk : k.Lawful self cfg.voters) {cs : List AppendCallback} (hcs : ∀ c ∈ cs, k.known c.lastId)
    (hr : RaftConsensus.runCallbacks q self cfg log tie cs = some q') :
    QueueInv k self q' log ∧ QueueStep k q q' := by
  induction cs generalizing q with
  | nil =>
    cases hr
    exact ⟨h, .refl _⟩
  | cons c cs ih =>
    simp only [RaftConsensus.runCallbacks, Option.bind_eq_bind, Option.bind_eq_some_iff] at hr
    obtain ⟨q₁, hq₁, hr⟩ := hr
    obtain ⟨hinv₁, hstep₁⟩ := h.appendFinished hk (hcs c mem_cons_self) hq₁
    obtain ⟨hinv, hstep⟩ := ih hinv₁ (fun c hc => hcs c (mem_cons_of_mem _ hc)) hr
    exact ⟨hinv, hstep₁.trans hstep⟩

section Requests

variable {flags : RaftFlags} {now : CoarseTimePoint} {nowHt : HybridTime}
  {safeTime : Option HybridTime} {request : ConsensusRequest ι}

/-- A request has the term of the queue, and no more is committed than the queue knows. -/
lemma QueueInv.requestForPeer (h : QueueInv k self q log)
    (hr : q.requestForPeer flags self uuid log now nowHt safeTime = .ok (request, q')) :
    QueueInv k self q' log ∧ QueueStep k q q' ∧ q.mode = .leader ∧ q.peers uuid ≠ none ∧
      request.callerTerm = k.term ∧ request.committedOpId.index ≤ q.committedOpId.index := by
  obtain ⟨p, hreq⟩ := requestForPeer_spec hr
  obtain ⟨p', rfl, hrecv, hok⟩ := hreq.queue
  exact ⟨h.setPeer_of_eq hreq.peer hrecv hok, .setPeer hreq.peer, hreq.mode, by simp [hreq.peer],
    hreq.caller.2.trans (h.term hreq.mode).2, hreq.committed⟩

/-- A request that cannot be made keeps the queue in order. -/
lemma QueueInv.requestForPeerFailed (h : QueueInv k self q log) (flags : RaftFlags) (uuid : ι)
    (now : CoarseTimePoint) (nowHt : HybridTime) :
    QueueInv k self (q.requestForPeerFailed flags uuid now nowHt) log ∧
      QueueStep k q (q.requestForPeerFailed flags uuid now nowHt) := by
  simp only [PeerMessageQueue.requestForPeerFailed]
  split
  · rename_i p _ hp
    obtain ⟨hrecv, hok⟩ := preparePeer_eq flags p now nowHt
    exact ⟨h.setPeer_of_eq hp hrecv hok, .setPeer hp⟩
  · exact ⟨h, .refl q⟩

/-- So does one that was not sent. -/
lemma QueueInv.requestWasNotSent (h : QueueInv k self q log) (uuid : ι) :
    QueueInv k self (q.requestWasNotSent uuid) log ∧ QueueStep k q (q.requestWasNotSent uuid) := by
  simp only [PeerMessageQueue.requestWasNotSent]
  split
  · rename_i p hp
    exact ⟨h.setPeer_of_eq hp rfl rfl, .setPeer hp⟩
  · exact ⟨h, .refl q⟩

end Requests

/-! ## The log -/

namespace Log

variable {l l' : Log}

/-- A batch that is written keeps its callbacks. -/
lemma pendingCallbacks_processBatch (h : l.processBatch = some l') :
    l'.pendingCallbacks = l.pendingCallbacks := by
  simp only [processBatch] at h
  split at h
  · rename_i b rest hcbs hsubm
    cases h
    simp [pendingCallbacks, doAppend, hsubm]
  · cases h

/-- A sync makes callbacks ready, and keeps them all. -/
lemma pendingCallbacks_groupWork (h : l.groupWork = some l') :
    l'.pendingCallbacks = l.pendingCallbacks := by
  simp only [groupWork] at h
  split at h
  · rename_i hcbs
    cases h
    simp [pendingCallbacks, sync, hcbs]
  · cases h

/-- A callback that runs is taken from the pending ones. -/
lemma pendingCallbacks_takeCallback (h : l.takeCallback = some (c, l')) :
    l.pendingCallbacks = c :: l'.pendingCallbacks := by
  simp only [takeCallback] at h
  split at h
  · cases h
  · rename_i rest hcbs
    cases h
    simp [pendingCallbacks, hcbs]

/-- A reset runs all callbacks. -/
lemma resetLastSyncedEntryOpId_callbacks (l : Log) (opId : OpId) :
    (l.resetLastSyncedEntryOpId opId).1 = l.pendingCallbacks ∧
      (l.resetLastSyncedEntryOpId opId).2.pendingCallbacks = [] :=
  ⟨rfl, rfl⟩

end Log

/-! ## Updates -/

namespace RaftConsensus

variable {ι : Type} {k : Knowledge ι} {self caller : ι} {cfg : RaftConfig ι}
  {r r' : RaftConsensus ι} {deduped : LeaderRequest} {check : CheckResult} {tie : ℕ}
  {request : ConsensusRequest ι} {prevCommitted : OpId} {result : Option UpdateReplicaResult}
  {r'' : RaftConsensus ι} {ctx : UpdateContext}

/-- The parts of a replica that only elections and leaders change. -/
structure SameRole (r r' : RaftConsensus ι) : Prop where
  noOpPending : r'.noOpPending = r.noOpPending
  boundTerm : r'.boundTerm = r.boundTerm
  performing : r'.performing = r.performing

lemma SameRole.refl (r : RaftConsensus ι) : SameRole r r := ⟨rfl, rfl, rfl⟩

lemma SameRole.trans (h : SameRole r r') (h' : SameRole r' r'') : SameRole r r'' :=
  ⟨h'.noOpPending.trans h.noOpPending, h'.boundTerm.trans h.boundTerm,
    h'.performing.trans h.performing⟩

/-- The queue and the log of a replica after a part of an update. -/
structure QueueKept (k : Knowledge ι) (n : ι) (r r' : RaftConsensus ι) : Prop where
  inv : QueueInv k n r'.queue r'.log
  step : QueueStep k r.queue r'.queue
  role : SameRole r r'

/-- The queue and the log do not change. -/
lemma QueueKept.of_eq (h : QueueInv k self r.queue r.log) (hque : r'.queue = r.queue)
    (hlog : r'.log = r.log) (hrole : SameRole r r') : QueueKept k self r r' :=
  ⟨hque ▸ hlog ▸ h, hque ▸ .refl _, hrole⟩

/-- Two parts of a call that keep the queue in order. -/
lemma QueueKept.trans (h : QueueKept k self r r') (h' : QueueKept k self r' r'') :
    QueueKept k self r r'' :=
  ⟨h'.inv, h.step.trans h'.step, h.role.trans h'.role⟩

variable [DecidableEq ι]

/-- The checks of an update keep the queue in order. -/
lemma Enforced.queueKept (h : QueueInv k self r.queue r.log) (hk : k.Lawful self cfg.voters)
    (hr : Enforced r self cfg caller deduped tie r' check) : QueueKept k self r r' := by
  cases hr with
  | failed | missing => exact .of_eq h rfl rfl (.refl r)
  | mismatch | accepted => exact .of_eq h rfl rfl ⟨rfl, rfl, rfl⟩
  | aborted _ _ _ _ hlog hque =>
    -- the callbacks of everything that was submitted run first
    obtain ⟨hcbs, hnil⟩ := r.log.resetLastSyncedEntryOpId_callbacks deduped.precedingOpId
    rw [hlog] at hcbs hnil
    obtain ⟨hinv, hstep⟩ := (h.of_callbacks (by simp [hnil])).runCallbacks hk
      (fun c hc => h.callbacks c (hcbs ▸ hc)) hque
    exact ⟨hinv, hstep, ⟨rfl, rfl, rfl⟩⟩

omit [DecidableEq ι] in
/-- So does the rest of an update, if its operations are known. -/
lemma Applied.queueKept (h : QueueInv k self r.queue r.log)
    (hk : k.Lawful self cfg.voters) (hmsgs : ∀ m ∈ deduped.messages, k.known m.id)
    (hr : Applied r cfg request prevCommitted deduped ctx r' result) : QueueKept k self r r' := by
  cases hr with
  | stopped | unprepared => exact .of_eq h rfl rfl ⟨rfl, rfl, rfl⟩
  | prepared _ hwr =>
    obtain ⟨rfl, -⟩ | ⟨queue, log, committed, happ, rfl⟩ := enqueueWrites_cases hwr
    · exact .of_eq h rfl rfl ⟨rfl, rfl, rfl⟩
    · obtain ⟨hinv, hstep⟩ :=
        h.appendOperations hk.term_le (fun m hm => hmsgs m (mem_of_mem_take hm)) happ
      exact ⟨hinv, hstep, ⟨rfl, rfl, rfl⟩⟩

/-- An update that is not turned down at once works on a replica that is in the caller's term. -/
lemma queueKept_updateReplica (hr : r.updateReplica self cfg request ctx = some (r', result)) :
    r' = r.updateClock request.propagatedHybridTime ∨
      ∀ {k : Knowledge ι}, k.Lawful self cfg.voters → (∀ m ∈ request.ops, k.known m.id) →
        ∀ {r₂}, r₂ = (r.updateClock request.propagatedHybridTime).handleTermAdvance self
          request.callerTerm → QueueInv k self r₂.queue r₂.log → QueueKept k self r₂ r' := by
  obtain ⟨r₁, check, hchk, hrest⟩ := updateReplica_cases hr
  obtain ⟨rfl, hnot⟩ | ⟨deduped, hdedup, -, -, henf⟩ := checkLeaderRequest_cases hchk
  · obtain ⟨rfl, -⟩ | ⟨d, hd, -⟩ := hrest
    · exact .inl rfl
    · exact absurd hd (hnot d)
  right
  rintro k hk hops r₂ rfl h
  have hkept := henf.queueKept h hk
  obtain ⟨rfl, -⟩ | ⟨d, rfl, happl⟩ := hrest
  · exact hkept
  · have hsub := (dedupLoop_messages_sublist hdedup).subset
    refine hkept.trans (happl.queueKept hkept.inv hk fun m hm => hops m (hsub ?_))
    cases henf <;> exact hm

end RaftConsensus
