import ZNbase.Consensus.RoundRollback
import ZNbase.Lib.Quorum

/-!
# Config changes

What a request to change the config does to the set of voters, and to the two copies of the active
config on a leader.

- Configs are compared by `memberTypeOf`, what a config says about each server. A request that is
  accepted changes it for one server, so a majority of the old voters and one of the new voters
  share a server. A server that is removed by its address is the exception: all peers that have the
  address are removed.
- The queue of a leader has the active config of its `ReplicaState`, up to the index of the
  operation that brought it, unless a change of the config could not be appended.
-/

open List RoundState RaftConfigPB

/-- Whether an address is one of the server. -/
def RaftPeerPB.hasAddress (p : RaftPeerPB) (hp : HostPortPB) : Bool :=
  p.lastKnownPrivateAddr.contains hp || p.lastKnownBroadcastAddr.contains hp

namespace RaftConfigPB

variable {config config' : RaftConfigPB} {server : RaftPeerPB} {uuid : String} {peer : RaftPeerPB}
  {peerUuid : String}

/-! ## Members -/

/-- What the config says about a server. -/
def memberTypeOf (config : RaftConfigPB) (uuid : String) : Option MemberType :=
  (config.getRaftConfigMember uuid).map (·.type)

/-- The uuids of the voters. -/
def voters (config : RaftConfigPB) : Finset String :=
  ((config.peers.filter (·.type = .voter)).map (·.uuid)).toFinset

/-- The two configs differ in what they say about one server, `uuid`. -/
def DiffersAt (config config' : RaftConfigPB) (uuid : String) : Prop :=
  ∀ u, config.memberTypeOf u ≠ config'.memberTypeOf u ↔ u = uuid

section

variable (hnodup : (config.peers.map (·.uuid)).Nodup)

include hnodup

lemma getRaftConfigMember_eq_some {p : RaftPeerPB} :
    config.getRaftConfigMember uuid = some p ↔ p ∈ config.peers ∧ p.uuid = uuid := by
  rw [getRaftConfigMember]
  constructor
  · intro h
    exact ⟨mem_of_find?_eq_some h, by simpa using find?_some h⟩
  · rintro ⟨hp, hu⟩
    cases hfind : config.peers.find? (·.uuid = uuid) with
    | none => exact absurd hu (by simpa using find?_eq_none.1 hfind p hp)
    | some q =>
      have hq : q.uuid = uuid := by simpa using find?_some hfind
      rw [inj_on_of_nodup_map hnodup (mem_of_find?_eq_some hfind) hp (hq.trans hu.symm)]

lemma mem_voters : uuid ∈ config.voters ↔ config.memberTypeOf uuid = some .voter := by
  simp only [voters, mem_toFinset, mem_map, mem_filter, memberTypeOf,
    Option.map_eq_some_iff, getRaftConfigMember_eq_some hnodup, decide_eq_true_eq]
  constructor
  · rintro ⟨p, ⟨hp, htype⟩, hu⟩
    exact ⟨p, ⟨hp, hu⟩, htype⟩
  · rintro ⟨p, ⟨hp, hu⟩, htype⟩
    exact ⟨p, ⟨hp, htype⟩, hu⟩

/-- `CountVoters` of a well-formed config is the number of its voters. -/
lemma card_voters (huuid : ∀ p ∈ config.peers, p.uuid ≠ "") :
    config.voters.card = config.countVoters := by
  rw [voters, toFinset_card_of_nodup, length_map, ← countP_eq_length_filter]
  · refine countP_congr fun p hp => ?_
    simp [huuid p hp]
  · exact hnodup.sublist (filter_sublist.map _)

end

/-- The voters of two configs that differ at one server differ by at most this one. -/
lemma DiffersAt.card_symmDiff_le (h : config.DiffersAt config' uuid)
    (hnodup : (config.peers.map (·.uuid)).Nodup) (hndp' : (config'.peers.map (·.uuid)).Nodup) :
    (symmDiff config.voters config'.voters).card ≤ 1 := by
  have hsub : symmDiff config.voters config'.voters ⊆ {uuid} := by
    intro u hu
    rw [Finset.mem_singleton]
    refine (h u).1 fun hsame => ?_
    rw [Finset.mem_symmDiff, mem_voters hnodup, mem_voters hndp', hsame] at hu
    tauto
  exact (Finset.card_le_card hsub).trans (Finset.card_singleton uuid).le

/-- Majorities of two configs that differ at one server share a voter. -/
lemma DiffersAt.majorities_inter {state state' : RaftConfigState}
    (h : config.DiffersAt config' uuid) (hcfg : config.verifyRaftConfig state = .ok ())
    (hcfg' : config'.verifyRaftConfig state' = .ok ()) {Q R : Finset String}
    (hQ : Q ⊆ config.voters) (hR : R ⊆ config'.voters) (hQmajority : config.majority ≤ Q.card)
    (hRmajority : config'.majority ≤ R.card) : (Q ∩ R).Nonempty := by
  obtain ⟨hnodup, huuid⟩ := verifyRaftConfig_spec hcfg
  obtain ⟨hndp', huuid'⟩ := verifyRaftConfig_spec hcfg'
  rw [majority, majoritySize, ← card_voters hnodup huuid] at hQmajority
  rw [majority, majoritySize, ← card_voters hndp' huuid'] at hRmajority
  exact Finset.inter_nonempty_of_majorities (h.card_symmDiff_le hnodup hndp') hQ hR
    (by omega) (by omega)

/-! ## The new config of a request -/

/-- A server that is added is new. -/
lemma differsAt_addServer (h : config.addServer server = .ok config') :
    config.DiffersAt config' server.uuid := by
  rw [addServer] at h
  split_ifs at h with hmember
  cases h
  have hnone : config.peers.find? (·.uuid = server.uuid) = none := by
    simpa [isRaftConfigMember] using hmember
  intro u
  simp only [memberTypeOf, getRaftConfigMember]
  by_cases hu : u = server.uuid
  · simp [hu, hnone]
  · have hu' : ¬server.uuid = u := fun heq => hu heq.symm
    simp [hu, hu']

/-- A server of a config once a peer is replaced. -/
lemma getRaftConfigMember_setMember (huuid : peer.uuid = uuid) (u : String) :
    (config.setMember uuid peer).getRaftConfigMember u =
      if u = uuid then (config.getRaftConfigMember uuid).map fun _ => peer
      else config.getRaftConfigMember u := by
  obtain ⟨peers, index⟩ := config
  simp only [setMember, getRaftConfigMember]
  induction peers with
  | nil => simp
  | cons p rest ih =>
    by_cases hp : p.uuid = uuid
    · -- the peer that is replaced
      by_cases hu : u = uuid
      · simp [hp, hu, huuid]
      · have hne : ¬uuid = u := fun heq => hu heq.symm
        simp [hp, hu, huuid, hne]
    · by_cases hpu : p.uuid = u
      · have hu : u ≠ uuid := fun heq => hp (hpu.trans heq)
        simp [hpu, hu]
      · simpa [hp, hpu] using ih

/-- A peer that gets another member type is the only one that changes. -/
lemma differsAt_setMember (h : config.getRaftConfigMember uuid = some server)
    (huuid : peer.uuid = uuid) (htype : peer.type ≠ server.type) :
    config.DiffersAt (config.setMember uuid peer) uuid := by
  intro u
  rw [memberTypeOf, memberTypeOf, getRaftConfigMember_setMember huuid]
  by_cases hu : u = uuid
  · simpa [hu, h] using fun heq => htype heq.symm
  · simp [hu]

/-- A role changes for the one server. -/
lemma differsAt_changeRole (h : config.changeRole server peerUuid = .ok config') :
    config.DiffersAt config' server.uuid := by
  rw [changeRole] at h
  split_ifs at h with hlead
  split at h
  · cases h
  case h_2 peer hpeer =>
    have huuid : peer.uuid = server.uuid := by simpa using find?_some hpeer
    split_ifs at h with hobserver hvoter
    · cases h
      refine differsAt_setMember hpeer huuid ?_
      rw [hobserver]
      exact fun heq => by cases heq
    · cases h
      refine differsAt_setMember hpeer huuid ?_
      rw [hvoter]
      exact fun heq => by cases heq

/-- If one peer of a config matches, it is the only one that is removed. -/
lemma differsAt_removeMatching {isMatch : RaftPeerPB → Bool}
    (hnodup : (config.peers.map (·.uuid)).Nodup)
    (hone : ∀ p ∈ config.peers, ∀ q ∈ config.peers, isMatch p → isMatch q → p = q)
    (h : config.removeMatching isMatch = some config') : ∃ uuid, config.DiffersAt config' uuid := by
  rw [removeMatching] at h
  split_ifs at h with hany
  cases h
  obtain ⟨gone, hgone, hmatch⟩ := any_eq_true.1 hany
  refine ⟨gone.uuid, fun u => ?_⟩
  have hndp' : ((config.peers.filter fun p => !isMatch p).map (·.uuid)).Nodup :=
    hnodup.sublist (filter_sublist.map _)
  have haft (p : RaftPeerPB) :
      ({ config with peers := config.peers.filter fun p => !isMatch p } :
          RaftConfigPB).getRaftConfigMember u = some p ↔
        (p ∈ config.peers ∧ isMatch p = false) ∧ p.uuid = u := by
    rw [getRaftConfigMember_eq_some hndp']
    simp
  rw [memberTypeOf, memberTypeOf]
  by_cases hu : u = gone.uuid
  · have hnone : ({ config with peers := config.peers.filter fun p => !isMatch p } :
        RaftConfigPB).getRaftConfigMember u = none := by
      rw [Option.eq_none_iff_forall_ne_some]
      intro p hp
      obtain ⟨⟨hmem, hnot⟩, hpu⟩ := (haft p).1 hp
      have hsame : p = gone := inj_on_of_nodup_map hnodup hmem hgone (hpu.trans hu)
      rw [hsame, hmatch] at hnot
      cases hnot
    rw [(getRaftConfigMember_eq_some hnodup).2 ⟨hgone, hu.symm⟩, hnone]
    simp [hu]
  · have hsame : ({ config with peers := config.peers.filter fun p => !isMatch p } :
        RaftConfigPB).getRaftConfigMember u = config.getRaftConfigMember u := by
      refine Option.ext fun p => ?_
      rw [haft, getRaftConfigMember_eq_some hnodup]
      constructor
      · rintro ⟨⟨hmem, -⟩, hpu⟩
        exact ⟨hmem, hpu⟩
      · rintro ⟨hmem, hpu⟩
        refine ⟨⟨hmem, ?_⟩, hpu⟩
        -- only `gone` matches, and it has another uuid
        by_contra hnot
        rw [hone p hmem gone hgone (by simpa using hnot) hmatch] at hpu
        exact hu hpu.symm
    rw [hsame]
    simp [hu]

/-- If the removal of the peers that match changes one server, one peer matched. -/
lemma DiffersAt.eq_of_removeMatching {isMatch : RaftPeerPB → Bool}
    (hnodup : (config.peers.map (·.uuid)).Nodup)
    (h : config.removeMatching isMatch = some config') (hdiff : config.DiffersAt config' uuid)
    {p q : RaftPeerPB} (hp : p ∈ config.peers) (hq : q ∈ config.peers) (hpm : isMatch p)
    (hqm : isMatch q) : p = q := by
  rw [removeMatching] at h
  split_ifs at h
  cases h
  -- a peer that matches is a member before and not one after
  have hgone {p : RaftPeerPB} (hp : p ∈ config.peers) (hpm : isMatch p) : p.uuid = uuid := by
    refine (hdiff p.uuid).1 ?_
    have hnone : ({ config with peers := config.peers.filter fun p => !isMatch p } :
        RaftConfigPB).getRaftConfigMember p.uuid = none := by
      rw [getRaftConfigMember, find?_eq_none]
      intro r hr hru
      obtain ⟨hmem, hnot⟩ := mem_filter.1 hr
      rw [inj_on_of_nodup_map hnodup hmem hp (of_decide_eq_true hru), hpm] at hnot
      cases hnot
    rw [memberTypeOf, memberTypeOf, (getRaftConfigMember_eq_some hnodup).2 ⟨hp, rfl⟩, hnone]
    exact nofun
  exact inj_on_of_nodup_map hnodup hp hq ((hgone hp hpm).trans (hgone hq hqm).symm)

/-- An address that at most one peer of the config has. -/
def AddressUnique (config : RaftConfigPB) (hp : HostPortPB) : Prop :=
  ∀ p ∈ config.peers, ∀ q ∈ config.peers, p.hasAddress hp → q.hasAddress hp → p = q

instance (config : RaftConfigPB) (hp : HostPortPB) : Decidable (config.AddressUnique hp) :=
  inferInstanceAs (Decidable (∀ p ∈ config.peers, ∀ q ∈ config.peers, _))

/-- The config of an accepted `REMOVE_SERVER` is the one of `RemoveFromRaftConfig`. -/
lemma removeFromRaftConfig_of_removeServer {useHostport : Bool} {addresses : AddressEnv}
    (h : config.removeServer server useHostport peerUuid addresses = .ok config') :
    config.removeFromRaftConfig server useHostport = some config' := by
  rw [removeServer] at h
  cases hfnd : config.removeFromRaftConfig server useHostport with
  | none =>
    rw [hfnd] at h
    split_ifs at h
    all_goals split at h <;> [cases h; split_ifs at h]
  | some newConfig =>
    rw [hfnd] at h
    split_ifs at h
    · split at h
      · cases h
      · split_ifs at h
    · split at h
      · cases h
      · split_ifs at h
        cases h
        rfl
    · cases h
      rfl

/-- Removing a server by its uuid removes one server, and by an address exactly if no other server
has it. -/
lemma differsAt_removeServer_iff {useHostport : Bool} {addresses : AddressEnv}
    (hnodup : (config.peers.map (·.uuid)).Nodup)
    (h : config.removeServer server useHostport peerUuid addresses = .ok config') :
    (∃ uuid, config.DiffersAt config' uuid) ↔
      (useHostport → ∀ hp ∈ server.lastKnownPrivateAddr, config.AddressUnique hp) := by
  have hrem := removeFromRaftConfig_of_removeServer h
  rw [removeFromRaftConfig] at hrem
  split_ifs at hrem with huse
  · split at hrem
    -- removed by the address: several peers can match
    case h_1 hp haddr =>
      rw [haddr]
      constructor
      · rintro ⟨uuid, hdiff⟩ - hp' hmem p hpeer q hqeer hpa hqa
        rw [mem_singleton.1 hmem] at hpa hqa
        exact hdiff.eq_of_removeMatching hnodup hrem hpeer hqeer hpa hqa
      · intro hunique
        exact differsAt_removeMatching hnodup (hunique huse hp (mem_singleton_self hp)) hrem
    case h_2 => cases hrem
  · -- removed by the uuid, which only one peer has
    refine iff_of_true (differsAt_removeMatching hnodup ?_ hrem) fun hyes => absurd hyes huse
    intro p hp q hq hpu hqu
    simp only [decide_eq_true_eq] at hpu hqu
    exact inj_on_of_nodup_map hnodup hp hq (hpu.trans hqu.symm)

end RaftConfigPB

/-! ## Requests that are accepted -/

namespace RoundState

variable {s : RoundState} {env : RoundEnv} {addresses : AddressEnv} {req : ChangeConfigRequestPB}
  {config' : RaftConfigPB}

/-- If the request removes a server by its address, at most one peer has this address. -/
def RequestAddressUnique (s : RoundState) (req : ChangeConfigRequestPB) : Prop :=
  req.useHost = some true → ∀ server ∈ req.server, ∀ hp ∈ server.lastKnownPrivateAddr,
    s.committedConfig.AddressUnique hp

instance (s : RoundState) (req : ChangeConfigRequestPB) : Decidable (s.RequestAddressUnique req) :=
  inferInstanceAs (Decidable (_ → ∀ _ ∈ req.server, _))

/-- The new config of a request differs from the committed one at one server, exactly if the request
does not remove several by the address they share. -/
lemma differsAt_newConfig_iff (hver : s.committedConfig.verifyRaftConfig .committedQuorum = .ok ())
    (h : s.newConfig env addresses req = .ok config') :
    (∃ uuid, s.committedConfig.DiffersAt config' uuid) ↔ s.RequestAddressUnique req := by
  have hnodup : (s.committedConfig.peers.map (·.uuid)).Nodup :=
    (verifyRaftConfig_spec hver).1
  rw [newConfig] at h
  split at h
  · cases h
  · cases h
  case h_3 type server htype hserver =>
    dsimp only at h
    split_ifs at h with hhost
    have huse : req.useHost.getD false = true ↔ req.useHost = some true := by
      cases req.useHost <;> simp
    -- without the index of its operation the committed config has the same members
    change (∃ uuid, s.committedConfig.clearOpidIndex.DiffersAt config' uuid) ↔ _
    cases type with
    | addServer =>
      refine iff_of_true ⟨_, differsAt_addServer h⟩ fun hyes => ?_
      exact absurd ⟨nofun, huse.2 hyes⟩ hhost
    | changeRole =>
      refine iff_of_true ⟨_, differsAt_changeRole h⟩ fun hyes => ?_
      exact absurd ⟨nofun, huse.2 hyes⟩ hhost
    | unknownChange => cases h
    | removeServer =>
      have hnodup' : (s.committedConfig.clearOpidIndex.peers.map (·.uuid)).Nodup := hnodup
      rw [differsAt_removeServer_iff hnodup' h, huse, RequestAddressUnique, hserver]
      simp only [Option.mem_some_iff, forall_eq']
      rfl

/-- A request is accepted on a leader without a pending config. -/
lemma leader_of_newConfig (h : s.newConfig env addresses req = .ok config') :
    s.core.leaderUuid = some env.peerUuid ∧ s.pendingConfig = none := by
  rw [newConfig] at h
  split at h
  · cases h
  · cases h
  case h_3 type server htype hserver =>
    dsimp only at h
    split_ifs at h with _ _ hlead hready
    exact ⟨(of_decide_eq_true hlead.1).1, (of_decide_eq_true hready).2.1⟩

/-! ## The config while rounds are appended -/

/-- The configs of the two states and their leader are the same. -/
structure SameConfig (s s' : RoundState) : Prop where
  leaderUuid : s'.core.leaderUuid = s.core.leaderUuid
  pendingConfig : s'.pendingConfig = s.pendingConfig
  committedConfig : s'.committedConfig = s.committedConfig

variable {s' s'' : RoundState} {clock : RoundClock} {round : ConsensusRound}
  {added : List ConsensusRound} {rounds : List (RoundClock × ConsensusRound)} {id : OpId}
    {leaderTerm : ℕ}

lemma SameConfig.refl (s : RoundState) : SameConfig s s := ⟨rfl, rfl, rfl⟩

/-- Two changes that leave the config alone. -/
lemma SameConfig.trans (h : SameConfig s s') (h' : SameConfig s' s'') : SameConfig s s'' :=
  ⟨h'.leaderUuid.trans h.leaderUuid, h'.pendingConfig.trans h.pendingConfig,
    h'.committedConfig.trans h.committedConfig⟩

lemma SameConfig.activeConfig (h : SameConfig s s') : s'.activeConfig = s.activeConfig := by
  rw [RoundState.activeConfig, RoundState.activeConfig, h.pendingConfig, h.committedConfig]

lemma SameConfig.isActiveLeader (h : SameConfig s s') :
    s'.isActiveLeader env = s.isActiveLeader env := by
  rw [RoundState.isActiveLeader, RoundState.isActiveLeader, h.leaderUuid, h.activeConfig]

/-- A leader that adds a round has set the pending config before. -/
lemma sameConfig_add (hlead : s.isActiveLeader env)
    (hadd : s.addPendingOperation env clock round = some (.ok (), s')) : SameConfig s s' where
  leaderUuid := by rw [(addPendingOperation_ok hadd).core]
  pendingConfig := by
    rcases (addPendingOperation_ok hadd).pendingConfig with hsame | ⟨hnot, -⟩
    · exact hsame
    · exact absurd hlead hnot
  committedConfig := (addPendingOperation_ok hadd).committedConfig

/-- A cancelled operation was no change of the config. -/
lemma sameConfig_cancel {shouldExist : Bool}
    (hcan : s.cancelPendingOperation id shouldExist = some s') : SameConfig s s' := by
  obtain ⟨-, -, rfl⟩ := cancelPendingOperation_spec hcan
  exact ⟨rfl, rfl, rfl⟩

/-- Neither are operations that are taken back. -/
lemma sameConfig_rollbackIds {rest : List ConsensusRound}
    (hroll : s.rollbackIds rest = some s') : SameConfig s s' := by
  induction rest generalizing s' with
  | nil =>
    cases hroll
    exact .refl _
  | cons round rest ih =>
    obtain ⟨t, ht, hcan⟩ := Option.bind_eq_some_iff.1 hroll
    exact (ih ht).trans (sameConfig_cancel hcan)

/-- A batch of a leader changes neither the configs nor the leader. -/
lemma batchInvariant_sameConfig (hlead : s.isActiveLeader env) :
    BatchInvariant env rounds (fun s' _ => SameConfig s s') fun _ _ => True where
  add {t t' added clock round} _ h hok := by
    have hnew : SameConfig s t.newId.2 := h.trans ⟨rfl, rfl, rfl⟩
    exact hnew.trans (sameConfig_add (by rwa [hnew.isActiveLeader]) hok)
  cancel {t u t' added clock round e} _ h herr hcan := by
    refine ⟨SameConfig.trans ?_ (sameConfig_cancel hcan), trivial⟩
    rcases addPendingOperation_error herr with rfl | ⟨-, rfl, -⟩ <;> exact h.trans ⟨rfl, rfl, rfl⟩
  rollbackIds h _ hroll := ⟨h.trans (sameConfig_rollbackIds hroll), trivial⟩

/-- Appending rounds on a leader, or failing to, changes neither the configs nor the leader. -/
lemma sameConfig_appendNewRoundsToQueue {queueStatus : QueueStatus} {status : AppendStatus}
    (hlead : s.isActiveLeader env)
    (happ : s.appendNewRoundsToQueue env rounds queueStatus = some (status, s')) :
    SameConfig s s' := by
  rcases (batchInvariant_sameConfig hlead).appendNewRoundsToQueue (.refl s) happ with
    ⟨hback, -⟩ | ⟨-, t, added, ht, rfl | ⟨id, rfl⟩⟩
  · exact hback
  · exact ht
  · exact ht.trans ⟨rfl, rfl, rfl⟩

/-- The round of a config change is appended on a leader without a split operation. -/
lemma appendNewRoundsToQueue_changeConfigOp (clock : RoundClock)
    (oldConfig newConfig : RaftConfigPB) (hlead : s.isActiveLeader env)
    (hspl : s.splitOpInfo.opId = OpId.min0) (hid : OpId.min0 < s.newId.1) :
    ∃ s', s.appendNewRoundsToQueue env
      [(clock, { payload := .changeConfigOp oldConfig newConfig })] .ok = some (.ok, s') := by
  have hnew : SameConfig s s.newId.2 := ⟨rfl, rfl, rfl⟩
  have hadd : s.newId.2.addPendingOperation env clock
      { id := s.newId.1, payload := .changeConfigOp oldConfig newConfig } =
        some (.ok (), s.newId.2.push
          { id := s.newId.1, payload := .changeConfigOp oldConfig newConfig }) := by
    have hspl' : s.newId.2.splitOpInfo.opId = OpId.min0 := hspl
    rw [addPendingOperation, hspl', if_neg (not_not.2 hid), if_neg (by simp),
      if_neg (by simp [RoundPayload.needsLease]), addPayload]
    simp only [hnew.isActiveLeader, hlead, if_true]
  rw [appendNewRoundsToQueue]
  simp only [hadd, addRounds]
  exact ⟨_, rfl⟩

/-! ## The config while rounds are prepared, aborted and applied -/

/-- A follower that prepares operations keeps its leader. -/
lemma leaderUuid_enqueuePrepares {prepared : List ConsensusRound}
    (henq : enqueuePrepares env s rounds = some (prepared, s')) :
    s'.core.leaderUuid = s.core.leaderUuid := by
  induction rounds generalizing s prepared with
  | nil =>
    cases henq
    rfl
  | cons head rest ih =>
    simp only [enqueuePrepares] at henq
    split at henq
    · cases henq
    case h_2 e t herr =>
      cases henq
      rcases addPendingOperation_error herr with rfl | ⟨-, rfl, -⟩ <;> rfl
    case h_3 t hok =>
      obtain ⟨⟨prepared', u⟩, hu, heq⟩ := Option.map_eq_some_iff.1 henq
      cases heq
      rw [ih hu, (addPendingOperation_ok hok).core]

/-- So does one that aborts them. -/
lemma leaderUuid_abortOpsAfter {newPrecedingIdx : ℕ}
    (habt : s.abortOpsAfter env newPrecedingIdx = some s') :
    s'.core.leaderUuid = s.core.leaderUuid := by
  obtain ⟨core, hcore, rfl⟩ := Option.map_eq_some_iff.1 habt
  rw [(foldl_notify_frame env 0 false _ _).1]
  rw [ReplicaState.abortOpsAfter] at hcore
  split at hcore
  · cases hcore
    rfl
  · split_ifs at hcore
    cases hcore
    rfl

/-- A pending config that is committed stays the active one. It gets the index of its operation. -/
lemma activeConfig_applyConfigChange {newConfig : RaftConfigPB}
    (h : s.applyConfigChange id newConfig = some s') :
    s'.activeConfig.clearOpidIndex = s.activeConfig.clearOpidIndex := by
  rw [applyConfigChange] at h
  split_ifs at h
  · rw [setCommittedConfig] at h
    split at h
    · cases h
    · split_ifs at h with hpend
      cases h
      simp [activeConfig, hpend, clearOpidIndex]
  · cases h
    rfl

/-- The active config is the same when it is committed. -/
lemma activeConfig_applyRound (h : applyRound env leaderTerm s round = some s') :
    s'.activeConfig.clearOpidIndex = s.activeConfig.clearOpidIndex := by
  obtain ⟨t, ht, rfl⟩ := Option.map_eq_some_iff.1 h
  have hnotify : (t.notifyReplicationFinished env leaderTerm true round).activeConfig =
      t.activeConfig := by
    simp only [notifyReplicationFinished, nonTxRoundReplicationFinished]
    split
    · split_ifs <;> rfl
    · rfl
    · rfl
  rw [hnotify]
  split at ht
  · exact activeConfig_applyConfigChange ht
  · cases ht
    rfl

/-- It is the same when several rounds are applied. -/
lemma activeConfig_foldlM_applyRound {rounds : List ConsensusRound}
    (h : rounds.foldlM (applyRound env leaderTerm) s = some s') :
    s'.activeConfig.clearOpidIndex = s.activeConfig.clearOpidIndex := by
  induction rounds generalizing s with
  | nil =>
    cases h
    rfl
  | cons round rest ih =>
    obtain ⟨t, ht, hrest⟩ := Option.bind_eq_some_iff.1 h
    rw [ih hrest, activeConfig_applyRound ht]

/-- Committing rounds changes neither the leader nor, up to its index, the active config. -/
lemma activeConfig_advanceCommittedOpId {ctx : ApplyContext} {committedOpId : OpId}
    {couldStop ok : Bool}
    (h : s.advanceCommittedOpId env ctx committedOpId couldStop = some (ok, s')) :
    s'.core.leaderUuid = s.core.leaderUuid ∧
      s'.activeConfig.clearOpidIndex = s.activeConfig.clearOpidIndex := by
  rw [advanceCommittedOpId] at h
  split_ifs at h
  · cases h
    exact ⟨rfl, rfl⟩
  · cases h
    exact ⟨rfl, rfl⟩
  rw [applyPendingOperations] at h
  split at h
  · cases h
  · obtain ⟨t, ht, heq⟩ := Option.map_eq_some_iff.1 h
    cases heq
    have hlead := congrArg ReplicaState.leaderUuid (foldlM_applyRound_frame ht).1
    have hcfg := activeConfig_foldlM_applyRound ht
    exact ⟨hlead, hcfg⟩

end RoundState

namespace RoundConsensus

variable {r r' : RoundConsensus} {env : RoundEnv} {addresses : AddressEnv} {clock : RoundClock}
  {req : ChangeConfigRequestPB} {queueStatus : QueueStatus}

/-- A change of the config that a leader accepts concerns one server exactly if it does not remove
one by an address that another one has as well. Then the voters of the old and of the new config
differ by at most this server, a majority of the old ones and a majority of the new ones share one,
and the leader is still a voter. -/
theorem changeConfig_single_server
    (hverify : r.state.committedConfig.verifyRaftConfig .committedQuorum = .ok ())
    (h : r.changeConfig env addresses clock req queueStatus = some (.ok (), r')) :
    (∃ config' uuid, r'.state.pendingConfig = some config' ∧
      r.state.committedConfig.DiffersAt config' uuid ∧
      (symmDiff r.state.committedConfig.voters config'.voters).card ≤ 1 ∧
      (∀ Q ⊆ r.state.committedConfig.voters, ∀ R ⊆ config'.voters,
        r.state.committedConfig.majority ≤ Q.card → config'.majority ≤ R.card →
          (Q ∩ R).Nonempty) ∧
      config'.isRaftConfigVoter env.peerUuid) ↔ r.state.RequestAddressUnique req := by
  rw [changeConfig] at h
  split at h
  · cases h
  case h_2 config' hnew =>
    obtain ⟨hlead, -⟩ := leader_of_newConfig hnew
    obtain ⟨-, e, he⟩ | ⟨queue, status, state, hver', -, hque, happ, rfl, hres⟩ :=
      replicateConfigChange_spec h
    · cases he
    have hstat : status = .ok := by
      by_contra hne
      rw [if_neg hne] at hres
      cases hres
    -- the queue refuses a config in which the leader is no voter
    have hvoter : config'.isRaftConfigVoter env.peerUuid :=
      isRaftConfigVoter_of_setLeaderMode hque
    have hact : ({ r.state with pendingConfig := some config' } : RoundState).isActiveLeader env :=
      decide_eq_true ⟨hlead, hvoter⟩
    have hpend : state.pendingConfig = some config' :=
      (sameConfig_appendNewRoundsToQueue hact happ).pendingConfig
    -- the address matters for the first part only, the others follow from it
    rw [← differsAt_newConfig_iff hverify hnew, if_pos hstat]
    constructor
    · rintro ⟨config'', uuid, hpend', hdiff, -⟩
      rw [hpend, Option.some.injEq] at hpend'
      exact ⟨uuid, hpend' ▸ hdiff⟩
    rintro ⟨uuid, hdiff⟩
    refine ⟨config', uuid, hpend, hdiff, ?_, ?_, hvoter⟩
    · exact hdiff.card_symmDiff_le (verifyRaftConfig_spec hverify).1 (verifyRaftConfig_spec hver').1
    · intro Q hQ R hR hQmajority hRmajority
      exact hdiff.majorities_inter hverify hver' hQ hR hQmajority hRmajority

section Example

/-- A voter with an address. -/
def voterAt (uuid host : String) : RaftPeerPB where
  permanentUuid := some uuid
  memberType := some .voter
  lastKnownPrivateAddr := [⟨host, 9100⟩]

/-- The servers `a`, `b` and `c`, of which `c` is at some host. -/
def threeServers (hostC : String) : RaftConfigPB where
  peers := [voterAt "a" "host-a", voterAt "b" "host-b", voterAt "c" hostC]
  opidIndex := some 0

/-- The replica `a` as leader of term 1, which has committed its `NO_OP`. -/
def readyLeader (config : RaftConfigPB) : RoundConsensus where
  state :=
    { core :=
        { currentTerm := 1
          leaderUuid := some "a"
          nextIndex := 2
          lastReceivedOpId := ⟨1, 1⟩
          lastCommittedOpId := ⟨1, 1⟩ }
      committedConfig := config
      leaderNoOpCommitted := true }
  queue := ⟨.leader, some config, config.majority⟩

/-- Removes the server at `host-b`. -/
def removeHostB : ChangeConfigRequestPB where
  type := some .removeServer
  server := some { lastKnownPrivateAddr := [⟨"host-b", 9100⟩] }
  useHost := some true

theorem changeConfig_single_server_removeHostB :
    ∃ r' config' uuid,
      (readyLeader (threeServers "host-c")).changeConfig envA {} {} removeHostB .ok =
        some (.ok (), r') ∧
      r'.state.pendingConfig = some config' ∧
      (threeServers "host-c").DiffersAt config' uuid ∧ config'.isRaftConfigVoter "a" := by
  have hstat : ((readyLeader (threeServers "host-c")).changeConfig envA {} {}
      removeHostB .ok).map (fun r => r.1.toOption) = some (some ()) := by decide
  obtain ⟨⟨result, r'⟩, hchg, hres⟩ := Option.map_eq_some_iff.1 hstat
  obtain rfl : result = .ok () := by
    cases result with
    | error e => cases hres
    | ok _ => rfl
  obtain ⟨config', uuid, hpend, hdiff, -, -, hvoter⟩ :=
    (changeConfig_single_server (by decide) hchg).2 (by decide)
  exact ⟨r', config', uuid, hchg, hpend, hdiff, hvoter⟩

/-- If `c` is at `host-b` as well, it is removed together with `b`. The two are a majority of the
old voters, and `a` is one of the new ones. -/
theorem not_changeConfig_single_server :
    (threeServers "host-b").verifyRaftConfig .committedQuorum = .ok () ∧ ∃ r' config',
        (readyLeader (threeServers "host-b")).changeConfig envA {} {} removeHostB .ok = some
          (.ok (), r') ∧
        r'.state.pendingConfig = some config' ∧
        (∀ uuid ∈ ["b", "c"], (threeServers "host-b").memberTypeOf uuid = some .voter ∧
          config'.memberTypeOf uuid = none) ∧
        ({"b", "c"} : Finset String) ⊆ (threeServers "host-b").voters ∧
        {"a"} ⊆ config'.voters ∧
        (threeServers "host-b").majority ≤ ({"b", "c"} : Finset String).card ∧
        config'.majority ≤ ({"a"} : Finset String).card ∧
        ¬(({"b", "c"} : Finset String) ∩ {"a"}).Nonempty := by
  have hres : ((readyLeader (threeServers "host-b")).changeConfig envA {} {}
      removeHostB .ok).map (fun r => (r.1.toOption, r.2.state.pendingConfig)) =
      some (some (), some ⟨[voterAt "a" "host-a"], none⟩) := by decide
  obtain ⟨⟨result, r'⟩, hchg, hr'⟩ := Option.map_eq_some_iff.1 hres
  obtain ⟨hok, hpend⟩ := Prod.mk.inj hr'
  obtain rfl : result = .ok () := by
    cases result with
    | error e => cases hok
    | ok _ => rfl
  exact ⟨by decide, r', _, hchg, hpend, by decide, by decide, by decide, by decide,
    by decide, by decide⟩

end Example

/-! ## The config of the queue -/

/-- On a leader, the queue has the active config, up to the index of its operation, and its
majority. -/
def QueueAgrees (env : RoundEnv) (r : RoundConsensus) : Prop :=
  r.isLeader env →
    r.queue.mode = .leader ∧
      r.queue.activeConfig.map (·.clearOpidIndex) = some r.state.activeConfig.clearOpidIndex ∧
      r.queue.majoritySize = r.state.activeConfig.majority

/-- The round of a config change can be appended: no split operation is in the log, and the queue
takes it. -/
def ConfigChangeAppends (env : RoundEnv) (r : RoundConsensus) : Event → Prop
  | .changeConfig addresses _ req queueStatus =>
    (r.state.newConfig env addresses req).isOk →
      r.state.splitOpInfo.opId = OpId.min0 ∧ OpId.min0 < r.state.newId.1 ∧ queueStatus = .ok
  | _ => True

instance (env : RoundEnv) (r : RoundConsensus) (e : Event) :
    Decidable (r.ConfigChangeAppends env e) := by
  induction e using Event.casesOn <;> (unfold ConfigChangeAppends; infer_instance)

/-- What `SetLeaderMode` does for the active config. -/
lemma queueAgrees_of_setLeaderMode {queue : QueueConfig} {state : RoundState}
    {config : RaftConfigPB} (hque : QueueConfig.setLeaderMode env.peerUuid config = some queue)
    (hcfg : state.activeConfig = config) : QueueAgrees env ⟨state, queue⟩ := by
  rw [QueueConfig.setLeaderMode] at hque
  split_ifs at hque
  cases hque
  intro _
  rw [hcfg]
  exact ⟨rfl, rfl, rfl⟩

/-- Only the leader and the active config matter. -/
lemma QueueAgrees.congr (h : r.QueueAgrees env)
    (hlead : r'.state.core.leaderUuid = r.state.core.leaderUuid)
    (hcfg : r'.state.activeConfig.clearOpidIndex = r.state.activeConfig.clearOpidIndex)
    (hque : r'.queue = r.queue) : r'.QueueAgrees env := by
  have hmaj := congrArg majority hcfg
  change r'.state.activeConfig.majority = r.state.activeConfig.majority at hmaj
  rw [QueueAgrees, isLeader, hlead, hcfg, hque, hmaj]
  exact h

/-- Nothing is asked of a replica that is not leader. -/
lemma queueAgrees_of_not_leader (hlead : ¬r.isLeader env) : r.QueueAgrees env :=
  fun h => absurd h hlead

/-- The queue agrees once a new leader has told it the config. -/
lemma queueAgrees_becomeLeader (hstep : r.becomeLeader env clock queueStatus = some r') :
    r'.QueueAgrees env := by
  obtain ⟨queue, status, state, hque, happ, rfl⟩ := becomeLeader_spec hstep
  refine queueAgrees_of_setLeaderMode hque ?_
  have hvoter : r.state.activeConfig.isRaftConfigVoter env.peerUuid :=
    isRaftConfigVoter_of_setLeaderMode hque
  have hact : ({ r.state with
      leaderNoOpCommitted := false
      core := { r.state.core with leaderUuid := some env.peerUuid } } :
      RoundState).isActiveLeader env :=
    decide_eq_true ⟨rfl, hvoter⟩
  exact (sameConfig_appendNewRoundsToQueue hact happ).activeConfig

/-- The queue agrees once a config change is appended. -/
lemma queueAgrees_changeConfig {result : Except ChangeConfigError Unit} (h : r.QueueAgrees env)
    (happends : r.ConfigChangeAppends env (.changeConfig addresses clock req queueStatus))
    (hchg : r.changeConfig env addresses clock req queueStatus = some (result, r')) :
    r'.QueueAgrees env := by
  rw [changeConfig] at hchg
  split at hchg
  · cases hchg
    exact h
  case h_2 config' hnew =>
    obtain ⟨hlead, -⟩ := leader_of_newConfig hnew
    obtain ⟨hspl, hid, rfl⟩ := happends (by rw [hnew]; rfl)
    obtain ⟨rfl, -⟩ | ⟨queue, status, state, -, -, hque, happ, rfl, -⟩ :=
      replicateConfigChange_spec hchg
    · exact h
    have hvoter : config'.isRaftConfigVoter env.peerUuid :=
      isRaftConfigVoter_of_setLeaderMode hque
    have hact : ({ r.state with pendingConfig := some config' } : RoundState).isActiveLeader env :=
      decide_eq_true ⟨hlead, hvoter⟩
    -- with the queue ready and no split operation the status can only be OK
    obtain ⟨s', hok⟩ := appendNewRoundsToQueue_changeConfigOp clock
      r.state.committedConfig config' hact hspl hid
    obtain ⟨rfl, rfl⟩ : status = .ok ∧ state = s' := by
      rw [happ] at hok
      cases hok
      exact ⟨rfl, rfl⟩
    refine queueAgrees_of_setLeaderMode hque ?_
    exact (sameConfig_appendNewRoundsToQueue hact happ).activeConfig

/-- Every step keeps the queue in agreement, but for a config change that is not appended. -/
lemma queueAgrees_step {e : Event} (h : r.QueueAgrees env)
    (happends : r.ConfigChangeAppends env e) (hstep : r.step env e = some r') :
    r'.QueueAgrees env := by
  cases e with
  | advanceTerm newTerm =>
    cases hstep
    rw [handleTermAdvance]
    split_ifs
    · exact h
    all_goals exact queueAgrees_of_not_leader fun hlead => by cases hlead
  | becomeLeader clock queueStatus =>
    simp only [step] at hstep
    split_ifs at hstep
    exact queueAgrees_becomeLeader hstep
  | stepDown =>
    cases hstep
    exact queueAgrees_of_not_leader fun hlead => by cases hlead
  | replicate rounds queueStatus =>
    simp only [step] at hstep
    split_ifs at hstep with hlead
    obtain ⟨⟨status, state⟩, happ, rfl⟩ := Option.map_eq_some_iff.1 hstep
    -- rounds of clients are no changes of the config
    have hsame := sameConfig_appendNewRoundsToQueue hlead happ
    exact h.congr hsame.leaderUuid (congrArg _ hsame.activeConfig) rfl
  | changeConfig addresses clock req queueStatus =>
    obtain ⟨⟨result, r₁⟩, hchg, rfl⟩ := Option.map_eq_some_iff.1 hstep
    exact queueAgrees_changeConfig h happends hchg
  | acceptLeader uuid =>
    simp only [step] at hstep
    split_ifs at hstep with hlead
    cases hstep
    -- a replica that accepts another leader is none itself
    refine queueAgrees_of_not_leader fun hlead' => hlead (.inr ?_)
    exact Option.some.inj hlead'
  | abortOpsAfter newPrecedingIdx =>
    simp only [step] at hstep
    split_ifs at hstep with hlead
    obtain ⟨state, habt, rfl⟩ := Option.map_eq_some_iff.1 hstep
    refine queueAgrees_of_not_leader fun hlead' => hlead ?_
    exact (leaderUuid_abortOpsAfter habt).symm.trans hlead'
  | prepare rounds =>
    simp only [step] at hstep
    split_ifs at hstep with hlead
    obtain ⟨state, hprep, rfl⟩ := Option.map_eq_some_iff.1 hstep
    obtain ⟨⟨prepared, state'⟩, henq, rfl⟩ := Option.map_eq_some_iff.1 hprep
    refine queueAgrees_of_not_leader fun hlead' => hlead ?_
    rw [isLeader, ← leaderUuid_enqueuePrepares henq, ← hlead']
    dsimp only [withState]
    split <;> rfl
  | advanceCommittedOpId ctx committedOpId couldStop =>
    obtain ⟨⟨ok, state⟩, hadv, rfl⟩ := Option.map_eq_some_iff.1 hstep
    obtain ⟨hlead, hcfg⟩ := activeConfig_advanceCommittedOpId hadv
    exact h.congr hlead hcfg rfl

/-- In a run in which every config change that is not refused can be appended, the queue of a leader
has the active config and its majority. -/
theorem queueAgrees_of_run {config : RaftConfigPB} {es : List Event}
    (h : Run (Restrict (ConfigChangeAppends env) (Step env)) (init config) es r) :
    r.QueueAgrees env := by
  refine h.invariant ?_ ?_
  · intro r e r' hr hstep
    exact queueAgrees_step hr hstep.1 hstep.2
  · intro hlead
    cases hlead

section Example

/-- The servers `a` and `b`. -/
def twoServers : RaftConfigPB where
  peers := [voterAt "a" "host-a", voterAt "b" "host-b"]
  opidIndex := some 0

/-- Removes the server `b`. -/
def removeB : ChangeConfigRequestPB where
  type := some .removeServer
  server := some { permanentUuid := some "b" }

/-- The replica `a` becomes leader of term 1 and commits its `NO_OP`. -/
def leadTerm1 : List Event :=
  [.advanceTerm 1, .becomeLeader {} .ok, .advanceCommittedOpId {} ⟨1, 1⟩ false]

theorem queueAgrees_of_run_removeB :
    ∃ r, Run (Restrict (ConfigChangeAppends envA) (Step envA)) (init twoServers)
        (leadTerm1 ++ [.changeConfig {} {} removeB .ok, .advanceCommittedOpId {} ⟨1, 2⟩ false]) r ∧
      r.isLeader envA ∧ r.state.committedConfig.opidIndex = some 2 ∧
      r.state.activeConfig.majority = 1 ∧ r.QueueAgrees envA := by
  have hrun :
      (Run.exec (restrict (ConfigChangeAppends envA) (RoundConsensus.step envA)) (init twoServers)
      (leadTerm1 ++ [.changeConfig {} {} removeB .ok, .advanceCommittedOpId {} ⟨1, 2⟩ false])).map
        (fun r => (r.state.core.leaderUuid, r.state.committedConfig.opidIndex,
            r.state.activeConfig.majority)) = some (some "a", some 2, 1) := by decide
  obtain ⟨r, hexec, hr⟩ := Option.map_eq_some_iff.1 hrun
  simp only [Prod.mk.injEq] at hr
  exact ⟨r, Run.of_exec_restrict hexec, hr.1, hr.2.1, hr.2.2,
    queueAgrees_of_run (Run.of_exec_restrict hexec)⟩

/-- A leader of `a` and `b` with a split operation in its log is asked to remove `b`. The request is
refused with `TABLET_SPLIT`, and from then on the queue takes `a` alone for a majority. -/
theorem not_queueAgrees_of_run :
    ∃ r, Run (Step envA) (init twoServers) (leadTerm1 ++
          [.replicate [({}, { hybridTime := 4096, payload := .splitOp ⟨"t", "t1", "t2"⟩ })] .ok,
            .changeConfig {} {} removeB .ok]) r ∧
      r.isLeader envA ∧ r.state.activeConfig.peers = twoServers.peers ∧
      r.state.activeConfig.majority = 2 ∧
      r.queue.activeConfig.map (·.peers) = some [voterAt "a" "host-a"] ∧
      r.queue.majoritySize = 1 := by
  have hrun : (Run.exec (RoundConsensus.step envA) (init twoServers) (leadTerm1 ++
        [.replicate [({}, { hybridTime := 4096, payload := .splitOp ⟨"t", "t1", "t2"⟩ })] .ok,
          .changeConfig {} {} removeB .ok])).map (fun r =>
          (r.state.core.leaderUuid, r.state.activeConfig.peers, r.state.activeConfig.majority,
            r.queue.activeConfig.map (·.peers), r.queue.majoritySize)) =
      some (some "a", twoServers.peers, 2, some [voterAt "a" "host-a"], 1) := by decide
  obtain ⟨r, hexec, hr⟩ := Option.map_eq_some_iff.1 hrun
  simp only [Prod.mk.injEq] at hr
  exact ⟨r, Run.of_exec hexec, hr.1, hr.2.1, hr.2.2.1, hr.2.2.2.1, hr.2.2.2.2⟩

end Example

end RoundConsensus
