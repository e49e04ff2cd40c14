import ZNbase.Consensus.PeerMessageQueue

/-!
# Raft configs

`RaftConfigPB` and the functions of `consensus/quorum_util.cc`: who is a member of a config, how
many voters it has, and when it is well formed.

- An optional field of a message that is not set is `none`; the accessor of the field then returns
  the default value.
- `DesiredHostPort` of `common/wire_protocol.cc` picks one address of a server, the way a server in
  another place would connect to it.
- The texts of the errors, which print whole configs, are left out.
-/

/-- `HostPortPB`. -/
structure HostPortPB where
  host : String := ""
  port : ℕ := 0
  deriving DecidableEq

/-- `CloudInfoPB`: where a server is. -/
structure CloudInfoPB where
  placementCloud : String := ""
  placementRegion : String := ""
  placementZone : String := ""
  deriving DecidableEq

/-- `RaftPeerPB::MemberType`. -/
inductive MemberType
  | unknownMemberType
  | preVoter
  | voter
  | preObserver
  | observer
  deriving DecidableEq

/-- `RaftPeerPB`: a server of a config. -/
structure RaftPeerPB where
  permanentUuid : Option String := none
  memberType : Option MemberType := none
  lastKnownPrivateAddr : List HostPortPB := []
  lastKnownBroadcastAddr : List HostPortPB := []
  cloudInfo : CloudInfoPB := {}
  deriving DecidableEq

namespace RaftPeerPB

/-- `permanent_uuid()`. -/
def uuid (p : RaftPeerPB) : String := p.permanentUuid.getD ""

/-- `member_type()`. -/
def type (p : RaftPeerPB) : MemberType := p.memberType.getD .unknownMemberType

end RaftPeerPB

/-- `RaftConfigPB`. -/
structure RaftConfigPB where
  peers : List RaftPeerPB := []
  /-- Set on a committed config. -/
  opidIndex : Option ℤ := none
  deriving DecidableEq

/-! ## Addresses -/

/-- `UsePrivateIpMode`, the values of the flag `use_private_ip`. -/
inductive UsePrivateIpMode
  | cloud
  | region
  | zone
  | never
  deriving DecidableEq

/-- `UsePublicIp`. -/
def usePublicIp (mode : UsePrivateIpMode) (connectTo connectFrom : CloudInfoPB) : Bool :=
  if mode = .never then true
  else if connectTo.placementCloud ≠ connectFrom.placementCloud then true
  else if mode = .cloud then false
  else if connectTo.placementRegion ≠ connectFrom.placementRegion then true
  else if mode = .region then false
  else if connectTo.placementZone ≠ connectFrom.placementZone then true
  else mode ≠ .zone

/-- `DesiredHostPort`. -/
def RaftPeerPB.desiredHostPort (p : RaftPeerPB) (mode : UsePrivateIpMode) (src : CloudInfoPB) :
    HostPortPB :=
  match p.lastKnownBroadcastAddr, usePublicIp mode p.cloudInfo src with
  | addr :: _, true => addr
  | _, _ => p.lastKnownPrivateAddr.headD {}

/-! ## Members -/

namespace RaftConfigPB

/-- `IsRaftConfigMember`. -/
def isRaftConfigMember (uuid : String) (config : RaftConfigPB) : Bool :=
  config.peers.any (·.uuid = uuid)

variable (config : RaftConfigPB)

/-- `GetRaftConfigMember`. -/
def getRaftConfigMember (uuid : String) : Option RaftPeerPB :=
  config.peers.find? (·.uuid = uuid)

/-- `IsRaftConfigVoter`. -/
def isRaftConfigVoter (uuid : String) (config : RaftConfigPB) : Bool :=
  (config.getRaftConfigMember uuid).any (·.type = .voter)

/-- `GetHostPortFromConfig`. -/
def getHostPortFromConfig (uuid : String) (mode : UsePrivateIpMode)
    (src : CloudInfoPB) : Option HostPortPB :=
  (config.getRaftConfigMember uuid).map (·.desiredHostPort mode src)

/-- `CountMemberType`. A server with the uuid `ignoreUuid` is not counted. -/
def countMemberType (type : MemberType) (ignoreUuid : String) : ℕ :=
  config.peers.countP fun p => p.type = type ∧ p.uuid ≠ ignoreUuid

/-- `CountVoters`. -/
def countVoters : ℕ := config.countMemberType .voter ""

/-- `MajoritySize` of the voters of the config. -/
def majority : ℕ := majoritySize config.countVoters

/-- `CountServersInTransition`. -/
def countServersInTransition (ignoreUuid : String) : ℕ :=
  config.countMemberType .preVoter ignoreUuid + config.countMemberType .preObserver ignoreUuid

/-- The peers of a config that do not match, if there is one that does. -/
def removeMatching (isMatch : RaftPeerPB → Bool) : Option RaftConfigPB :=
  if config.peers.any isMatch then
    some { config with peers := config.peers.filter fun p => !isMatch p }
  else none

/-- `RemoveFromRaftConfig`. By address, every peer that has the address is removed. -/
def removeFromRaftConfig (server : RaftPeerPB) (useHost : Bool) :
    Option RaftConfigPB :=
  if useHost then
    match server.lastKnownPrivateAddr with
    | [hp] =>
      config.removeMatching fun p =>
        p.lastKnownPrivateAddr.contains hp || p.lastKnownBroadcastAddr.contains hp
    | _ => none
  else config.removeMatching (·.uuid = server.uuid)

/-- `clear_opid_index()`. -/
def clearOpidIndex : RaftConfigPB := { config with opidIndex := none }

end RaftConfigPB

/-! ## Well-formed configs -/

/-- `RaftConfigState`. -/
inductive RaftConfigState
  | uncommittedQuorum
  | committedQuorum
  deriving DecidableEq

/-- Why a config is not well formed. -/
inductive RaftConfigError
  | noPeers
  | opidIndexNotSet
  | opidIndexSet
  | noUuid
  | multiplePeersWithUuid (uuid : String)
  | noAddress (uuid : String)
  | noMemberType (uuid : String)
  deriving DecidableEq

namespace RaftConfigPB

/-- The loop of `VerifyRaftConfig`. -/
def verifyPeers (numPeers : ℕ) : List String → List RaftPeerPB → Except RaftConfigError Unit
  | _, [] => .ok ()
  | uuids, peer :: rest =>
    if peer.permanentUuid = none ∨ peer.uuid = "" then .error .noUuid
    else if peer.uuid ∈ uuids then .error (.multiplePeersWithUuid peer.uuid)
    else if 1 < numPeers ∧ peer.lastKnownPrivateAddr = [] then .error (.noAddress peer.uuid)
    else if peer.memberType = none then .error (.noMemberType peer.uuid)
    else verifyPeers numPeers (peer.uuid :: uuids) rest

/-- `VerifyRaftConfig`. -/
def verifyRaftConfig (config : RaftConfigPB) (state : RaftConfigState) :
    Except RaftConfigError Unit :=
  if config.peers = [] then .error .noPeers
  else if state = .committedQuorum ∧ config.opidIndex = none then .error .opidIndexNotSet
  else if state = .uncommittedQuorum ∧ config.opidIndex ≠ none then .error .opidIndexSet
  else verifyPeers config.peers.length [] config.peers

/-! ## What the checks say -/

variable {config : RaftConfigPB}

/-- Peers that pass the check have distinct uuids, which are not empty. -/
lemma verifyPeers_spec {numPeers : ℕ} {uuids : List String} {peers : List RaftPeerPB}
    (h : verifyPeers numPeers uuids peers = .ok ()) :
    (peers.map (·.uuid)).Nodup ∧ ∀ p ∈ peers, p.uuid ≠ "" ∧ p.uuid ∉ uuids := by
  induction peers generalizing uuids with
  | nil => simp
  | cons peer rest ih =>
    simp only [verifyPeers] at h
    split_ifs at h with huuid hmem
    obtain ⟨hndp, hrest⟩ := ih h
    rw [List.map_cons, List.nodup_cons]
    refine ⟨⟨?_, hndp⟩, List.forall_mem_cons.2 ⟨⟨fun he => huuid (.inr he), hmem⟩, ?_⟩⟩
    · intro hpeer
      obtain ⟨p, hp, heq⟩ := List.mem_map.1 hpeer
      exact (hrest p hp).2 (by rw [heq]; exact List.mem_cons_self)
    · intro p hp
      exact ⟨(hrest p hp).1, fun hu => (hrest p hp).2 (List.mem_cons_of_mem _ hu)⟩

lemma verifyRaftConfig_spec {state : RaftConfigState} (h : config.verifyRaftConfig state = .ok ()) :
    (config.peers.map (·.uuid)).Nodup ∧ ∀ p ∈ config.peers, p.uuid ≠ "" := by
  rw [verifyRaftConfig] at h
  split_ifs at h
  obtain ⟨hndp, hpeers⟩ := verifyPeers_spec h
  exact ⟨hndp, fun p hp => (hpeers p hp).1⟩

end RaftConfigPB
