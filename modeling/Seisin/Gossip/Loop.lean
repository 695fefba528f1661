import Seisin.Gossip.Membership
import Seisin.Lib.Transition

/-!
# The gossip loop

A compute node runs the probing loop beside its gossip server; a storage node only answers.  A tick
of the loop refutes a suspicion against the node itself, pings one member, waits for the ack or
misses it, and then acts on the timers that have run out.  Pings and acks carry the sender's table
and the mutations it has recorded last, and may be lost or arrive in any order.
-/

namespace Seisin

/-- The members of a deployment and its configured waiting times. -/
structure GossipConfig where
  compute : List NodeId
  storage : List NodeId
  timeouts : Timeouts

/-- Where the loop of a node stands. -/
inductive LoopStage where
  | sleeping
  | pinging (target : NodeId)
  | checking
  deriving DecidableEq

/-- A node that takes part in gossip.  `recorded` keeps every mutation it has ever recorded. -/
structure Peer where
  memberTable : MemberTable
  mutationLog : MutationLog
  recentMutations : List (ℕ × RingMutation)
  rings : Rings
  applied : List RingMutation
  detector : FailureDetector
  roundRobinIndex : ℕ
  outstandingProbe : Option NodeId
  stage : LoopStage
  recorded : List (ℕ × RingMutation)

namespace Peer

/-- The part of a peer that applies mutations. -/
def gossipNode (peer : Peer) : GossipNode where
  gossip :=
    ⟨fun nodeId => (peer.memberTable.lookup nodeId).map MemberRecord.update, peer.mutationLog,
      peer.recentMutations⟩
  rings := peer.rings
  applied := peer.applied

def withGossipNode (peer : Peer) (node : GossipNode) : Peer :=
  { peer with
    mutationLog := node.gossip.mutationLog
    recentMutations := node.gossip.recentMutations
    rings := node.rings
    applied := node.applied }

def recordMutation (peer : Peer) (epoch : ℕ) (mutation : RingMutation) : Peer :=
  let gossip := peer.gossipNode.gossip.recordMutation epoch mutation
  { peer.withGossipNode { peer.gossipNode with gossip := gossip } with
    recorded := peer.recorded ++ [(epoch, mutation)] }

def piggyback (peer : Peer) : List (NodeId × MemberRecord) × List (ℕ × RingMutation) :=
  (peer.memberTable.all, peer.recentMutations)

def mergeIncoming (peer : Peer) (updates : List (NodeId × MemberRecord))
    (mutations : List (ℕ × RingMutation)) : Peer :=
  mutations.foldl (fun peer entry => peer.recordMutation entry.1 entry.2)
    { peer with memberTable := peer.memberTable.mergeAll updates }

/-- Taking in a message touches the member table and the mutation log only. -/
theorem mergeIncoming_eq (peer : Peer) (updates : List (NodeId × MemberRecord))
    (mutations : List (ℕ × RingMutation)) :
    ∃ log recent, peer.mergeIncoming updates mutations =
      { peer with
        memberTable := peer.memberTable.mergeAll updates
        mutationLog := log
        recentMutations := recent
        recorded := peer.recorded ++ mutations } := by
  have folded : ∀ start : Peer, ∃ log recent,
      mutations.foldl (fun peer entry => peer.recordMutation entry.1 entry.2) start =
        { start with
          mutationLog := log
          recentMutations := recent
          recorded := start.recorded ++ mutations } := by
    induction mutations with
    | nil => exact fun start => ⟨start.mutationLog, start.recentMutations, by simp⟩
    | cons entry mutations ih =>
        intro start
        rcases ih (start.recordMutation entry.1 entry.2) with ⟨log, recent, later⟩
        refine ⟨log, recent, ?_⟩
        rw [List.foldl_cons, later]
        simp [recordMutation, withGossipNode, gossipNode]
  exact folded _

def applyReadyMutations (peer : Peer) : Peer :=
  peer.withGossipNode peer.gossipNode.applyReadyMutations

def selfRefuteIfFalselySuspected (selfId : NodeId) (peer : Peer) : Peer :=
  if peer.memberTable.statusOf selfId = some .suspect then
    { peer with memberTable := peer.memberTable.confirmAliveSelf selfId }
  else peer

def highestSeenEpoch (peer : Peer) : ℕ := ((peer.piggyback.2.map Prod.fst).max?).getD 0

/-- Numbers the departure of a dead member, if this node holds itself for the sequencer; the
mutation minted is the second component. -/
def mintLeaveIfSequencer (selfId deadNode : NodeId) (peer : Peer) :
    Peer × List (ℕ × RingMutation) :=
  if isSequencer selfId peer.memberTable.aliveMembers then
    let nextEpoch := peer.highestSeenEpoch + 1
    (peer.recordMutation nextEpoch (.leave deadNode), [(nextEpoch, .leave deadNode)])
  else (peer, [])

/-- What the loop does about a timer that ran out. -/
def act (selfId : NodeId) (peer : Peer) : TimeoutAction → Peer × List (ℕ × RingMutation)
  | .escalateToIndirect _ => (peer, [])
  | .markSuspect target =>
      ({ peer with memberTable := peer.memberTable.markSuspect target }, [])
  | .markDead target =>
      let marked := { peer with memberTable := peer.memberTable.markDead target }
      let (informed, minted) := marked.mintLeaveIfSequencer selfId target
      (if informed.outstandingProbe = some target then { informed with outstandingProbe := none }
        else informed, minted)

def actAll (selfId : NodeId) : Peer → List TimeoutAction → Peer × List (ℕ × RingMutation)
  | peer, [] => (peer, [])
  | peer, action :: actions =>
      let (acted, minted) := peer.act selfId action
      let (last, more) := actAll selfId acted actions
      (last, minted ++ more)

/-- The members a probe can go to. -/
def candidates (selfId : NodeId) (peer : Peer) : List NodeId :=
  peer.memberTable.aliveMembers.filter fun nodeId => nodeId ≠ selfId

/-- Picks the next member to probe, unless a probe is outstanding. -/
def pickTarget (selfId : NodeId) (now : ℕ) (peer : Peer) : Peer :=
  if peer.outstandingProbe.isNone then
    match (peer.candidates selfId)[peer.roundRobinIndex % (peer.candidates selfId).length]? with
    | none => peer
    | some target =>
        { peer with
          roundRobinIndex := (peer.roundRobinIndex + 1) % 2 ^ 64
          detector := peer.detector.beginDirectProbe target now
          outstandingProbe := some target }
  else peer

/-- The first half of a tick; with a target, the loop pings it and waits. -/
def beginTick (selfId : NodeId) (now : ℕ) (peer : Peer) : Peer :=
  let picked := (peer.selfRefuteIfFalselySuspected selfId).pickTarget selfId now
  { picked with
    stage := match picked.outstandingProbe with
      | none => .checking
      | some target => .pinging target }

/-- The ack of the pinged member. -/
def onAck (target : NodeId) (updates : List (NodeId × MemberRecord))
    (mutations : List (ℕ × RingMutation)) (peer : Peer) : Peer :=
  let merged := peer.mergeIncoming updates mutations
  { merged with
    detector := merged.detector.onAck target
    outstandingProbe := none
    stage := .checking }

/-- The second half of a tick. -/
def finishTick (timeouts : Timeouts) (selfId : NodeId) (now : ℕ) (peer : Peer) :
    Peer × List (ℕ × RingMutation) :=
  let (detector, actions) := peer.detector.checkTimeouts timeouts now
  let (acted, minted) := actAll selfId { peer with detector := detector } actions
  ({ acted.applyReadyMutations with stage := .sleeping }, minted)

/-- A gossip server takes a ping in and acks it; only compute nodes have rings to change. -/
def serve (config : GossipConfig) (node : NodeId) (updates : List (NodeId × MemberRecord))
    (mutations : List (ℕ × RingMutation)) (peer : Peer) : Peer :=
  let merged := peer.mergeIncoming updates mutations
  if node ∈ config.compute then merged.applyReadyMutations else merged

end Peer

/-- What can happen to a node: another's ping or the steps of its own loop. -/
inductive PeerStep where
  | receive (updates : List (NodeId × MemberRecord)) (mutations : List (ℕ × RingMutation))
  | beginTick (now : ℕ)
  | ack (target : NodeId) (updates : List (NodeId × MemberRecord))
      (mutations : List (ℕ × RingMutation))
  | miss
  | finishTick (now : ℕ)

namespace PeerStep

/-- What the step takes in. -/
def updates : PeerStep → List (NodeId × MemberRecord)
  | .receive updates _ => updates
  | .ack _ updates _ => updates
  | _ => []

def mutations : PeerStep → List (ℕ × RingMutation)
  | .receive _ mutations => mutations
  | .ack _ _ mutations => mutations
  | _ => []

end PeerStep

namespace Peer

def step (config : GossipConfig) (selfId : NodeId) (peer : Peer) : PeerStep → Option Peer
  | .receive updates mutations => some (peer.serve config selfId updates mutations)
  | .beginTick now =>
      if selfId ∈ config.compute ∧ peer.stage = .sleeping then some (peer.beginTick selfId now)
      else none
  | .ack target updates mutations =>
      if peer.stage = .pinging target then some (peer.onAck target updates mutations) else none
  | .miss =>
      match peer.stage with
      | .pinging _ => some { peer with stage := .checking }
      | _ => none
  | .finishTick now =>
      if selfId ∈ config.compute ∧ peer.stage = .checking then
        some (peer.finishTick config.timeouts selfId now).1
      else none

/-- A node starts with its configured members alive, itself among them, and nothing recorded. -/
structure Starts (config : GossipConfig) (selfId : NodeId) (peer : Peer) : Prop where
  seeded : ∀ member record, peer.memberTable.lookup member = some record →
    member ∈ config.compute ++ config.storage ∧ record.incarnation = 0 ∧ record.status = .alive
  registered : selfId ∈ config.compute ++ config.storage → selfId ∈ peer.memberTable
  log : peer.mutationLog = ⟨0, ∅⟩
  recent : peer.recentMutations = []
  applied : peer.applied = []
  detector : peer.detector = .new
  outstanding : peer.outstandingProbe = none
  stage : peer.stage = .sleeping
  recorded : peer.recorded = []

/-- The configured members, all alive, with the log ids the node has of them. -/
def seedMemberTable (config : GossipConfig) (logIdOf : NodeId → DatumId) : MemberTable :=
  MemberTable.mergeAll ∅
    (config.compute.map (fun member => (member, ⟨0, .alive, ⟨.compute, "", logIdOf member⟩⟩)) ++
      config.storage.map fun member => (member, ⟨0, .alive, ⟨.storage, "", logIdOf member⟩⟩))

/-- A node as it starts; it has no log id of any member. -/
def booted (config : GossipConfig) (rings : Rings) : Peer where
  memberTable := seedMemberTable config fun _ => 0
  mutationLog := ⟨0, ∅⟩
  recentMutations := []
  rings := rings
  applied := []
  detector := .new
  roundRobinIndex := 0
  outstandingProbe := none
  stage := .sleeping
  recorded := []

/-- What a step of the node mints. -/
def mints (config : GossipConfig) (selfId : NodeId) (peer : Peer) :
    PeerStep → List (ℕ × RingMutation)
  | .finishTick now => (peer.finishTick config.timeouts selfId now).2
  | _ => []

/-- One node, whatever the others send it. -/
def system (config : GossipConfig) (selfId : NodeId) : Transition.System Peer PeerStep where
  init := Starts config selfId
  step := step config selfId

theorem mem_seedMemberTable {config : GossipConfig} {logIdOf : NodeId → DatumId}
    {member : NodeId} (isMember : member ∈ config.compute ++ config.storage) :
    member ∈ seedMemberTable config logIdOf := by
  apply MemberTable.mem_mergeAll
  right
  rcases List.mem_append.mp isMember with inCompute | inStorage
  · exact ⟨_, List.mem_append_left _ (List.mem_map_of_mem inCompute)⟩
  · exact ⟨_, List.mem_append_right _ (List.mem_map_of_mem inStorage)⟩

theorem lookup_seedMemberTable {config : GossipConfig} {logIdOf : NodeId → DatumId}
    {member : NodeId} {record : MemberRecord}
    (found : (seedMemberTable config logIdOf).lookup member = some record) :
    ∃ role, record = ⟨0, .alive, ⟨role, "", logIdOf member⟩⟩ ∧
      ((role = .compute ∧ member ∈ config.compute) ∨
        (role = .storage ∧ member ∈ config.storage)) := by
  rcases MemberTable.lookup_mergeAll found with nothing | told
  · cases nothing
  · rcases List.mem_append.mp told with isCompute | isStorage
    · rcases List.mem_map.mp isCompute with ⟨other, inCompute, same⟩
      cases same
      exact ⟨.compute, rfl, Or.inl ⟨rfl, inCompute⟩⟩
    · rcases List.mem_map.mp isStorage with ⟨other, inStorage, same⟩
      cases same
      exact ⟨.storage, rfl, Or.inr ⟨rfl, inStorage⟩⟩

/-- A node may start with any log ids. -/
theorem starts_of_memberTable (config : GossipConfig) (selfId : NodeId) (rings : Rings)
    (logIdOf : NodeId → DatumId) :
    Starts config selfId
      { booted config rings with memberTable := seedMemberTable config logIdOf } where
  seeded := by
    intro member record found
    rcases lookup_seedMemberTable found with ⟨role, rfl, ⟨_, isMember⟩ | ⟨_, isMember⟩⟩
    · exact ⟨List.mem_append_left _ isMember, rfl, rfl⟩
    · exact ⟨List.mem_append_right _ isMember, rfl, rfl⟩
  registered := mem_seedMemberTable
  log := rfl
  recent := rfl
  applied := rfl
  detector := rfl
  outstanding := rfl
  stage := rfl
  recorded := rfl

theorem booted_starts (config : GossipConfig) (selfId : NodeId) (rings : Rings) :
    (booted config rings).Starts config selfId :=
  starts_of_memberTable config selfId rings fun _ => 0

end Peer

/-! ## The cluster -/

inductive GossipPacket where
  | ping (sender receiver : NodeId) (updates : List (NodeId × MemberRecord))
      (mutations : List (ℕ × RingMutation))
  | ack (sender receiver : NodeId) (updates : List (NodeId × MemberRecord))
      (mutations : List (ℕ × RingMutation))

namespace GossipPacket

def updates : GossipPacket → List (NodeId × MemberRecord)
  | .ping _ _ updates _ => updates
  | .ack _ _ updates _ => updates

def mutations : GossipPacket → List (ℕ × RingMutation)
  | .ping _ _ _ mutations => mutations
  | .ack _ _ _ mutations => mutations

end GossipPacket

/-- All nodes, the packets on their way, and every mutation a node has minted so far. -/
structure GossipCluster where
  peers : NodeId → Peer
  inFlight : List GossipPacket
  minted : List (ℕ × RingMutation)

inductive GossipLabel where
  | beginTick (node : NodeId) (now : ℕ)
  | deliver (index : ℕ)
  | ack (index : ℕ)
  | lose (index : ℕ)
  | miss (node : NodeId)
  | finishTick (node : NodeId) (now : ℕ)
  deriving DecidableEq

namespace GossipCluster

def setPeer (cluster : GossipCluster) (node : NodeId) (peer : Peer) : GossipCluster :=
  { cluster with peers := Function.update cluster.peers node peer }

/-- A ping of the target the loop waits for. -/
def pings (node : NodeId) (peer : Peer) : List GossipPacket :=
  match peer.stage with
  | .pinging target => [.ping node target peer.piggyback.1 peer.piggyback.2]
  | _ => []

def step (config : GossipConfig) (cluster : GossipCluster) :
    GossipLabel → Option GossipCluster
  | .beginTick node now =>
      ((cluster.peers node).step config node (.beginTick now)).map fun begun =>
        { cluster.setPeer node begun with inFlight := cluster.inFlight ++ pings node begun }
  | .deliver index =>
      match cluster.inFlight[index]? with
      | some (.ping sender receiver updates mutations) =>
          if receiver ∈ config.compute ++ config.storage then
            ((cluster.peers receiver).step config receiver (.receive updates mutations)).map
              fun served =>
                { cluster.setPeer receiver served with
                  inFlight := cluster.inFlight.eraseIdx index ++
                    [.ack receiver sender served.piggyback.1 served.piggyback.2] }
          else none
      | _ => none
  | .ack index =>
      match cluster.inFlight[index]? with
      | some (.ack sender receiver updates mutations) =>
          ((cluster.peers receiver).step config receiver (.ack sender updates mutations)).map
            fun acked =>
              { cluster.setPeer receiver acked with inFlight := cluster.inFlight.eraseIdx index }
      | _ => none
  | .lose index =>
      if index < cluster.inFlight.length then
        some { cluster with inFlight := cluster.inFlight.eraseIdx index }
      else none
  | .miss node =>
      ((cluster.peers node).step config node .miss).map fun missed => cluster.setPeer node missed
  | .finishTick node now =>
      ((cluster.peers node).step config node (.finishTick now)).map fun finished =>
        { cluster.setPeer node finished with
          minted := cluster.minted ++
            ((cluster.peers node).finishTick config.timeouts node now).2 }

structure Starts (config : GossipConfig) (cluster : GossipCluster) : Prop where
  disjoint : ∀ node ∈ config.compute, node ∉ config.storage
  peers : ∀ node, (cluster.peers node).Starts config node
  inFlight : cluster.inFlight = []
  minted : cluster.minted = []

def system (config : GossipConfig) : Transition.System GossipCluster GossipLabel where
  init := Starts config
  step := step config

/-- The cluster as its nodes start. -/
def booted (config : GossipConfig) (rings : Rings) : GossipCluster where
  peers := fun _ => Peer.booted config rings
  inFlight := []
  minted := []

theorem booted_starts {config : GossipConfig}
    (disjoint : ∀ node ∈ config.compute, node ∉ config.storage) (rings : Rings) :
    (booted config rings).Starts config :=
  ⟨disjoint, fun node => Peer.booted_starts config node rings, rfl, rfl⟩

/-! ## What a step does -/

/-- One peer takes a step on what some packet carries, and tells of its new state; or a packet is
lost. -/
inductive Moved (config : GossipConfig) (cluster : GossipCluster) (label : GossipLabel)
    (next : GossipCluster) : Prop where
  | peer (node : NodeId) (peerStep : PeerStep) (peer : Peer)
      (stepped : (cluster.peers node).step config node peerStep = some peer)
      (peers : next.peers = Function.update cluster.peers node peer)
      (updates : ∀ update ∈ peerStep.updates, ∃ packet ∈ cluster.inFlight,
        update ∈ packet.updates)
      (mutations : ∀ entry ∈ peerStep.mutations, ∃ packet ∈ cluster.inFlight,
        entry ∈ packet.mutations)
      (sent : ∀ packet ∈ next.inFlight, packet ∈ cluster.inFlight ∨
        (packet.updates = peer.memberTable.all ∧ packet.mutations = peer.recentMutations))
      (minted : next.minted = cluster.minted ++ (cluster.peers node).mints config node peerStep)
      (finishes : ∀ now, peerStep = .finishTick now → label = .finishTick node now)
      (acks : ∀ target updates mutations, peerStep = .ack target updates mutations →
        ∃ index, label = .ack index ∧
          cluster.inFlight[index]? = some (.ack target node updates mutations))
  | lost (peers : next.peers = cluster.peers) (kept : next.inFlight ⊆ cluster.inFlight)
      (minted : next.minted = cluster.minted)

theorem moved_of_step {config : GossipConfig} {cluster next : GossipCluster} {label : GossipLabel}
    (stepped : cluster.step config label = some next) : Moved config cluster label next := by
  cases label with
  | beginTick node now =>
      rcases Option.map_eq_some_iff.mp stepped with ⟨begun, moved, rfl⟩
      refine .peer node _ begun moved rfl (by simp [PeerStep.updates])
        (by simp [PeerStep.mutations]) ?_ (List.append_nil _).symm (by simp) (by simp)
      intro packet packetMem
      rcases List.mem_append.mp packetMem with old | new
      · exact Or.inl old
      · right
        unfold pings at new
        split at new
        · rw [List.mem_singleton.mp new]
          exact ⟨rfl, rfl⟩
        · cases new
  | deliver index =>
      simp only [step] at stepped
      split at stepped
      · rename_i sender receiver updates mutations found
        split at stepped
        · rcases Option.map_eq_some_iff.mp stepped with ⟨served, moved, rfl⟩
          have inside := List.mem_of_getElem? found
          refine .peer receiver _ served moved rfl
            (fun update updateMem => ⟨_, inside, updateMem⟩)
            (fun entry entryMem => ⟨_, inside, entryMem⟩) ?_ (List.append_nil _).symm (by simp)
            (by simp)
          intro packet packetMem
          rcases List.mem_append.mp packetMem with old | new
          · exact Or.inl (List.mem_of_mem_eraseIdx old)
          · rw [List.mem_singleton.mp new]
            exact Or.inr ⟨rfl, rfl⟩
        · cases stepped
      · cases stepped
  | ack index =>
      simp only [step] at stepped
      split at stepped
      · rename_i sender receiver updates mutations found
        rcases Option.map_eq_some_iff.mp stepped with ⟨acked, moved, rfl⟩
        have inside := List.mem_of_getElem? found
        refine .peer receiver _ acked moved rfl
          (fun update updateMem => ⟨_, inside, updateMem⟩)
          (fun entry entryMem => ⟨_, inside, entryMem⟩)
          (fun packet packetMem => Or.inl (List.mem_of_mem_eraseIdx packetMem))
          (List.append_nil _).symm (by simp) ?_
        intro target otherUpdates otherMutations same
        cases same
        exact ⟨index, rfl, found⟩
      · cases stepped
  | lose index =>
      simp only [step] at stepped
      split at stepped
      · cases stepped
        exact .lost rfl (fun _ packetMem => List.mem_of_mem_eraseIdx packetMem) rfl
      · cases stepped
  | miss node =>
      rcases Option.map_eq_some_iff.mp stepped with ⟨missed, moved, rfl⟩
      exact .peer node _ missed moved rfl (by simp [PeerStep.updates])
        (by simp [PeerStep.mutations]) (fun _ packetMem => Or.inl packetMem)
        (List.append_nil _).symm (by simp) (by simp)
  | finishTick node now =>
      rcases Option.map_eq_some_iff.mp stepped with ⟨finished, moved, rfl⟩
      refine .peer node _ finished moved rfl (by simp [PeerStep.updates])
        (by simp [PeerStep.mutations]) (fun _ packetMem => Or.inl packetMem) rfl ?_ (by simp)
      intro other same
      cases same
      rfl

end GossipCluster

end Seisin
