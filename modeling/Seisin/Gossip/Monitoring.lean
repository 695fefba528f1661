import Seisin.Gossip.Departures

/-!
# Who is being watched

A compute node that hears of a suspicion against itself refutes it at the next incarnation, and is
probed again.  A storage node never does: once suspected it stays so until the suspicion runs out,
and an ack that ends the last suspicion timer leaves it suspected with nobody watching.
-/

namespace Seisin

namespace MemberTable

variable {table : MemberTable}

theorem mem_of_lookup {member : NodeId} {record : MemberRecord}
    (found : table.lookup member = some record) : member ∈ table :=
  AList.lookup_isSome.mp (by rw [found]; rfl)

/-- A member that is dead at the only incarnation stays dead whatever is told. -/
theorem dead_mergeAll {updates : List (NodeId × MemberRecord)} {member : NodeId}
    {record : MemberRecord} (found : table.lookup member = some record)
    (dead : record.status = .dead)
    (older : ∀ update ∈ updates, update.1 = member → update.2.incarnation ≤ record.incarnation) :
    (table.mergeAll updates).lookup member = some record := by
  induction updates generalizing table with
  | nil => exact found
  | cons update updates ih =>
      apply ih
      · rw [lookup_mergeUpdate]
        split
        · rename_i taken
          rcases taken with ⟨rfl, accepted⟩
          rw [found, Option.all_some] at accepted
          have notNewer := older update List.mem_cons_self rfl
          have severity : update.2.status.severity ≤ 2 := by
            cases update.2.status <;> decide
          have most : record.status.severity = 2 := by
            rw [dead]
            rfl
          simp only [accepts, Bool.or_eq_true, decide_eq_true_eq, Bool.and_eq_true] at accepted
          omega
        · exact found
      · exact fun other otherMem => older other (List.mem_cons_of_mem _ otherMem)

theorem mem_afterActions (actions : List TimeoutAction) {member : NodeId} :
    member ∈ actions.foldl afterAction table ↔ member ∈ table := by
  induction actions generalizing table with
  | nil => rfl
  | cons action actions ih =>
      rw [List.foldl_cons, ih]
      cases action with
      | escalateToIndirect target => rfl
      | markSuspect target =>
          simp only [afterAction, markSuspect]
          cases found : table.lookup target with
          | none => rfl
          | some current =>
              have known := mem_of_lookup found
              simp only
              split
              · rw [AList.mem_insert]
                constructor
                · rintro (rfl | inside)
                  · exact known
                  · exact inside
                · exact Or.inr
              · rfl
      | markDead target =>
          simp only [afterAction, markDead]
          cases found : table.lookup target with
          | none => rfl
          | some current =>
              have known := mem_of_lookup found
              rw [AList.mem_insert]
              constructor
              · rintro (rfl | inside)
                · exact known
                · exact inside
              · exact Or.inr

/-- A member declared dead by the actions is dead after them, and so is one that was dead. -/
theorem dead_afterActions {actions : List TimeoutAction} {member : NodeId}
    (dead : table.statusOf member = some .dead ∨
      (.markDead member ∈ actions ∧ member ∈ table)) :
    (actions.foldl afterAction table).statusOf member = some .dead := by
  induction actions generalizing table with
  | nil =>
      rcases dead with already | ⟨inside, _⟩
      · exact already
      · cases inside
  | cons action actions ih =>
      apply ih
      rcases dead with already | ⟨inside, known⟩
      · left
        cases action with
        | escalateToIndirect target => exact already
        | markSuspect target =>
            rw [afterAction, statusOf_markSuspect, if_neg]
            · exact already
            · rintro ⟨rfl, alive⟩
              rw [already] at alive
              cases alive
        | markDead target =>
            rw [afterAction, statusOf_markDead]
            split
            · rfl
            · exact already
      · rcases List.mem_cons.mp inside with rfl | later
        · left
          rw [afterAction, statusOf_markDead, if_pos ⟨rfl, known⟩]
        · right
          exact ⟨later, (mem_afterActions [action]).mpr known⟩

/-- Acting on timers changes nothing but statuses. -/
theorem lookup_afterActions {actions : List TimeoutAction} {member : NodeId}
    {record : MemberRecord}
    (found : (actions.foldl afterAction table).lookup member = some record) :
    ∃ earlier, table.lookup member = some earlier ∧ earlier.incarnation = record.incarnation ∧
      earlier.update = record.update := by
  induction actions generalizing table with
  | nil => exact ⟨record, found, rfl, rfl⟩
  | cons action actions ih =>
      rcases ih found with ⟨middle, isMiddle, same⟩
      cases action with
      | escalateToIndirect target => exact ⟨middle, isMiddle, same⟩
      | markSuspect target =>
          simp only [afterAction, markSuspect] at isMiddle
          cases was : table.lookup target with
          | none =>
              rw [was] at isMiddle
              exact ⟨middle, isMiddle, same⟩
          | some current =>
              simp only [was] at isMiddle
              split at isMiddle
              · rcases eq_or_ne member target with rfl | differ
                · rw [AList.lookup_insert] at isMiddle
                  cases isMiddle
                  exact ⟨current, was, same⟩
                · rw [AList.lookup_insert_ne differ] at isMiddle
                  exact ⟨middle, isMiddle, same⟩
              · exact ⟨middle, isMiddle, same⟩
      | markDead target =>
          simp only [afterAction, markDead] at isMiddle
          cases was : table.lookup target with
          | none =>
              rw [was] at isMiddle
              exact ⟨middle, isMiddle, same⟩
          | some current =>
              simp only [was] at isMiddle
              rcases eq_or_ne member target with rfl | differ
              · rw [AList.lookup_insert] at isMiddle
                cases isMiddle
                exact ⟨current, was, same⟩
              · rw [AList.lookup_insert_ne differ] at isMiddle
                exact ⟨middle, isMiddle, same⟩

end MemberTable

namespace Peer

variable {config : GossipConfig} {selfId : NodeId} {peer next : Peer}

/-- Where a step's table comes from. -/
theorem memberTable_step {peerStep : PeerStep}
    (stepped : peer.step config selfId peerStep = some next) :
    match peerStep with
    | .receive updates _ | .ack _ updates _ =>
        next.memberTable = peer.memberTable.mergeAll updates
    | .beginTick _ => selfId ∈ config.compute ∧
        next.memberTable = (peer.selfRefuteIfFalselySuspected selfId).memberTable
    | .miss => next.memberTable = peer.memberTable
    | .finishTick now => selfId ∈ config.compute ∧
        next.memberTable = (peer.detector.checkTimeouts config.timeouts now).2.foldl
          MemberTable.afterAction peer.memberTable := by
  cases peerStep with
  | receive updates mutations =>
      simp only [step, serve, Option.some.injEq] at stepped ⊢
      rw [← stepped, ← (mergeIncoming_spec peer updates mutations).1]
      split <;> rfl
  | beginTick now =>
      simp only [step, Option.ite_none_right_eq_some, Option.some.injEq] at stepped
      rcases stepped with ⟨⟨isCompute, _⟩, rfl⟩
      exact ⟨isCompute,
        (pickTarget_spec selfId now (peer.selfRefuteIfFalselySuspected selfId)).1⟩
  | ack target updates mutations =>
      simp only [step, Option.ite_none_right_eq_some, Option.some.injEq] at stepped
      rcases stepped with ⟨_, rfl⟩
      exact (mergeIncoming_spec peer updates mutations).1
  | miss =>
      simp only [step] at stepped
      split at stepped
      · cases stepped
        rfl
      · cases stepped
  | finishTick now =>
      simp only [step, Option.ite_none_right_eq_some, Option.some.injEq] at stepped
      rcases stepped with ⟨⟨isCompute, _⟩, rfl⟩
      exact ⟨isCompute, (actAll_spec selfId
        { peer with detector := (peer.detector.checkTimeouts config.timeouts now).1 }
        (peer.detector.checkTimeouts config.timeouts now).2).1⟩

theorem mem_memberTable_step {peerStep : PeerStep} {member : NodeId}
    (stepped : peer.step config selfId peerStep = some next) (known : member ∈ peer.memberTable) :
    member ∈ next.memberTable := by
  have table := memberTable_step stepped
  cases peerStep with
  | receive updates mutations =>
      rw [table]
      exact MemberTable.mem_mergeAll (Or.inl known)
  | ack target updates mutations =>
      rw [table]
      exact MemberTable.mem_mergeAll (Or.inl known)
  | beginTick now =>
      rw [table.2]
      exact (mem_memberTable_refute selfId member peer).mpr known
  | miss =>
      rw [table]
      exact known
  | finishTick now =>
      rw [table.2]
      exact (MemberTable.mem_afterActions _).mpr known

/-- Only a compute node's refutation raises an incarnation, and only its own. -/
theorem incarnation_step {peerStep : PeerStep} {member : NodeId} {record : MemberRecord}
    (stepped : peer.step config selfId peerStep = some next)
    (other : selfId ∈ config.compute → member ≠ selfId)
    (found : next.memberTable.lookup member = some record) :
    ∃ earlier, earlier.incarnation = record.incarnation ∧
      (peer.memberTable.lookup member = some earlier ∨ (member, earlier) ∈ peerStep.updates) := by
  have table := memberTable_step stepped
  cases peerStep with
  | receive updates mutations =>
      rw [table] at found
      exact ⟨record, rfl, MemberTable.lookup_mergeAll found⟩
  | ack target updates mutations =>
      rw [table] at found
      exact ⟨record, rfl, MemberTable.lookup_mergeAll found⟩
  | beginTick now =>
      rw [table.2] at found
      refine ⟨record, rfl, Or.inl ?_⟩
      rcases (selfRefute_spec selfId peer).2.2 with same | refuted
      · rwa [same] at found
      · rw [refuted] at found
        unfold MemberTable.confirmAliveSelf at found
        split at found
        · exact found
        · rwa [AList.lookup_insert_ne (other table.1)] at found
  | miss =>
      rw [table] at found
      exact ⟨record, rfl, Or.inl found⟩
  | finishTick now =>
      rw [table.2] at found
      rcases MemberTable.lookup_afterActions found with ⟨earlier, isEarlier, same, _⟩
      exact ⟨earlier, same, Or.inl isEarlier⟩

/-- A dead member stays dead unless it is told of at a higher incarnation. -/
theorem dead_step {peerStep : PeerStep} {member : NodeId} {record : MemberRecord}
    (stepped : peer.step config selfId peerStep = some next)
    (found : peer.memberTable.lookup member = some record) (dead : record.status = .dead)
    (older : ∀ update ∈ peerStep.updates, update.1 = member →
      update.2.incarnation ≤ record.incarnation) :
    next.memberTable.statusOf member = some .dead := by
  have table := memberTable_step stepped
  have status : peer.memberTable.statusOf member = some .dead := by
    rw [MemberTable.statusOf, found, Option.map_some, dead]
  cases peerStep with
  | receive updates mutations =>
      have kept : (peer.memberTable.mergeAll updates).lookup member = some record :=
        MemberTable.dead_mergeAll found dead older
      rw [table, MemberTable.statusOf, kept, Option.map_some, dead]
  | ack target updates mutations =>
      have kept : (peer.memberTable.mergeAll updates).lookup member = some record :=
        MemberTable.dead_mergeAll found dead older
      rw [table, MemberTable.statusOf, kept, Option.map_some, dead]
  | beginTick now =>
      rw [table.2]
      unfold selfRefuteIfFalselySuspected
      split
      · rename_i suspected
        rw [MemberTable.statusOf_confirmAliveSelf, if_neg]
        · exact status
        · rintro ⟨rfl, _⟩
          rw [status] at suspected
          cases suspected
      · exact status
  | miss =>
      rw [table]
      exact status
  | finishTick now =>
      rw [table.2]
      exact MemberTable.dead_afterActions (Or.inl status)

end Peer

namespace GossipCluster

variable {config : GossipConfig} {cluster next : GossipCluster}

/-- An ack of a storage member does not end the only suspicion timer that runs for it. -/
def AcksKeepSuspicion (config : GossipConfig) (cluster : GossipCluster) : GossipLabel → Prop
  | .ack index => ∀ sender receiver updates mutations,
      cluster.inFlight[index]? = some (.ack sender receiver updates mutations) →
      sender ∈ config.storage → sender ∈ (cluster.peers receiver).detector.suspectedSince →
        ∃ other ∈ config.compute, other ≠ receiver ∧
          sender ∈ (cluster.peers other).detector.suspectedSince
  | _ => True

/-- A suspicion timer runs for the member, or some node has it dead. -/
def Pursued (config : GossipConfig) (cluster : GossipCluster) (member : NodeId) : Prop :=
  (∃ node ∈ config.compute, member ∈ (cluster.peers node).detector.suspectedSince) ∨
    ∃ node ∈ config.compute ++ config.storage,
      (cluster.peers node).memberTable.statusOf member = some .dead

/-- What is recorded and told of storage members: their only incarnation, and no suspicion that is
not pursued.  Timers run on compute nodes, for members they know. -/
structure Monitored (config : GossipConfig) (cluster : GossipCluster) : Prop where
  disjoint : ∀ node ∈ config.compute, node ∉ config.storage
  registered : ∀ node ∈ config.compute ++ config.storage,
    node ∈ (cluster.peers node).memberTable
  watchers : ∀ node target, (cluster.peers node).detector.Watches target →
    node ∈ config.compute ∧ target ∈ (cluster.peers node).memberTable
  recorded : ∀ member ∈ config.storage, ∀ node record,
    (cluster.peers node).memberTable.lookup member = some record →
      record.incarnation = 0 ∧ (record.status = .suspect → cluster.Pursued config member)
  told : ∀ member ∈ config.storage, ∀ packet ∈ cluster.inFlight, ∀ record,
    (member, record) ∈ packet.updates →
      record.incarnation = 0 ∧ (record.status = .suspect → cluster.Pursued config member)

theorem Starts.monitored (starts : cluster.Starts config) : cluster.Monitored config where
  disjoint := starts.disjoint
  registered := fun node isMember => (starts.peers node).registered isMember
  watchers := by
    intro node target watched
    rw [(starts.peers node).detector] at watched
    rcases watched with probe | suspicion
    · cases probe
    · cases suspicion
  recorded := by
    intro member _ node record found
    rcases (starts.peers node).seeded member record found with ⟨_, incarnation, alive⟩
    refine ⟨incarnation, fun suspect => ?_⟩
    rw [alive] at suspect
    cases suspect
  told := by simp [starts.inFlight]

section Step

variable {node : NodeId} {peerStep : PeerStep} {peer : Peer} {label : GossipLabel}

/-- Timers run on compute nodes for members they know. -/
theorem Monitored.watchers_step (monitored : cluster.Monitored config)
    (moved : (cluster.peers node).step config node peerStep = some peer) {target : NodeId}
    (watched : peer.detector.Watches target) :
    node ∈ config.compute ∧ target ∈ peer.memberTable := by
  have detector := Peer.detector_step moved
  have earlier : (cluster.peers node).detector.Watches target →
      node ∈ config.compute ∧ target ∈ peer.memberTable := by
    intro before
    rcases monitored.watchers node target before with ⟨isCompute, known⟩
    exact ⟨isCompute, Peer.mem_memberTable_step moved known⟩
  cases peerStep with
  | receive updates mutations =>
      rw [detector] at watched
      exact earlier watched
  | miss =>
      rw [detector] at watched
      exact earlier watched
  | beginTick now =>
      rcases detector with same | ⟨probed, _, known, probes⟩
      · rw [same] at watched
        exact earlier watched
      · rw [probes] at watched
        rcases watched with probe | suspicion
        · rcases (AList.mem_insert _).mp probe with rfl | before
          · exact ⟨(Peer.memberTable_step moved).1, Peer.mem_memberTable_step moved known⟩
          · exact earlier (Or.inl before)
        · exact earlier (Or.inr suspicion)
  | ack sender updates mutations =>
      rw [detector] at watched
      rcases watched with probe | suspicion
      · exact earlier (Or.inl (AList.mem_erase.mp probe).2)
      · exact earlier (Or.inr (AList.mem_erase.mp suspicion).2)
  | finishTick now =>
      rw [detector] at watched
      rcases (cluster.peers node).detector.checkTimeouts_spec config.timeouts now with
        ⟨suspect, dead, probed, _, probes, since, _, _⟩
      rcases watched with probe | suspicion
      · exact earlier (Or.inl ((probes target).mp probe).1)
      · rcases ((since target).mp suspicion).1 with before | raised
        · exact earlier (Or.inr before)
        · exact earlier (Or.inl (probed target raised))

/-- A tick leaves a suspected member under suspicion or dead. -/
theorem Monitored.pursued_finish (monitored : cluster.Monitored config) {now : ℕ}
    (moved : (cluster.peers node).step config node (.finishTick now) = some peer)
    (peers : next.peers = Function.update cluster.peers node peer) {member : NodeId}
    (suspected : member ∈ (cluster.peers node).detector.suspectedSince ∨
      .markSuspect member ∈
        ((cluster.peers node).detector.checkTimeouts config.timeouts now).2) :
    next.Pursued config member := by
  have detector := Peer.detector_step moved
  rcases Peer.memberTable_step moved with ⟨isCompute, table⟩
  rcases (cluster.peers node).detector.checkTimeouts_spec config.timeouts now with
    ⟨suspect, dead, probed, _, _, since, suspects, deaths⟩
  rw [suspects] at suspected
  have known : member ∈ (cluster.peers node).memberTable := by
    rcases suspected with before | raised
    · exact (monitored.watchers node member (Or.inr before)).2
    · exact (monitored.watchers node member (Or.inl (probed member raised))).2
  by_cases expired : member ∈ dead
  · right
    refine ⟨node, List.mem_append_left _ isCompute, ?_⟩
    rw [peers, Function.update_self, table]
    exact MemberTable.dead_afterActions (Or.inr ⟨(deaths member).mpr expired, known⟩)
  · left
    refine ⟨node, isCompute, ?_⟩
    rw [peers, Function.update_self, detector]
    exact (since member).mpr ⟨suspected, expired⟩

/-- A storage member that is pursued stays so. -/
theorem Monitored.pursued_step (monitored : cluster.Monitored config)
    (keeps : cluster.AcksKeepSuspicion config label)
    (moved : (cluster.peers node).step config node peerStep = some peer)
    (peers : next.peers = Function.update cluster.peers node peer)
    (updates : ∀ update ∈ peerStep.updates, ∃ packet ∈ cluster.inFlight,
      update ∈ packet.updates)
    (acks : ∀ target updates mutations, peerStep = .ack target updates mutations →
      ∃ index, label = .ack index ∧
        cluster.inFlight[index]? = some (.ack target node updates mutations))
    {member : NodeId} (isStorage : member ∈ config.storage)
    (pursued : cluster.Pursued config member) : next.Pursued config member := by
  have elsewhere : ∀ other ∈ config.compute, other ≠ node →
      member ∈ (cluster.peers other).detector.suspectedSince → next.Pursued config member := by
    intro other isCompute differ suspected
    refine Or.inl ⟨other, isCompute, ?_⟩
    rw [peers, Function.update_of_ne differ]
    exact suspected
  rcases pursued with ⟨watcher, isCompute, suspected⟩ | ⟨witness, isNode, dead⟩
  · rcases eq_or_ne watcher node with rfl | differ
    · have detector := Peer.detector_step moved
      have kept : peer.detector.suspectedSince =
          (cluster.peers watcher).detector.suspectedSince → next.Pursued config member := by
        intro same
        refine Or.inl ⟨watcher, isCompute, ?_⟩
        rw [peers, Function.update_self, same]
        exact suspected
      cases peerStep with
      | receive updates mutations => exact kept (by rw [detector])
      | miss => exact kept (by rw [detector])
      | beginTick now =>
          rcases detector with same | ⟨_, _, _, probes⟩
          · exact kept (by rw [same])
          · exact kept (by rw [probes]; rfl)
      | ack sender updates mutations =>
          rcases eq_or_ne member sender with rfl | otherSender
          · rcases acks _ _ _ rfl with ⟨index, isAck, found⟩
            rw [isAck] at keeps
            rcases keeps _ _ _ _ found isStorage suspected with
              ⟨other, otherCompute, differ, otherSuspected⟩
            exact elsewhere other otherCompute differ otherSuspected
          · refine Or.inl ⟨watcher, isCompute, ?_⟩
            rw [peers, Function.update_self, detector]
            exact AList.mem_erase.mpr ⟨otherSender, suspected⟩
      | finishTick now => exact monitored.pursued_finish moved peers (Or.inl suspected)
    · exact elsewhere watcher isCompute differ suspected
  · right
    refine ⟨witness, isNode, ?_⟩
    rw [peers]
    rcases eq_or_ne witness node with rfl | differ
    · rw [Function.update_self]
      rcases Option.map_eq_some_iff.mp dead with ⟨record, found, isDead⟩
      refine Peer.dead_step moved found isDead ?_
      rintro ⟨other, told⟩ updateMem rfl
      rcases updates _ updateMem with ⟨packet, inFlight, carried⟩
      rw [(monitored.told other isStorage packet inFlight told carried).1]
      exact Nat.zero_le _
    · rw [Function.update_of_ne differ]
      exact dead

end Step

theorem Monitored.step (monitored : cluster.Monitored config) {label : GossipLabel}
    (keeps : cluster.AcksKeepSuspicion config label)
    (stepped : cluster.step config label = some next) : next.Monitored config := by
  cases moved_of_step stepped with
  | lost peers kept minted =>
      have pursued : ∀ member, cluster.Pursued config member → next.Pursued config member := by
        intro member before
        unfold Pursued
        rw [peers]
        exact before
      refine ⟨monitored.disjoint, ?_, ?_, ?_, ?_⟩
      · rw [peers]
        exact monitored.registered
      · rw [peers]
        exact monitored.watchers
      · intro member isStorage node record found
        rw [peers] at found
        rcases monitored.recorded member isStorage node record found with ⟨only, suspicion⟩
        exact ⟨only, fun suspect => pursued member (suspicion suspect)⟩
      · intro member isStorage packet packetMem record carried
        rcases monitored.told member isStorage packet (kept packetMem) record carried with
          ⟨only, suspicion⟩
        exact ⟨only, fun suspect => pursued member (suspicion suspect)⟩
  | peer node peerStep peer moved peers updates mutations sent minted finishes acks =>
      have pursued : ∀ member ∈ config.storage, cluster.Pursued config member →
          next.Pursued config member :=
        fun member isStorage before =>
          monitored.pursued_step keeps moved peers updates acks isStorage before
      -- what the moved peer records of a storage member
      have recordedPeer : ∀ member ∈ config.storage, ∀ record,
          peer.memberTable.lookup member = some record →
            record.incarnation = 0 ∧
              (record.status = .suspect → next.Pursued config member) := by
        intro member isStorage record found
        constructor
        · have other : node ∈ config.compute → member ≠ node := by
            rintro isCompute rfl
            exact monitored.disjoint member isCompute isStorage
          rcases Peer.incarnation_step moved other found with ⟨earlier, same, source⟩
          rw [← same]
          rcases source with before | told
          · exact (monitored.recorded member isStorage node earlier before).1
          · rcases updates _ told with ⟨packet, inFlight, carried⟩
            exact (monitored.told member isStorage packet inFlight earlier carried).1
        · intro suspect
          have status : peer.memberTable.statusOf member = some .suspect := by
            rw [MemberTable.statusOf, found, Option.map_some, suspect]
          rcases Peer.statusOf_step moved status with
            before | ⟨told, isTold, isSuspect⟩ | ⟨_, isAlive⟩ | ⟨now, isFinish, marked⟩
          · rcases Option.map_eq_some_iff.mp before with ⟨earlier, isEarlier, isSuspect⟩
            exact pursued member isStorage
              ((monitored.recorded member isStorage node earlier isEarlier).2 isSuspect)
          · rcases updates _ isTold with ⟨packet, inFlight, carried⟩
            exact pursued member isStorage
              ((monitored.told member isStorage packet inFlight told carried).2 isSuspect)
          · cases isAlive
          · subst isFinish
            rcases marked with ⟨_, declared⟩ | ⟨isDead, _⟩
            · exact monitored.pursued_finish moved peers (Or.inr declared)
            · cases isDead
      refine ⟨monitored.disjoint, ?_, ?_, ?_, ?_⟩
      · intro other isMember
        rw [peers]
        rcases eq_or_ne other node with rfl | differ
        · rw [Function.update_self]
          exact Peer.mem_memberTable_step moved (monitored.registered other isMember)
        · rw [Function.update_of_ne differ]
          exact monitored.registered other isMember
      · intro other target watched
        rw [peers] at watched ⊢
        rcases eq_or_ne other node with rfl | differ
        · rw [Function.update_self] at watched ⊢
          exact monitored.watchers_step moved watched
        · rw [Function.update_of_ne differ] at watched ⊢
          exact monitored.watchers other target watched
      · intro member isStorage other record found
        rw [peers] at found
        rcases eq_or_ne other node with rfl | differ
        · rw [Function.update_self] at found
          exact recordedPeer member isStorage record found
        · rw [Function.update_of_ne differ] at found
          rcases monitored.recorded member isStorage other record found with ⟨only, suspicion⟩
          exact ⟨only, fun suspect => pursued member isStorage (suspicion suspect)⟩
      · intro member isStorage packet packetMem record carried
        rcases sent packet packetMem with old | ⟨fromPeer, _⟩
        · rcases monitored.told member isStorage packet old record carried with
            ⟨only, suspicion⟩
          exact ⟨only, fun suspect => pursued member isStorage (suspicion suspect)⟩
        · rw [fromPeer] at carried
          exact recordedPeer member isStorage record (MemberTable.mem_all.mp carried)

/-- Every compute node has refuted what it knows against itself, and no table has anything to tell
another. -/
structure Stable (config : GossipConfig) (cluster : GossipCluster) : Prop where
  refuted : ∀ node ∈ config.compute,
    (cluster.peers node).selfRefuteIfFalselySuspected node = cluster.peers node
  merged : ∀ node ∈ config.compute ++ config.storage,
    ∀ other ∈ config.compute ++ config.storage, ∀ member record,
      (cluster.peers other).memberTable.lookup member = some record →
        (cluster.peers node).memberTable.mergeUpdate member record =
          (cluster.peers node).memberTable

theorem accepts_irrefl (record : MemberRecord) : MemberTable.accepts record record = false := by
  simp [MemberTable.accepts]

theorem status_eq_of_not_accepts {first second : MemberRecord}
    (notFirst : MemberTable.accepts first second = false)
    (notSecond : MemberTable.accepts second first = false) : first.status = second.status := by
  simp only [MemberTable.accepts, Bool.or_eq_false_iff, decide_eq_false_iff_not,
    Bool.and_eq_false_iff] at notFirst notSecond
  have severity : first.status.severity = second.status.severity := by omega
  cases isFirst : first.status <;> cases isSecond : second.status <;>
    simp [isFirst, isSecond, MemberStatus.severity] at severity ⊢

theorem Stable.known (stable : cluster.Stable config) {node other member : NodeId}
    {record : MemberRecord} (isNode : node ∈ config.compute ++ config.storage)
    (isOther : other ∈ config.compute ++ config.storage)
    (found : (cluster.peers other).memberTable.lookup member = some record) :
    ∃ own, (cluster.peers node).memberTable.lookup member = some own ∧
      MemberTable.accepts record own = false := by
  have same := congrArg (AList.lookup member)
    (stable.merged node isNode other isOther member record found)
  rw [MemberTable.lookup_mergeUpdate] at same
  cases own : (cluster.peers node).memberTable.lookup member with
  | none => simp [own] at same
  | some current =>
      refine ⟨current, rfl, ?_⟩
      rw [← Bool.not_eq_true]
      intro accepted
      rw [own, if_pos ⟨rfl, accepted⟩, Option.some.injEq] at same
      rw [same, accepts_irrefl] at accepted
      cases accepted

/-- In a stable state all members have the same status for a member. -/
theorem Stable.statusOf_eq (stable : cluster.Stable config) {node other : NodeId}
    (isNode : node ∈ config.compute ++ config.storage)
    (isOther : other ∈ config.compute ++ config.storage) {member : NodeId}
    {status : MemberStatus}
    (found : (cluster.peers other).memberTable.statusOf member = some status) :
    (cluster.peers node).memberTable.statusOf member = some status := by
  rcases Option.map_eq_some_iff.mp found with ⟨record, isRecord, rfl⟩
  rcases stable.known isNode isOther isRecord with ⟨own, isOwn, notAccepted⟩
  rcases stable.known isOther isNode isOwn with ⟨again, isAgain, notBack⟩
  rw [isRecord, Option.some.injEq] at isAgain
  subst isAgain
  rw [MemberTable.statusOf, isOwn, Option.map_some,
    status_eq_of_not_accepts notBack notAccepted]

/-- In every stable state of a run in which acks leave a storage member under suspicion somewhere,
every member that is not dead is a probe candidate on all other compute nodes, or some compute node
has a probe or a suspicion timer for it. -/
theorem watched_of_stable
    (reached : (system config).ReachableVia (AcksKeepSuspicion config) cluster)
    (stable : cluster.Stable config) {member : NodeId}
    (isMember : member ∈ config.compute ++ config.storage)
    (undead : ∀ node ∈ config.compute ++ config.storage,
      (cluster.peers node).memberTable.statusOf member ≠ some .dead) :
    (∀ node ∈ config.compute, node ≠ member → member ∈ (cluster.peers node).candidates node) ∨
      ∃ node ∈ config.compute, (cluster.peers node).detector.Watches member := by
  have monitored : cluster.Monitored config := by
    refine Transition.System.ReachableVia.induction ?_ ?_ reached
    · intro start starts
      exact Starts.monitored starts
    · intro before label after kept keeps stepped
      exact Monitored.step kept keeps stepped
  have candidate : (cluster.peers member).memberTable.statusOf member = some .alive →
      ∀ node ∈ config.compute, node ≠ member → member ∈ (cluster.peers node).candidates node := by
    intro alive node isCompute differ
    refine List.mem_filter.mpr ⟨?_, by simpa using differ.symm⟩
    rw [MemberTable.mem_aliveMembers]
    exact stable.statusOf_eq (List.mem_append_left _ isCompute) isMember alive
  have own := AList.lookup_isSome.mpr (monitored.registered member isMember)
  rcases Option.isSome_iff_exists.mp own with ⟨record, found⟩
  have status : (cluster.peers member).memberTable.statusOf member = some record.status := by
    rw [MemberTable.statusOf, found, Option.map_some]
  cases isStatus : record.status with
  | alive => exact Or.inl (candidate (by rw [status, isStatus]))
  | dead => exact absurd (by rw [status, isStatus]) (undead member isMember)
  | suspect =>
      rcases List.mem_append.mp isMember with isCompute | isStorage
      · -- a compute node would have refuted the suspicion
        exfalso
        have refuted := congrArg (fun peer : Peer => peer.memberTable.statusOf member)
          (stable.refuted member isCompute)
        have suspected : (cluster.peers member).memberTable.statusOf member = some .suspect := by
          rw [status, isStatus]
        simp [Peer.selfRefuteIfFalselySuspected, suspected,
          MemberTable.statusOf_confirmAliveSelf, monitored.registered member isMember] at refuted
      · right
        rcases (monitored.recorded member isStorage member record found).2 isStatus with
          ⟨watcher, isCompute, suspected⟩ | ⟨witness, isNode, dead⟩
        · exact ⟨watcher, isCompute, Or.inr suspected⟩
        · exact absurd dead (undead witness isNode)

/-- Whether a state is stable. -/
def settled (config : GossipConfig) (cluster : GossipCluster) : Bool :=
  (config.compute.all fun node =>
    (cluster.peers node).memberTable.statusOf node ≠ some .suspect) &&
  (config.compute ++ config.storage).all fun node =>
    (config.compute ++ config.storage).all fun other =>
      (cluster.peers other).memberTable.all.all fun update =>
        match (cluster.peers node).memberTable.lookup update.1 with
        | none => false
        | some own => !MemberTable.accepts update.2 own

theorem stable_of_settled (isSettled : settled config cluster = true) :
    cluster.Stable config := by
  simp only [settled, Bool.and_eq_true, List.all_eq_true, decide_eq_true_eq] at isSettled
  refine ⟨?_, ?_⟩
  · intro node isCompute
    rw [Peer.selfRefuteIfFalselySuspected, if_neg (isSettled.1 node isCompute)]
  · intro node isNode other isOther member record found
    have told := isSettled.2 node isNode other isOther _ (MemberTable.mem_all.mpr found)
    unfold MemberTable.mergeUpdate
    split at told
    · cases told
    · rename_i own isOwn
      rw [Bool.not_eq_true'] at told
      simp [isOwn, told]

/-- One compute and one storage node. -/
def oneEach : GossipConfig := ⟨[1], [2], ⟨1000, 5000⟩⟩

/-- Node 1 misses two acks of node 2, suspects it and tells it so. -/
def suspects : List GossipLabel :=
  [.beginTick 1 0, .miss 1, .finishTick 1 1000, .beginTick 1 1000, .miss 1, .finishTick 1 2000,
    .lose 0, .lose 0, .beginTick 1 2000, .deliver 0]

def pair : GossipCluster :=
  booted oneEach ⟨Ring.fromMembers [(1, 1)], ClusterState.fromConfig []⟩

theorem pair_starts : pair.Starts oneEach := booted_starts (by decide) _

theorem watched_of_stable_suspected : ∃ cluster,
    (system oneEach).ReachableVia (AcksKeepSuspicion oneEach) cluster ∧
    cluster.Stable oneEach ∧ (cluster.peers 1).memberTable.statusOf 2 = some .suspect ∧
    ((∀ node ∈ oneEach.compute, node ≠ 2 → 2 ∈ (cluster.peers node).candidates node) ∨
      ∃ node ∈ oneEach.compute, (cluster.peers node).detector.Watches 2) := by
  have executed : (((system oneEach).execVia
      (fun _ label => match label with | .ack _ => false | _ => true) pair
      (suspects ++ [.lose 0, .miss 1, .finishTick 1 2500])).map fun cluster =>
        (settled oneEach cluster,
          [1, 2].map fun node => (cluster.peers node).memberTable.statusOf 2)) =
      some (true, [some .suspect, some .suspect]) := by
    decide +kernel
  rcases Option.map_eq_some_iff.mp executed with ⟨cluster, run, observed⟩
  simp only [List.map_cons, List.map_nil, Prod.mk.injEq, List.cons.injEq, and_true] at observed
  rcases observed with ⟨isSettled, first, second⟩
  have sound : ∀ cluster label,
      (match label with | GossipLabel.ack _ => false | _ => true) = true →
        AcksKeepSuspicion oneEach cluster label := by
    intro cluster label guarded
    cases label with
    | ack index => cases guarded
    | _ => trivial
  have reached := Transition.System.reachableVia_of_execVia sound pair_starts run
  have stable := stable_of_settled isSettled
  refine ⟨cluster, reached, stable, first,
    watched_of_stable reached stable (by decide) ?_⟩
  intro node isNode
  have isOne : node = 1 ∨ node = 2 := by simpa [oneEach] using isNode
  rcases isOne with rfl | rfl
  · rw [first]
    decide
  · rw [second]
    decide

/-- The ack that follows ends the timer, and the storage node stays suspected with nobody watching
it. -/
theorem unwatched : ∃ cluster, (system oneEach).Reachable cluster ∧ cluster.Stable oneEach ∧
    (∀ node ∈ oneEach.compute ++ oneEach.storage,
      (cluster.peers node).memberTable.statusOf 2 = some .suspect) ∧
    ¬(cluster.peers 1).detector.Watches 2 ∧ 2 ∉ (cluster.peers 1).candidates 1 := by
  have executed : (((system oneEach).exec pair
      (suspects ++ [.ack 0, .finishTick 1 2500])).map fun cluster =>
        (settled oneEach cluster,
          [1, 2].map fun node => (cluster.peers node).memberTable.statusOf 2,
          decide ((cluster.peers 1).detector.Watches 2) ||
            decide (2 ∈ (cluster.peers 1).candidates 1))) =
      some (true, [some .suspect, some .suspect], false) := by
    decide +kernel
  rcases Option.map_eq_some_iff.mp executed with ⟨cluster, run, observed⟩
  simp only [List.map_cons, List.map_nil, Prod.mk.injEq, List.cons.injEq, and_true,
    Bool.or_eq_false_iff, decide_eq_false_iff_not] at observed
  rcases observed with ⟨isSettled, ⟨first, second⟩, unwatched, notCandidate⟩
  refine ⟨cluster, Transition.System.reachable_of_exec pair_starts run,
    stable_of_settled isSettled, ?_, unwatched, notCandidate⟩
  intro node isNode
  have isOne : node = 1 ∨ node = 2 := by simpa [oneEach] using isNode
  rcases isOne with rfl | rfl
  · exact first
  · exact second

end GossipCluster

end Seisin
