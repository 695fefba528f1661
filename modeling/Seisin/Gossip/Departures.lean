import Seisin.Gossip.Agreement

/-!
# From a death to a departure

A node declares a member dead when its own suspicion runs out, and only then may it mint the
member's departure; what it learns by gossip it just records.  So every member that is recorded dead
has a departure as long as each death is found by a node that is the sequencer at that moment.
-/

namespace Seisin

/-! ## Tables under the steps of a node -/

namespace MemberTable

variable {table : MemberTable}

theorem statusOf_markSuspect (target nodeId : NodeId) :
    (table.markSuspect target).statusOf nodeId =
      if nodeId = target ∧ table.statusOf target = some .alive then some .suspect
      else table.statusOf nodeId := by
  unfold markSuspect statusOf
  cases found : table.lookup target with
  | none => simp
  | some current =>
      by_cases alive : current.status = .alive
      · rcases eq_or_ne nodeId target with rfl | differ
        · simp [alive]
        · simp [alive, differ]
      · simp [alive]

theorem statusOf_markDead (target nodeId : NodeId) :
    (table.markDead target).statusOf nodeId =
      if nodeId = target ∧ target ∈ table then some .dead else table.statusOf nodeId := by
  unfold markDead statusOf
  simp only [← AList.lookup_isSome]
  cases found : table.lookup target with
  | none => simp
  | some current =>
      rcases eq_or_ne nodeId target with rfl | differ
      · simp
      · simp [differ]

theorem statusOf_confirmAliveSelf (selfId nodeId : NodeId) :
    (table.confirmAliveSelf selfId).statusOf nodeId =
      if nodeId = selfId ∧ selfId ∈ table then some .alive else table.statusOf nodeId := by
  unfold confirmAliveSelf statusOf
  simp only [← AList.lookup_isSome]
  cases found : table.lookup selfId with
  | none => simp
  | some current =>
      rcases eq_or_ne nodeId selfId with rfl | differ
      · simp
      · simp [differ]

theorem mem_all {nodeId : NodeId} {record : MemberRecord} :
    (nodeId, record) ∈ table.all ↔ table.lookup nodeId = some record := by
  rw [← Option.mem_def, AList.mem_lookup_iff, all, List.mem_map]
  constructor
  · rintro ⟨⟨other, otherRecord⟩, entryMem, same⟩
    cases same
    exact entryMem
  · intro entryMem
    exact ⟨_, entryMem, rfl⟩

theorem statusOf_mergeAll {updates : List (NodeId × MemberRecord)} {nodeId : NodeId}
    {status : MemberStatus} (found : (table.mergeAll updates).statusOf nodeId = some status) :
    table.statusOf nodeId = some status ∨
      ∃ record, (nodeId, record) ∈ updates ∧ record.status = status := by
  rcases Option.map_eq_some_iff.mp found with ⟨record, isRecord, rfl⟩
  rcases lookup_mergeAll isRecord with earlier | told
  · left
    rw [statusOf, earlier]
    rfl
  · exact Or.inr ⟨record, told, rfl⟩

/-- What acting on a timer does to the table. -/
def afterAction (table : MemberTable) : TimeoutAction → MemberTable
  | .escalateToIndirect _ => table
  | .markSuspect target => table.markSuspect target
  | .markDead target => table.markDead target

end MemberTable

/-! ## Timers -/

namespace FailureDetector

theorem mem_foldl_erase {β : Type*} (targets : List NodeId) (map : AList (fun _ : NodeId => β))
    (target : NodeId) :
    target ∈ targets.foldl (fun map target => map.erase target) map ↔
      target ∈ map ∧ target ∉ targets := by
  rw [← AList.lookup_isSome, lookup_foldl_erase, ← AList.lookup_isSome]
  split <;> simp_all

theorem mem_foldl_insert {β : Type*} (value : β) (targets : List NodeId)
    (map : AList (fun _ : NodeId => β)) (target : NodeId) :
    target ∈ targets.foldl (fun map target => map.insert target value) map ↔
      target ∈ map ∨ target ∈ targets := by
  rw [← AList.lookup_isSome, lookup_foldl_insert, ← AList.lookup_isSome]
  split <;> simp_all

theorem mem_of_mem_keys_filter {β : Type*} {map : AList (fun _ : NodeId => β)}
    {keep : Sigma (fun _ : NodeId => β) → Bool} {target : NodeId}
    (inside : target ∈ (map.entries.filter keep).map Sigma.fst) : target ∈ map := by
  rcases mem_keys_filter.mp inside with ⟨value, found, _⟩
  rw [← AList.lookup_isSome, found]
  rfl

/-- Which members a check suspects and declares dead: a probe may turn into a suspicion, and a
suspicion into a death; no timer ends in another way. -/
theorem checkTimeouts_spec (detector : FailureDetector) (timeouts : Timeouts) (now : ℕ) :
    ∃ suspect dead : List NodeId,
      (∀ target ∈ suspect, target ∈ detector.probes) ∧
      (∀ target ∈ dead, target ∈ detector.suspectedSince ∨ target ∈ suspect) ∧
      (∀ target, target ∈ (detector.checkTimeouts timeouts now).1.probes ↔
        target ∈ detector.probes ∧ target ∉ suspect) ∧
      (∀ target, target ∈ (detector.checkTimeouts timeouts now).1.suspectedSince ↔
        (target ∈ detector.suspectedSince ∨ target ∈ suspect) ∧ target ∉ dead) ∧
      (∀ target, .markSuspect target ∈ (detector.checkTimeouts timeouts now).2 ↔
        target ∈ suspect) ∧
      ∀ target, .markDead target ∈ (detector.checkTimeouts timeouts now).2 ↔ target ∈ dead := by
  refine ⟨detector.indirectOverdue timeouts now,
    expired ((detector.indirectOverdue timeouts now).foldl
      (fun since target => since.insert target now) detector.suspectedSince) timeouts now,
    fun target inside => mem_of_mem_keys_filter inside, ?_, ?_, ?_, ?_, ?_⟩
  · intro target inside
    exact (mem_foldl_insert now _ _ target).mp (mem_of_mem_keys_filter inside)
  · intro target
    simp only [checkTimeouts]
    rw [mem_foldl_erase, mem_foldl_insert]
    constructor
    · rintro ⟨tracked | escalated, kept⟩
      · exact ⟨tracked, kept⟩
      · exact ⟨mem_of_mem_keys_filter escalated, kept⟩
    · rintro ⟨tracked, kept⟩
      exact ⟨Or.inl tracked, kept⟩
  · intro target
    simp only [checkTimeouts]
    rw [mem_foldl_erase, mem_foldl_insert]
  · intro target
    simp [checkTimeouts]
  · intro target
    simp [checkTimeouts]

end FailureDetector

/-! ## The steps of a node -/

namespace Peer

variable {config : GossipConfig} {selfId : NodeId} {peer next : Peer}

theorem mergeIncoming_spec (peer : Peer) (updates : List (NodeId × MemberRecord))
    (mutations : List (ℕ × RingMutation)) :
    (peer.mergeIncoming updates mutations).memberTable = peer.memberTable.mergeAll updates ∧
      (peer.mergeIncoming updates mutations).detector = peer.detector := by
  rcases mergeIncoming_eq peer updates mutations with ⟨_, _, merged⟩
  rw [merged]
  exact ⟨rfl, rfl⟩

theorem act_spec (selfId : NodeId) (peer : Peer) (action : TimeoutAction) :
    (peer.act selfId action).1.memberTable = peer.memberTable.afterAction action ∧
      (peer.act selfId action).1.detector = peer.detector := by
  cases action with
  | escalateToIndirect target => exact ⟨rfl, rfl⟩
  | markSuspect target => exact ⟨rfl, rfl⟩
  | markDead target =>
      simp only [act, mintLeaveIfSequencer]
      split
      · split <;> exact ⟨rfl, rfl⟩
      · split <;> exact ⟨rfl, rfl⟩

theorem actAll_spec (selfId : NodeId) (peer : Peer) (actions : List TimeoutAction) :
    (peer.actAll selfId actions).1.memberTable =
        actions.foldl MemberTable.afterAction peer.memberTable ∧
      (peer.actAll selfId actions).1.detector = peer.detector := by
  induction actions generalizing peer with
  | nil => exact ⟨rfl, rfl⟩
  | cons action actions ih =>
      rcases act_spec selfId peer action with ⟨table, detector⟩
      rcases ih (peer.act selfId action).1 with ⟨tables, detectors⟩
      simp only [actAll, List.foldl_cons]
      exact ⟨by rw [tables, table], by rw [detectors, detector]⟩

theorem statusOf_afterActions {table : MemberTable} {actions : List TimeoutAction}
    {member : NodeId} {status : MemberStatus}
    (found : (actions.foldl MemberTable.afterAction table).statusOf member = some status) :
    table.statusOf member = some status ∨
      (status = .suspect ∧ .markSuspect member ∈ actions) ∨
      (status = .dead ∧ .markDead member ∈ actions) := by
  induction actions generalizing table with
  | nil => exact Or.inl found
  | cons action actions ih =>
      rcases ih found with earlier | ⟨isSuspect, later⟩ | ⟨isDead, later⟩
      · cases action with
        | escalateToIndirect target => exact Or.inl earlier
        | markSuspect target =>
            rw [MemberTable.afterAction, MemberTable.statusOf_markSuspect] at earlier
            split at earlier
            · rename_i marked
              cases earlier
              rw [marked.1]
              exact Or.inr (Or.inl ⟨rfl, List.mem_cons_self⟩)
            · exact Or.inl earlier
        | markDead target =>
            rw [MemberTable.afterAction, MemberTable.statusOf_markDead] at earlier
            split at earlier
            · rename_i marked
              cases earlier
              rw [marked.1]
              exact Or.inr (Or.inr ⟨rfl, List.mem_cons_self⟩)
            · exact Or.inl earlier
      · exact Or.inr (Or.inl ⟨isSuspect, List.mem_cons_of_mem _ later⟩)
      · exact Or.inr (Or.inr ⟨isDead, List.mem_cons_of_mem _ later⟩)

theorem selfRefute_spec (selfId : NodeId) (peer : Peer) :
    (peer.selfRefuteIfFalselySuspected selfId).detector = peer.detector ∧
      (peer.selfRefuteIfFalselySuspected selfId).outstandingProbe = peer.outstandingProbe ∧
      ((peer.selfRefuteIfFalselySuspected selfId).memberTable = peer.memberTable ∨
        (peer.selfRefuteIfFalselySuspected selfId).memberTable =
          peer.memberTable.confirmAliveSelf selfId) := by
  unfold selfRefuteIfFalselySuspected
  split
  · exact ⟨rfl, rfl, Or.inr rfl⟩
  · exact ⟨rfl, rfl, Or.inl rfl⟩

theorem pickTarget_spec (selfId : NodeId) (now : ℕ) (peer : Peer) :
    (peer.pickTarget selfId now).memberTable = peer.memberTable ∧
      ((peer.pickTarget selfId now).detector = peer.detector ∨
        ∃ target ∈ peer.candidates selfId,
          (peer.pickTarget selfId now).detector = peer.detector.beginDirectProbe target now) := by
  unfold pickTarget
  split
  · split
    · exact ⟨rfl, Or.inl rfl⟩
    · rename_i target found
      exact ⟨rfl, Or.inr ⟨target, List.mem_of_getElem? found, rfl⟩⟩
  · exact ⟨rfl, Or.inl rfl⟩

/-- Where the status of a member comes from: it was recorded or told, or it is the node's own
refutation, or a timer ran out. -/
theorem statusOf_step {peerStep : PeerStep} {member : NodeId} {status : MemberStatus}
    (stepped : peer.step config selfId peerStep = some next)
    (found : next.memberTable.statusOf member = some status) :
    peer.memberTable.statusOf member = some status ∨
      (∃ record, (member, record) ∈ peerStep.updates ∧ record.status = status) ∨
      (member = selfId ∧ status = .alive) ∨
      ∃ now, peerStep = .finishTick now ∧
        ((status = .suspect ∧
            .markSuspect member ∈ (peer.detector.checkTimeouts config.timeouts now).2) ∨
          (status = .dead ∧
            .markDead member ∈ (peer.detector.checkTimeouts config.timeouts now).2)) := by
  cases peerStep with
  | receive updates mutations =>
      simp only [step, serve, Option.some.injEq] at stepped
      have table : next.memberTable = peer.memberTable.mergeAll updates := by
        rw [← stepped, ← (mergeIncoming_spec peer updates mutations).1]
        split <;> rfl
      rw [table] at found
      rcases MemberTable.statusOf_mergeAll found with earlier | told
      · exact Or.inl earlier
      · exact Or.inr (Or.inl told)
  | beginTick now =>
      simp only [step, Option.ite_none_right_eq_some, Option.some.injEq] at stepped
      rcases stepped with ⟨_, rfl⟩
      have picked := (pickTarget_spec selfId now (peer.selfRefuteIfFalselySuspected selfId)).1
      change MemberTable.statusOf
        ((peer.selfRefuteIfFalselySuspected selfId).pickTarget selfId now).memberTable member =
          _ at found
      rw [picked] at found
      rcases (selfRefute_spec selfId peer).2.2 with same | refuted
      · rw [same] at found
        exact Or.inl found
      · rw [refuted, MemberTable.statusOf_confirmAliveSelf] at found
        split at found
        · rename_i isSelf
          cases found
          exact Or.inr (Or.inr (Or.inl ⟨isSelf.1, rfl⟩))
        · exact Or.inl found
  | ack target updates mutations =>
      simp only [step, Option.ite_none_right_eq_some, Option.some.injEq] at stepped
      rcases stepped with ⟨_, rfl⟩
      change MemberTable.statusOf (peer.mergeIncoming updates mutations).memberTable member =
        _ at found
      rw [(mergeIncoming_spec peer updates mutations).1] at found
      rcases MemberTable.statusOf_mergeAll found with earlier | told
      · exact Or.inl earlier
      · exact Or.inr (Or.inl told)
  | miss =>
      simp only [step] at stepped
      split at stepped
      · cases stepped
        exact Or.inl found
      · cases stepped
  | finishTick now =>
      simp only [step, Option.ite_none_right_eq_some, Option.some.injEq] at stepped
      rcases stepped with ⟨_, rfl⟩
      have table := (actAll_spec selfId
        { peer with detector := (peer.detector.checkTimeouts config.timeouts now).1 }
        (peer.detector.checkTimeouts config.timeouts now).2).1
      change MemberTable.statusOf (actAll selfId
        { peer with detector := (peer.detector.checkTimeouts config.timeouts now).1 }
        (peer.detector.checkTimeouts config.timeouts now).2).1.memberTable member = _ at found
      rw [table] at found
      rcases statusOf_afterActions found with earlier | marked
      · exact Or.inl earlier
      · exact Or.inr (Or.inr (Or.inr ⟨now, rfl, marked⟩))

theorem mem_memberTable_refute (selfId member : NodeId) (peer : Peer) :
    member ∈ (peer.selfRefuteIfFalselySuspected selfId).memberTable ↔
      member ∈ peer.memberTable := by
  unfold selfRefuteIfFalselySuspected MemberTable.confirmAliveSelf
  split
  · cases found : peer.memberTable.lookup selfId with
    | none => simp
    | some current =>
        have registered : selfId ∈ peer.memberTable :=
          AList.lookup_isSome.mp (by rw [found]; rfl)
        simp only [AList.mem_insert]
        constructor
        · rintro (rfl | inside)
          · exact registered
          · exact inside
        · exact Or.inr
  · rfl

/-- What a step does to the timers. -/
theorem detector_step {peerStep : PeerStep}
    (stepped : peer.step config selfId peerStep = some next) :
    match peerStep with
    | .receive _ _ | .miss => next.detector = peer.detector
    | .beginTick now => next.detector = peer.detector ∨
        ∃ target, target ≠ selfId ∧ target ∈ peer.memberTable ∧
          next.detector = peer.detector.beginDirectProbe target now
    | .ack target _ _ => next.detector = peer.detector.onAck target
    | .finishTick now => next.detector = (peer.detector.checkTimeouts config.timeouts now).1 := by
  cases peerStep with
  | receive updates mutations =>
      simp only [step, serve, Option.some.injEq] at stepped ⊢
      rw [← stepped, ← (mergeIncoming_spec peer updates mutations).2]
      split <;> rfl
  | beginTick now =>
      simp only [step, Option.ite_none_right_eq_some, Option.some.injEq] at stepped
      rcases stepped with ⟨_, rfl⟩
      have refuted := (selfRefute_spec selfId peer).1
      rcases (pickTarget_spec selfId now (peer.selfRefuteIfFalselySuspected selfId)).2 with
        same | ⟨target, isCandidate, probes⟩
      · exact Or.inl (same.trans refuted)
      · rcases List.mem_filter.mp isCandidate with ⟨alive, notSelf⟩
        refine Or.inr ⟨target, of_decide_eq_true notSelf, ?_, probes.trans (by rw [refuted])⟩
        rw [MemberTable.mem_aliveMembers, MemberTable.statusOf] at alive
        rw [← mem_memberTable_refute selfId, ← AList.lookup_isSome]
        rcases Option.map_eq_some_iff.mp alive with ⟨record, found, _⟩
        rw [found]
        rfl
  | ack target updates mutations =>
      simp only [step, Option.ite_none_right_eq_some, Option.some.injEq] at stepped
      rcases stepped with ⟨_, rfl⟩
      change (peer.mergeIncoming updates mutations).detector.onAck target = _
      rw [(mergeIncoming_spec peer updates mutations).2]
  | miss =>
      simp only [step] at stepped
      split at stepped
      · cases stepped
        rfl
      · cases stepped
  | finishTick now =>
      simp only [step, Option.ite_none_right_eq_some, Option.some.injEq] at stepped
      rcases stepped with ⟨_, rfl⟩
      exact (actAll_spec selfId
        { peer with detector := (peer.detector.checkTimeouts config.timeouts now).1 }
        (peer.detector.checkTimeouts config.timeouts now).2).2

/-- A node watches other members only, and only members it knows. -/
def WatchesOthers (selfId : NodeId) (peer : Peer) : Prop :=
  ∀ target, peer.detector.Watches target → target ≠ selfId

theorem WatchesOthers.step (watches : peer.WatchesOthers selfId) {peerStep : PeerStep}
    (stepped : peer.step config selfId peerStep = some next) : next.WatchesOthers selfId := by
  have detector := detector_step stepped
  intro target watched
  cases peerStep with
  | receive updates mutations =>
      rw [detector] at watched
      exact watches target watched
  | miss =>
      rw [detector] at watched
      exact watches target watched
  | beginTick now =>
      rcases detector with same | ⟨probed, notSelf, _, probes⟩
      · rw [same] at watched
        exact watches target watched
      · rw [probes] at watched
        rcases watched with probe | suspicion
        · rcases (AList.mem_insert _).mp probe with rfl | earlier
          · exact notSelf
          · exact watches target (Or.inl earlier)
        · exact watches target (Or.inr suspicion)
  | ack sender updates mutations =>
      rw [detector] at watched
      rcases watched with probe | suspicion
      · exact watches target (Or.inl (AList.mem_erase.mp probe).2)
      · exact watches target (Or.inr (AList.mem_erase.mp suspicion).2)
  | finishTick now =>
      rw [detector] at watched
      rcases peer.detector.checkTimeouts_spec config.timeouts now with
        ⟨suspect, dead, probed, _, probes, since, _, _⟩
      rcases watched with probe | suspicion
      · exact watches target (Or.inl ((probes target).mp probe).1)
      · rcases ((since target).mp suspicion).1 with earlier | raised
        · exact watches target (Or.inr earlier)
        · exact watches target (Or.inl (probed target raised))

/-- Only watched members are acted on. -/
theorem WatchesOthers.actions (watches : peer.WatchesOthers selfId) (timeouts : Timeouts) (now : ℕ) :
    (.markSuspect selfId) ∉ (peer.detector.checkTimeouts timeouts now).2 ∧
      (.markDead selfId) ∉ (peer.detector.checkTimeouts timeouts now).2 := by
  rcases peer.detector.checkTimeouts_spec timeouts now with
    ⟨suspect, dead, probed, suspected, _, _, suspects, deaths⟩
  constructor
  · rw [suspects]
    exact fun inside => watches selfId (Or.inl (probed selfId inside)) rfl
  · rw [deaths]
    intro inside
    rcases suspected selfId inside with earlier | raised
    · exact watches selfId (Or.inr earlier) rfl
    · exact watches selfId (Or.inl (probed selfId raised)) rfl

/-- The node is alive, and no other member than `target` that is alive has a lower id. -/
def LowestBut (selfId target : NodeId) (table : MemberTable) : Prop :=
  table.statusOf selfId = some .alive ∧
    ∀ other, other ≠ target → table.statusOf other = some .alive → selfId ≤ other

theorem LowestBut.afterAction {target : NodeId} {table : MemberTable}
    (lowest : LowestBut selfId target table) {action : TimeoutAction}
    (notSuspect : action ≠ .markSuspect selfId) (notDead : action ≠ .markDead selfId) :
    LowestBut selfId target (table.afterAction action) := by
  cases action with
  | escalateToIndirect other => exact lowest
  | markSuspect other =>
      have differ : selfId ≠ other := fun same => notSuspect (by rw [same])
      refine ⟨?_, ?_⟩
      · rw [MemberTable.afterAction, MemberTable.statusOf_markSuspect,
          if_neg fun both => differ both.1]
        exact lowest.1
      · intro member notTarget alive
        rw [MemberTable.afterAction, MemberTable.statusOf_markSuspect] at alive
        split at alive
        · cases alive
        · exact lowest.2 member notTarget alive
  | markDead other =>
      have differ : selfId ≠ other := fun same => notDead (by rw [same])
      refine ⟨?_, ?_⟩
      · rw [MemberTable.afterAction, MemberTable.statusOf_markDead,
          if_neg fun both => differ both.1]
        exact lowest.1
      · intro member notTarget alive
        rw [MemberTable.afterAction, MemberTable.statusOf_markDead] at alive
        split at alive
        · cases alive
        · exact lowest.2 member notTarget alive

theorem LowestBut.isSequencer {target : NodeId} {table : MemberTable}
    (lowest : LowestBut selfId target table) (differ : selfId ≠ target) :
    isSequencer selfId (table.markDead target).aliveMembers = true := by
  rw [MemberTable.isSequencer_iff]
  refine ⟨?_, ?_⟩
  · rw [MemberTable.statusOf_markDead, if_neg fun both => differ both.1]
    exact lowest.1
  · intro other alive
    rw [MemberTable.statusOf_markDead] at alive
    split at alive
    · cases alive
    · rename_i unmarked
      refine lowest.2 other ?_ alive
      rintro rfl
      apply unmarked
      refine ⟨rfl, ?_⟩
      rcases Option.map_eq_some_iff.mp alive with ⟨record, found, _⟩
      rw [← AList.lookup_isSome, found]
      rfl

/-- A tick that declares a member dead mints its departure, if the node has the lowest id of those
left. -/
theorem minted_actAll (peer : Peer) {actions : List TimeoutAction} {target : NodeId}
    (notSuspect : .markSuspect selfId ∉ actions) (notDead : .markDead selfId ∉ actions)
    (lowest : LowestBut selfId target peer.memberTable) (declared : .markDead target ∈ actions) :
    ∃ epoch, (epoch, .leave target) ∈ (peer.actAll selfId actions).2 := by
  induction actions generalizing peer with
  | nil => cases declared
  | cons action actions ih =>
      simp only [actAll]
      rcases List.mem_cons.mp declared with rfl | later
      · have differ : selfId ≠ target := by
          rintro rfl
          exact notDead List.mem_cons_self
        refine ⟨peer.highestSeenEpoch + 1, List.mem_append_left _ ?_⟩
        simp only [act, mintLeaveIfSequencer, lowest.isSequencer differ, if_true]
        exact List.mem_cons_self
      · have kept : LowestBut selfId target (peer.act selfId action).1.memberTable := by
          rw [(act_spec selfId peer action).1]
          apply lowest.afterAction
          · rintro rfl
            exact notSuspect List.mem_cons_self
          · rintro rfl
            exact notDead List.mem_cons_self
        rcases ih _ (fun inside => notSuspect (List.mem_cons_of_mem _ inside))
          (fun inside => notDead (List.mem_cons_of_mem _ inside)) kept later with ⟨epoch, minted⟩
        exact ⟨epoch, List.mem_append_right _ minted⟩

end Peer

/-! ## Deaths and departures -/

namespace GossipCluster

variable {config : GossipConfig} {cluster next : GossipCluster}

/-- Some node has recorded the member's departure. -/
def Departed (cluster : GossipCluster) (member : NodeId) : Prop :=
  ∃ node epoch, (epoch, .leave member) ∈ (cluster.peers node).recorded

/-- A node whose suspicion of a member runs out is the sequencer once the member is gone, unless the
member's departure is recorded already. -/
def FoundBySequencer (config : GossipConfig) (cluster : GossipCluster) : GossipLabel → Prop
  | .finishTick node now =>
      ∀ target, .markDead target ∈
          ((cluster.peers node).detector.checkTimeouts config.timeouts now).2 →
        cluster.Departed target ∨ Peer.LowestBut node target (cluster.peers node).memberTable
  | _ => True

structure Mourned (cluster : GossipCluster) : Prop where
  watches : ∀ node, (cluster.peers node).WatchesOthers node
  recorded : ∀ node member, (cluster.peers node).memberTable.statusOf member = some .dead →
    cluster.Departed member
  told : ∀ packet ∈ cluster.inFlight, ∀ update ∈ packet.updates, update.2.status = .dead →
    cluster.Departed update.1

theorem Starts.mourned (starts : cluster.Starts config) : cluster.Mourned where
  watches := by
    intro node target watched
    rw [(starts.peers node).detector] at watched
    rcases watched with probe | suspicion
    · cases probe
    · cases suspicion
  recorded := by
    intro node member dead
    rcases Option.map_eq_some_iff.mp dead with ⟨record, found, isDead⟩
    have alive := ((starts.peers node).seeded member record found).2.2
    rw [alive] at isDead
    cases isDead
  told := by simp [starts.inFlight]

/-- Departures stay recorded. -/
theorem Departed.update {member node : NodeId} {peer : Peer}
    (departed : cluster.Departed member)
    (grows : ∀ entry ∈ (cluster.peers node).recorded, entry ∈ peer.recorded)
    (peers : next.peers = Function.update cluster.peers node peer) : next.Departed member := by
  rcases departed with ⟨other, epoch, recorded⟩
  refine ⟨other, epoch, ?_⟩
  rw [peers]
  rcases eq_or_ne other node with rfl | differ
  · rw [Function.update_self]
    exact grows _ recorded
  · rw [Function.update_of_ne differ]
    exact recorded

theorem Mourned.step (mourned : cluster.Mourned) {label : GossipLabel}
    (found : cluster.FoundBySequencer config label)
    (stepped : cluster.step config label = some next) : next.Mourned := by
  cases moved_of_step stepped with
  | lost peers kept minted =>
      have departed : ∀ member, cluster.Departed member → next.Departed member := by
        intro member earlier
        unfold Departed
        rw [peers]
        exact earlier
      refine ⟨?_, ?_, ?_⟩
      · rw [peers]
        exact mourned.watches
      · intro node member dead
        rw [peers] at dead
        exact departed member (mourned.recorded node member dead)
      · intro packet packetMem update updateMem dead
        exact departed _ (mourned.told packet (kept packetMem) update updateMem dead)
  | peer node peerStep peer moved peers updates mutations sent minted finishes acks =>
      have grows : ∀ entry ∈ (cluster.peers node).recorded, entry ∈ peer.recorded := by
        intro entry entryMem
        rw [Peer.recorded_step moved]
        exact List.mem_append_left _ (List.mem_append_left _ entryMem)
      have departed : ∀ member, cluster.Departed member → next.Departed member :=
        fun member earlier => earlier.update grows peers
      -- every death of the moved peer was known, was told, or was found by it just now
      have mournedPeer : ∀ member, peer.memberTable.statusOf member = some .dead →
          next.Departed member := by
        intro member dead
        rcases Peer.statusOf_step moved dead with
          earlier | ⟨record, told, isDead⟩ | ⟨_, isAlive⟩ | ⟨now, isFinish, declared⟩
        · exact departed member (mourned.recorded node member earlier)
        · rcases updates _ told with ⟨packet, inFlight, carried⟩
          exact departed member (mourned.told packet inFlight _ carried isDead)
        · cases isAlive
        · rcases declared with ⟨isSuspect, _⟩ | ⟨_, declared⟩
          · cases isSuspect
          · rw [finishes now isFinish] at found
            rcases found member declared with already | lowest
            · exact departed member already
            · subst isFinish
              have others := (mourned.watches node).actions config.timeouts now
              rcases Peer.minted_actAll { cluster.peers node with
                  detector := ((cluster.peers node).detector.checkTimeouts config.timeouts now).1 }
                others.1 others.2 lowest declared with ⟨epoch, mints⟩
              refine ⟨node, epoch, ?_⟩
              rw [peers, Function.update_self, Peer.recorded_step moved]
              exact List.mem_append_right _ mints
      refine ⟨?_, ?_, ?_⟩
      · intro other
        rw [peers]
        rcases eq_or_ne other node with rfl | differ
        · rw [Function.update_self]
          exact (mourned.watches other).step moved
        · rw [Function.update_of_ne differ]
          exact mourned.watches other
      · intro other member dead
        rw [peers] at dead
        rcases eq_or_ne other node with rfl | differ
        · rw [Function.update_self] at dead
          exact mournedPeer member dead
        · rw [Function.update_of_ne differ] at dead
          exact departed member (mourned.recorded other member dead)
      · intro packet packetMem update updateMem dead
        rcases sent packet packetMem with old | ⟨fromPeer, _⟩
        · exact departed _ (mourned.told packet old update updateMem dead)
        · rw [fromPeer] at updateMem
          rcases update with ⟨member, record⟩
          apply mournedPeer member
          rw [MemberTable.statusOf, MemberTable.mem_all.mp updateMem]
          exact congrArg some dead

/-- In every run in which deaths are found by the sequencer, every member that some node records
dead has its departure recorded. -/
theorem departed_of_dead
    (reached : (system config).ReachableVia (FoundBySequencer config) cluster) {node : NodeId}
    {member : NodeId} (dead : (cluster.peers node).memberTable.statusOf member = some .dead) :
    cluster.Departed member := by
  have mourned : cluster.Mourned := by
    refine Transition.System.ReachableVia.induction ?_ ?_ reached
    · intro start starts
      exact Starts.mourned starts
    · intro before label after kept found stepped
      exact Mourned.step kept found stepped
  exact mourned.recorded node member dead

theorem lowestBut_of_isSequencer {node target : NodeId} {table : MemberTable}
    (differ : node ≠ target)
    (sequencer : isSequencer node (table.markDead target).aliveMembers = true) :
    Peer.LowestBut node target table := by
  rw [MemberTable.isSequencer_iff] at sequencer
  refine ⟨?_, ?_⟩
  · have alive := sequencer.1
    rwa [MemberTable.statusOf_markDead, if_neg fun both => differ both.1] at alive
  · intro other notTarget alive
    apply sequencer.2
    rwa [MemberTable.statusOf_markDead, if_neg fun both => notTarget both.1]

/-- Whether the members a tick declares dead leave its node the sequencer. -/
def foundBySequencer (config : GossipConfig) (cluster : GossipCluster) : GossipLabel → Bool
  | .finishTick node now =>
      ((cluster.peers node).detector.checkTimeouts config.timeouts now).2.all fun action =>
        match action with
        | .markDead target => node ≠ target &&
            isSequencer node ((cluster.peers node).memberTable.markDead target).aliveMembers
        | _ => true
  | _ => true

theorem foundBySequencer_sound (label : GossipLabel)
    (guarded : foundBySequencer config cluster label = true) :
    cluster.FoundBySequencer config label := by
  cases label with
  | finishTick node now =>
      intro target declared
      have passes := List.all_eq_true.mp guarded _ declared
      simp only [ne_eq, decide_not, Bool.and_eq_true, Bool.not_eq_eq_eq_not, Bool.not_true,
        decide_eq_false_iff_not] at passes
      exact Or.inr (lowestBut_of_isSequencer passes.1 passes.2)
  | _ => trivial

theorem departed_of_dead_found : ∃ cluster,
    (system threeNodes).ReachableVia (FoundBySequencer threeNodes) cluster ∧
    (cluster.peers 1).memberTable.statusOf 2 = some .dead ∧ cluster.Departed 2 := by
  have executed : (((system threeNodes).execVia (foundBySequencer threeNodes) three
      (detects 1 0)).map fun cluster => (cluster.peers 1).memberTable.statusOf 2) =
        some (some .dead) := by
    decide +kernel
  rcases Option.map_eq_some_iff.mp executed with ⟨cluster, run, dead⟩
  have reached := Transition.System.reachableVia_of_execVia
    (fun _ label guarded => foundBySequencer_sound label guarded) three_starts run
  exact ⟨cluster, reached, dead, departed_of_dead reached dead⟩

/-- A ping that is acked at once. -/
def exchanges (node : NodeId) (now : ℕ) : List GossipLabel :=
  [.beginTick node now, .deliver 0, .ack 0, .finishTick node now]

/-- Node 2 finds node 3 dead and tells node 1, the sequencer, which thus knows of the death but never
mints the departure. -/
theorem undeparted : ∃ cluster, (system threeNodes).Reachable cluster ∧
    (cluster.peers 1).memberTable.statusOf 3 = some .dead ∧
    isSequencer 1 (cluster.peers 1).memberTable.aliveMembers = true ∧
    ¬(cluster.peers 1).detector.Watches 3 ∧ (cluster.peers 1).stage = .sleeping ∧
    (cluster.peers 2).stage = .sleeping ∧ (cluster.peers 3).stage = .sleeping ∧
    cluster.inFlight = [] ∧ ¬cluster.Departed 3 := by
  have executed : (((system threeNodes).exec three
      (exchanges 2 0 ++ detects 2 1000 ++ List.replicate 3 (.lose 0) ++ exchanges 2 9000)).map
        fun cluster =>
          ((cluster.peers 1).memberTable.statusOf 3,
            isSequencer 1 (cluster.peers 1).memberTable.aliveMembers &&
              !decide ((cluster.peers 1).detector.Watches 3),
            [1, 2, 3].map fun node => (cluster.peers node).stage,
            cluster.inFlight.length + cluster.minted.length)) =
      some (some .dead, true, [.sleeping, .sleeping, .sleeping], 0) := by
    decide +kernel
  rcases Option.map_eq_some_iff.mp executed with ⟨cluster, run, observed⟩
  have reached := Transition.System.reachable_of_exec three_starts run
  simp only [List.map_cons, List.map_nil, Prod.mk.injEq, List.cons.injEq, and_true,
    Bool.and_eq_true, Bool.not_eq_eq_eq_not, Bool.not_true, decide_eq_false_iff_not,
    Nat.add_eq_zero_iff, List.length_eq_zero_iff] at observed
  rcases observed with
    ⟨dead, ⟨sequencer, unwatched⟩, ⟨first, second, third⟩, quiet, unminted⟩
  refine ⟨cluster, reached, dead, sequencer, unwatched, first, second, third, quiet, ?_⟩
  rintro ⟨node, epoch, recorded⟩
  have minted := (known_of_reachable reached).recorded node _ recorded
  rw [unminted] at minted
  cases minted

end GossipCluster

end Seisin
