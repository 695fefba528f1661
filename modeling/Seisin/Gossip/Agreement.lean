import Seisin.Gossip.Sequencing

/-!
# One mutation for each epoch

Only minted mutations travel, so what nodes record, buffer and apply has been minted by one of them.
The mutations minted so far have the epochs from one on, each once, as long as every node that mints
remembers a mutation at least as new as all of these.
-/

namespace Seisin

namespace Peer

variable {config : GossipConfig} {selfId : NodeId} {peer next : Peer}

theorem recorded_mergeIncoming (peer : Peer) (updates : List (NodeId × MemberRecord))
    (mutations : List (ℕ × RingMutation)) :
    (peer.mergeIncoming updates mutations).recorded = peer.recorded ++ mutations := by
  rcases mergeIncoming_eq peer updates mutations with ⟨_, _, merged⟩
  rw [merged]

theorem recorded_act (action : TimeoutAction) :
    (peer.act selfId action).1.recorded = peer.recorded ++ (peer.act selfId action).2 := by
  cases action with
  | escalateToIndirect target => simp [act]
  | markSuspect target => simp [act]
  | markDead target =>
      simp only [act, mintLeaveIfSequencer]
      split
      · split <;> rfl
      · split <;> exact (List.append_nil _).symm

theorem recorded_actAll (peer : Peer) (actions : List TimeoutAction) :
    (peer.actAll selfId actions).1.recorded =
      peer.recorded ++ (peer.actAll selfId actions).2 := by
  induction actions generalizing peer with
  | nil => simp [actAll]
  | cons action actions ih =>
      simp only [actAll]
      rw [ih, recorded_act, List.append_assoc]

/-- A step records what the node takes in and what it mints. -/
theorem recorded_step {peerStep : PeerStep}
    (stepped : peer.step config selfId peerStep = some next) :
    next.recorded = peer.recorded ++ peerStep.mutations ++ peer.mints config selfId peerStep := by
  cases peerStep with
  | receive updates mutations =>
      simp only [step, serve, Option.some.injEq] at stepped
      subst stepped
      have merged := recorded_mergeIncoming peer updates mutations
      simp only [PeerStep.mutations, mints, List.append_nil]
      rw [← merged]
      split <;> rfl
  | beginTick now =>
      simp only [step, Option.ite_none_right_eq_some, Option.some.injEq] at stepped
      rcases stepped with ⟨_, rfl⟩
      have refuted : (peer.selfRefuteIfFalselySuspected selfId).recorded = peer.recorded := by
        unfold selfRefuteIfFalselySuspected
        split <;> rfl
      simp only [PeerStep.mutations, mints, List.append_nil]
      rw [← refuted]
      unfold beginTick pickTarget
      split
      · split <;> rfl
      · rfl
  | ack target updates mutations =>
      simp only [step, Option.ite_none_right_eq_some, Option.some.injEq] at stepped
      rcases stepped with ⟨_, rfl⟩
      simp only [PeerStep.mutations, mints, List.append_nil]
      exact recorded_mergeIncoming peer updates mutations
  | miss =>
      simp only [step] at stepped
      split at stepped
      · cases stepped
        simp [PeerStep.mutations, mints]
      · cases stepped
  | finishTick now =>
      simp only [step, Option.ite_none_right_eq_some, Option.some.injEq] at stepped
      rcases stepped with ⟨_, rfl⟩
      simp only [PeerStep.mutations, mints, List.append_nil]
      exact recorded_actAll
        { peer with detector := (peer.detector.checkTimeouts config.timeouts now).1 }
        (peer.detector.checkTimeouts config.timeouts now).2

/-! ## Consecutive epochs -/

theorem highestSeenEpoch_eq {highest : ℕ} (bound : ∀ entry ∈ peer.recentMutations,
      entry.1 ≤ highest) (reached : ∃ entry ∈ peer.recentMutations, entry.1 = highest) :
    peer.highestSeenEpoch = highest := by
  rcases reached with ⟨entry, entryMem, isHighest⟩
  apply le_antisymm
  · rcases highestSeenEpoch_mem (List.ne_nil_of_mem entryMem) with ⟨other, otherMem, same⟩
    rw [← same]
    exact bound other otherMem
  · rw [← isHighest]
    exact le_highestSeenEpoch entryMem

theorem highestSeenEpoch_recordMutation (peer : Peer) (mutation : RingMutation) :
    (peer.recordMutation (peer.highestSeenEpoch + 1) mutation).highestSeenEpoch =
      peer.highestSeenEpoch + 1 := by
  have recent : (peer.recordMutation (peer.highestSeenEpoch + 1) mutation).recentMutations =
      peer.recentMutations.rtake 15 ++ [(peer.highestSeenEpoch + 1, mutation)] :=
    List.rtake_concat_succ _ 15 _
  apply highestSeenEpoch_eq
  · intro entry entryMem
    rw [recent] at entryMem
    rcases List.mem_append.mp entryMem with old | new
    · have seen := le_highestSeenEpoch (List.mem_of_mem_drop old)
      omega
    · rw [List.mem_singleton.mp new]
  · rw [recent]
    exact ⟨_, List.mem_append_right _ List.mem_cons_self, rfl⟩

theorem minted_act_cases (selfId : NodeId) (peer : Peer) (action : TimeoutAction) :
    ((peer.act selfId action).2 = [] ∧
      (peer.act selfId action).1.highestSeenEpoch = peer.highestSeenEpoch) ∨
    ∃ mutation, (peer.act selfId action).2 = [(peer.highestSeenEpoch + 1, mutation)] ∧
      (peer.act selfId action).1.highestSeenEpoch = peer.highestSeenEpoch + 1 := by
  cases action with
  | escalateToIndirect target => exact Or.inl ⟨rfl, rfl⟩
  | markSuspect target => exact Or.inl ⟨rfl, rfl⟩
  | markDead target =>
      have recorded := highestSeenEpoch_recordMutation
        { peer with memberTable := peer.memberTable.markDead target } (.leave target)
      simp only [act, mintLeaveIfSequencer]
      split
      · right
        refine ⟨.leave target, rfl, ?_⟩
        split
        · exact recorded
        · exact recorded
      · left
        refine ⟨rfl, ?_⟩
        split <;> rfl

/-- The mutations minted in one tick have consecutive epochs. -/
theorem epochs_actAll (actions : List TimeoutAction) (position : ℕ) (entry : ℕ × RingMutation)
    (found : (peer.actAll selfId actions).2[position]? = some entry) :
    entry.1 = peer.highestSeenEpoch + 1 + position := by
  induction actions generalizing peer position with
  | nil => simp [actAll] at found
  | cons action actions ih =>
      simp only [actAll] at found
      rcases minted_act_cases selfId peer action with
        ⟨nothing, same⟩ | ⟨mutation, minted, higher⟩
      · rw [nothing, List.nil_append] at found
        rw [← same]
        exact ih position found
      · rw [minted] at found
        cases position with
        | zero =>
            cases found
            rfl
        | succ position =>
            have later := ih position found
            rw [higher] at later
            omega

end Peer

namespace GossipCluster

variable {config : GossipConfig} {cluster next : GossipCluster}

/-- A node that mints remembers a mutation at least as new as every one minted so far. -/
def MintsInformed (config : GossipConfig) (cluster : GossipCluster) : GossipLabel → Prop
  | .finishTick node now =>
      (cluster.peers node).mints config node (.finishTick now) ≠ [] →
        ∀ entry ∈ cluster.minted, ∃ remembered ∈ (cluster.peers node).recentMutations,
          entry.1 ≤ remembered.1
  | _ => True

/-- What nodes have recorded or sent was minted. -/
structure Known (cluster : GossipCluster) : Prop where
  accounted : ∀ node, (cluster.peers node).Accounted
  recorded : ∀ node, ∀ entry ∈ (cluster.peers node).recorded, entry ∈ cluster.minted
  sent : ∀ packet ∈ cluster.inFlight, ∀ entry ∈ packet.mutations, entry ∈ cluster.minted

theorem Starts.known (starts : cluster.Starts config) : cluster.Known where
  accounted := fun node => (starts.peers node).accounted
  recorded := fun node entry entryMem => by
    rw [(starts.peers node).recorded] at entryMem
    cases entryMem
  sent := by simp [starts.inFlight]

theorem Known.step (known : cluster.Known) {label : GossipLabel}
    (stepped : cluster.step config label = some next) : next.Known := by
  cases moved_of_step stepped with
  | lost peers kept minted =>
      refine ⟨?_, ?_, ?_⟩
      · rw [peers]
        exact known.accounted
      · rw [peers, minted]
        exact known.recorded
      · rw [minted]
        exact fun packet packetMem => known.sent packet (kept packetMem)
  | peer node peerStep peer moved peers updates mutations sent minted finishes acks =>
      have accounted : peer.Accounted := (known.accounted node).step moved
      have recorded : ∀ entry ∈ peer.recorded, entry ∈ next.minted := by
        intro entry entryMem
        rw [Peer.recorded_step moved] at entryMem
        rw [minted]
        rcases List.mem_append.mp entryMem with earlier | new
        · rcases List.mem_append.mp earlier with old | heard
          · exact List.mem_append_left _ (known.recorded node entry old)
          · rcases mutations entry heard with ⟨packet, inFlight, carried⟩
            exact List.mem_append_left _ (known.sent packet inFlight entry carried)
        · exact List.mem_append_right _ new
      refine ⟨?_, ?_, ?_⟩
      · intro other
        rw [peers]
        rcases eq_or_ne other node with rfl | differ
        · rw [Function.update_self]
          exact accounted
        · rw [Function.update_of_ne differ]
          exact known.accounted other
      · intro other entry entryMem
        rw [peers] at entryMem
        rcases eq_or_ne other node with rfl | differ
        · rw [Function.update_self] at entryMem
          exact recorded entry entryMem
        · rw [Function.update_of_ne differ] at entryMem
          rw [minted]
          exact List.mem_append_left _ (known.recorded other entry entryMem)
      · intro packet packetMem entry entryMem
        rcases sent packet packetMem with old | ⟨_, fromPeer⟩
        · rw [minted]
          exact List.mem_append_left _ (known.sent packet old entry entryMem)
        · rw [fromPeer, accounted.recent] at entryMem
          exact recorded entry (List.mem_of_mem_drop entryMem)

theorem known_of_reachable (reached : (system config).Reachable cluster) : cluster.Known := by
  refine Transition.System.ReachableVia.induction ?_ ?_ reached
  · intro start starts
    exact Starts.known starts
  · intro before label after known _ stepped
    exact Known.step known stepped

/-- Mutations are numbered from one on as they are minted. -/
structure Agreed (cluster : GossipCluster) : Prop extends cluster.Known where
  epochs : ∀ position entry, cluster.minted[position]? = some entry → entry.1 = position + 1

theorem Starts.agreed (starts : cluster.Starts config) : cluster.Agreed where
  toKnown := starts.known
  epochs := by simp [starts.minted]

theorem Agreed.epoch_le (agreed : cluster.Agreed) {entry : ℕ × RingMutation}
    (entryMem : entry ∈ cluster.minted) : entry.1 ≤ cluster.minted.length := by
  rcases List.getElem?_of_mem entryMem with ⟨position, found⟩
  rcases List.getElem?_eq_some_iff.mp found with ⟨within, _⟩
  rw [agreed.epochs position entry found]
  omega

/-- An informed node has seen the last epoch. -/
theorem Agreed.highestSeenEpoch (agreed : cluster.Agreed) {node : NodeId}
    (informed : ∀ entry ∈ cluster.minted, ∃ remembered ∈ (cluster.peers node).recentMutations,
      entry.1 ≤ remembered.1) :
    (cluster.peers node).highestSeenEpoch = cluster.minted.length := by
  have known : ∀ entry ∈ (cluster.peers node).recentMutations,
      entry.1 ≤ cluster.minted.length := by
    intro entry entryMem
    rw [(agreed.accounted node).recent] at entryMem
    exact agreed.epoch_le (agreed.recorded node entry (List.mem_of_mem_drop entryMem))
  cases count : cluster.minted.length with
  | zero =>
      have nothing : (cluster.peers node).recentMutations = [] := by
        rw [(agreed.accounted node).recent]
        by_contra some_
        rcases List.exists_mem_of_ne_nil _ some_ with ⟨entry, entryMem⟩
        have minted := agreed.recorded node entry (List.mem_of_mem_drop entryMem)
        rw [List.eq_nil_of_length_eq_zero count] at minted
        cases minted
      simp [Peer.highestSeenEpoch, Peer.piggyback, nothing]
  | succ last =>
      rw [count] at known
      apply Peer.highestSeenEpoch_eq known
      have within : last < cluster.minted.length := by omega
      have isLast := agreed.epochs last _ (List.getElem?_eq_getElem within)
      rcases informed _ (List.getElem_mem within) with ⟨remembered, inMemory, newer⟩
      have bounded := known remembered inMemory
      exact ⟨remembered, inMemory, by omega⟩

theorem Agreed.step (agreed : cluster.Agreed) {label : GossipLabel}
    (informed : cluster.MintsInformed config label)
    (stepped : cluster.step config label = some next) : next.Agreed := by
  refine ⟨agreed.toKnown.step stepped, ?_⟩
  intro position entry found
  cases moved_of_step stepped with
  | lost peers kept minted =>
      rw [minted] at found
      exact agreed.epochs position entry found
  | peer node peerStep peer moved peers updates mutations sent minted finishes acks =>
      rw [minted] at found
      by_cases inside : position < cluster.minted.length
      · rw [List.getElem?_append_left inside] at found
        exact agreed.epochs position entry found
      · rw [not_lt] at inside
        rw [List.getElem?_append_right inside] at found
        -- only the end of a tick mints, and then the node has seen the last epoch
        cases peerStep with
        | finishTick now =>
            rw [finishes now rfl] at informed
            have mints : (cluster.peers node).mints config node (.finishTick now) ≠ [] := by
              intro nothing
              rw [nothing] at found
              cases found
            have highest := agreed.highestSeenEpoch (informed mints)
            have epoch := Peer.epochs_actAll _ _ entry found
            change entry.1 = (cluster.peers node).highestSeenEpoch + 1 + _ at epoch
            omega
        | _ => cases found

/-- In every run in which only informed nodes mint, no two mutations share an epoch, and nodes that
have applied an epoch applied the same mutation. -/
theorem epochs_agree (reached : (system config).ReachableVia (MintsInformed config) cluster) :
    (∀ first ∈ cluster.minted, ∀ second ∈ cluster.minted, first.1 = second.1 → first = second) ∧
      ∀ (node other : NodeId) (position : ℕ) (mutation otherMutation : RingMutation),
        (cluster.peers node).applied[position]? = some mutation →
        (cluster.peers other).applied[position]? = some otherMutation →
        mutation = otherMutation := by
  have agreed : cluster.Agreed := by
    refine Transition.System.ReachableVia.induction ?_ ?_ reached
    · intro start starts
      exact Starts.agreed starts
    · intro before label after kept informed stepped
      exact Agreed.step kept informed stepped
  have once : ∀ first ∈ cluster.minted, ∀ second ∈ cluster.minted, first.1 = second.1 →
      first = second := by
    intro first firstMem second secondMem same
    rcases List.getElem?_of_mem firstMem with ⟨position, found⟩
    rcases List.getElem?_of_mem secondMem with ⟨otherPosition, otherFound⟩
    have firstEpoch := agreed.epochs position first found
    have secondEpoch := agreed.epochs otherPosition second otherFound
    have samePosition : position = otherPosition := by omega
    subst samePosition
    rw [found] at otherFound
    exact Option.some.inj otherFound
  refine ⟨once, ?_⟩
  intro node other position mutation otherMutation applied otherApplied
  have first := agreed.recorded node _ ((agreed.accounted node).applied position _ applied)
  have second := agreed.recorded other _
    ((agreed.accounted other).applied position _ otherApplied)
  exact congrArg Prod.snd (once _ first _ second rfl)

instance (config : GossipConfig) (cluster : GossipCluster) (label : GossipLabel) :
    Decidable (cluster.MintsInformed config label) :=
  match label with
  | .finishTick _ _ => inferInstanceAs (Decidable (_ → _))
  | .beginTick _ _ | .deliver _ | .ack _ | .lose _ | .miss _ => inferInstanceAs (Decidable True)

def threeNodes : GossipConfig := ⟨[1, 2, 3], [], ⟨1000, 5000⟩⟩

/-- Three compute nodes as they start. -/
def three : GossipCluster :=
  booted threeNodes ⟨Ring.fromMembers [(1, 1), (2, 1), (3, 1)], ClusterState.fromConfig []⟩

theorem three_starts : three.Starts threeNodes := booted_starts (by decide) _

/-- A node's ticks from its first unanswered ping of a member until it declares the member dead. -/
def detects (node : NodeId) (now : ℕ) : List GossipLabel :=
  [.beginTick node now, .miss node, .finishTick node (now + 1000),
    .beginTick node (now + 1000), .miss node, .finishTick node (now + 2000),
    .beginTick node (now + 2000), .miss node, .finishTick node (now + 7000)]

theorem epochs_agree_departures : ∃ cluster,
    (system threeNodes).ReachableVia (MintsInformed threeNodes) cluster ∧
    cluster.minted = [(1, .leave 2), (2, .leave 3)] ∧
    ∀ first ∈ cluster.minted, ∀ second ∈ cluster.minted, first.1 = second.1 →
      first = second := by
  have executed : (((system threeNodes).execVia
      (fun cluster label => decide (cluster.MintsInformed threeNodes label)) three
      (detects 1 0 ++ detects 1 7000)).map fun cluster => cluster.minted) =
        some [(1, .leave 2), (2, .leave 3)] := by
    decide +kernel
  rcases Option.map_eq_some_iff.mp executed with ⟨cluster, run, minted⟩
  have reached := Transition.System.reachableVia_of_execVia
    (fun _ _ guarded => of_decide_eq_true guarded) three_starts run
  exact ⟨cluster, reached, minted, (epochs_agree reached).1⟩

/-- Two nodes that suspect each other both hold themselves for the sequencer, and both mint the
first epoch. -/
theorem epochs_clash : ∃ cluster, (system threeNodes).Reachable cluster ∧
    (1, .leave 2) ∈ cluster.minted ∧ (1, .leave 1) ∈ cluster.minted := by
  have executed : (((system threeNodes).exec three (detects 1 0 ++ detects 2 0)).map
      fun cluster => cluster.minted) = some [(1, .leave 2), (1, .leave 1)] := by
    decide +kernel
  rcases Option.map_eq_some_iff.mp executed with ⟨cluster, run, minted⟩
  refine ⟨cluster, Transition.System.reachable_of_exec three_starts run, ?_, ?_⟩
  · simp [minted]
  · simp [minted]

end GossipCluster

end Seisin
