import Seisin.Gossip.Loop

/-!
# Minted mutations

A node that holds itself for the sequencer numbers the departure of a member it finds dead, one above
the highest epoch among the mutations it has recorded last.  So the epoch is new to the node exactly
if the highest epoch it ever recorded is among those, and new to all nodes as long as only nodes
mint that have the highest epoch of all there.
-/

namespace Seisin

namespace Peer

/-- The mutations a node remembers for its next messages. -/
def lastRecorded (peer : Peer) : List (ℕ × RingMutation) :=
  peer.recorded.rtake recentMutationsCap

/-- What a node keeps and has applied is from what it recorded. -/
structure Accounted (peer : Peer) : Prop where
  recent : peer.recentMutations = peer.lastRecorded
  pending : ∀ epoch mutation, peer.mutationLog.pending.lookup epoch = some mutation →
    (epoch, mutation) ∈ peer.recorded
  epochs : peer.mutationLog.appliedEpoch = peer.applied.length
  applied : ∀ position mutation, peer.applied[position]? = some mutation →
    (position + 1, mutation) ∈ peer.recorded

variable {config : GossipConfig} {selfId : NodeId} {peer : Peer}

theorem Starts.accounted (starts : peer.Starts config selfId) : peer.Accounted where
  recent := by rw [starts.recent, lastRecorded, starts.recorded, List.rtake_nil]
  pending := by simp [starts.log]
  epochs := by rw [starts.log, starts.applied, List.length_nil]
  applied := by simp [starts.applied]

theorem rtake_rtake_concat {α : Type*} (values : List α) (value : α) (count : ℕ) :
    (values.rtake (count + 1) ++ [value]).rtake (count + 1) =
      (values ++ [value]).rtake (count + 1) := by
  rw [List.rtake_concat_succ, List.rtake_concat_succ]
  simp [List.rtake_eq_reverse_take_reverse, List.take_take]

theorem Accounted.recordMutation (accounted : peer.Accounted) (epoch : ℕ)
    (mutation : RingMutation) : (peer.recordMutation epoch mutation).Accounted := by
  constructor
  · change List.rtake (peer.recentMutations ++ [(epoch, mutation)]) recentMutationsCap = _
    rw [accounted.recent]
    exact rtake_rtake_concat peer.recorded (epoch, mutation) 15
  · intro other otherMutation found
    change (peer.mutationLog.record epoch mutation).pending.lookup other = _ at found
    rw [MutationLog.lookup_record] at found
    change _ ∈ peer.recorded ++ [(epoch, mutation)]
    split at found
    · rename_i same
      cases found
      rw [same.1]
      exact List.mem_append_right _ List.mem_cons_self
    · exact List.mem_append_left _ (accounted.pending _ _ found)
  · change (peer.mutationLog.record epoch mutation).appliedEpoch = _
    rw [MutationLog.appliedEpoch_record]
    exact accounted.epochs
  · intro position other found
    exact List.mem_append_left _ (accounted.applied position other found)

theorem Accounted.mergeIncoming (accounted : peer.Accounted)
    (updates : List (NodeId × MemberRecord)) (mutations : List (ℕ × RingMutation)) :
    (peer.mergeIncoming updates mutations).Accounted := by
  unfold Peer.mergeIncoming
  have start : Accounted { peer with memberTable := peer.memberTable.mergeAll updates } :=
    ⟨accounted.recent, accounted.pending, accounted.epochs, accounted.applied⟩
  generalize { peer with memberTable := peer.memberTable.mergeAll updates } = merged at start
  induction mutations generalizing merged with
  | nil => exact start
  | cons entry mutations ih => exact ih _ (start.recordMutation entry.1 entry.2)

theorem Accounted.applyReadyMutations (accounted : peer.Accounted) :
    peer.applyReadyMutations.Accounted := by
  rcases peer.mutationLog.drainApplicable_spec with ⟨run, epochs, kept⟩
  constructor
  · exact accounted.recent
  · intro epoch mutation found
    have inLog := peer.mutationLog.lookup_of_drainApplicable found
    exact accounted.pending _ _ inLog
  · change peer.mutationLog.drainApplicable.2.appliedEpoch =
      (peer.applied ++ peer.mutationLog.drainApplicable.1).length
    rw [epochs, List.length_append, accounted.epochs]
  · intro position mutation found
    change (peer.applied ++ peer.mutationLog.drainApplicable.1)[position]? = _ at found
    by_cases inside : position < peer.applied.length
    · rw [List.getElem?_append_left inside] at found
      exact accounted.applied position mutation found
    · rw [not_lt] at inside
      rw [List.getElem?_append_right inside] at found
      have next := run.segment _ _ found
      rw [accounted.epochs, show peer.applied.length + 1 + (position - peer.applied.length) =
        position + 1 by omega] at next
      exact accounted.pending _ _ next

theorem Accounted.act (accounted : peer.Accounted) (selfId : NodeId) (action : TimeoutAction) :
    (peer.act selfId action).1.Accounted := by
  cases action with
  | escalateToIndirect target => exact accounted
  | markSuspect target =>
      exact ⟨accounted.recent, accounted.pending, accounted.epochs, accounted.applied⟩
  | markDead target =>
      have marked : Accounted { peer with memberTable := peer.memberTable.markDead target } :=
        ⟨accounted.recent, accounted.pending, accounted.epochs, accounted.applied⟩
      simp only [Peer.act, mintLeaveIfSequencer]
      split
      · have minted := marked.recordMutation
          (Peer.highestSeenEpoch
            { peer with memberTable := peer.memberTable.markDead target } + 1) (.leave target)
        split
        · exact ⟨minted.recent, minted.pending, minted.epochs, minted.applied⟩
        · exact minted
      · split
        · exact ⟨marked.recent, marked.pending, marked.epochs, marked.applied⟩
        · exact marked

theorem Accounted.actAll (accounted : peer.Accounted) (selfId : NodeId)
    (actions : List TimeoutAction) :
    (peer.actAll selfId actions).1.Accounted := by
  induction actions generalizing peer with
  | nil => exact accounted
  | cons action actions ih => exact ih (accounted.act selfId action)

theorem Accounted.selfRefute (accounted : peer.Accounted) (selfId : NodeId) :
    (peer.selfRefuteIfFalselySuspected selfId).Accounted := by
  unfold selfRefuteIfFalselySuspected
  split
  · exact ⟨accounted.recent, accounted.pending, accounted.epochs, accounted.applied⟩
  · exact accounted

theorem Accounted.pickTarget (accounted : peer.Accounted) (selfId : NodeId) (now : ℕ) :
    (peer.pickTarget selfId now).Accounted := by
  unfold Peer.pickTarget
  split
  · split
    · exact accounted
    · exact ⟨accounted.recent, accounted.pending, accounted.epochs, accounted.applied⟩
  · exact accounted

theorem Accounted.step (accounted : peer.Accounted) {peerStep : PeerStep} {next : Peer}
    (stepped : peer.step config selfId peerStep = some next) : next.Accounted := by
  cases peerStep with
  | receive updates mutations =>
      simp only [Peer.step, serve, Option.some.injEq] at stepped
      subst stepped
      have merged := accounted.mergeIncoming updates mutations
      split
      · exact merged.applyReadyMutations
      · exact merged
  | beginTick now =>
      simp only [Peer.step, Option.ite_none_right_eq_some, Option.some.injEq] at stepped
      rcases stepped with ⟨_, rfl⟩
      have picked := (accounted.selfRefute selfId).pickTarget selfId now
      exact ⟨picked.recent, picked.pending, picked.epochs, picked.applied⟩
  | ack target updates mutations =>
      simp only [Peer.step, Option.ite_none_right_eq_some, Option.some.injEq] at stepped
      rcases stepped with ⟨_, rfl⟩
      have merged := accounted.mergeIncoming updates mutations
      exact ⟨merged.recent, merged.pending, merged.epochs, merged.applied⟩
  | miss =>
      simp only [Peer.step] at stepped
      split at stepped
      · cases stepped
        exact ⟨accounted.recent, accounted.pending, accounted.epochs, accounted.applied⟩
      · cases stepped
  | finishTick now =>
      simp only [Peer.step, Option.ite_none_right_eq_some, Option.some.injEq] at stepped
      rcases stepped with ⟨_, rfl⟩
      have checked : Accounted
          { peer with detector := (peer.detector.checkTimeouts config.timeouts now).1 } :=
        ⟨accounted.recent, accounted.pending, accounted.epochs, accounted.applied⟩
      have applied := (checked.actAll selfId
        (peer.detector.checkTimeouts config.timeouts now).2).applyReadyMutations
      exact ⟨applied.recent, applied.pending, applied.epochs, applied.applied⟩

theorem accounted_of_reachable (reached : (system config selfId).Reachable peer) :
    peer.Accounted := by
  refine Transition.System.ReachableVia.induction ?_ ?_ reached
  · intro start starts
    exact Starts.accounted starts
  · intro before peerStep after accounted _ stepped
    exact Accounted.step accounted stepped

/-! ## Fresh epochs -/

/-- The highest epoch the node ever recorded is among the mutations it remembers. -/
def RemembersHighest (peer : Peer) : Prop :=
  peer.recorded = [] ∨ ∃ entry ∈ peer.lastRecorded, ∀ other ∈ peer.recorded, other.1 ≤ entry.1

theorem le_highestSeenEpoch {entry : ℕ × RingMutation} (entryMem : entry ∈ peer.recentMutations) :
    entry.1 ≤ peer.highestSeenEpoch := by
  unfold highestSeenEpoch piggyback
  cases highest : (peer.recentMutations.map Prod.fst).max? with
  | none =>
      rw [List.max?_eq_none_iff, List.map_eq_nil_iff] at highest
      simp [highest] at entryMem
  | some epoch =>
      exact (List.max?_eq_some_iff.mp highest).2 _ (List.mem_map_of_mem entryMem)

theorem highestSeenEpoch_mem (some_ : peer.recentMutations ≠ []) :
    ∃ entry ∈ peer.recentMutations, entry.1 = peer.highestSeenEpoch := by
  unfold highestSeenEpoch piggyback
  cases highest : (peer.recentMutations.map Prod.fst).max? with
  | none =>
      rw [List.max?_eq_none_iff, List.map_eq_nil_iff] at highest
      exact absurd highest some_
  | some epoch =>
      have found := (List.max?_eq_some_iff.mp highest).1
      rcases List.mem_map.mp found with ⟨entry, entryMem, isEpoch⟩
      exact ⟨entry, entryMem, isEpoch⟩

/-- A state of the node, at or within the actions of a tick. -/
def Occurs (config : GossipConfig) (selfId : NodeId) (peer : Peer) : Prop :=
  ∃ before detector actions, (system config selfId).Reachable before ∧
    peer = (actAll selfId { before with detector := detector } actions).1

theorem Occurs.accounted (occurs : peer.Occurs config selfId) : peer.Accounted := by
  rcases occurs with ⟨before, detector, actions, reached, rfl⟩
  have accounted := accounted_of_reachable reached
  have checked : Accounted { before with detector := detector } :=
    ⟨accounted.recent, accounted.pending, accounted.epochs, accounted.applied⟩
  exact checked.actAll selfId actions

theorem Accounted.appliedEpoch_le (accounted : peer.Accounted) {epoch : ℕ}
    (above : ∀ entry ∈ peer.recorded, entry.1 < epoch) (positive : 0 < epoch) :
    peer.mutationLog.appliedEpoch < epoch := by
  rw [accounted.epochs]
  cases count : peer.applied.length with
  | zero => exact positive
  | succ last =>
      have within : last < peer.applied.length := by omega
      exact above _ (accounted.applied last _ (List.getElem?_eq_getElem within))

theorem minted_act {target : NodeId} {epoch : ℕ} {mutation : RingMutation}
    (minted : (epoch, mutation) ∈ (peer.act selfId (.markDead target)).2) :
    epoch = peer.highestSeenEpoch + 1 ∧ mutation = .leave target := by
  simp only [act, mintLeaveIfSequencer] at minted
  split at minted
  · rcases List.mem_singleton.mp minted with same
    cases same
    exact ⟨rfl, rfl⟩
  · cases minted

/-- The epoch of a minted departure is above all the node has recorded or applied exactly if the
highest epoch it recorded is among the mutations it remembers. -/
theorem minted_fresh_iff (occurs : peer.Occurs config selfId) {target : NodeId} {epoch : ℕ}
    {mutation : RingMutation}
    (minted : (epoch, mutation) ∈ (peer.act selfId (.markDead target)).2) :
    ((∀ entry ∈ peer.recorded, entry.1 < epoch) ∧ peer.mutationLog.appliedEpoch < epoch) ↔
      peer.RemembersHighest := by
  have accounted := occurs.accounted
  rcases minted_act minted with ⟨rfl, rfl⟩
  constructor
  · rintro ⟨above, _⟩
    by_cases nothing : peer.recorded = []
    · exact Or.inl nothing
    · right
      have some_ : peer.recentMutations ≠ [] := by
        rw [accounted.recent, lastRecorded]
        intro empty
        have length := congrArg List.length empty
        rw [List.rtake, List.length_drop, List.length_nil] at length
        have positive := List.length_pos_iff.mpr nothing
        simp only [recentMutationsCap] at length
        omega
      rcases highestSeenEpoch_mem some_ with ⟨entry, entryMem, isHighest⟩
      rw [accounted.recent] at entryMem
      refine ⟨entry, entryMem, fun other otherMem => ?_⟩
      have below := above other otherMem
      omega
  · intro remembers
    have above : ∀ entry ∈ peer.recorded, entry.1 < peer.highestSeenEpoch + 1 := by
      intro entry entryMem
      rcases remembers with nothing | ⟨highest, remembered, isHighest⟩
      · rw [nothing] at entryMem
        cases entryMem
      · rw [← accounted.recent] at remembered
        have seen := le_highestSeenEpoch remembered
        have below := isHighest entry entryMem
        omega
    exact ⟨above, accounted.appliedEpoch_le above (Nat.succ_pos _)⟩

def twoNodes : GossipConfig := ⟨[1, 2], [], ⟨1000, 5000⟩⟩

/-- A compute node of two. -/
def first : Peer :=
  booted twoNodes ⟨Ring.fromMembers [(1, 1), (2, 1)], ClusterState.fromConfig []⟩

theorem first_occurs (steps : List PeerStep) {peer : Peer}
    (executed : (system twoNodes 1).exec first steps = some peer) : peer.Occurs twoNodes 1 :=
  ⟨peer, peer.detector, [],
    Transition.System.reachable_of_exec (booted_starts twoNodes 1 _) executed, rfl⟩

theorem minted_fresh_first :
    (∀ entry ∈ first.recorded, entry.1 < 1) ∧ first.mutationLog.appliedEpoch < 1 := by
  have minted : (1, .leave 2) ∈ (first.act 1 (.markDead 2)).2 := by decide
  exact (minted_fresh_iff (first_occurs [] rfl) minted).mpr (Or.inl rfl)

/-- The departures of seventeen members. -/
def departures (count : ℕ) : List (ℕ × RingMutation) :=
  (List.range count).map fun position => (position + 1, .leave (position + 3))

/-- After seventeen mutations, a peer that has seen only sixteen of them fills the memory again, and
the next epoch minted is one that is recorded and applied already. -/
theorem minted_stale : ∃ peer : Peer, peer.Occurs twoNodes 1 ∧
    (17, .leave 2) ∈ (peer.act 1 (.markDead 2)).2 ∧ (17, .leave 19) ∈ peer.recorded ∧
    peer.mutationLog.appliedEpoch = 17 := by
  refine ⟨_, first_occurs [.receive [] (departures 17), .receive [] (departures 16)] rfl, ?_, ?_,
    ?_⟩
  · decide +kernel
  · decide +kernel
  · decide +kernel

end Peer

end Seisin
