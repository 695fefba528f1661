import Seisin.Storage.RemoteStore

/-!
# Installing a storage ring

A compute node serves a replica that is in its storage ring, alive and not stale.  Installing a ring
swaps the ring and takes its members off the stale ones, and leaves the alive ones as gossip had
them; so the members of the new ring serve exactly if gossip took all of them to be alive before.
-/

namespace Seisin

namespace ClusterState

/-- What else can happen to the view of a compute node while no storage node leaves and none is
marked stale. -/
inductive QuietEvent where
  | join (node : NodeId) (storeAddress : String) (logId : DatumId)
  | clearHalt
  | haltTotalLoss

def quiet (state : ClusterState) : QuietEvent → ClusterState
  | .join node storeAddress logId => state.applyJoin node storeAddress logId
  | .clearHalt => state.clearHalt
  | .haltTotalLoss => state.haltTotalLoss

/-- Every node of the ring is alive and not stale. -/
def AllServe (state : ClusterState) : Prop :=
  ∀ node ∈ state.storageRing.nodeIds,
    state.storageAlive node = true ∧ state.storageStale node = false

theorem storageRing_quiet (state : ClusterState) (event : QuietEvent) :
    (state.quiet event).storageRing = state.storageRing := by
  cases event <;> rfl

theorem AllServe.quiet {state : ClusterState} (serve : state.AllServe) (event : QuietEvent) :
    (state.quiet event).AllServe := by
  intro node member
  rw [storageRing_quiet] at member
  have before := serve node member
  cases event with
  | join joined storeAddress logId =>
      refine ⟨?_, before.2⟩
      change Function.update state.storageAlive joined true node = true
      by_cases same : node = joined
      · rw [same, Function.update_self]
      · rw [Function.update_of_ne same]
        exact before.1
  | clearHalt => exact ⟨decide_eq_true member, rfl⟩
  | haltTotalLoss => exact before

theorem AllServe.foldl_quiet {state : ClusterState} (serve : state.AllServe)
    (events : List QuietEvent) :
    (events.foldl ClusterState.quiet state).AllServe ∧
      (events.foldl ClusterState.quiet state).storageRing = state.storageRing := by
  induction events generalizing state with
  | nil => exact ⟨serve, rfl⟩
  | cons event events ih =>
      rcases ih (serve.quiet event) with ⟨later, ring⟩
      exact ⟨later, ring.trans (storageRing_quiet state event)⟩

variable {hash : ℕ → ℕ → ℕ}

/-- All replicas serve exactly if all nodes of the ring do. -/
theorem allServe_iff (inRange : ∀ key slots, 0 < slots → hash key slots < slots)
    {state : ClusterState} :
    state.AllServe ↔
      ∀ id n, state.servingReplicas hash id n = state.storageRing.replicas hash id n := by
  constructor
  · intro serve id n
    rw [servingReplicas, List.filter_eq_self]
    intro node replica
    have served := serve node (Ring.mem_nodeIds_of_mem_replicas inRange replica)
    rw [served.1, served.2]
    rfl
  · intro same node member
    have replica : node ∈ state.storageRing.replicas hash 0 state.storageRing.nodeIds.length :=
      Ring.mem_replicas_of_mem_nodeIds inRange member
    rw [← same, servingReplicas, List.mem_filter, Bool.and_eq_true, Bool.not_eq_true'] at replica
    exact replica.2

/-- No member of a list is stale once it is installed. -/
theorem storageStale_installStorageRing (state : ClusterState) (members : List StorageMember)
    (node : NodeId) :
    (state.installStorageRing members).storageStale node =
      (state.storageStale node && !members.any fun member => member.nodeId = node) := by
  simp only [installStorageRing]
  generalize state.storageStale = stale
  induction members generalizing stale with
  | nil => simp
  | cons member members ih =>
      rw [List.foldl_cons, ih, List.any_cons]
      by_cases same : node = member.nodeId
      · simp [same]
      · simp [Function.update_of_ne same, Ne.symm same]

theorem mem_nodeIds_ringOf {members : List StorageMember} {node : NodeId} :
    node ∈ (ringOf members).nodeIds ↔
      ∃ member ∈ members, 0 < member.weight ∧ member.nodeId = node := by
  rw [ringOf, Ring.mem_nodeIds_fromMembers]
  constructor
  · rintro ⟨weight, positive, inside⟩
    rcases List.mem_map.mp inside with ⟨member, memberMem, same⟩
    cases same
    exact ⟨member, memberMem, positive, rfl⟩
  · rintro ⟨member, memberMem, positive, rfl⟩
    exact ⟨member.weight, positive, List.mem_map_of_mem memberMem⟩

/-- After an install, and until a node leaves or is marked stale, all replicas of the new ring serve
exactly if every member that has a slot was taken to be alive before. -/
theorem installStorageRing_serves_iff (inRange : ∀ key slots, 0 < slots → hash key slots < slots)
    (state : ClusterState) (members : List StorageMember) :
    (∀ (events : List QuietEvent) id n,
        (events.foldl quiet (state.installStorageRing members)).servingReplicas hash id n =
          (ringOf members).replicas hash id n) ↔
      ∀ member ∈ members, 0 < member.weight → state.storageAlive member.nodeId = true := by
  have installed : (state.installStorageRing members).AllServe ↔
      ∀ member ∈ members, 0 < member.weight → state.storageAlive member.nodeId = true := by
    constructor
    · intro serve member memberMem positive
      exact (serve member.nodeId (mem_nodeIds_ringOf.mpr ⟨member, memberMem, positive, rfl⟩)).1
    · intro alive node slotted
      rcases mem_nodeIds_ringOf.mp slotted with ⟨member, memberMem, positive, rfl⟩
      refine ⟨alive member memberMem positive, ?_⟩
      have listed : members.any (fun other => other.nodeId = member.nodeId) = true :=
        List.any_eq_true.mpr ⟨member, memberMem, decide_eq_true rfl⟩
      rw [storageStale_installStorageRing, listed, Bool.not_true, Bool.and_false]
  rw [← installed]
  constructor
  · intro serves
    exact (allServe_iff inRange).mpr (serves [])
  · intro serve events id n
    rcases serve.foldl_quiet events with ⟨later, ring⟩
    rw [(allServe_iff inRange).mp later, ring]
    rfl

/-- The second node is marked stale, and a new ring re-admits it. -/
theorem installStorageRing_readmits :
    ((fromConfig twoMembers).markStale 2).servingReplicas JumpBackHasher.hash 1 1 = [] ∧
    (((fromConfig twoMembers).markStale 2).installStorageRing twoMembers).servingReplicas
      JumpBackHasher.hash 1 1 = (ringOf twoMembers).replicas JumpBackHasher.hash 1 1 := by
  refine ⟨by decide +kernel, ?_⟩
  refine (installStorageRing_serves_iff
    (fun key _ nonempty => JumpBackHasher.hash_lt key nonempty) _ twoMembers).mpr ?_ [] 1 1
  intro member memberMem _
  simp only [twoMembers, List.mem_cons, List.not_mem_nil, or_false] at memberMem
  rcases memberMem with rfl | rfl <;> rfl

/-- The second node was confirmed dead and is back when a ring with it is installed; its datums
have no replica that serves. -/
theorem installStorageRing_leaves_out :
    (((fromConfig twoMembers).applyLeave 2).installStorageRing twoMembers).servingReplicas
      JumpBackHasher.hash 1 1 = [] ∧
    (ringOf twoMembers).replicas JumpBackHasher.hash 1 1 = [2] := by
  decide +kernel

end ClusterState

end Seisin
