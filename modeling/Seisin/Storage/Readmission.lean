import Seisin.Storage.Agreement

/-!
# Re-admission of storage nodes

A node that a compute node excluded serves again when a driver installs a ring or clears the halt,
when gossip reports it alive again, or when the compute node restarts.  None of these looks at what
the node has missed in the meantime; it holds the latest state of the datums on which it is not
behind.
-/

namespace Seisin

open Transition ClusterState

/-- A storage node the ring names that is taken to be alive and current. -/
def ClusterState.Serves (state : ClusterState) (node : NodeId) : Prop :=
  node ∈ state.storageRing.nodeIds ∧ state.storageAlive node = true ∧
    state.storageStale node = false

theorem ClusterState.Shrinks.serves {before after : ClusterState} (shrinks : Shrinks before after)
    {node : NodeId} (serves : after.Serves node) : before.Serves node := by
  rcases serves with ⟨member, alive, current⟩
  rw [shrinks.storageRing] at member
  rw [shrinks.storageAlive] at alive
  refine ⟨member, alive, ?_⟩
  cases stale : before.storageStale node with
  | false => rfl
  | true =>
      rw [shrinks.storageStale node stale] at current
      cases current

namespace Cluster

variable {Compute : Type} [DecidableEq Compute] {hash : ℕ → ℕ → ℕ}
  {cluster next : Cluster Compute Content Bytes}

/-- On `compute`, `node` was excluded before a step and serves after it. -/
structure Readmits (cluster next : Cluster Compute Content Bytes) (compute : Compute)
    (node : NodeId) : Prop where
  excluded : (cluster.views compute).storageStale node = true ∨
    (cluster.views compute).storageAlive node = false
  serves : (next.views compute).Serves node

/-- The node is behind on no datum that the ring in force after the step assigns to it: the datum's
last acknowledged operation, or a copy of its latest state, has reached the node, and nothing else
has taken effect on the datum there since. -/
def ReadmitsReached (hash : ℕ → ℕ → ℕ) (cluster next : Cluster Compute Content Bytes)
    (compute : Compute) (node : NodeId) : Prop :=
  ∀ id, node ∈ (next.views compute).storageRing.replicas hash id (next.factor id) →
    cluster.behind node id = false

/-- The node holds the latest state of every datum the ring assigns to it. -/
def HoldsLatest (hash : ℕ → ℕ → ℕ) (cluster : Cluster Compute Content Bytes) (compute : Compute)
    (node : NodeId) : Prop :=
  ∀ id, node ∈ (cluster.views compute).storageRing.replicas hash id (cluster.factor id) →
    (cluster.logs node).lookup id = cluster.latest id

/-- A view that only gets more stale marks re-admits nobody. -/
theorem not_readmits {compute acting : Compute} {node : NodeId} {view : ClusterState}
    (shrinks : Shrinks (cluster.views acting) view)
    (views : next.views = Function.update cluster.views acting view) :
    ¬Readmits cluster next compute node := by
  rintro ⟨excluded, serves⟩
  rw [views] at serves
  have before : (cluster.views compute).Serves node := by
    by_cases same : compute = acting
    · subst same
      rw [Function.update_self] at serves
      exact shrinks.serves serves
    · rwa [Function.update_of_ne same] at serves
  rcases before with ⟨_, alive, current⟩
  rcases excluded with stale | dead
  · rw [stale] at current
    cases current
  · rw [dead] at alive
    cases alive

/-- A step that re-admits a node changes a view alone. -/
theorem readmits_view {compute : Compute} {node : NodeId}
    (readmits : Readmits cluster next compute node) {label : ClusterLabel Compute Bytes}
    (stepped : cluster.step hash contentTier label = some next) :
    next.logs = cluster.logs ∧ next.latest = cluster.latest ∧
      next.behind = cluster.behind := by
  have sameViews : next.views = cluster.views → False := by
    intro same
    have unchanged : next.views = Function.update cluster.views compute (cluster.views compute) := by
      rw [same, Function.update_eq_self]
    exact not_readmits (.refl _) unchanged readmits
  cases label with
  | put acting id content withPrevious n fates =>
      cases stepped
      exact absurd readmits (not_readmits (writeAll_shrinks _ _ _ _) (put_views ..))
  | delete acting id n fates =>
      cases stepped
      exact absurd readmits (not_readmits (deleteReplicated_shrinks _ _) (delete_views ..))
  | get acting id n fates =>
      cases stepped
      exact absurd readmits (not_readmits (getReplicated_shrinks _ _) rfl)
  | copyRead source dest id tail =>
      cases stepped
      refine absurd (?_ : _ = _) sameViews
      simp only [Cluster.copyRead]
      split <;> rfl
  | copySend position applied =>
      simp only [step, Cluster.copySend] at stepped
      split at stepped
      · cases stepped
      · split at stepped
        · cases stepped
          exact absurd rfl sameViews
        · cases stepped
          exact absurd rfl sameViews
  | drop dropped id =>
      cases stepped
      exact absurd rfl sameViews
  | markStale acting marked =>
      cases stepped
      exact ⟨rfl, rfl, rfl⟩
  | join acting joined storeAddress logId =>
      cases stepped
      exact ⟨rfl, rfl, rfl⟩
  | leave acting left =>
      cases stepped
      exact ⟨rfl, rfl, rfl⟩
  | installStorageRing acting members =>
      cases stepped
      exact ⟨rfl, rfl, rfl⟩
  | clearHalt acting =>
      cases stepped
      exact ⟨rfl, rfl, rfl⟩
  | restart acting members =>
      cases stepped
      exact ⟨rfl, rfl, rfl⟩

/-- The second write of datum 0 does not reach its primary, node 1; then node 2 fails a read, and
with no replica left the compute node halts. -/
def haltingRun : List (ClusterLabel Unit Bytes) :=
  [.put () 0 [1] false 2 allServed, .put () 0 [2] true 2 (unreachable 1),
    .get () 0 2 (unreachable 2)]

end Cluster

end Seisin
