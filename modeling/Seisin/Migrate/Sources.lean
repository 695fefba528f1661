import Seisin.Migrate.Plan
import Seisin.Storage.Agreement

/-!
# The sources of a migration's copies

The driver takes a copy from the first old replica in rank order that answers, whatever the compute
nodes have marked stale.  What it copies is a datum's latest acknowledged state as far as that
replica is not behind on the datum.
-/

namespace Seisin

open Transition ClusterState Migrate

namespace Migrate

/-- What the driver is run for: a proposed ring, or the recovery from lost nodes. -/
inductive Command where
  | migrate (proposed : List StorageMember)
  | recover

end Migrate

namespace Cluster

variable {Compute : Type} [DecidableEq Compute]

section Driver

variable (hash : ℕ → ℕ → ℕ) (cluster : Cluster Compute Content Bytes) (compute : Compute)
  (answers : NodeId → Bool)

/-- The ring the driver learns from the compute node it asks. -/
def currentRing : Ring := ringOf (cluster.views compute).getClusterConfig

def enumeration : Enumeration :=
  enumerate ((cluster.views compute).getClusterConfig.map StorageMember.nodeId) cluster.logs answers

/-- The members a command proposes: a recovery keeps those that answer, and has nothing to do if all
of them do. -/
def proposal : Command → Option (List StorageMember)
  | .migrate proposed => some proposed
  | .recover =>
      let current := (cluster.views compute).getClusterConfig
      let survivors := current.filter fun member => answers member.nodeId
      if survivors.length = current.length then none else some survivors

def plannedMoves (command : Command) : List Move :=
  match cluster.proposal compute answers command with
  | none => []
  | some proposed =>
      moves hash (cluster.currentRing compute) (ringOf proposed)
        (cluster.enumeration compute answers)

/-- The copies made when no call fails: a source sends nothing for a datum it does not have. -/
def executedCopies (command : Command) : List (Move × (Bytes × ℕ)) :=
  (cluster.plannedMoves hash compute answers command).filterMap fun move =>
    (readValue contentTier (cluster.logs move.source) move.id).map fun payload => (move, payload)

/-- Every copy is taken from a replica and carries the datum's latest acknowledged value with its
factor; a deleted datum has none. -/
def CopiesCurrent (command : Command) : Prop :=
  ∀ move payload, (move, payload) ∈ cluster.executedCopies hash compute answers command →
    (∃ n, move.source ∈ (cluster.currentRing compute).replicas hash move.id n) ∧
      cluster.latest move.id = some payload

/-- For every listed datum that gets a new replica, the first replica in rank order that answers is
not behind on it: the datum's last acknowledged operation, or a copy of its latest state, has reached
that replica, and nothing else has taken effect on the datum there since. -/
def SourcesReached (command : Command) : Prop :=
  ∀ proposed, cluster.proposal compute answers command = some proposed →
    ∀ id n, (cluster.enumeration compute answers).idFactors.lookup id = some n →
      (∃ dest ∈ (ringOf proposed).replicas hash id n,
        dest ∉ (cluster.currentRing compute).replicas hash id n) →
      ∀ source, ((cluster.currentRing compute).replicas hash id n).find?
          (fun node => node ∈ (cluster.enumeration compute answers).reachable) = some source →
        cluster.behind source id = false

end Driver

variable {hash : ℕ → ℕ → ℕ} {cluster : Cluster Compute Content Bytes} {compute : Compute}
  {answers : NodeId → Bool} {command : Command}

def threeMembers : List StorageMember := twoMembers ++ [⟨3, 1, "store-3", 13⟩]

end Cluster

end Seisin
