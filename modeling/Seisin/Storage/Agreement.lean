import Seisin.Storage.Reached

/-!
# Reads on other compute nodes

Which replicas are stale is known only to the compute node whose call failed; nothing passes it on.
A read asks the replicas that its compute node still takes to be serving and returns the first value
that one of them answers with.  So it finds the latest state of a datum as far as that replica is
not behind on it.
-/

namespace Seisin

open Transition ClusterState

namespace Cluster

variable {Compute : Type} [DecidableEq Compute] {hash : ℕ → ℕ → ℕ}

section Reading

variable (hash : ℕ → ℕ → ℕ) (cluster : Cluster Compute Content Bytes) (compute : Compute)
  (id : DatumId) (n : ℕ) (fates : NodeId → ℕ → Fate)

/-- What a storage node answers a read on `compute`. -/
def reply (node : NodeId) : Option (Option Bytes) :=
  readReply contentTier (cluster.views compute).addressed cluster.logs fates id node

/-- The replica that decides a read is not behind on the datum: the first that answers with a value,
or, where only absence is answered, one that answers. -/
def ReadReached : Prop :=
  let serving := (cluster.views compute).servingReplicas hash id n
  match serving.find? fun node => (cluster.reply compute id fates node).join.isSome with
  | some node => cluster.behind node id = false
  | none => (∃ node ∈ serving, (cluster.reply compute id fates node).isSome) →
      ∃ node ∈ serving, (cluster.reply compute id fates node).isSome ∧
        cluster.behind node id = false

/-- A read finds the datum's last acknowledged state, or no replica at all. -/
def ReadsLatest : Prop :=
  (cluster.get hash contentTier compute id n fates).1 = .found ((cluster.latest id).map Prod.fst) ∨
    (cluster.get hash contentTier compute id n fates).1 = .lost

end Reading

theorem get_eq (cluster : Cluster Compute Content Bytes) (compute : Compute) (id : DatumId) (n : ℕ)
    (fates : NodeId → ℕ → Fate) :
    let serving := (cluster.views compute).servingReplicas hash id n
    (cluster.get hash contentTier compute id n fates).1 =
      match serving.find? fun node => (cluster.reply compute id fates node).join.isSome with
      | some node => .found (cluster.reply compute id fates node).join
      | none =>
          if serving.any fun node => (cluster.reply compute id fates node).isSome then .found none
          else .lost :=
  readEach_eq _ false _

/-- Calls to one node fail before they take effect. -/
def unreachable (down : NodeId) : NodeId → ℕ → Fate :=
  fun node _ => if node = down then .lostBefore else .served

/-- Datum 0, whose primary is node 1, is written twice on compute node `false`; the second write
does not reach node 1. -/
def bypassingRun : List (ClusterLabel Bool Bytes) :=
  [.put false 0 [1] false 2 allServed, .put false 0 [2] true 2 (unreachable 1)]

/-- The same, and gossip has told compute node `true` that node 1 left. -/
def informedRun : List (ClusterLabel Bool Bytes) := bypassingRun ++ [.leave true 1]

end Cluster

end Seisin
