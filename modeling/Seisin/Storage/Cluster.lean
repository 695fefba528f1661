import Seisin.Lib.Transition
import Seisin.Storage.RemoteStore

/-!
# Compute nodes over a storage tier

Any number of compute nodes, each with its own view of the storage tier, write and read datums at
the same storage nodes.  Gossip changes a view, and so do the admin drivers, which also have storage
nodes copy datums to each other and delete superseded copies.  A copy is read at its source and sent
to its destination in two steps; in between anything may happen.

`latest` is the last acknowledged state of each datum and `factor` the replication factor of that
operation.  A node is behind on a datum if an operation on it was acknowledged without the node, or
if something other than the latest state has taken effect there since: a call of an operation that
nobody acknowledged, a copy of an earlier state, or a drop.  It stays so until the latest state
reaches it, by an acknowledged operation or by a copy.
-/

namespace Seisin

open Transition

/-- A datum read at its source and not yet at its destination; `fresh` while what was read is the
datum's latest state. -/
structure Copy (Value : Type) where
  dest : NodeId
  id : DatumId
  payload : Option (Value × ℕ)
  fresh : Bool

structure Cluster (Compute Log Value : Type) where
  views : Compute → ClusterState
  logs : NodeId → Log
  copies : List (Copy Value)
  latest : DatumId → Option (Value × ℕ)
  factor : DatumId → ℕ
  behind : NodeId → DatumId → Bool

/-- What happens next.  A write may pass on the value it overwrites, which the owning thread has in
its cache; `tail` tells the dirty tail of a transfer, which passes deletions on, from its bulk
copy. -/
inductive ClusterLabel (Compute Value : Type) where
  | put (compute : Compute) (id : DatumId) (content : Value) (withPrevious : Bool) (n : ℕ)
      (fates : NodeId → ℕ → Fate)
  | delete (compute : Compute) (id : DatumId) (n : ℕ) (fates : NodeId → ℕ → Fate)
  | get (compute : Compute) (id : DatumId) (n : ℕ) (fates : NodeId → ℕ → Fate)
  | markStale (compute : Compute) (node : NodeId)
  | join (compute : Compute) (node : NodeId) (storeAddress : String) (logId : DatumId)
  | leave (compute : Compute) (node : NodeId)
  | installStorageRing (compute : Compute) (members : List StorageMember)
  | clearHalt (compute : Compute)
  | restart (compute : Compute) (members : List StorageMember)
  | copyRead (source dest : NodeId) (id : DatumId) (tail : Bool)
  | copySend (position : ℕ) (applied : Bool)
  | drop (node : NodeId) (id : DatumId)

namespace Cluster

variable {Compute Log Value Patch : Type} [DecidableEq Compute]

def setView (cluster : Cluster Compute Log Value) (compute : Compute) (view : ClusterState) :
    Cluster Compute Log Value :=
  { cluster with views := Function.update cluster.views compute view }

/-- An operation on `id` that was acknowledged by somebody: nodes it did not reach are behind, and
copies of the datum that are under way are of an earlier state. -/
def acknowledge (cluster : Cluster Compute Log Value) (id : DatumId)
    (state : Option (Value × ℕ)) (n : ℕ) (reached : NodeId → Bool) :
    Cluster Compute Log Value :=
  { cluster with
    latest := Function.update cluster.latest id state
    factor := Function.update cluster.factor id n
    behind := fun node other => if other = id then !reached node else cluster.behind node other
    copies := cluster.copies.map fun copy =>
      if copy.id = id then { copy with fresh := false } else copy }

/-- An operation on `id` that nobody acknowledged: the nodes that it reached no longer hold what was
acknowledged before. -/
def abandon (cluster : Cluster Compute Log Value) (id : DatumId) (reached : NodeId → Bool) :
    Cluster Compute Log Value :=
  { cluster with
    behind := fun node other => cluster.behind node other || (decide (other = id) && reached node) }

/-- The nodes that a round of calls reaches, answered or not. -/
def arrivals (view : ClusterState) (targets : List NodeId) (fates : NodeId → ℕ → Fate)
    (node : NodeId) : Bool :=
  decide (node ∈ targets) && Tier.arrives (view.addressed node) (fates node 0) (fates node 1)

variable (hash : ℕ → ℕ → ℕ) (tier : Tier Log Value Patch)

/-- The value a write overwrites, if it is passed on. -/
def previous (cluster : Cluster Compute Log Value) (id : DatumId) (withPrevious : Bool) :
    Option Value :=
  if withPrevious then (cluster.latest id).map Prod.fst else none

def put (cluster : Cluster Compute Log Value) (compute : Compute) (id : DatumId)
    (content : Value) (withPrevious : Bool) (n : ℕ) (fates : NodeId → ℕ → Fate) :
    Cluster Compute Log Value :=
  let view := cluster.views compute
  let previous := cluster.previous id withPrevious
  let round := view.writeAll hash tier cluster.logs fates id content previous n
  let next := { cluster.setView compute round.state with logs := round.logs }
  let targets := view.servingReplicas hash id n
  if round.acked = [] then next.abandon id (arrivals view targets fates)
  else
    let delta := previous.bind fun old => tier.worthwhile old content
    next.acknowledge id (some (content, n)) n fun node =>
      decide (node ∈ targets) && tier.writeReaches (view.addressed node) (fates node) id delta n
        (!cluster.behind node id) (cluster.logs node)

def delete (cluster : Cluster Compute Log Value) (compute : Compute) (id : DatumId) (n : ℕ)
    (fates : NodeId → ℕ → Fate) : Cluster Compute Log Value :=
  let view := cluster.views compute
  let round := view.deleteReplicated hash tier cluster.logs fates id n
  let next := { cluster.setView compute round.state with logs := round.logs }
  let reached := arrivals view (view.servingReplicas hash id n) fates
  if round.acked = [] then next.abandon id reached else next.acknowledge id none n reached

def get (cluster : Cluster Compute Log Value) (compute : Compute) (id : DatumId) (n : ℕ)
    (fates : NodeId → ℕ → Fate) : ClusterState.ReadOutcome Value × Cluster Compute Log Value :=
  let read := (cluster.views compute).getReplicated hash tier cluster.logs fates id n
  (read.1, cluster.setView compute read.2)

/-- The current value of a datum and its stored factor; a log that cannot be read has none. -/
def readValue (log : Log) (id : DatumId) : Option (Value × ℕ) :=
  match tier.get log id with
  | .ok (some bytes) => some (bytes, (tier.nOf log id).getD 1)
  | _ => none

/-- The bulk copy sends nothing for a datum that is absent. -/
def copyRead (cluster : Cluster Compute Log Value) (source dest : NodeId) (id : DatumId)
    (tail : Bool) : Cluster Compute Log Value :=
  let payload := readValue tier (cluster.logs source) id
  if payload.isSome || tail then
    { cluster with
      copies := cluster.copies ++ [⟨dest, id, payload, !cluster.behind source id⟩] }
  else cluster

def applyCopy (log : Log) (copy : Copy Value) : Log :=
  match copy.payload with
  | some (bytes, n) => tier.putFull log copy.id bytes n
  | none => tier.delete log copy.id

def setBehind (cluster : Cluster Compute Log Value) (node : NodeId) (id : DatumId)
    (behind : Bool) : Cluster Compute Log Value :=
  { cluster with
    behind := Function.update cluster.behind node
      (Function.update (cluster.behind node) id behind) }

def copySend (cluster : Cluster Compute Log Value) (position : ℕ) (applied : Bool) :
    Option (Cluster Compute Log Value) :=
  match cluster.copies[position]? with
  | none => none
  | some copy =>
      let sent := { cluster with copies := cluster.copies.eraseIdx position }
      if applied then
        let log := applyCopy tier (cluster.logs copy.dest) copy
        some (({ sent with logs := Function.update cluster.logs copy.dest log }).setBehind
          copy.dest copy.id (!copy.fresh))
      else some sent

def drop (cluster : Cluster Compute Log Value) (node : NodeId) (id : DatumId) :
    Cluster Compute Log Value :=
  let log := tier.delete (cluster.logs node) id
  ({ cluster with logs := Function.update cluster.logs node log }).setBehind node id true

def step (cluster : Cluster Compute Log Value) :
    ClusterLabel Compute Value → Option (Cluster Compute Log Value)
  | .put compute id content withPrevious n fates =>
      some (cluster.put hash tier compute id content withPrevious n fates)
  | .delete compute id n fates => some (cluster.delete hash tier compute id n fates)
  | .get compute id n fates => some (cluster.get hash tier compute id n fates).2
  | .markStale compute node =>
      some (cluster.setView compute ((cluster.views compute).markStale node))
  | .join compute node storeAddress logId =>
      some (cluster.setView compute ((cluster.views compute).applyJoin node storeAddress logId))
  | .leave compute node =>
      some (cluster.setView compute ((cluster.views compute).applyLeave node))
  | .installStorageRing compute members =>
      some (cluster.setView compute ((cluster.views compute).installStorageRing members))
  | .clearHalt compute => some (cluster.setView compute (cluster.views compute).clearHalt)
  | .restart compute members => some (cluster.setView compute (.fromConfig members))
  | .copyRead source dest id tail => some (cluster.copyRead tier source dest id tail)
  | .copySend position applied => cluster.copySend tier position applied
  | .drop node id => some (cluster.drop tier node id)

/-- Runs from the given initial states. -/
def system (init : Cluster Compute Log Value → Prop) :
    System (Cluster Compute Log Value) (ClusterLabel Compute Value) where
  init := init
  step := step hash tier

/-- Compute nodes started from one configuration over empty storage nodes. -/
def start (members : List StorageMember) (empty : Log) : Cluster Compute Log Value where
  views := fun _ => .fromConfig members
  logs := fun _ => empty
  copies := []
  latest := fun _ => none
  factor := fun _ => 1
  behind := fun _ _ => false

end Cluster

end Seisin
