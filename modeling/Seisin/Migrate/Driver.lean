import Seisin.Migrate.Plan
import Seisin.Migrate.Transfer

/-!
# The migration driver

The driver plans a migration, has the sources copy, pauses the compute nodes, has the sources send
what was written meanwhile, installs the new ring, resumes and deletes the superseded copies.  Here
nobody writes meanwhile and every call of the driver succeeds; reads of the sources' logs and their
calls to the destinations fail as `fates` says, which the driver never learns.
-/

namespace Seisin

open ClusterState Migrate

/-- Compute nodes and the storage nodes below them. -/
structure Deployment (Compute : Type) where
  views : Compute → ClusterState
  paused : Compute → Bool
  nodes : StorageNodes

namespace Migrate

structure Report where
  applied : Bool
  totalMoves : ℕ
  perPair : List (NodeId × NodeId × ℕ)
  deriving DecidableEq

def reportOf (applied : Bool) (moves : List Move) : Report :=
  ⟨applied, moves.length, (byPair moves).entries.map fun entry =>
    (entry.1.1, entry.1.2, entry.2.length)⟩

/-- Resolves the log id of each proposed member, and refuses one that is not who the plan says. -/
def resolve (identities : StorageMember → NodeId × DatumId) :
    List StorageMember → Except String (List StorageMember)
  | [] => .ok []
  | member :: members =>
      let (nodeId, logId) := identities member
      if nodeId ≠ member.nodeId then
        .error ("proposed node at " ++ member.storeAddress ++ " reports id NodeId(" ++
          toString nodeId ++ "), expected NodeId(" ++ toString member.nodeId ++ ")")
      else
        match resolve identities members with
        | .error message => .error message
        | .ok resolved => .ok ({ member with logId := logId } :: resolved)

/-- What becomes of sending a datum from a source to a destination in the bulk copy. -/
abbrev Fates := NodeId → NodeId → DatumId → CopyFate

/-- What becomes of sending a datum in the tail of a source's transfer. -/
abbrev TailFates := NodeId → DatumId → DatumId → CopyFate

/-- Starts one transfer after another and waits for each copy; the transfers are kept for the
tail. -/
def bulkCopy (sources dests : List NodeId) (transferId : NodeId × NodeId → DatumId)
    (fates : Fates) : List (Σ _ : NodeId × NodeId, List DatumId) → StorageNodes →
      Except String (List (NodeId × DatumId)) × StorageNodes
  | [], nodes => (.ok [], nodes)
  | ⟨(source, dest), ids⟩ :: pairs, nodes =>
      if source ∉ sources then
        (.error ("no address for source NodeId(" ++ toString source ++ ")"), nodes)
      else if dest ∉ dests then
        (.error ("no address for dest NodeId(" ++ toString dest ++ ")"), nodes)
      else
        let started := nodes.update source (·.start (transferId (source, dest)) ids dest)
        let copied := started.runTransferCopy source (transferId (source, dest)) (fates source dest)
        match bulkCopy sources dests transferId fates pairs copied with
        | (.error message, left) => (.error message, left)
        | (.ok transfers, done) => (.ok ((source, transferId (source, dest)) :: transfers), done)

/-- Sends the tail of one transfer after another. -/
def finishAll (fates : TailFates) :
    List (NodeId × DatumId) → StorageNodes → Except String Unit × StorageNodes
  | [], nodes => (.ok (), nodes)
  | (source, transferId) :: transfers, nodes =>
      match nodes.finishTransfer source transferId (fates source transferId) with
      | (.error message, left) => (.error message, left)
      | (.ok _, sent) => finishAll fates transfers sent

/-- Deletes superseded copies at the nodes whose address is known. -/
def reclaim (sources : List NodeId) (drops : List (NodeId × DatumId)) (nodes : StorageNodes) :
    StorageNodes :=
  drops.foldl
    (fun nodes drop => if drop.1 ∈ sources then nodes.update drop.1 (·.delete drop.2) else nodes)
    nodes

section Migrate

variable {Compute : Type} [DecidableEq Compute] (hash : ℕ → ℕ → ℕ)

def pauseAll (computes : List Compute) (deployment : Deployment Compute) : Deployment Compute :=
  { deployment with paused := fun compute => compute ∈ computes || deployment.paused compute }

def installAll (computes : List Compute) (members : List StorageMember)
    (deployment : Deployment Compute) : Deployment Compute :=
  { deployment with
    views := fun compute =>
      if compute ∈ computes then (deployment.views compute).installStorageRing members
      else deployment.views compute }

def resumeAll (computes : List Compute) (deployment : Deployment Compute) : Deployment Compute :=
  { deployment with paused := fun compute => compute ∉ computes && deployment.paused compute }

/-- The datums of all current members, which all answer. -/
def enumerateAll (current : List StorageMember) (deployment : Deployment Compute) : Enumeration :=
  enumerate (current.map StorageMember.nodeId) (fun node => (deployment.nodes node).log)
    fun _ => true

/-- Everything after the plan is made. -/
def execute (computes : List Compute) (current resolved : List StorageMember)
    (transferId : NodeId × NodeId → DatumId) (fates : Fates) (tailFates : TailFates) (report : Report)
    (deployment : Deployment Compute) : Except String Report × Deployment Compute :=
  let enumeration := enumerateAll current deployment
  let pairs := (byPair (moves hash (ringOf current) (ringOf resolved) enumeration)).entries
  match bulkCopy (current.map StorageMember.nodeId) (resolved.map StorageMember.nodeId) transferId
      fates pairs deployment.nodes with
  | (.error message, nodes) => (.error message, { deployment with nodes := nodes })
  | (.ok transfers, copied) =>
      let paused := pauseAll computes { deployment with nodes := copied }
      match finishAll tailFates transfers copied with
      | (.error message, nodes) => (.error message, { paused with nodes := nodes })
      | (.ok _, finished) =>
          let resumed := resumeAll computes
            (installAll computes resolved { paused with nodes := finished })
          (.ok report, { resumed with
            nodes := reclaim (current.map StorageMember.nodeId)
              (drops hash (ringOf current) (ringOf resolved) enumeration) finished })

def migrate (computes : List Compute) (proposed : List StorageMember) (apply : Bool)
    (identities : StorageMember → NodeId × DatumId) (transferId : NodeId × NodeId → DatumId)
    (fates : Fates) (tailFates : TailFates) (deployment : Deployment Compute) :
    Except String Report × Deployment Compute :=
  match computes with
  | [] => (.error "need at least one compute node address", deployment)
  | first :: _ =>
      let current := (deployment.views first).getClusterConfig
      match resolve identities proposed with
      | .error message => (.error message, deployment)
      | .ok resolved =>
          let moves := moves hash (ringOf current) (ringOf resolved)
            (enumerateAll current deployment)
          if apply then
            execute hash computes current resolved transferId fates tailFates
              (reportOf true moves) deployment
          else (.ok (reportOf false moves), deployment)

end Migrate

end Migrate

end Seisin
