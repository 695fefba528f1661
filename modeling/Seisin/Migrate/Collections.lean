import Seisin.Lib.Service
import Seisin.Migrate.Completeness
import Seisin.Storage.BTree.Refinement

/-!
# Migration and ordered collections

Beside its log a storage node keeps ordered collections, each the B+tree of a file of its own.
Compute nodes write to the replicas of a collection's id, which the storage ring gives.  The
migration driver lists, copies and deletes datums only, so a collection stays on the nodes that have
it.
-/

namespace Seisin

open ClusterState Migrate

/-! ## Collections of a storage node -/

def collectionPageSize : ℕ := 4096

def collectionFileName (collectionId : DatumId) : String :=
  "collection_" ++ collectionId.hexDigits 0 32 ++ ".btree"

/-- The replication factor of the collections behind leaderboards. -/
def lbReplication : ℕ := 2

inductive CollectionRequest where
  | create (collectionId : DatumId) (keySize valueSize : ℕ)
  | insert (collectionId : DatumId) (key value : Bytes)
  | remove (collectionId : DatumId) (key : Bytes)

inductive CollectionResponse where
  | ack
  | error (message : String)
  deriving DecidableEq

def CollectionRequest.target : CollectionRequest → DatumId
  | .create collectionId _ _ | .insert collectionId _ _ | .remove collectionId _ => collectionId

namespace StorageNode

/-- The tree of a collection; only a request to create it makes one where there is none. -/
def openCollection (dataDir : String) (node : StorageNode) (collectionId : DatumId)
    (create : Option (ℕ × ℕ)) : Except TreeFailure BPlusTree :=
  match node.collections collectionId, create with
  | some tree, _ => .ok tree
  | none, none => .error (.error ("collection " ++ collectionId.debug ++ " does not exist"))
  | none, some (keySize, valueSize) =>
      match BPlusTree.create keySize valueSize collectionPageSize with
      | .error (.error message) =>
          .error (.error ("failed to open collection file \"" ++ dataDir ++ "/" ++
            collectionFileName collectionId ++ "\": " ++ message))
      | created => created

/-- Runs a request on the tree of a collection.  A panic takes the registry of collections with it,
so that the node answers no request on them any more. -/
def withCollection (dataDir : String) (node : StorageNode) (collectionId : DatumId)
    (create : Option (ℕ × ℕ)) (change : BPlusTree → Except TreeFailure BPlusTree) :
    Option (CollectionResponse × StorageNode) :=
  match node.openCollection dataDir collectionId create with
  | .error .panic => none
  | .error (.error message) => some (.error message, node)
  | .ok tree =>
      match change tree with
      | .error .panic => none
      | .error (.error message) => some (.error message, node)
      | .ok changed =>
          some (.ack, { node with
            collections := Function.update node.collections collectionId (some changed) })

def serveCollection (dataDir : String) (node : StorageNode) :
    CollectionRequest → Option (CollectionResponse × StorageNode)
  | .create collectionId keySize valueSize =>
      node.withCollection dataDir collectionId (some (keySize, valueSize)) .ok
  | .insert collectionId key value =>
      node.withCollection dataDir collectionId none (·.insert key value)
  | .remove collectionId key =>
      node.withCollection dataDir collectionId none fun tree => (tree.remove key).map Prod.snd

end StorageNode

namespace StorageNodes

/-- The entries a node has for a collection, in key order. -/
def entries (nodes : StorageNodes) (node : NodeId) (collectionId : DatumId) :
    Option (List (Bytes × Bytes)) :=
  ((nodes node).collections collectionId).bind fun tree => tree.allEntries.toOption

/-- Sends a request to every serving replica of its collection; all of them answer. -/
def writeAll (dataDir : String) (hash : ℕ → ℕ → ℕ) (view : ClusterState) (n : ℕ)
    (request : CollectionRequest) (nodes : StorageNodes) : StorageNodes :=
  (view.servingReplicas hash request.target n).foldl
    (fun nodes node => nodes.update node fun before =>
      ((before.serveCollection dataDir request).map Prod.snd).getD before) nodes

/-! ## What the driver does to them -/

/-- The collections of all nodes. -/
def collections (nodes : StorageNodes) (node : NodeId) : DatumId → Option BPlusTree :=
  (nodes node).collections

variable (nodes : StorageNodes)

theorem collections_update (node : NodeId) (change : StorageNode → StorageNode)
    (keeps : (change (nodes node)).collections = (nodes node).collections) :
    (nodes.update node change).collections = nodes.collections := by
  funext other
  simp only [collections, update]
  by_cases same : other = node
  · subst same
    rw [Function.update_self, keeps]
  · rw [Function.update_of_ne same]

theorem collections_send (dest : NodeId) (id : DatumId) (state : Option (Bytes × ℕ))
    (applied : Bool) : (nodes.send dest id state applied).collections = nodes.collections := by
  cases applied with
  | false => rfl
  | true =>
      have keeps : ((nodes dest).store id state).collections = (nodes dest).collections := by
        cases state <;> rfl
      exact nodes.collections_update dest (·.store id state) keeps

theorem collections_copyOne (source : NodeId) (transferId : DatumId) (dest : NodeId)
    (id : DatumId) (fate : CopyFate) :
    (nodes.copyOne source transferId dest id fate).collections = nodes.collections := by
  unfold copyOne
  dsimp only
  rw [collections_update _ source _ rfl]
  split
  · rw [collections_send]
  · rfl

/-- Steps that each leave the collections alone. -/
theorem collections_foldl {Item : Type} (step : StorageNodes → Item → StorageNodes)
    (keeps : ∀ nodes item, (step nodes item).collections = nodes.collections) (items : List Item) :
    (items.foldl step nodes).collections = nodes.collections := by
  induction items generalizing nodes with
  | nil => rfl
  | cons item items ih => rw [List.foldl_cons, ih, keeps]

theorem collections_runTransferCopy (source : NodeId) (transferId : DatumId)
    (fates : DatumId → CopyFate) :
    (nodes.runTransferCopy source transferId fates).collections = nodes.collections := by
  unfold runTransferCopy
  split
  · rfl
  · dsimp only
    rw [collections_update _ source _ rfl]
    apply collections_foldl
    intro nodes id
    rw [collections_copyOne]

theorem collections_finishTransfer (source : NodeId) (transferId : DatumId)
    (fates : DatumId → CopyFate) :
    (nodes.finishTransfer source transferId fates).2.collections = nodes.collections := by
  unfold finishTransfer
  split
  · rfl
  · dsimp only
    have drained : StorageNodes.collections (Function.update nodes source
        ((nodes source).takeDirty transferId).2) = nodes.collections :=
      nodes.collections_update source (fun node => (node.takeDirty transferId).2) rfl
    rw [collections_foldl _ _ (fun nodes id => by rw [resend, collections_send]), drained]

end StorageNodes

namespace Migrate

theorem collections_bulkCopy (sources dests : List NodeId)
    (transferId : NodeId × NodeId → DatumId) (fates : Fates)
    (pairs : List (Σ _ : NodeId × NodeId, List DatumId)) (nodes : StorageNodes) :
    (bulkCopy sources dests transferId fates pairs nodes).2.collections = nodes.collections := by
  induction pairs generalizing nodes with
  | nil => rfl
  | cons pair pairs ih =>
      rcases pair with ⟨⟨source, dest⟩, ids⟩
      unfold bulkCopy
      split
      · rfl
      · split
        · rfl
        · dsimp only
          have first : ((nodes.update source
              (·.start (transferId (source, dest)) ids dest)).runTransferCopy source
                (transferId (source, dest)) (fates source dest)).collections =
              nodes.collections := by
            rw [StorageNodes.collections_runTransferCopy, nodes.collections_update source _ rfl]
          have rest := ih ((nodes.update source
            (·.start (transferId (source, dest)) ids dest)).runTransferCopy source
              (transferId (source, dest)) (fates source dest))
          rw [first] at rest
          split
          · rename_i copied
            rw [copied] at rest
            exact rest
          · rename_i copied
            rw [copied] at rest
            exact rest

theorem collections_finishAll (fates : TailFates) (transfers : List (NodeId × DatumId))
    (nodes : StorageNodes) :
    (finishAll fates transfers nodes).2.collections = nodes.collections := by
  induction transfers generalizing nodes with
  | nil => rfl
  | cons transfer transfers ih =>
      rcases transfer with ⟨source, transferId⟩
      have first := nodes.collections_finishTransfer source transferId (fates source transferId)
      unfold finishAll
      split
      · rename_i finished
        rw [finished] at first
        exact first
      · rename_i finished
        rw [finished] at first
        exact (ih _).trans first

theorem collections_reclaim (sources : List NodeId) (drops : List (NodeId × DatumId))
    (nodes : StorageNodes) : (reclaim sources drops nodes).collections = nodes.collections := by
  apply StorageNodes.collections_foldl
  intro nodes drop
  split
  · exact nodes.collections_update drop.1 _ rfl
  · rfl

section Preservation

variable {Compute : Type} [DecidableEq Compute] (hash : ℕ → ℕ → ℕ)

theorem collections_execute (computes : List Compute) (current resolved : List StorageMember)
    (transferId : NodeId × NodeId → DatumId) (fates : Fates) (tailFates : TailFates)
    (report : Report) (deployment : Deployment Compute) :
    (execute hash computes current resolved transferId fates tailFates report
      deployment).2.nodes.collections = deployment.nodes.collections := by
  have copied := collections_bulkCopy (current.map StorageMember.nodeId)
    (resolved.map StorageMember.nodeId) transferId fates
    (byPair (moves hash (ringOf current) (ringOf resolved)
      (enumerateAll current deployment))).entries deployment.nodes
  unfold execute
  dsimp only
  split
  · rename_i copiedEq
    rw [copiedEq] at copied
    exact copied
  · rename_i transfers nodes copiedEq
    rw [copiedEq] at copied
    have finished := collections_finishAll tailFates transfers nodes
    split
    · rename_i finishedEq
      rw [finishedEq] at finished
      exact finished.trans copied
    · rename_i finishedEq
      rw [finishedEq] at finished
      exact (collections_reclaim _ _ _).trans (finished.trans copied)

/-- Whatever becomes of a migration, no storage node's collections change. -/
theorem collections_migrate (computes : List Compute) (proposed : List StorageMember)
    (apply : Bool) (identities : StorageMember → NodeId × DatumId)
    (transferId : NodeId × NodeId → DatumId) (fates : Fates) (tailFates : TailFates)
    (deployment : Deployment Compute) :
    (migrate hash computes proposed apply identities transferId fates tailFates
      deployment).2.nodes.collections = deployment.nodes.collections := by
  unfold migrate
  split
  · rfl
  · dsimp only
    split
    · rfl
    · split
      · exact collections_execute hash _ _ _ _ _ _ _ _
      · rfl

/-- All replicas of a collection under a ring have these entries. -/
def HasEntries (ring : Ring) (factor : DatumId → ℕ) (nodes : StorageNodes)
    (collectionId : DatumId) (entries : List (Bytes × Bytes)) : Prop :=
  ring.replicas hash collectionId (factor collectionId) ≠ [] ∧
    ∀ node ∈ ring.replicas hash collectionId (factor collectionId),
      nodes.entries node collectionId = some entries

/-- Every collection of the old ring is at its replicas under the new one as it was. -/
def PreservesCollections (old new : Ring) (factor : DatumId → ℕ) (before after : StorageNodes) :
    Prop :=
  ∀ collectionId entries, HasEntries hash old factor before collectionId entries →
    ∀ node ∈ new.replicas hash collectionId (factor collectionId),
      after.entries node collectionId = some entries

/-- Every replica that the new ring gives a collection has it from before. -/
def AlreadyPlaced (old new : Ring) (factor : DatumId → ℕ) (before : StorageNodes) : Prop :=
  ∀ collectionId entries, HasEntries hash old factor before collectionId entries →
    ∀ node ∈ new.replicas hash collectionId (factor collectionId),
      node ∉ old.replicas hash collectionId (factor collectionId) →
      before.entries node collectionId = some entries

/-- A migration that completes preserves the collections exactly if no collection needed to be
moved. -/
theorem migrate_preserves_collections_iff {first : Compute} {others : List Compute}
    {proposed : List StorageMember} {identities : StorageMember → NodeId × DatumId}
    {transferId : NodeId × NodeId → DatumId} {fates : Fates} {tailFates : TailFates}
    {deployment after : Deployment Compute} {report : Report} (factor : DatumId → ℕ)
    (completed : migrate hash (first :: others) proposed true identities transferId fates tailFates
      deployment = (.ok report, after)) :
    PreservesCollections hash (ringOf (deployment.views first).getClusterConfig) (ringOf proposed)
        factor deployment.nodes after.nodes ↔
      AlreadyPlaced hash (ringOf (deployment.views first).getClusterConfig) (ringOf proposed)
        factor deployment.nodes := by
  have collections := collections_migrate hash (first :: others) proposed true identities transferId
    fates tailFates deployment
  rw [completed] at collections
  have same : ∀ node collectionId, after.nodes.entries node collectionId =
      deployment.nodes.entries node collectionId := by
    intro node collectionId
    exact congrArg (fun trees => Option.bind (trees collectionId) fun tree : BPlusTree =>
      tree.allEntries.toOption) (congrFun collections node)
  constructor
  · intro preserves collectionId entries has node replica _
    rw [← same]
    exact preserves collectionId entries has node replica
  · intro placed collectionId entries has node replica
    rw [same]
    by_cases before : node ∈ (ringOf (deployment.views first).getClusterConfig).replicas hash
        collectionId (factor collectionId)
    · exact has.2 node before
    · exact placed collectionId entries has node replica before

end Preservation

/-! ## A board on one node and on two -/

/-- A compute node with these storage nodes has made a collection with one entry. -/
def withBoard (members : List StorageMember) : Deployment Unit where
  views := fun _ => .fromConfig members
  paused := fun _ => false
  nodes :=
    let requests : List CollectionRequest := [.create 5 1 2, .insert 5 [3] [0, 4]]
    requests.foldl
      (fun nodes request => nodes.writeAll "data" JumpBackHasher.hash (.fromConfig members)
        lbReplication request) fun _ => ⟨∅, fun _ => none, fun _ => none⟩

/-- A migration in which every call takes effect. -/
def faultless (proposed : List StorageMember) (deployment : Deployment Unit) :
    Except String Report × Deployment Unit :=
  migrate JumpBackHasher.hash [()] proposed true honest (fun _ => 99) (fun _ _ _ => ⟨true, true⟩)
    (fun _ _ _ => ⟨true, true⟩) deployment

/-- The second node leaves; the first one has the collection. -/
theorem migrate_preserves_board : ∃ report after,
    faultless firstNode (withBoard bothNodes) = (.ok report, after) ∧
    (withBoard bothNodes).nodes.entries 2 5 = some [([3], [0, 4])] ∧
    PreservesCollections JumpBackHasher.hash
      (ringOf ((withBoard bothNodes).views ()).getClusterConfig) (ringOf firstNode)
      (fun _ => lbReplication) (withBoard bothNodes).nodes after.nodes := by
  have succeeds : (faultless firstNode (withBoard bothNodes)).1.toOption.isSome = true := by
    decide +kernel
  rcases completed : faultless firstNode (withBoard bothNodes) with ⟨_ | report, after⟩
  · rw [completed] at succeeds
    cases succeeds
  · refine ⟨report, after, rfl, by decide +kernel, ?_⟩
    have inRange : ∀ key slots, 0 < slots → JumpBackHasher.hash key slots < slots :=
      fun key _ nonempty => JumpBackHasher.hash_lt key nonempty
    refine (migrate_preserves_collections_iff JumpBackHasher.hash (fun _ => lbReplication)
      completed).mpr ?_
    intro collectionId entries _ node replica elsewhere
    have nodeIs : node = 1 := by
      have member := Ring.mem_nodeIds_of_mem_replicas inRange replica
      rw [show (ringOf firstNode).nodeIds = [1] by decide +kernel] at member
      exact List.mem_singleton.mp member
    have old : node ∈ (ringOf ((withBoard bothNodes).views ()).getClusterConfig).nodeIds := by
      rw [nodeIs]
      decide +kernel
    exact absurd (Ring.mem_replicas_of_mem_nodeIds inRange old) elsewhere

/-- The second node becomes a replica of the collection and does not get it. -/
theorem migrate_leaves_board : ∃ report after,
    faultless bothNodes (withBoard firstNode) = (.ok report, after) ∧ report.applied = true ∧
    (ringOf firstNode).replicas JumpBackHasher.hash 5 lbReplication = [1] ∧
    2 ∈ (ringOf bothNodes).replicas JumpBackHasher.hash 5 lbReplication ∧
    (withBoard firstNode).nodes.entries 1 5 = some [([3], [0, 4])] ∧
    after.nodes.entries 2 5 = none ∧
    ¬PreservesCollections JumpBackHasher.hash (ringOf firstNode) (ringOf bothNodes)
      (fun _ => lbReplication) (withBoard firstNode).nodes after.nodes := by
  have applied : (faultless bothNodes (withBoard firstNode)).1.toOption.map Report.applied =
      some true := by
    decide +kernel
  have missing : (faultless bothNodes (withBoard firstNode)).2.nodes.entries 2 5 = none := by
    decide +kernel
  have alone : (ringOf firstNode).replicas JumpBackHasher.hash 5 lbReplication = [1] := by
    decide +kernel
  have second : 2 ∈ (ringOf bothNodes).replicas JumpBackHasher.hash 5 lbReplication := by
    decide +kernel
  have held : (withBoard firstNode).nodes.entries 1 5 = some [([3], [0, 4])] := by
    decide +kernel
  rcases completed : faultless bothNodes (withBoard firstNode) with ⟨_ | report, after⟩
  · rw [completed] at applied
    cases applied
  · rw [completed] at applied missing
    refine ⟨report, after, rfl, Option.some.inj applied, alone, second, held, missing, ?_⟩
    intro preserves
    have has : HasEntries JumpBackHasher.hash (ringOf firstNode) (fun _ => lbReplication)
        (withBoard firstNode).nodes 5 [([3], [0, 4])] := by
      refine ⟨by rw [alone]; decide, ?_⟩
      intro node replica
      rw [alone, List.mem_singleton] at replica
      rw [replica, held]
    have moved := preserves 5 _ has 2 second
    rw [missing] at moved
    cases moved

end Migrate

end Seisin
