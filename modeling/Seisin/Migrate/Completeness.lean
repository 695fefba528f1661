import Seisin.Migrate.Driver

/-!
# What a migration leaves behind

Without writers, a migration that is not refused ends with the new ring installed and the superseded
copies deleted, whatever became of the copies.  So it is complete exactly when what each new replica
then has, by a planned copy that took effect or of before, is the value that a client read.
-/

namespace Seisin

open ClusterState

namespace Migrate

/-! ## Copying planned datums -/

/-- The copy of a move takes effect: the source has the datum and can read it, and the destination
takes the call. -/
def TakesEffect (fates : Fates) (before : NodeId → DatumId → Option (Bytes × ℕ)) (move : Move) :
    Prop :=
  (fates move.source move.dest move.id).readable = true ∧
    (fates move.source move.dest move.id).applied = true ∧
    (before move.source move.id).isSome

/-- The moves of one transfer. -/
def movesOf (source dest : NodeId) (ids : List DatumId) : List Move :=
  ids.map fun id => ⟨id, source, dest⟩

/-- How far a bulk copy has come: the moves in `finished` are made, nothing else has changed, and no
datum is dirty in the transfers started. -/
structure Copying (moves : List Move) (fates : Fates)
    (before : NodeId → DatumId → Option (Bytes × ℕ)) (finished : List Move)
    (started : List (NodeId × DatumId)) (nodes : StorageNodes) : Prop where
  planned : ∀ move ∈ finished, move ∈ moves
  copied : ∀ move ∈ finished, TakesEffect fates before move →
    nodes.contents move.dest move.id = before move.source move.id
  kept : ∀ node id, (∀ move ∈ finished, move.dest = node → move.id = id →
    ¬TakesEffect fates before move) → nodes.contents node id = before node id
  clean : ∀ entry ∈ started, ∃ transfer, (nodes entry.1).transfers entry.2 = some transfer ∧
    transfer.dirty = [] ∧ ∀ id ∈ transfer.ids, ∃ dest, ⟨id, entry.1, dest⟩ ∈ moves

namespace Copying

variable {moves finished : List Move} {fates : Fates}
  {before : NodeId → DatumId → Option (Bytes × ℕ)} {started : List (NodeId × DatumId)}
  {nodes : StorageNodes}

/-- A source still has what it had for a datum that is planned to be copied from it. -/
theorem contents_source (copying : Copying moves fates before finished started nodes)
    (separate : Separate moves) {move : Move} (planned : move ∈ moves) :
    nodes.contents move.source move.id = before move.source move.id := by
  apply copying.kept
  intro other otherMem toSource sameId
  exact absurd toSource (separate.apart other (copying.planned other otherMem) move planned sameId)

/-- A change of one node's transfers that leaves their datums and dirty marks alone. -/
theorem modify (copying : Copying moves fates before finished started nodes) (node : NodeId)
    (transferId : DatumId) {change : TransferState → TransferState}
    (ids : ∀ transfer, (change transfer).ids = transfer.ids)
    (dirty : ∀ transfer, transfer.dirty = [] → (change transfer).dirty = []) :
    Copying moves fates before finished started
      (nodes.update node (·.modify transferId change)) := by
  have same : (nodes.update node (·.modify transferId change)).contents = nodes.contents :=
    nodes.contents_update node rfl
  refine ⟨copying.planned, by rw [same]; exact copying.copied, by rw [same]; exact copying.kept, ?_⟩
  intro entry entryMem
  rcases copying.clean entry entryMem with ⟨transfer, found, clean, planned⟩
  by_cases here : entry.1 = node
  · subst here
    simp only [StorageNodes.update, Function.update_self, StorageNode.modify]
    by_cases this : entry.2 = transferId
    · subst this
      rw [Function.update_self, found]
      refine ⟨change transfer, rfl, dirty transfer clean, ?_⟩
      rw [ids]
      exact planned
    · rw [Function.update_of_ne this]
      exact ⟨transfer, found, clean, planned⟩
  · simp only [StorageNodes.update, Function.update_of_ne here]
    exact ⟨transfer, found, clean, planned⟩

theorem start (copying : Copying moves fates before finished started nodes) {source dest : NodeId}
    {ids : List DatumId} (planned : ∀ id ∈ ids, ⟨id, source, dest⟩ ∈ moves)
    (transferId : DatumId) :
    Copying moves fates before finished (started ++ [(source, transferId)])
      (nodes.update source (·.start transferId ids dest)) := by
  have same : (nodes.update source (·.start transferId ids dest)).contents = nodes.contents :=
    nodes.contents_update source rfl
  refine ⟨copying.planned, by rw [same]; exact copying.copied, by rw [same]; exact copying.kept, ?_⟩
  have fresh : ∃ transfer, ((nodes.update source (·.start transferId ids dest)) source).transfers
      transferId = some transfer ∧ transfer.dirty = [] ∧
      ∀ id ∈ transfer.ids, ∃ dest, ⟨id, source, dest⟩ ∈ moves := by
    simp only [StorageNodes.update, StorageNode.start, Function.update_self]
    exact ⟨_, rfl, rfl, fun id idMem => ⟨dest, planned id (List.mem_dedup.mp idMem)⟩⟩
  intro entry entryMem
  by_cases this : entry = (source, transferId)
  · rw [this]
    exact fresh
  · rcases List.mem_append.mp entryMem with earlier | last
    · rcases copying.clean entry earlier with ⟨transfer, found, clean⟩
      refine ⟨transfer, ?_, clean⟩
      by_cases here : entry.1 = source
      · subst here
        have differ : entry.2 ≠ transferId := fun sameId => this (Prod.ext rfl sameId)
        simpa only [StorageNodes.update, StorageNode.start, Function.update_self,
          Function.update_of_ne differ] using found
      · simpa only [StorageNodes.update, Function.update_of_ne here] using found
    · exact absurd (List.mem_singleton.mp last) this

/-- A move whose copy does not take effect changes nothing. -/
theorem snoc_idle (copying : Copying moves fates before finished started nodes) {move : Move}
    (planned : move ∈ moves) (idle : ¬TakesEffect fates before move) :
    Copying moves fates before (finished ++ [move]) started nodes := by
  refine ⟨?_, ?_, ?_, copying.clean⟩
  · intro other otherMem
    rcases List.mem_append.mp otherMem with earlier | last
    · exact copying.planned other earlier
    · rw [List.mem_singleton.mp last]
      exact planned
  · intro other otherMem effect
    rcases List.mem_append.mp otherMem with earlier | last
    · exact copying.copied other earlier effect
    · rw [List.mem_singleton.mp last] at effect
      exact absurd effect idle
  · intro node id none_
    apply copying.kept
    intro other otherMem
    exact none_ other (List.mem_append_left _ otherMem)

/-- A move whose copy takes effect stores what the source had. -/
theorem snoc_send (copying : Copying moves fates before finished started nodes)
    (separate : Separate moves) {move : Move} (planned : move ∈ moves)
    (effect : TakesEffect fates before move) :
    Copying moves fates before (finished ++ [move]) started
      (nodes.send move.dest move.id (before move.source move.id) true) := by
  refine ⟨?_, ?_, ?_, ?_⟩
  · intro other otherMem
    rcases List.mem_append.mp otherMem with earlier | last
    · exact copying.planned other earlier
    · rw [List.mem_singleton.mp last]
      exact planned
  · intro other otherMem otherEffect
    rw [StorageNodes.contents_send]
    split
    · rename_i same
      have otherPlanned : other ∈ moves := by
        rcases List.mem_append.mp otherMem with earlier | last
        · exact copying.planned other earlier
        · rw [List.mem_singleton.mp last]
          exact planned
      rw [separate.source other otherPlanned move planned same.2.1 same.1, same.2.1]
    · rename_i elsewhere
      rcases List.mem_append.mp otherMem with earlier | last
      · exact copying.copied other earlier otherEffect
      · rw [List.mem_singleton.mp last] at elsewhere
        exact absurd ⟨rfl, rfl, rfl⟩ elsewhere
  · intro node id none_
    rw [StorageNodes.contents_send, if_neg]
    · apply copying.kept
      intro other otherMem
      exact none_ other (List.mem_append_left _ otherMem)
    · rintro ⟨rfl, rfl, _⟩
      exact none_ move (List.mem_append_right _ (List.mem_singleton_self move)) rfl rfl effect
  · intro entry entryMem
    rcases copying.clean entry entryMem with ⟨transfer, found, clean, sources⟩
    by_cases here : entry.1 = move.dest
    · -- the destination is no source of this datum, so its own transfers do not track it
      have untracked : move.id ∉ transfer.ids := by
        intro tracked
        rcases sources move.id tracked with ⟨dest, otherPlanned⟩
        exact separate.apart move planned _ otherPlanned rfl here.symm
      refine ⟨transfer, ?_, clean, sources⟩
      simp only [StorageNodes.send, if_true]
      rw [here] at found ⊢
      rw [Function.update_self, StorageNode.transfers_store, found, Option.map_some,
        TransferState.noteWrite, if_neg untracked]
    · refine ⟨transfer, ?_, clean, sources⟩
      simpa only [StorageNodes.send, if_true, Function.update_of_ne here] using found

/-- One more planned datum is copied. -/
theorem copyOne (copying : Copying moves fates before finished started nodes)
    (separate : Separate moves) {move : Move} (planned : move ∈ moves) (transferId : DatumId) :
    Copying moves fates before (finished ++ [move]) started
      (nodes.copyOne move.source transferId move.dest move.id
        (fates move.source move.dest move.id)) := by
  have source : (nodes move.source).log.lookup move.id = before move.source move.id :=
    copying.contents_source separate planned
  unfold StorageNodes.copyOne
  dsimp only
  refine modify ?_ move.source transferId (fun _ => rfl) (fun _ clean => clean)
  cases read : (nodes move.source).readValue move.id (fates move.source move.dest move.id).readable
    with
  | none =>
      apply copying.snoc_idle planned
      rintro ⟨readable, _, present⟩
      rw [StorageNode.readValue, if_pos readable, source] at read
      rw [read] at present
      cases present
  | some payload =>
      unfold StorageNode.readValue at read
      split at read
      · rename_i readable
        rw [source] at read
        cases applied : (fates move.source move.dest move.id).applied with
        | false =>
            apply copying.snoc_idle planned
            rintro ⟨_, impossible, _⟩
            rw [applied] at impossible
            cases impossible
        | true =>
            have effect : TakesEffect fates before move := ⟨readable, applied, by rw [read]; rfl⟩
            have sent := copying.snoc_send separate planned effect
            rw [read] at sent
            exact sent
      · cases read

theorem runTransferCopy (copying : Copying moves fates before finished started nodes)
    (separate : Separate moves) {source dest : NodeId} {ids : List DatumId}
    (planned : ∀ id ∈ ids, ⟨id, source, dest⟩ ∈ moves) {transferId : DatumId} {copied : ℕ}
    {dirty : List DatumId} {done : Bool}
    (found : (nodes source).transfers transferId = some ⟨ids, dest, copied, dirty, done⟩) :
    Copying moves fates before (finished ++ movesOf source dest ids) started
      (nodes.runTransferCopy source transferId (fates source dest)) := by
  have folded : ∀ rest : List DatumId, (∀ id ∈ rest, ⟨id, source, dest⟩ ∈ moves) →
      ∀ finished nodes, Copying moves fates before finished started nodes →
      Copying moves fates before (finished ++ movesOf source dest rest) started
        (rest.foldl (fun nodes id => nodes.copyOne source transferId dest id
          (fates source dest id)) nodes) := by
    intro rest
    induction rest with
    | nil =>
        intro _ finished nodes copying
        simpa [movesOf] using copying
    | cons id rest ih =>
        intro restPlanned finished nodes copying
        have next := copying.copyOne separate (restPlanned id List.mem_cons_self) transferId
        have all := ih (fun other otherMem => restPlanned other (List.mem_cons_of_mem _ otherMem))
          _ _ next
        simpa [movesOf] using all
  unfold StorageNodes.runTransferCopy
  rw [found]
  exact modify (folded ids planned finished nodes copying) source transferId (fun _ => rfl)
    (fun _ clean => clean)

/-- The whole bulk copy goes through and makes all moves of the pairs. -/
theorem bulkCopy (separate : Separate moves) {sources dests : List NodeId}
    {pairs : List (Σ _ : NodeId × NodeId, List DatumId)}
    (planned : ∀ entry ∈ pairs, ∀ id ∈ entry.2, ⟨id, entry.1.1, entry.1.2⟩ ∈ moves)
    (addressed : ∀ entry ∈ pairs, entry.1.1 ∈ sources ∧ entry.1.2 ∈ dests)
    (transferId : NodeId × NodeId → DatumId)
    (copying : Copying moves fates before finished started nodes) :
    ∃ transfers copied, bulkCopy sources dests transferId fates pairs nodes =
        (.ok transfers, copied) ∧
      Copying moves fates before
        (finished ++ pairs.flatMap fun entry => movesOf entry.1.1 entry.1.2 entry.2.dedup)
        (started ++ transfers) copied := by
  induction pairs generalizing finished started nodes with
  | nil => exact ⟨[], nodes, rfl, by simpa using copying⟩
  | cons entry pairs ih =>
      rcases entry with ⟨⟨source, dest⟩, ids⟩
      rcases addressed _ List.mem_cons_self with ⟨sourceKnown, destKnown⟩
      have here : ∀ id ∈ ids, ⟨id, source, dest⟩ ∈ moves := planned _ List.mem_cons_self
      have begun := copying.start here (transferId (source, dest))
      have found : ((nodes.update source
          (·.start (transferId (source, dest)) ids dest)) source).transfers
          (transferId (source, dest)) = some ⟨ids.dedup, dest, 0, [], false⟩ := by
        simp only [StorageNodes.update, StorageNode.start, Function.update_self]
      have ran := begun.runTransferCopy separate
        (fun id idMem => here id (List.mem_dedup.mp idMem)) found
      rcases ih (fun other otherMem => planned other (List.mem_cons_of_mem _ otherMem))
        (fun other otherMem => addressed other (List.mem_cons_of_mem _ otherMem)) ran with
        ⟨transfers, copied, copiedEq, all⟩
      refine ⟨(source, transferId (source, dest)) :: transfers, copied, ?_, by simpa using all⟩
      unfold Migrate.bulkCopy
      rw [if_neg (not_not.mpr sourceKnown), if_neg (not_not.mpr destKnown)]
      dsimp only
      rw [copiedEq]

/-- With nothing dirty the tail sends nothing. -/
theorem finishAll (tailFates : TailFates) {transfers : List (NodeId × DatumId)}
    (copying : Copying moves fates before finished started nodes)
    (known : ∀ entry ∈ transfers, entry ∈ started) :
    ∃ sent, finishAll tailFates transfers nodes = (.ok (), sent) ∧
      Copying moves fates before finished started sent := by
  induction transfers generalizing nodes with
  | nil => exact ⟨nodes, rfl, copying⟩
  | cons entry transfers ih =>
      rcases entry with ⟨source, transferId⟩
      rcases copying.clean _ (known _ List.mem_cons_self) with ⟨transfer, found, clean, _⟩
      have drained := copying.modify source transferId
        (fun transfer => (rfl : ({ transfer with dirty := [] } : TransferState).ids = _))
        (fun _ _ => rfl)
      rcases ih drained (fun other otherMem => known other (List.mem_cons_of_mem _ otherMem)) with
        ⟨sent, sentEq, all⟩
      refine ⟨sent, ?_, all⟩
      have finished : nodes.finishTransfer source transferId (tailFates source transferId) =
          (.ok (), nodes.update source
            (·.modify transferId fun transfer => { transfer with dirty := [] })) := by
        simp only [StorageNodes.finishTransfer, found, StorageNode.takeDirty, Option.map_some,
          clean, Option.getD_some, List.foldl_nil, StorageNodes.update]
      unfold Migrate.finishAll
      rw [finished]
      exact sentEq

end Copying

/-! ## The whole migration -/

theorem contents_reclaim (sources : List NodeId) (drops : List (NodeId × DatumId))
    (nodes : StorageNodes) (node : NodeId) (id : DatumId) :
    (reclaim sources drops nodes).contents node id =
      if (node, id) ∈ drops ∧ node ∈ sources then none else nodes.contents node id := by
  induction drops using List.reverseRecOn with
  | nil => simp [reclaim]
  | append_singleton drops drop ih =>
      have snoc : reclaim sources (drops ++ [drop]) nodes =
          if drop.1 ∈ sources then (reclaim sources drops nodes).update drop.1 (·.delete drop.2)
          else reclaim sources drops nodes := by
        simp only [reclaim, List.foldl_append, List.foldl_cons, List.foldl_nil]
      have sent : (reclaim sources drops nodes).update drop.1 (·.delete drop.2) =
          (reclaim sources drops nodes).send drop.1 drop.2 none true := rfl
      rw [snoc]
      by_cases known : drop.1 ∈ sources
      · rw [if_pos known, sent, StorageNodes.contents_send, ih]
        by_cases same : node = drop.1 ∧ id = drop.2
        · rcases same with ⟨rfl, rfl⟩
          simp [known]
        · have other : (node, id) ≠ drop := fun equal => same (Prod.ext_iff.mp equal)
          simp [other]
          grind
      · rw [if_neg known, ih]
        have other : node ∈ sources → (node, id) ≠ drop := by
          rintro nodeKnown rfl
          exact known nodeKnown
        grind

theorem resolve_ringOf {identities : StorageMember → NodeId × DatumId}
    {proposed resolved : List StorageMember} (accepted : resolve identities proposed = .ok resolved) :
    resolved.map (fun member => (member.nodeId, member.weight)) =
      proposed.map fun member => (member.nodeId, member.weight) := by
  induction proposed generalizing resolved with
  | nil =>
      cases accepted
      rfl
  | cons member members ih =>
      simp only [resolve] at accepted
      split at accepted
      · cases accepted
      · cases rest : resolve identities members with
        | error message => simp [rest] at accepted
        | ok others =>
            simp only [rest, Except.ok.injEq] at accepted
            subst accepted
            simp only [List.map_cons, ih rest]

theorem mem_of_mem_ringOf {hash : ℕ → ℕ → ℕ}
    (inRange : ∀ key slots, 0 < slots → hash key slots < slots) {members : List StorageMember}
    {id : DatumId} {n : ℕ} {node : NodeId}
    (replica : node ∈ (ringOf members).replicas hash id n) :
    node ∈ members.map StorageMember.nodeId := by
  have member := Ring.mem_of_mem_nodeIds_fromMembers
    (Ring.mem_nodeIds_of_mem_replicas inRange replica)
  rwa [List.map_map] at member

/-- What a migration that is carried out leaves at the nodes: the planned copies are made as far as
they take effect, the superseded ones are deleted, and nothing else has changed. -/
structure Migrated (planned : List Move) (superseded : List (NodeId × DatumId)) (fates : Fates)
    (before after : NodeId → DatumId → Option (Bytes × ℕ)) : Prop where
  dropped : ∀ node id, (node, id) ∈ superseded → after node id = none
  copied : ∀ move ∈ planned, (move.dest, move.id) ∉ superseded → TakesEffect fates before move →
    after move.dest move.id = before move.source move.id
  kept : ∀ node id, (node, id) ∉ superseded → (∀ move ∈ planned, move.dest = node → move.id = id →
    ¬TakesEffect fates before move) → after node id = before node id

section Execute

variable {Compute : Type} [DecidableEq Compute] {hash : ℕ → ℕ → ℕ}

/-- A migration that is carried out succeeds, whatever becomes of the copies. -/
theorem execute_spec (inRange : ∀ key slots, 0 < slots → hash key slots < slots)
    (computes : List Compute) (current resolved : List StorageMember)
    (transferId : NodeId × NodeId → DatumId) (fates : Fates) (tailFates : TailFates)
    (report : Report) (deployment : Deployment Compute) :
    ∃ after, execute hash computes current resolved transferId fates tailFates report deployment =
        (.ok report, after) ∧
      Migrated (moves hash (ringOf current) (ringOf resolved) (enumerateAll current deployment))
        (drops hash (ringOf current) (ringOf resolved) (enumerateAll current deployment)) fates
        deployment.nodes.contents after.nodes.contents := by
  generalize enumerationEq : enumerateAll current deployment = enumeration
  generalize plannedEq : moves hash (ringOf current) (ringOf resolved) enumeration = planned
  have separate : Separate planned := plannedEq ▸ separate_moves hash _ _ enumeration
  have untouched : Copying planned fates deployment.nodes.contents [] [] deployment.nodes :=
    ⟨nofun, nofun, fun _ _ _ => rfl, nofun⟩
  have inPlan : ∀ entry ∈ (byPair planned).entries, ∀ id ∈ entry.2,
      ⟨id, entry.1.1, entry.1.2⟩ ∈ planned :=
    fun entry entryMem id idMem => mem_byPair.mpr ⟨entry, entryMem, rfl, idMem⟩
  have addressed : ∀ entry ∈ (byPair planned).entries,
      entry.1.1 ∈ current.map StorageMember.nodeId ∧
        entry.1.2 ∈ resolved.map StorageMember.nodeId := by
    intro entry entryMem
    rcases exists_mem_of_mem_byPair entry entryMem with ⟨id, move⟩
    rw [← plannedEq] at move
    rcases mem_moves.mp move with ⟨n, _, found, inNew, _⟩
    exact ⟨mem_of_mem_ringOf inRange (List.mem_of_find?_eq_some found),
      mem_of_mem_ringOf inRange inNew⟩
  rcases untouched.bulkCopy separate inPlan addressed transferId with
    ⟨transfers, copied, copiedEq, copying⟩
  have known : ∀ entry ∈ transfers, entry ∈ [] ++ transfers := fun _ entryMem => entryMem
  rcases copying.finishAll tailFates known with ⟨finished, finishedEq, all⟩
  let sources := current.map StorageMember.nodeId
  let dropped := drops hash (ringOf current) (ringOf resolved) enumeration
  have executed : execute hash computes current resolved transferId fates tailFates report
      deployment = (.ok report, { resumeAll computes (installAll computes resolved
        { pauseAll computes { deployment with nodes := copied } with nodes := finished }) with
        nodes := reclaim sources dropped finished }) := by
    simp only [execute, enumerationEq, plannedEq, copiedEq, finishedEq, sources, dropped]
  refine ⟨_, executed, ?_⟩
  have made : ∀ move ∈ planned, move ∈ [] ++ (byPair planned).entries.flatMap fun entry =>
      movesOf entry.1.1 entry.1.2 entry.2.dedup := by
    intro move moveMem
    rcases mem_byPair.mp moveMem with ⟨entry, entryMem, pair, listed⟩
    rw [List.nil_append, List.mem_flatMap]
    refine ⟨entry, entryMem, List.mem_map.mpr ⟨move.id, List.mem_dedup.mpr listed, ?_⟩⟩
    rw [pair]
  have sourced : ∀ node id, (node, id) ∈ dropped → node ∈ sources := by
    intro node id drop
    rcases mem_drops.mp drop with ⟨n, _, inOld, _⟩
    exact mem_of_mem_ringOf inRange inOld
  have contents : ∀ node id, (reclaim sources dropped finished).contents node id =
      if (node, id) ∈ dropped then none else finished.contents node id := by
    intro node id
    rw [contents_reclaim]
    by_cases drop : (node, id) ∈ dropped
    · rw [if_pos ⟨drop, sourced node id drop⟩, if_pos drop]
    · rw [if_neg (fun both => drop both.1), if_neg drop]
  constructor
  · intro node id drop
    exact (contents node id).trans (if_pos drop)
  · intro move moveMem notDropped effect
    rw [show (reclaim sources dropped finished).contents move.dest move.id = _ from
      contents move.dest move.id, if_neg notDropped]
    exact all.copied move (made move moveMem) effect
  · intro node id notDropped idle
    rw [show (reclaim sources dropped finished).contents node id = _ from contents node id,
      if_neg notDropped]
    exact all.kept node id fun move moveMem => idle move (all.planned move moveMem)

end Execute

/-! ## Completeness -/

/-- The value of a datum is what a client reads, who asks the replicas one after another, as many as
the factor stored with the value says: what the first of them has that has the datum. -/
def HasValue (hash : ℕ → ℕ → ℕ) (ring : Ring) (contents : NodeId → DatumId → Option (Bytes × ℕ))
    (id : DatumId) (payload : Bytes × ℕ) : Prop :=
  (ring.replicas hash id payload.2).findSome? (fun node => contents node id) = some payload

section Complete

variable {Compute : Type} {hash : ℕ → ℕ → ℕ}

/-- The outcome of a migration: an error with every compute node on its ring and no copy deleted, or
success with every value at all replicas the new ring names for its datum. -/
def NeverIncomplete (hash : ℕ → ℕ → ℕ) (old new : Ring) (before : Deployment Compute)
    (result : Except String Report × Deployment Compute) : Prop :=
  (∃ message, result.1 = .error message ∧ result.2.views = before.views ∧
    ∀ node id, (before.nodes.contents node id).isSome → (result.2.nodes.contents node id).isSome) ∨
  (∃ report, result.1 = .ok report ∧ report.applied = true ∧
    ∀ id payload, HasValue hash old before.nodes.contents id payload →
      ∀ node ∈ new.replicas hash id payload.2, result.2.nodes.contents node id = some payload)

/-- Every new replica of a datum with a value is not to be dropped, and gets that value from the
source of a planned copy that takes effect, or has it already if no planned copy takes effect. -/
def CopiesComplete (hash : ℕ → ℕ → ℕ) (old new : Ring) (enumeration : Enumeration) (fates : Fates)
    (contents : NodeId → DatumId → Option (Bytes × ℕ)) : Prop :=
  ∀ id payload, HasValue hash old contents id payload → ∀ node ∈ new.replicas hash id payload.2,
    (node, id) ∉ drops hash old new enumeration ∧
      ((∃ source, ⟨id, source, node⟩ ∈ moves hash old new enumeration ∧
          TakesEffect fates contents ⟨id, source, node⟩ ∧ contents source id = some payload) ∨
        contents node id = some payload ∧
          ∀ source, ⟨id, source, node⟩ ∈ moves hash old new enumeration →
            ¬TakesEffect fates contents ⟨id, source, node⟩)

/-- A migration that is carried out brings every value to all its new replicas exactly if every copy
it depends on takes effect and is of that value. -/
theorem migrated_complete_iff {old new : Ring} {enumeration : Enumeration} {fates : Fates}
    {before after : NodeId → DatumId → Option (Bytes × ℕ)}
    (migrated : Migrated (moves hash old new enumeration) (drops hash old new enumeration) fates
      before after) :
    (∀ id payload, HasValue hash old before id payload →
      ∀ node ∈ new.replicas hash id payload.2, after node id = some payload) ↔
    CopiesComplete hash old new enumeration fates before := by
  constructor
  · intro complete id payload has node replica
    have held := complete id payload has node replica
    have notDropped : (node, id) ∉ drops hash old new enumeration := by
      intro drop
      rw [migrated.dropped node id drop] at held
      cases held
    refine ⟨notDropped, ?_⟩
    by_cases effect : ∃ source, ⟨id, source, node⟩ ∈ moves hash old new enumeration ∧
        TakesEffect fates before ⟨id, source, node⟩
    · rcases effect with ⟨source, planned, takes⟩
      have brought : after node id = before source id :=
        migrated.copied ⟨id, source, node⟩ planned notDropped takes
      exact Or.inl ⟨source, planned, takes, brought.symm.trans held⟩
    · have idle : ∀ source, ⟨id, source, node⟩ ∈ moves hash old new enumeration →
          ¬TakesEffect fates before ⟨id, source, node⟩ :=
        fun source planned takes => effect ⟨source, planned, takes⟩
      have kept : after node id = before node id := by
        apply migrated.kept node id notDropped
        rintro move planned rfl rfl
        exact idle move.source planned
      exact Or.inr ⟨kept.symm.trans held, idle⟩
  · intro complete id payload has node replica
    rcases complete id payload has node replica with
      ⟨notDropped, ⟨source, planned, takes, sourced⟩ | ⟨already, idle⟩⟩
    · exact (migrated.copied ⟨id, source, node⟩ planned notDropped takes).trans sourced
    · rw [migrated.kept node id notDropped]
      · exact already
      · rintro move planned rfl rfl
        exact idle move.source planned

/-- A migration never flips or drops on an incomplete copy exactly if a proposed node is not who the
plan says, or every copy it depends on takes effect and is of the value that clients read. -/
theorem migrate_complete_iff [DecidableEq Compute]
    (inRange : ∀ key slots, 0 < slots → hash key slots < slots)
    (first : Compute) (others : List Compute) (proposed : List StorageMember)
    (identities : StorageMember → NodeId × DatumId) (transferId : NodeId × NodeId → DatumId)
    (fates : Fates) (tailFates : TailFates) (deployment : Deployment Compute) :
    NeverIncomplete hash (ringOf (deployment.views first).getClusterConfig) (ringOf proposed)
        deployment (migrate hash (first :: others) proposed true identities transferId fates
          tailFates deployment) ↔
      (∃ message, resolve identities proposed = .error message) ∨
        CopiesComplete hash (ringOf (deployment.views first).getClusterConfig) (ringOf proposed)
          (enumerateAll (deployment.views first).getClusterConfig deployment) fates
          deployment.nodes.contents := by
  cases accepted : resolve identities proposed with
  | error message =>
      have refused : migrate hash (first :: others) proposed true identities transferId fates
          tailFates deployment = (.error message, deployment) := by
        simp only [migrate, accepted]
      rw [refused]
      constructor
      · exact fun _ => Or.inl ⟨message, rfl⟩
      · exact fun _ => Or.inl ⟨message, rfl, rfl, fun _ _ => id⟩
  | ok resolved =>
      have sameRing : ringOf resolved = ringOf proposed := by
        rw [ringOf, ringOf, resolve_ringOf accepted]
      generalize currentEq : (deployment.views first).getClusterConfig = current
      rcases execute_spec inRange (first :: others) current resolved transferId fates tailFates
        (reportOf true (moves hash (ringOf current) (ringOf resolved)
          (enumerateAll current deployment))) deployment with ⟨after, executed, migrated⟩
      have carriedOut : migrate hash (first :: others) proposed true identities transferId fates
          tailFates deployment = (.ok (reportOf true (moves hash (ringOf current) (ringOf resolved)
            (enumerateAll current deployment))), after) := by
        simp only [migrate, accepted, currentEq, if_true]
        exact executed
      rw [sameRing] at migrated
      rw [carriedOut, ← migrated_complete_iff migrated]
      constructor
      · rintro (⟨message, impossible, _⟩ | ⟨report, _, _, complete⟩)
        · cases impossible
        · exact Or.inr complete
      · rintro (⟨message, impossible⟩ | complete)
        · cases impossible
        · exact Or.inr ⟨_, rfl, rfl, complete⟩

end Complete

/-! ## A datum that moves to a second node -/

def firstNode : List StorageMember := [⟨1, 1, "store-1", 11⟩]

def bothNodes : List StorageMember := firstNode ++ [⟨2, 1, "store-2", 12⟩]

/-- Node 1 holds datum 1, which a second node would take over. -/
def holdingOne : Deployment Unit where
  views := fun _ => .fromConfig firstNode
  paused := fun _ => false
  nodes := fun node => ⟨if node = 1 then (∅ : Content).insert 1 ([7], 1) else ∅, fun _ => none,
    fun _ => none⟩

def honest (member : StorageMember) : NodeId × DatumId := (member.nodeId, member.logId)

theorem hasValue_holdingOne {id : DatumId} {payload : Bytes × ℕ}
    (has : HasValue JumpBackHasher.hash (ringOf (holdingOne.views ()).getClusterConfig)
      holdingOne.nodes.contents id payload) : id = 1 ∧ payload = ([7], 1) := by
  rcases List.exists_of_findSome?_eq_some has with ⟨node, _, held⟩
  simp only [StorageNodes.contents, holdingOne] at held
  split at held
  · by_cases same : id = 1
    · subst same
      rw [AList.lookup_insert, Option.some.injEq] at held
      exact ⟨rfl, held.symm⟩
    · rw [AList.lookup_insert_ne same] at held
      cases held
  · cases held

/-- Every copy takes effect. -/
theorem migrate_complete_faultless :
    NeverIncomplete JumpBackHasher.hash (ringOf (holdingOne.views ()).getClusterConfig)
      (ringOf bothNodes) holdingOne (migrate JumpBackHasher.hash [()] bothNodes true honest
        (fun _ => 99) (fun _ _ _ => ⟨true, true⟩) (fun _ _ _ => ⟨true, true⟩) holdingOne) := by
  refine (migrate_complete_iff (fun key _ nonempty => JumpBackHasher.hash_lt key nonempty) () []
    bothNodes honest (fun _ => 99) (fun _ _ _ => ⟨true, true⟩) (fun _ _ _ => ⟨true, true⟩)
    holdingOne).mpr (Or.inr ?_)
  intro id payload has node replica
  rcases hasValue_holdingOne has with ⟨rfl, rfl⟩
  have replicas : (ringOf bothNodes).replicas JumpBackHasher.hash 1 1 = [2] := by
    decide +kernel
  rw [replicas, List.mem_singleton] at replica
  subst replica
  refine ⟨by decide +kernel, Or.inl ⟨1, by decide +kernel, ⟨rfl, rfl, ?_⟩, ?_⟩⟩ <;> decide +kernel

/-- The destination does not take the copy; the migration is reported as applied, and the only copy
is deleted. -/
theorem migrate_incomplete : ∃ result,
    migrate JumpBackHasher.hash [()] bothNodes true honest (fun _ => 99)
      (fun _ _ _ => ⟨true, false⟩) (fun _ _ _ => ⟨true, true⟩) holdingOne = result ∧
    result.1.toOption.map Report.applied = some true ∧
    (ringOf bothNodes).replicas JumpBackHasher.hash 1 1 = [2] ∧
    holdingOne.nodes.contents 1 1 = some ([7], 1) ∧
    result.2.nodes.contents 1 1 = none ∧ result.2.nodes.contents 2 1 = none ∧
    ¬NeverIncomplete JumpBackHasher.hash (ringOf (holdingOne.views ()).getClusterConfig)
      (ringOf bothNodes) holdingOne result := by
  refine ⟨_, rfl, by decide +kernel, by decide +kernel, by decide +kernel, by decide +kernel,
    by decide +kernel, ?_⟩
  generalize resultEq : migrate JumpBackHasher.hash [()] bothNodes true honest (fun _ => 99)
    (fun _ _ _ => ⟨true, false⟩) (fun _ _ _ => ⟨true, true⟩) holdingOne = result
  have applied : result.1.toOption.map Report.applied = some true := by
    rw [← resultEq]
    decide +kernel
  have lost : result.2.nodes.contents 2 1 = none := by
    rw [← resultEq]
    decide +kernel
  rintro (⟨message, failed, _⟩ | ⟨report, _, _, complete⟩)
  · rw [failed] at applied
    cases applied
  · have has : HasValue JumpBackHasher.hash (ringOf (holdingOne.views ()).getClusterConfig)
        holdingOne.nodes.contents 1 ([7], 1) := by
      unfold HasValue
      decide +kernel
    have held := complete 1 ([7], 1) has 2 (by decide +kernel)
    rw [lost] at held
    cases held

end Migrate

end Seisin
