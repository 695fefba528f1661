import Seisin.Migrate.Live

/-!
# What a copy under way still owes

A planned move is not started, or its transfer tracks it: the datum is still to be read or sent, or
dirty, or the destination holds what the source holds.  Nothing but the copy thread and the dirty
tail writes a planned destination, so every step of a migration keeps this.
-/

namespace Seisin

open Migrate

/-! ## Transfers only grow -/

/-- The same transfer, later: datums may have become dirty. -/
structure TransferState.Grows (before after : TransferState) : Prop where
  ids : after.ids = before.ids
  dest : after.dest = before.dest
  dirty : ∀ id ∈ before.dirty, id ∈ after.dirty
  tracked : ∀ id ∈ after.dirty, id ∈ before.dirty ∨ id ∈ before.ids

theorem TransferState.Grows.refl (transfer : TransferState) : transfer.Grows transfer :=
  ⟨rfl, rfl, fun _ => id, fun _ => Or.inl⟩

theorem TransferState.Grows.trans {first second third : TransferState}
    (left : first.Grows second) (right : second.Grows third) : first.Grows third where
  ids := right.ids.trans left.ids
  dest := right.dest.trans left.dest
  dirty := fun id idMem => right.dirty id (left.dirty id idMem)
  tracked := by
    intro id idMem
    rcases right.tracked id idMem with before | inside
    · exact left.tracked id before
    · exact Or.inr (left.ids ▸ inside)

theorem TransferState.grows_noteWrite (transfer : TransferState) (id : DatumId) :
    transfer.Grows (transfer.noteWrite id) := by
  unfold TransferState.noteWrite
  split
  · rename_i inside
    refine ⟨rfl, rfl, fun other => List.mem_insert_of_mem, ?_⟩
    intro other otherMem
    rcases List.mem_insert_iff.mp otherMem with rfl | before
    · exact Or.inr inside
    · exact Or.inl before
  · exact .refl transfer

theorem TransferState.done_noteWrite (transfer : TransferState) (id : DatumId) :
    (transfer.noteWrite id).done = transfer.done := by
  unfold TransferState.noteWrite
  split <;> rfl

theorem TransferState.mem_noteWrite {transfer : TransferState} {id : DatumId}
    (inside : id ∈ transfer.ids) : id ∈ (transfer.noteWrite id).dirty := by
  rw [TransferState.noteWrite, if_pos inside]
  exact List.mem_insert_self

namespace StorageNodes

/-- Every transfer is still there and has only grown. -/
def Extends (before after : StorageNodes) : Prop :=
  ∀ node transferId transfer, (before node).transfers transferId = some transfer →
    ∃ later, (after node).transfers transferId = some later ∧ transfer.Grows later

theorem Extends.refl (nodes : StorageNodes) : nodes.Extends nodes :=
  fun _ _ transfer found => ⟨transfer, found, .refl transfer⟩

theorem Extends.trans {first second third : StorageNodes} (left : first.Extends second)
    (right : second.Extends third) : first.Extends third := by
  intro node transferId transfer found
  rcases left node transferId transfer found with ⟨later, foundLater, grows⟩
  rcases right node transferId later foundLater with ⟨last, foundLast, growsLast⟩
  exact ⟨last, foundLast, grows.trans growsLast⟩

/-- What a write at one node does to a transfer. -/
theorem transfer_send (nodes : StorageNodes) (dest : NodeId) (id : DatumId)
    (state : Option (Bytes × ℕ)) {node : NodeId} {transferId : DatumId} {transfer : TransferState}
    (found : (nodes node).transfers transferId = some transfer) :
    ∃ later, ((nodes.send dest id state true) node).transfers transferId = some later ∧
      transfer.Grows later ∧ later.done = transfer.done ∧
      (node = dest → id ∈ transfer.ids → id ∈ later.dirty) := by
  simp only [send, if_true]
  by_cases here : node = dest
  · subst here
    rw [Function.update_self, StorageNode.transfers_store, found]
    exact ⟨_, rfl, transfer.grows_noteWrite id, transfer.done_noteWrite id,
      fun _ => TransferState.mem_noteWrite⟩
  · rw [Function.update_of_ne here]
    exact ⟨transfer, found, .refl transfer, rfl, fun same => absurd same here⟩

theorem extends_send (nodes : StorageNodes) (dest : NodeId) (id : DatumId)
    (state : Option (Bytes × ℕ)) {applied : Bool} :
    nodes.Extends (nodes.send dest id state applied) := by
  cases applied with
  | false => exact .refl nodes
  | true =>
      intro node transferId transfer found
      rcases nodes.transfer_send dest id state found with ⟨later, foundLater, grows, _⟩
      exact ⟨later, foundLater, grows⟩

/-- A change of one transfer that lets it grow. -/
theorem extends_modify (nodes : StorageNodes) (node : NodeId) (transferId : DatumId)
    {change : TransferState → TransferState}
    (grows : ∀ transfer : TransferState, transfer.Grows (change transfer)) :
    nodes.Extends (nodes.update node (·.modify transferId change)) := by
  intro other otherId transfer found
  simp only [update]
  by_cases here : other = node
  · subst here
    rw [Function.update_self]
    simp only [StorageNode.modify]
    by_cases this : otherId = transferId
    · subst this
      rw [Function.update_self, found]
      exact ⟨_, rfl, grows transfer⟩
    · rw [Function.update_of_ne this]
      exact ⟨transfer, found, .refl transfer⟩
  · rw [Function.update_of_ne here]
    exact ⟨transfer, found, .refl transfer⟩

theorem extends_bumpCopied (nodes : StorageNodes) (node : NodeId) (transferId : DatumId) :
    nodes.Extends (nodes.update node (·.bumpCopied transferId)) :=
  nodes.extends_modify node transferId fun _ => ⟨rfl, rfl, fun _ => id, fun _ => Or.inl⟩

/-- Starting a transfer under a new id leaves the others alone. -/
theorem extends_start (nodes : StorageNodes) (node : NodeId) {transferId : DatumId}
    (fresh : (nodes node).transfers transferId = none) (ids : List DatumId) (dest : NodeId) :
    nodes.Extends (nodes.update node (·.start transferId ids dest)) := by
  intro other otherId transfer found
  simp only [update]
  by_cases here : other = node
  · subst here
    rw [Function.update_self]
    simp only [StorageNode.start]
    have differ : otherId ≠ transferId := by
      rintro rfl
      rw [fresh] at found
      cases found
    rw [Function.update_of_ne differ]
    exact ⟨transfer, found, .refl transfer⟩
  · rw [Function.update_of_ne here]
    exact ⟨transfer, found, .refl transfer⟩

/-- Sending datums once more brings their states to the destination as far as the calls take effect. -/
theorem resend_spec {source dest : NodeId} (fates : DatumId → CopyFate) {dirty : List DatumId}
    (apart : ∀ id ∈ dirty, source ≠ dest) (nodes : StorageNodes) :
    (∀ node id, (dirty.foldl (fun nodes id => nodes.resend source dest id (fates id))
        nodes).contents node id =
      if node = dest ∧ id ∈ dirty ∧ (fates id).applied
      then (nodes source).readValue id (fates id).readable else nodes.contents node id) ∧
    nodes.Extends (dirty.foldl (fun nodes id => nodes.resend source dest id (fates id)) nodes) := by
  induction dirty generalizing nodes with
  | nil => simp [Extends.refl]
  | cons first dirty ih =>
      rw [List.foldl_cons]
      have here := apart first List.mem_cons_self
      have source_eq : nodes.resend source dest first (fates first) source = nodes source := by
        unfold resend send
        split
        · rw [Function.update_of_ne here]
        · rfl
      rcases ih (fun id idMem => apart id (List.mem_cons_of_mem _ idMem))
        (nodes.resend source dest first (fates first)) with ⟨rest, extends_⟩
      refine ⟨?_, (nodes.extends_send dest first _).trans extends_⟩
      intro node id
      rw [rest, source_eq]
      simp only [resend, contents_send, List.mem_cons]
      by_cases same : id = first
      · subst same
        by_cases atDest : node = dest
        · cases (fates id).applied <;> simp [atDest]
        · simp [atDest]
      · simp [same]

/-- The dirty tail brings the states of the dirty datums to the destination, as far as the calls take
effect, and lets all other transfers grow at most. -/
theorem finishTransfer_spec {nodes : StorageNodes} {source : NodeId} {transferId : DatumId}
    {transfer : TransferState} (found : (nodes source).transfers transferId = some transfer)
    (apart : ∀ id ∈ transfer.dirty, source ≠ transfer.dest) (fates : DatumId → CopyFate) :
    ∃ after, nodes.finishTransfer source transferId fates = (.ok (), after) ∧
      (∀ node id, after.contents node id =
        if node = transfer.dest ∧ id ∈ transfer.dirty ∧ (fates id).applied
        then (nodes source).readValue id (fates id).readable else nodes.contents node id) ∧
      ∀ node otherId other, ¬(node = source ∧ otherId = transferId) →
        (nodes node).transfers otherId = some other →
        ∃ later, (after node).transfers otherId = some later ∧ other.Grows later := by
  let drained := nodes.update source (·.modify transferId fun transfer =>
    { transfer with dirty := [] })
  have same : drained.contents = nodes.contents := nodes.contents_update source rfl
  have log : (drained source).log = (nodes source).log := by
    simp only [drained, update, Function.update_self, StorageNode.log_modify]
  rcases resend_spec fates apart drained with ⟨contents, extends_⟩
  refine ⟨transfer.dirty.foldl (fun nodes id => nodes.resend source transfer.dest id (fates id))
    drained, ?_, ?_, ?_⟩
  · simp only [finishTransfer, found, StorageNode.takeDirty, Option.map_some, Option.getD_some]
    rfl
  · intro node id
    simp only [same, StorageNode.readValue, log] at contents ⊢
    exact contents node id
  · intro node otherId other differ otherFound
    apply extends_ node otherId other
    simp only [drained, update]
    by_cases here : node = source
    · subst here
      have another : otherId ≠ transferId := fun sameId => differ ⟨rfl, sameId⟩
      rw [Function.update_self]
      simp only [StorageNode.modify, Function.update_of_ne another]
      exact otherFound
    · rw [Function.update_of_ne here]
      exact otherFound

end StorageNodes

/-! ## Planned moves -/

namespace Migrate

/-- Moves go from replicas to nodes that are none, and those of a datum to one node have one
source. -/
structure Planned (replicas : DatumId → List NodeId) (planned : List Move) : Prop where
  source : ∀ move ∈ planned, move.source ∈ replicas move.id
  dest : ∀ move ∈ planned, move.dest ∉ replicas move.id
  unique : ∀ first ∈ planned, ∀ second ∈ planned, first.id = second.id →
    first.dest = second.dest → first.source = second.source

end Migrate

namespace Live

variable {Compute : Type}

/-- The transfer has the move's datum, which is pending, dirty or arrived. -/
def Tracked (live : Live Compute) (move : Move) (transferId : DatumId) : Prop :=
  ∃ transfer, (live.nodes move.source).transfers transferId = some transfer ∧
    transfer.dest = move.dest ∧ move.id ∈ transfer.ids ∧
    ((∃ thread, live.thread = some thread ∧ thread.source = move.source ∧
        thread.dest = move.dest ∧ move.id ∈ thread.task.pending) ∨
      move.id ∈ transfer.dirty ∨
      live.nodes.contents move.dest move.id = live.nodes.contents move.source move.id)

/-- The copy thread works on a transfer that was started and is not done; what it has not read yet
has not arrived, and what it has read is current or dirty. -/
structure ThreadOk (opened : NodeId × NodeId → Option DatumId) (live : Live Compute)
    (thread : CopyThread) : Prop where
  opened : opened (thread.source, thread.dest) = some thread.transferId
  nodup : thread.task.pending.Nodup
  waiting : ∀ id ∈ thread.task.remaining, live.nodes.contents thread.dest id = none
  transfer : ∃ transfer, (live.nodes thread.source).transfers thread.transferId = some transfer ∧
    transfer.done = false ∧ (∀ id ∈ thread.task.pending, id ∈ transfer.ids) ∧
    ∀ id payload, thread.task.sending = some (id, payload) →
      live.nodes.contents thread.source id = some payload ∨ id ∈ transfer.dirty

/-- How far the copies of a plan are: the pairs in `unstarted` are not begun, those in `opened` are
tracked, and once nothing is written any more the others have arrived. -/
structure Copies (replicas : DatumId → List NodeId) (planned : List Move)
    (unstarted : List (Σ _ : NodeId × NodeId, List DatumId))
    (opened : NodeId × NodeId → Option DatumId) (frozen : Prop) (live : Live Compute) : Prop where
  keys : unstarted.NodupKeys
  fresh : ∀ entry ∈ unstarted, opened entry.1 = none
  inPlan : ∀ entry ∈ unstarted, ∀ id ∈ entry.2, ⟨id, entry.1.1, entry.1.2⟩ ∈ planned
  transfers : ∀ pair transferId, opened pair = some transferId →
    ∃ transfer, (live.nodes pair.1).transfers transferId = some transfer ∧
      transfer.dest = pair.2 ∧ (∀ id ∈ transfer.ids, ⟨id, pair.1, pair.2⟩ ∈ planned) ∧
      ∀ id ∈ transfer.dirty, id ∈ transfer.ids
  clean : ∀ node id, node ∉ replicas id → (∀ move ∈ planned, move.dest = node → move.id ≠ id) →
    live.nodes.contents node id = none
  moves : ∀ move ∈ planned,
    (∃ entry ∈ unstarted, entry.1 = (move.source, move.dest) ∧ move.id ∈ entry.2 ∧
      live.nodes.contents move.dest move.id = none) ∨
    (∃ transferId, opened (move.source, move.dest) = some transferId ∧
      live.Tracked move transferId) ∨
    (frozen ∧ live.nodes.contents move.dest move.id = live.nodes.contents move.source move.id)
  thread : ∀ thread, live.thread = some thread → live.ThreadOk opened thread

namespace Copies

variable {replicas : DatumId → List NodeId} {planned : List Move}
  {unstarted : List (Σ _ : NodeId × NodeId, List DatumId)}
  {opened : NodeId × NodeId → Option DatumId} {frozen : Prop} {live next : Live Compute}

/-- A planned destination is not where a planned datum comes from. -/
theorem apart (plan : Planned replicas planned) {move : Move} (moveMem : move ∈ planned)
    {other : Move} (otherMem : other ∈ planned) :
    ¬(other.source = move.dest ∧ other.id = move.id) := by
  rintro ⟨sameNode, sameId⟩
  have source := plan.source other otherMem
  rw [sameNode, sameId] at source
  exact plan.dest move moveMem source

/-- Growing transfers are still those of their pairs. -/
theorem transfers_of_extends (copies : live.Copies replicas planned unstarted opened frozen)
    (extends_ : live.nodes.Extends next.nodes) (pair : NodeId × NodeId) (transferId : DatumId)
    (open_ : opened pair = some transferId) :
    ∃ transfer, (next.nodes pair.1).transfers transferId = some transfer ∧
      transfer.dest = pair.2 ∧ (∀ id ∈ transfer.ids, ⟨id, pair.1, pair.2⟩ ∈ planned) ∧
      ∀ id ∈ transfer.dirty, id ∈ transfer.ids := by
  rcases copies.transfers pair transferId open_ with ⟨transfer, found, dest, inPlan, dirty⟩
  rcases extends_ pair.1 transferId transfer found with ⟨later, foundLater, grows⟩
  refine ⟨later, foundLater, grows.dest.trans dest, ?_, ?_⟩
  · rw [grows.ids]
    exact inPlan
  · intro id idMem
    rw [grows.ids]
    rcases grows.tracked id idMem with before | inside
    · exact dirty id before
    · exact inside

end Copies

/-- A tracked move stays tracked while its transfer grows and neither end changes. -/
theorem Tracked.of_extends {live next : Live Compute} {move : Move} {transferId : DatumId}
    (tracked : live.Tracked move transferId) (extends_ : live.nodes.Extends next.nodes)
    (dest : next.nodes.contents move.dest move.id = live.nodes.contents move.dest move.id)
    (source : next.nodes.contents move.source move.id = live.nodes.contents move.source move.id)
    (pending : ∀ thread, live.thread = some thread → thread.source = move.source →
      thread.dest = move.dest → move.id ∈ thread.task.pending →
      ∃ later, next.thread = some later ∧ later.source = move.source ∧ later.dest = move.dest ∧
        move.id ∈ later.task.pending) : next.Tracked move transferId := by
  rcases tracked with ⟨transfer, found, toDest, inside, state⟩
  rcases extends_ move.source transferId transfer found with ⟨later, foundLater, grows⟩
  refine ⟨later, foundLater, grows.dest.trans toDest, grows.ids ▸ inside, ?_⟩
  rcases state with ⟨thread, runs, fromSource, toThreadDest, waits⟩ | dirty | arrived
  · exact Or.inl (pending thread runs fromSource toThreadDest waits)
  · exact Or.inr (Or.inl (grows.dirty _ dirty))
  · right
    right
    rw [dest, source]
    exact arrived

namespace Copies

variable {replicas : DatumId → List NodeId} {planned : List Move}
  {unstarted : List (Σ _ : NodeId × NodeId, List DatumId)}
  {opened : NodeId × NodeId → Option DatumId} {frozen : Prop} {live next : Live Compute}

/-! ## Steps of clients -/

/-- A write that takes effect at a replica: a planned source makes the datum dirty, a planned
destination is none. -/
theorem writeApplied (copies : live.Copies replicas planned unstarted opened False)
    (plan : Planned replicas planned) {node : NodeId} {id : DatumId} {state : Option (Bytes × ℕ)}
    (replica : node ∈ replicas id) (nodes : next.nodes = live.nodes.send node id state true)
    (thread : next.thread = live.thread) :
    next.Copies replicas planned unstarted opened False := by
  have extends_ : live.nodes.Extends next.nodes := nodes ▸ live.nodes.extends_send node id state
  have contents : ∀ other otherId, ¬(other = node ∧ otherId = id) →
      next.nodes.contents other otherId = live.nodes.contents other otherId := by
    intro other otherId differ
    rw [nodes, StorageNodes.contents_send, if_neg (fun both => differ ⟨both.1, both.2.1⟩)]
  have outside : ∀ other otherId, other ∉ replicas otherId →
      next.nodes.contents other otherId = live.nodes.contents other otherId := by
    intro other otherId notReplica
    apply contents
    rintro ⟨rfl, rfl⟩
    exact notReplica replica
  refine ⟨copies.keys, copies.fresh, copies.inPlan, copies.transfers_of_extends extends_, ?_, ?_, ?_⟩
  · intro other otherId notReplica unplanned
    rw [outside other otherId notReplica]
    exact copies.clean other otherId notReplica unplanned
  · intro move moveMem
    have destSame := outside move.dest move.id (plan.dest move moveMem)
    rcases copies.moves move moveMem with ⟨entry, entryMem, pair, inside, absent⟩ |
      ⟨transferId, open_, tracked⟩ | ⟨impossible, _⟩
    · left
      exact ⟨entry, entryMem, pair, inside, destSame.trans absent⟩
    · right
      left
      refine ⟨transferId, open_, ?_⟩
      by_cases atSource : move.source = node ∧ move.id = id
      · rcases tracked with ⟨transfer, found, toDest, inside, _⟩
        rcases live.nodes.transfer_send node id state found with
          ⟨later, foundLater, grows, _, dirty⟩
        refine ⟨later, by rw [nodes]; exact foundLater, grows.dest.trans toDest,
          grows.ids ▸ inside, Or.inr (Or.inl ?_)⟩
        rw [atSource.2] at inside ⊢
        exact dirty atSource.1 inside
      · apply tracked.of_extends extends_ destSame (contents move.source move.id atSource)
        intro running runs fromSource toDest waits
        exact ⟨running, thread.trans runs, fromSource, toDest, waits⟩
    · cases impossible
  · intro running runs
    rw [thread] at runs
    have ok := copies.thread running runs
    rcases ok.transfer with ⟨transfer, found, notDone, inside, current⟩
    rcases copies.transfers _ _ ok.opened with ⟨same, foundSame, _, inPlan, _⟩
    have sameTransfer : same = transfer := Option.some.inj (foundSame.symm.trans found)
    subst sameTransfer
    rcases live.nodes.transfer_send node id state found with ⟨later, foundLater, grows, done, dirty⟩
    refine ⟨ok.opened, ok.nodup, ?_, later, by rw [nodes]; exact foundLater,
      done.trans notDone, fun other otherMem => grows.ids ▸ inside other otherMem, ?_⟩
    · intro other otherMem
      have pending : other ∈ running.task.pending := List.mem_append_right _ otherMem
      rw [outside running.dest other (plan.dest _ (inPlan other (inside other pending)))]
      exact ok.waiting other otherMem
    · intro other payload sends
      have pending : other ∈ running.task.pending := by
        simp [CopyTask.pending, sends]
      by_cases atSource : running.source = node ∧ other = id
      · right
        have tracked := inside other pending
        rw [atSource.2] at tracked ⊢
        exact dirty atSource.1 tracked
      · rw [contents running.source other atSource]
        rcases current other payload sends with same | before
        · exact Or.inl same
        · exact Or.inr (grows.dirty other before)

/-- Steps that change neither nodes nor the copy thread. -/
theorem frame (copies : live.Copies replicas planned unstarted opened frozen)
    (nodes : next.nodes = live.nodes) (thread : next.thread = live.thread) :
    next.Copies replicas planned unstarted opened frozen := by
  refine ⟨copies.keys, copies.fresh, copies.inPlan, ?_, ?_, ?_, ?_⟩
  · rw [nodes]
    exact copies.transfers
  · rw [nodes]
    exact copies.clean
  · intro move moveMem
    have before := copies.moves move moveMem
    unfold Tracked at before ⊢
    rw [nodes, thread]
    exact before
  · intro running runs
    rw [thread] at runs
    have ok := copies.thread running runs
    refine ⟨ok.opened, ok.nodup, ?_, ?_⟩
    · rw [nodes]
      exact ok.waiting
    · rw [nodes]
      exact ok.transfer

/-- A write at a replica, which takes effect or not. -/
theorem write (copies : live.Copies replicas planned unstarted opened False)
    (plan : Planned replicas planned) {node : NodeId} {id : DatumId} {state : Option (Bytes × ℕ)}
    {applied : Bool} (replica : node ∈ replicas id)
    (nodes : next.nodes = live.nodes.send node id state applied)
    (thread : next.thread = live.thread) :
    next.Copies replicas planned unstarted opened False := by
  cases applied with
  | false => exact copies.frame nodes thread
  | true => exact copies.writeApplied plan replica nodes thread

/-! ## Steps of the copy thread -/

/-- The datum of a thread that is read or sent is that of a planned move. -/
theorem pending_planned (copies : live.Copies replicas planned unstarted opened frozen)
    {thread : CopyThread} (runs : live.thread = some thread) {id : DatumId}
    (pending : id ∈ thread.task.pending) : ⟨id, thread.source, thread.dest⟩ ∈ planned := by
  have ok := copies.thread thread runs
  rcases ok.transfer with ⟨transfer, found, _, inside, _⟩
  rcases copies.transfers _ _ ok.opened with ⟨same, foundSame, _, inPlan, _⟩
  have sameTransfer : same = transfer := Option.some.inj (foundSame.symm.trans found)
  subst sameTransfer
  exact inPlan id (inside id pending)

/-- The transfer of a thread after it has counted a datum. -/
theorem transfer_bumpCopied {nodes : StorageNodes} {node : NodeId} {transferId : DatumId}
    {transfer : TransferState} (found : (nodes node).transfers transferId = some transfer) :
    ((nodes.update node (·.bumpCopied transferId)) node).transfers transferId =
      some { transfer with copied := transfer.copied + 1 } := by
  simp only [StorageNodes.update, StorageNode.bumpCopied, StorageNode.modify, Function.update_self,
    found, Option.map_some]

theorem copyRead (copies : live.Copies replicas planned unstarted opened frozen)
    (stepped : live.copyRead true = some next) :
    next.Copies replicas planned unstarted opened frozen := by
  rcases copyRead_cases stepped with ⟨thread, id, rest, runs, nothing, remaining, outcome⟩
  have ok := copies.thread thread runs
  rcases ok.transfer with ⟨transfer, found, notDone, inside, _⟩
  have pending : thread.task.pending = id :: rest := by
    simp [CopyTask.pending, nothing, remaining]
  have nodup : (id :: rest).Nodup := pending ▸ ok.nodup
  have waiting : ∀ other ∈ id :: rest, live.nodes.contents thread.dest other = none :=
    remaining ▸ ok.waiting
  rcases outcome with ⟨payload, read, rfl⟩ | ⟨read, rfl⟩
  · refine ⟨copies.keys, copies.fresh, copies.inPlan, copies.transfers, copies.clean, ?_, ?_⟩
    · intro move moveMem
      rcases copies.moves move moveMem with absent | ⟨transferId, open_, tracked⟩ | arrived
      · exact Or.inl absent
      · refine Or.inr (Or.inl ⟨transferId, open_, ?_⟩)
        refine tracked.of_extends ?_ ?_ ?_ ?_
        · exact .refl live.nodes
        · rfl
        · rfl
        intro running sameRuns fromSource toDest waits
        rw [runs, Option.some.injEq] at sameRuns
        subst sameRuns
        refine ⟨_, rfl, fromSource, toDest, ?_⟩
        rw [pending] at waits
        simpa [CopyTask.pending] using waits
      · exact Or.inr (Or.inr arrived)
    · rintro running ⟨⟩
      refine ⟨ok.opened, by simpa [CopyTask.pending] using nodup, ?_, transfer, found, notDone,
        ?_, ?_⟩
      · intro other otherMem
        exact waiting other (List.mem_cons_of_mem _ otherMem)
      · intro other otherMem
        apply inside
        rw [pending]
        simpa [CopyTask.pending] using otherMem
      · intro other sent sends
        cases sends
        exact Or.inl read
  · have same : (live.nodes.update thread.source
        (·.bumpCopied thread.transferId)).contents = live.nodes.contents :=
      live.nodes.contents_update thread.source rfl
    have extends_ := live.nodes.extends_bumpCopied thread.source thread.transferId
    refine ⟨copies.keys, copies.fresh, copies.inPlan, copies.transfers_of_extends extends_, ?_,
      ?_, ?_⟩
    · intro node other
      dsimp only
      rw [same]
      exact copies.clean node other
    · intro move moveMem
      dsimp only
      rw [same]
      rcases copies.moves move moveMem with absent | ⟨transferId, open_, tracked⟩ | arrived
      · exact Or.inl absent
      · refine Or.inr (Or.inl ⟨transferId, open_, ?_⟩)
        by_cases this : thread.source = move.source ∧ thread.dest = move.dest ∧ move.id = id
        · -- the datum that is passed over is absent at both ends
          rcases this with ⟨fromSource, toDest, sameId⟩
          rcases tracked with ⟨tracking, foundTracking, dest, tracks, _⟩
          rcases extends_ move.source transferId tracking foundTracking with
            ⟨later, foundLater, grows⟩
          refine ⟨later, foundLater, grows.dest.trans dest, grows.ids ▸ tracks,
            Or.inr (Or.inr ?_)⟩
          dsimp only
          rw [same, ← fromSource, ← toDest, sameId, waiting id List.mem_cons_self]
          exact read.symm
        · refine tracked.of_extends extends_ ?_ ?_ ?_
          · exact congrFun (congrFun same _) _
          · exact congrFun (congrFun same _) _
          intro running sameRuns fromSource toDest waits
          rw [runs, Option.some.injEq] at sameRuns
          subst sameRuns
          refine ⟨_, rfl, fromSource, toDest, ?_⟩
          rw [pending, List.mem_cons] at waits
          rcases waits with first | later
          · exact absurd ⟨fromSource, toDest, first⟩ this
          · simpa [CopyTask.pending, nothing] using later
      · exact Or.inr (Or.inr arrived)
    · rintro running ⟨⟩
      refine ⟨ok.opened, ?_, ?_, _, transfer_bumpCopied found, notDone, ?_, ?_⟩
      · simpa [CopyTask.pending, nothing] using (List.nodup_cons.mp nodup).2
      · intro other otherMem
        dsimp only
        rw [same]
        exact waiting other (List.mem_cons_of_mem _ otherMem)
      · intro other otherMem
        apply inside
        rw [pending]
        apply List.mem_cons_of_mem
        simpa [CopyTask.pending, nothing] using otherMem
      · intro other sent sends
        cases sends

theorem copySend (copies : live.Copies replicas planned unstarted opened frozen)
    (plan : Planned replicas planned) (stepped : live.copySend true = some next) :
    next.Copies replicas planned unstarted opened frozen := by
  rcases copySend_cases stepped with ⟨thread, id, payload, runs, sends, rfl⟩
  have ok := copies.thread thread runs
  rcases ok.transfer with ⟨transfer, found, notDone, inside, current⟩
  have pending : thread.task.pending = id :: thread.task.remaining := by
    simp [CopyTask.pending, sends]
  have nodup : (id :: thread.task.remaining).Nodup := pending ▸ ok.nodup
  have sent : ⟨id, thread.source, thread.dest⟩ ∈ planned :=
    copies.pending_planned runs (pending ▸ List.mem_cons_self)
  have bump : ∀ nodes : StorageNodes,
      (nodes.update thread.source (·.bumpCopied thread.transferId)).contents = nodes.contents :=
    fun nodes => nodes.contents_update thread.source rfl
  have arrives : ((live.nodes.send thread.dest id (some payload) true).update thread.source
      (·.bumpCopied thread.transferId)).contents thread.dest id = some payload := by
    rw [bump, StorageNodes.contents_send, if_pos ⟨rfl, rfl, rfl⟩]
  have contents : ∀ node other, ¬(node = thread.dest ∧ other = id) →
      ((live.nodes.send thread.dest id (some payload) true).update thread.source
        (·.bumpCopied thread.transferId)).contents node other =
      live.nodes.contents node other := by
    intro node other differ
    rw [bump, StorageNodes.contents_send, if_neg (fun both => differ ⟨both.1, both.2.1⟩)]
  have extends_ : live.nodes.Extends ((live.nodes.send thread.dest id (some payload) true).update
      thread.source (·.bumpCopied thread.transferId)) :=
    (live.nodes.extends_send thread.dest id (some payload)).trans
      (StorageNodes.extends_bumpCopied _ thread.source thread.transferId)
  refine ⟨copies.keys, copies.fresh, copies.inPlan, copies.transfers_of_extends extends_, ?_, ?_,
    ?_⟩
  · intro node other notReplica unplanned
    dsimp only
    rw [contents node other]
    · exact copies.clean node other notReplica unplanned
    · rintro ⟨rfl, rfl⟩
      exact unplanned _ sent rfl rfl
  · intro move moveMem
    have sourceSame := contents move.source move.id (apart plan sent moveMem)
    by_cases this : move.dest = thread.dest ∧ move.id = id
    · -- this is the move the thread has just made
      have fromSource : move.source = thread.source :=
        plan.unique move moveMem _ sent this.2 this.1
      have pair : (move.source, move.dest) = (thread.source, thread.dest) := by
        rw [fromSource, this.1]
      right
      left
      refine ⟨thread.transferId, pair ▸ ok.opened, ?_⟩
      rcases copies.transfers _ _ ok.opened with ⟨same, foundSame, toDest, _, _⟩
      have sameTransfer : same = transfer := Option.some.inj (foundSame.symm.trans found)
      subst sameTransfer
      rcases extends_ thread.source thread.transferId same found with
        ⟨later, foundLater, grows⟩
      refine ⟨later, fromSource ▸ foundLater, (grows.dest.trans toDest).trans this.1.symm, ?_,
        Or.inr ?_⟩
      · rw [grows.ids, this.2]
        exact inside id (pending ▸ List.mem_cons_self)
      · rcases current id payload sends with unchanged | dirty
        · right
          rw [← fromSource, ← this.2] at unchanged
          refine Eq.trans ?_ (sourceSame.trans unchanged).symm
          dsimp only
          rw [this.1, this.2]
          exact arrives
        · left
          rw [this.2]
          exact grows.dirty id dirty
    · have destSame := contents move.dest move.id this
      rcases copies.moves move moveMem with ⟨entry, entryMem, pair, listed, absent⟩ |
        ⟨transferId, open_, tracked⟩ | ⟨still, arrived⟩
      · exact Or.inl ⟨entry, entryMem, pair, listed, destSame.trans absent⟩
      · refine Or.inr (Or.inl ⟨transferId, open_, ?_⟩)
        refine tracked.of_extends extends_ destSame sourceSame ?_
        intro running sameRuns fromSource toDest waits
        rw [runs, Option.some.injEq] at sameRuns
        subst sameRuns
        refine ⟨_, rfl, fromSource, toDest, ?_⟩
        rw [pending, List.mem_cons] at waits
        rcases waits with first | later
        · exact absurd ⟨toDest.symm, first⟩ this
        · simpa [CopyTask.pending] using later
      · exact Or.inr (Or.inr ⟨still, destSame.trans (arrived.trans sourceSame.symm)⟩)
  · rintro running ⟨⟩
    rcases live.nodes.transfer_send thread.dest id (some payload) found with
      ⟨later, foundLater, grows, done, _⟩
    refine ⟨ok.opened, ?_, ?_, _, transfer_bumpCopied foundLater, done.trans notDone, ?_, nofun⟩
    · simpa [CopyTask.pending] using (List.nodup_cons.mp nodup).2
    · intro other otherMem
      dsimp only
      rw [contents thread.dest other]
      · exact ok.waiting other otherMem
      · rintro ⟨_, rfl⟩
        exact (List.nodup_cons.mp nodup).1 otherMem
    · intro other otherMem
      dsimp only
      rw [grows.ids]
      apply inside
      rw [pending]
      apply List.mem_cons_of_mem
      simpa [CopyTask.pending] using otherMem

theorem copyDone (copies : live.Copies replicas planned unstarted opened frozen)
    (stepped : live.copyDone = some next) :
    next.Copies replicas planned unstarted opened frozen := by
  rcases copyDone_cases stepped with ⟨thread, runs, idle, remaining, rfl⟩
  have pending : thread.task.pending = [] := by
    simp [CopyTask.pending, idle, remaining]
  have same : (live.nodes.update thread.source
      (·.markDone thread.transferId)).contents = live.nodes.contents :=
    live.nodes.contents_update thread.source rfl
  have extends_ : live.nodes.Extends
      (live.nodes.update thread.source (·.markDone thread.transferId)) :=
    live.nodes.extends_modify _ _ fun _ => ⟨rfl, rfl, fun _ => id, fun _ => Or.inl⟩
  refine ⟨copies.keys, copies.fresh, copies.inPlan, copies.transfers_of_extends extends_, ?_, ?_,
    nofun⟩
  · intro node other
    dsimp only
    rw [same]
    exact copies.clean node other
  · intro move moveMem
    dsimp only
    rw [same]
    rcases copies.moves move moveMem with absent | ⟨transferId, open_, tracked⟩ | arrived
    · exact Or.inl absent
    · refine Or.inr (Or.inl ⟨transferId, open_, ?_⟩)
      refine tracked.of_extends extends_ ?_ ?_ ?_
      · exact congrFun (congrFun same _) _
      · exact congrFun (congrFun same _) _
      intro running sameRuns _ _ waits
      rw [runs, Option.some.injEq] at sameRuns
      subst sameRuns
      rw [pending] at waits
      cases waits
    · exact Or.inr (Or.inr arrived)

/-! ## Steps of the driver -/

theorem start [DecidableEq Compute] {enumeration : Enumeration} {pair : NodeId × NodeId}
    {ids : List DatumId} {pairs : List (Σ _ : NodeId × NodeId, List DatumId)}
    {transfers : AList (fun _ : NodeId × NodeId => DatumId)} {transferId : DatumId}
    (copies : live.Copies replicas planned (⟨pair, ids⟩ :: pairs) transfers.lookup False)
    (stepped : live.startTransfer enumeration pair ids pairs transfers transferId = some next) :
    next.Copies replicas planned pairs (transfers.insert pair transferId).lookup False ∧
      next = { live with
        nodes := live.nodes.update pair.1 (·.start transferId ids pair.2)
        thread := some ⟨pair.1, pair.2, transferId, ⟨ids.dedup, none⟩⟩
        driver := .copying enumeration pairs (some pair) (transfers.insert pair transferId) } := by
  unfold Live.startTransfer at stepped
  split at stepped
  · cases stepped
  · rename_i admitted
    simp only [Bool.or_eq_true, Option.isSome_iff_ne_none, ne_eq, not_or, not_not] at admitted
    rcases admitted with ⟨fresh, noThread⟩
    cases stepped
    refine ⟨?_, rfl⟩
    have unopened : transfers.lookup pair = none := copies.fresh _ List.mem_cons_self
    have keys := List.nodupKeys_cons.mp copies.keys
    have same : (live.nodes.update pair.1 (·.start transferId ids pair.2)).contents =
        live.nodes.contents := live.nodes.contents_update pair.1 rfl
    have extends_ := live.nodes.extends_start pair.1 fresh ids pair.2
    have started : ((live.nodes.update pair.1 (·.start transferId ids pair.2)) pair.1).transfers
        transferId = some ⟨ids.dedup, pair.2, 0, [], false⟩ := by
      simp only [StorageNodes.update, StorageNode.start, Function.update_self]
    have inPlan : ∀ id ∈ ids, ⟨id, pair.1, pair.2⟩ ∈ planned :=
      copies.inPlan _ List.mem_cons_self
    have absent : ∀ id ∈ ids, live.nodes.contents pair.2 id = none := by
      intro id idMem
      rcases copies.moves _ (inPlan id idMem) with ⟨_, _, _, _, none_⟩ | ⟨_, open_, _⟩ | ⟨no, _⟩
      · exact none_
      · rw [show transfers.lookup pair = some _ from open_] at unopened
        cases unopened
      · cases no
    refine ⟨keys.2, ?_, fun entry entryMem => copies.inPlan entry (List.mem_cons_of_mem _ entryMem),
      ?_, ?_, ?_, ?_⟩
    · intro entry entryMem
      have differ : entry.1 ≠ pair := by
        rintro rfl
        have listed : entry.1 ∈ pairs.keys := List.mem_keys_of_mem entryMem
        exact keys.1 listed
      rw [AList.lookup_insert_ne differ]
      exact copies.fresh entry (List.mem_cons_of_mem _ entryMem)
    · intro other otherId open_
      by_cases here : other = pair
      · subst here
        rw [AList.lookup_insert, Option.some.injEq] at open_
        subst open_
        exact ⟨_, started, rfl, fun id idMem => inPlan id (List.mem_dedup.mp idMem), by simp⟩
      · rw [AList.lookup_insert_ne here] at open_
        exact copies.transfers_of_extends extends_ other otherId open_
    · intro node id
      dsimp only
      rw [same]
      exact copies.clean node id
    · intro move moveMem
      dsimp only
      rw [same]
      rcases copies.moves move moveMem with ⟨entry, entryMem, entryPair, listed, none_⟩ |
        ⟨otherId, open_, tracked⟩ | ⟨no, _⟩
      · rcases List.mem_cons.mp entryMem with rfl | later
        · right
          left
          dsimp only at entryPair listed
          subst entryPair
          refine ⟨transferId, AList.lookup_insert _, _, started, rfl, List.mem_dedup.mpr listed,
            Or.inl ⟨_, rfl, rfl, rfl, ?_⟩⟩
          simpa [CopyTask.pending] using listed
        · exact Or.inl ⟨entry, later, entryPair, listed, none_⟩
      · right
        left
        have differ : (move.source, move.dest) ≠ pair := by
          rintro rfl
          rw [unopened] at open_
          cases open_
        refine ⟨otherId, (AList.lookup_insert_ne differ).trans open_, ?_⟩
        refine tracked.of_extends extends_ ?_ ?_ ?_
        · exact congrFun (congrFun same _) _
        · exact congrFun (congrFun same _) _
        intro running runs
        rw [noThread] at runs
        cases runs
      · cases no
    · rintro running ⟨⟩
      refine ⟨AList.lookup_insert _, ?_, ?_, _, started, rfl, ?_, by simp⟩
      · simpa [CopyTask.pending] using List.nodup_dedup ids
      · intro id idMem
        dsimp only
        rw [same]
        exact absent id (List.mem_dedup.mp idMem)
      · intro id idMem
        simpa [CopyTask.pending] using idMem

/-- The tail of a pair's transfer was sent: what was dirty is at the destination, and every other
transfer has grown at most. -/
structure TailSent (planned : List Move) (pair : NodeId × NodeId) (transferId : DatumId)
    (transfer : TransferState) (live next : Live Compute) : Prop where
  found : (live.nodes pair.1).transfers transferId = some transfer
  dest : transfer.dest = pair.2
  inPlan : ∀ id ∈ transfer.dirty, ⟨id, pair.1, pair.2⟩ ∈ planned
  sent : ∀ node id, next.nodes.contents node id =
    if node = pair.2 ∧ id ∈ transfer.dirty then live.nodes.contents pair.1 id
    else live.nodes.contents node id
  grown : ∀ node otherId other, ¬(node = pair.1 ∧ otherId = transferId) →
    (live.nodes node).transfers otherId = some other →
    ∃ later, (next.nodes node).transfers otherId = some later ∧ other.Grows later

section Tail

variable {pair : NodeId × NodeId} {transferId : DatumId} {transfer : TransferState}
  {rest : List (Σ _ : NodeId × NodeId, DatumId)}

theorem tailSent {fates : DatumId → CopyFate}
    (copies : live.Copies replicas planned []
      (fun other => (⟨pair, transferId⟩ :: rest : List (Σ _ : NodeId × NodeId, DatumId)).dlookup
        other) True)
    (plan : Planned replicas planned) (effective : ∀ id, fates id = ⟨true, true⟩)
    (finished : live.nodes.finishTransfer pair.1 transferId fates = (.ok (), next.nodes)) :
    ∃ transfer, TailSent planned pair transferId transfer live next := by
  rcases copies.transfers pair transferId (List.dlookup_cons_eq _ _ _) with
    ⟨transfer, found, dest, inPlan, tracked⟩
  have dirtyPlanned : ∀ id ∈ transfer.dirty, ⟨id, pair.1, pair.2⟩ ∈ planned :=
    fun id idMem => inPlan id (tracked id idMem)
  have apart_ : ∀ id ∈ transfer.dirty, pair.1 ≠ transfer.dest := by
    intro id idMem same
    rw [dest] at same
    exact apart plan (dirtyPlanned id idMem) (dirtyPlanned id idMem) ⟨same, rfl⟩
  rcases StorageNodes.finishTransfer_spec found apart_ fates with ⟨after, afterEq, contents, grown⟩
  rw [finished, Prod.mk.injEq] at afterEq
  rcases afterEq with ⟨_, rfl⟩
  refine ⟨transfer, found, dest, dirtyPlanned, ?_, grown⟩
  intro node id
  rw [contents node id, dest]
  simp only [effective, StorageNode.readValue, if_true, and_true, StorageNodes.contents]

namespace TailSent

variable (tail : TailSent planned pair transferId transfer live next)
include tail

theorem unchanged {node : NodeId} {id : DatumId} (differ : ¬(node = pair.2 ∧ id ∈ transfer.dirty)) :
    next.nodes.contents node id = live.nodes.contents node id := by
  rw [tail.sent, if_neg differ]

theorem source_unchanged (plan : Planned replicas planned) {move : Move}
    (moveMem : move ∈ planned) :
    next.nodes.contents move.source move.id = live.nodes.contents move.source move.id := by
  apply tail.unchanged
  rintro ⟨atDest, dirty⟩
  exact apart plan (tail.inPlan _ dirty) moveMem ⟨atDest, rfl⟩

/-- No move of another pair is to where the tail was sent. -/
theorem dest_unchanged (plan : Planned replicas planned) {move : Move}
    (moveMem : move ∈ planned) (another : (move.source, move.dest) ≠ pair) :
    next.nodes.contents move.dest move.id = live.nodes.contents move.dest move.id := by
  apply tail.unchanged
  rintro ⟨atDest, dirty⟩
  have fromSource := plan.unique move moveMem _ (tail.inPlan _ dirty) rfl atDest
  exact another (Prod.ext fromSource atDest)

/-- The moves of the pair have arrived. -/
theorem arrived (copies : live.Copies replicas planned []
      (fun other => (⟨pair, transferId⟩ :: rest : List (Σ _ : NodeId × NodeId, DatumId)).dlookup
        other) True)
    (plan : Planned replicas planned) (idle : live.thread = none) {move : Move}
    (moveMem : move ∈ planned) (here : (move.source, move.dest) = pair) :
    next.nodes.contents move.dest move.id = next.nodes.contents move.source move.id := by
  rw [tail.source_unchanged plan moveMem, tail.sent]
  split
  · rw [← here]
  · rename_i notDirty
    rcases copies.moves move moveMem with ⟨_, impossible, _⟩ | ⟨sameId, open_, state⟩ | arrived
    · cases impossible
    · rw [here, List.dlookup_cons_eq, Option.some.injEq] at open_
      subst open_
      rcases state with ⟨same, foundSame, _, _, state⟩
      have fromSource : move.source = pair.1 := congrArg Prod.fst here
      rw [fromSource, tail.found, Option.some.injEq] at foundSame
      subst foundSame
      rcases state with ⟨running, runs, _⟩ | dirty | arrived
      · rw [idle] at runs
        cases runs
      · exact absurd ⟨congrArg Prod.snd here, dirty⟩ notDirty
      · exact arrived
    · exact arrived.2

/-- The transfers of the other pairs are others. -/
theorem other_transfer
    (copies : live.Copies replicas planned []
      (fun other => (⟨pair, transferId⟩ :: rest : List (Σ _ : NodeId × NodeId, DatumId)).dlookup
        other) True)
    {other : NodeId × NodeId} {otherId : DatumId} (differ : other ≠ pair)
    (open_ : rest.dlookup other = some otherId) :
    ¬(other.1 = pair.1 ∧ otherId = transferId) := by
  rintro ⟨sameSource, rfl⟩
  rcases copies.transfers other otherId ((List.dlookup_cons_ne _ _ differ).trans open_) with
    ⟨same, foundSame, sameDest, _, _⟩
  rw [sameSource, tail.found, Option.some.injEq] at foundSame
  subst foundSame
  exact differ (Prod.ext sameSource (sameDest.symm.trans tail.dest))

end TailSent

/-- The tail of one transfer is sent while nothing is written: its moves have arrived. -/
theorem finish {fates : DatumId → CopyFate}
    (copies : live.Copies replicas planned []
      (fun other => (⟨pair, transferId⟩ :: rest : List (Σ _ : NodeId × NodeId, DatumId)).dlookup
        other) True)
    (plan : Planned replicas planned)
    (keys : (⟨pair, transferId⟩ :: rest : List (Σ _ : NodeId × NodeId, DatumId)).NodupKeys)
    (idle : live.thread = none) (effective : ∀ id, fates id = ⟨true, true⟩)
    (finished : live.nodes.finishTransfer pair.1 transferId fates = (.ok (), next.nodes))
    (thread : next.thread = live.thread) :
    next.Copies replicas planned [] (fun other => rest.dlookup other) True := by
  have others : ∀ {other : NodeId × NodeId}, other ≠ pair →
      (⟨pair, transferId⟩ :: rest : List (Σ _ : NodeId × NodeId, DatumId)).dlookup other =
        rest.dlookup other := fun differ => List.dlookup_cons_ne _ _ differ
  rcases copies.tailSent plan effective finished with ⟨transfer, tail⟩
  refine ⟨copies.keys, fun _ none_ => absurd none_ List.not_mem_nil,
    fun _ none_ => absurd none_ List.not_mem_nil, ?_, ?_, ?_, ?_⟩
  · intro other otherId open_
    have differ : other ≠ pair := by
      rintro rfl
      rw [List.dlookup_eq_none.mpr (List.nodupKeys_cons.mp keys).1] at open_
      cases open_
    rcases copies.transfers other otherId ((others differ).trans open_) with
      ⟨tracking, foundTracking, toDest, planned_, dirtyInside⟩
    rcases tail.grown other.1 otherId tracking (tail.other_transfer copies differ open_)
      foundTracking with ⟨later, foundLater, grows⟩
    refine ⟨later, foundLater, grows.dest.trans toDest, grows.ids ▸ planned_, ?_⟩
    intro id idMem
    rw [grows.ids]
    rcases grows.tracked id idMem with before | inside
    · exact dirtyInside id before
    · exact inside
  · intro node id notReplica unplanned
    rw [tail.unchanged]
    · exact copies.clean node id notReplica unplanned
    · rintro ⟨rfl, dirty⟩
      exact unplanned _ (tail.inPlan id dirty) rfl rfl
  · intro move moveMem
    right
    by_cases here : (move.source, move.dest) = pair
    · exact Or.inr ⟨trivial, tail.arrived copies plan idle moveMem here⟩
    · have destSame := tail.dest_unchanged plan moveMem here
      have sourceSame := tail.source_unchanged plan moveMem
      rcases copies.moves move moveMem with ⟨_, impossible, _⟩ | ⟨otherId, open_, state⟩ | arrived
      · cases impossible
      · left
        rw [others here] at open_
        refine ⟨otherId, open_, ?_⟩
        rcases state with ⟨tracking, foundTracking, toDest, inside, state⟩
        rcases tail.grown move.source otherId tracking (tail.other_transfer copies here open_)
          foundTracking with ⟨later, foundLater, grows⟩
        refine ⟨later, foundLater, grows.dest.trans toDest, grows.ids ▸ inside, Or.inr ?_⟩
        rcases state with ⟨running, runs, _⟩ | dirty | arrived
        · rw [idle] at runs
          cases runs
        · exact Or.inl (grows.dirty _ dirty)
        · exact Or.inr (destSame.trans (arrived.trans sourceSame.symm))
      · exact Or.inr ⟨trivial, destSame.trans (arrived.2.trans sourceSame.symm)⟩
  · intro running runs
    rw [thread, idle] at runs
    cases runs

end Tail

end Copies

end Live

end Seisin
