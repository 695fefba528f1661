import Mathlib
import Seisin.Storage.BTree.Pages
import Seisin.Storage.Server

/-!
# Transfers between storage nodes

A storage node that is told to transfer datums copies them to the destination on a thread of its
own, and marks those that are written meanwhile dirty, so that they are sent once more in the end.
The answers of the destination are not looked at, and a datum that cannot be read is treated like
one that is absent.  The address of a destination leads to that node.
-/

namespace Seisin

/-- One transfer of a node, as its transfer manager knows it. -/
structure TransferState where
  ids : List DatumId
  dest : NodeId
  copied : ℕ
  dirty : List DatumId
  done : Bool

/-- A storage node has two stores: its log, and the files of its ordered collections. -/
structure StorageNode where
  log : Content
  transfers : DatumId → Option TransferState
  collections : DatumId → Option BPlusTree

namespace TransferState

/-- A write of `id` makes it dirty where it is part of the transfer. -/
def noteWrite (transfer : TransferState) (id : DatumId) : TransferState :=
  if id ∈ transfer.ids then { transfer with dirty := transfer.dirty.insert id } else transfer

end TransferState

namespace StorageNode

/-! ## The transfer manager -/

/-- Records a new transfer; its ids are a set. -/
def start (node : StorageNode) (transferId : DatumId) (ids : List DatumId) (dest : NodeId) :
    StorageNode :=
  { node with
    transfers := Function.update node.transfers transferId
      (some ⟨ids.dedup, dest, 0, [], false⟩) }

def noteWrite (node : StorageNode) (id : DatumId) : StorageNode :=
  { node with transfers := fun transferId => (node.transfers transferId).map (·.noteWrite id) }

def modify (node : StorageNode) (transferId : DatumId)
    (change : TransferState → TransferState) : StorageNode :=
  { node with
    transfers := Function.update node.transfers transferId
      ((node.transfers transferId).map change) }

def bumpCopied (node : StorageNode) (transferId : DatumId) : StorageNode :=
  node.modify transferId fun transfer => { transfer with copied := transfer.copied + 1 }

def markDone (node : StorageNode) (transferId : DatumId) : StorageNode :=
  node.modify transferId fun transfer => { transfer with done := true }

/-- The numbers copied and dirty, and whether the copy is done. -/
def status (node : StorageNode) (transferId : DatumId) : Option (ℕ × ℕ × Bool) :=
  (node.transfers transferId).map fun transfer =>
    (transfer.copied, transfer.dirty.length, transfer.done)

def takeDirty (node : StorageNode) (transferId : DatumId) : List DatumId × StorageNode :=
  (((node.transfers transferId).map TransferState.dirty).getD [],
    node.modify transferId fun transfer => { transfer with dirty := [] })

/-! ## Requests that change a datum -/

def put (node : StorageNode) (id : DatumId) (payload : Bytes × ℕ) : StorageNode :=
  ({ node with log := node.log.insert id payload }).noteWrite id

def delete (node : StorageNode) (id : DatumId) : StorageNode :=
  ({ node with log := node.log.erase id }).noteWrite id

/-- Stores a state of a datum, a value with its factor or its absence. -/
def store (node : StorageNode) (id : DatumId) : Option (Bytes × ℕ) → StorageNode
  | some payload => node.put id payload
  | none => node.delete id

/-- The value of a datum with its stored factor, if there is one and it can be read. -/
def readValue (node : StorageNode) (id : DatumId) (readable : Bool) : Option (Bytes × ℕ) :=
  if readable then node.log.lookup id else none

end StorageNode

abbrev StorageNodes := NodeId → StorageNode

/-- What becomes of sending one datum: whether the source can read its log and whether the
destination takes the call. -/
structure CopyFate where
  readable : Bool
  applied : Bool

namespace StorageNodes

/-- A call that stores a state at a node, which takes effect or not. -/
def send (nodes : StorageNodes) (dest : NodeId) (id : DatumId) (state : Option (Bytes × ℕ))
    (applied : Bool) : StorageNodes :=
  if applied then Function.update nodes dest ((nodes dest).store id state) else nodes

def update (nodes : StorageNodes) (node : NodeId) (change : StorageNode → StorageNode) :
    StorageNodes :=
  Function.update nodes node (change (nodes node))

/-! ## The bulk copy -/

/-- Copies one datum; an absent or unreadable one is passed over. -/
def copyOne (nodes : StorageNodes) (source : NodeId) (transferId : DatumId) (dest : NodeId)
    (id : DatumId) (fate : CopyFate) : StorageNodes :=
  let sent := match (nodes source).readValue id fate.readable with
    | some payload => nodes.send dest id (some payload) fate.applied
    | none => nodes
  sent.update source (·.bumpCopied transferId)

def runTransferCopy (nodes : StorageNodes) (source : NodeId) (transferId : DatumId)
    (fates : DatumId → CopyFate) : StorageNodes :=
  match (nodes source).transfers transferId with
  | none => nodes
  | some transfer =>
      let copied := transfer.ids.foldl
        (fun nodes id => copyOne nodes source transferId transfer.dest id (fates id)) nodes
      copied.update source (·.markDone transferId)

/-! ## The dirty tail -/

/-- Sends the current state of one datum, its absence included. -/
def resend (nodes : StorageNodes) (source dest : NodeId) (id : DatumId) (fate : CopyFate) :
    StorageNodes :=
  nodes.send dest id ((nodes source).readValue id fate.readable) fate.applied

/-- Sends the dirty datums of a transfer; it is acknowledged whatever becomes of them. -/
def finishTransfer (nodes : StorageNodes) (source : NodeId) (transferId : DatumId)
    (fates : DatumId → CopyFate) : Except String Unit × StorageNodes :=
  match (nodes source).transfers transferId with
  | none => (.error ("unknown transfer " ++ transferId.debug), nodes)
  | some transfer =>
      let (dirty, drained) := (nodes source).takeDirty transferId
      (.ok (), dirty.foldl (fun nodes id => resend nodes source transfer.dest id (fates id))
        (Function.update nodes source drained))

end StorageNodes

/-! ## The copy thread, step by step -/

/-- What a copy thread has still to read, and what it has read and not yet sent. -/
structure CopyTask where
  remaining : List DatumId
  sending : Option (DatumId × (Bytes × ℕ))

/-- What a copy thread calls: it reads the source, writes the destination, and reports to the transfer
manager. -/
structure CopyPorts (Stores : Type) where
  readValue : Stores → DatumId → Option (Bytes × ℕ)
  send : Stores → DatumId → Bytes × ℕ → Stores
  bumpCopied : Stores → Stores
  markDone : Stores → Stores

namespace CopyTask

/-- The datums still to be read or to be sent. -/
def pending (task : CopyTask) : List DatumId :=
  (task.sending.map Prod.fst).toList ++ task.remaining

section Steps

variable {Stores : Type} (ports : CopyPorts Stores) (task : CopyTask) (stores : Stores)

/-- Reads the next datum; an absent or unreadable one is passed over. -/
def copyRead : Option (CopyTask × Stores) :=
  match task.sending, task.remaining with
  | none, id :: rest =>
      match ports.readValue stores id with
      | some payload => some (⟨rest, some (id, payload)⟩, stores)
      | none => some (⟨rest, none⟩, ports.bumpCopied stores)
  | _, _ => none

def copySend : Option (CopyTask × Stores) :=
  match task.sending with
  | none => none
  | some (id, payload) =>
      some (⟨task.remaining, none⟩, ports.bumpCopied (ports.send stores id payload))

def copyDone : Option Stores :=
  if task.sending.isNone ∧ task.remaining = [] then some (ports.markDone stores) else none

end Steps

variable {Stores : Type} {ports : CopyPorts Stores} {task later : CopyTask} {stores left : Stores}

/-- A datum is read and then sent, or passed over. -/
theorem copyRead_cases (stepped : task.copyRead ports stores = some (later, left)) :
    ∃ id rest, task.sending = none ∧ task.remaining = id :: rest ∧
      ((∃ payload, ports.readValue stores id = some payload ∧
          later = ⟨rest, some (id, payload)⟩ ∧ left = stores) ∨
        ports.readValue stores id = none ∧ later = ⟨rest, none⟩ ∧
          left = ports.bumpCopied stores) := by
  unfold copyRead at stepped
  split at stepped
  · rename_i id rest idle remaining
    refine ⟨id, rest, idle, remaining, ?_⟩
    split at stepped
    · rename_i payload read
      cases stepped
      exact Or.inl ⟨payload, read, rfl, rfl⟩
    · rename_i read
      cases stepped
      exact Or.inr ⟨read, rfl, rfl⟩
  · cases stepped

theorem copySend_cases (stepped : task.copySend ports stores = some (later, left)) :
    ∃ id payload, task.sending = some (id, payload) ∧ later = ⟨task.remaining, none⟩ ∧
      left = ports.bumpCopied (ports.send stores id payload) := by
  unfold copySend at stepped
  split at stepped
  · cases stepped
  · rename_i id payload sending
    cases stepped
    exact ⟨id, payload, sending, rfl, rfl⟩

theorem copyDone_cases (stepped : task.copyDone ports stores = some left) :
    task.sending = none ∧ task.remaining = [] ∧ left = ports.markDone stores := by
  unfold copyDone at stepped
  split at stepped
  · rename_i ended
    cases stepped
    exact ⟨Option.isNone_iff_eq_none.mp ended.1, ended.2, rfl⟩
  · cases stepped

end CopyTask

/-- The thread of a bulk copy, and the transfer it works on. -/
structure CopyThread where
  source : NodeId
  dest : NodeId
  transferId : DatumId
  task : CopyTask

/-- The thread's calls, of which some may fail. -/
def CopyThread.ports (thread : CopyThread) (fate : CopyFate) : CopyPorts StorageNodes where
  readValue nodes id := (nodes thread.source).readValue id fate.readable
  send nodes id payload := nodes.send thread.dest id (some payload) fate.applied
  bumpCopied nodes := nodes.update thread.source (·.bumpCopied thread.transferId)
  markDone nodes := nodes.update thread.source (·.markDone thread.transferId)

/-! ## What these do to logs and transfers -/

namespace StorageNode

variable (node : StorageNode) (id other transferId : DatumId) (state : Option (Bytes × ℕ))

@[simp]
theorem log_start (ids : List DatumId) (dest : NodeId) :
    (node.start transferId ids dest).log = node.log := rfl

@[simp]
theorem log_modify (change : TransferState → TransferState) :
    (node.modify transferId change).log = node.log := rfl

@[simp]
theorem log_bumpCopied : (node.bumpCopied transferId).log = node.log := rfl

@[simp]
theorem log_markDone : (node.markDone transferId).log = node.log := rfl

@[simp]
theorem lookup_store_self : (node.store id state).log.lookup id = state := by
  cases state with
  | none => exact AList.lookup_erase id node.log
  | some payload => exact AList.lookup_insert node.log

theorem lookup_store_of_ne (differ : other ≠ id) :
    (node.store id state).log.lookup other = node.log.lookup other := by
  cases state with
  | none => exact AList.lookup_erase_ne differ
  | some payload => exact AList.lookup_insert_ne differ

theorem transfers_store :
    (node.store id state).transfers transferId =
      (node.transfers transferId).map (·.noteWrite id) := by
  cases state <;> rfl

end StorageNode

namespace StorageNodes

variable (nodes : StorageNodes)

/-- What the nodes hold for their datums. -/
def contents (nodes : StorageNodes) (node : NodeId) (id : DatumId) : Option (Bytes × ℕ) :=
  (nodes node).log.lookup id

theorem contents_update (node : NodeId) {change : StorageNode → StorageNode}
    (keeps : (change (nodes node)).log = (nodes node).log) :
    (nodes.update node change).contents = nodes.contents := by
  funext other id
  simp only [contents, update]
  by_cases same : other = node
  · subst same
    rw [Function.update_self, keeps]
  · rw [Function.update_of_ne same]

/-- A call that takes effect changes what one node holds for one datum. -/
theorem contents_send (dest : NodeId) (id : DatumId) (state : Option (Bytes × ℕ))
    (applied : Bool) (node : NodeId) (other : DatumId) :
    (nodes.send dest id state applied).contents node other =
      if node = dest ∧ other = id ∧ applied then state else nodes.contents node other := by
  cases applied with
  | false => simp [send]
  | true =>
      simp only [send, contents, if_true, and_true]
      by_cases sameNode : node = dest
      · subst sameNode
        rw [Function.update_self]
        by_cases sameId : other = id
        · subst sameId
          simp
        · simp [sameId, StorageNode.lookup_store_of_ne]
      · simp [sameNode]

end StorageNodes

end Seisin
