import Seisin.Lib.Transition
import Seisin.Migrate.Plan
import Seisin.Migrate.Transfer

/-!
# Migrating under load

Clients keep writing while a migration runs.  An operation calls the replicas of its datum one after
another, but for those its compute node takes to be dead or stale.  A call may fail, be it without an
effect or because only its reply is lost; the compute node then marks the replica stale and goes on.
One answer is enough for the operation to be acknowledged, and without any the compute node halts.
The collation lock of a datum admits one operation on it at a time.  The driver makes one call after
another, each of which succeeds; a pause is acknowledged when the compute node has no operation under
way.  The copy thread of a source reads a datum and sends it in two steps, in between which anything
may happen.
-/

namespace Seisin

open Transition Migrate

/-- What becomes of a client's call of a replica. -/
inductive CallOutcome where
  | lost
  | unanswered
  | answered
  deriving DecidableEq

namespace CallOutcome

/-- Whether the call takes effect. -/
def arrives : CallOutcome → Bool
  | .lost => false
  | .unanswered | .answered => true

def isAnswered : CallOutcome → Bool
  | .answered => true
  | .lost | .unanswered => false

end CallOutcome

/-- An operation on a datum: what it stores, the replicas it has still to call, those where it has
taken effect, and whether one of them has answered. -/
structure ClientOp (Compute : Type) where
  compute : Compute
  state : Option (Bytes × ℕ)
  remaining : List NodeId
  reached : List NodeId
  acked : Bool

/-- Where the driver is, and what it has left to do there. -/
inductive DriverState (Compute : Type) where
  | listing (members : List NodeId) (after : Option DatumId) (gathered : List (DatumId × ℕ))
      (enumeration : Enumeration)
  | copying (enumeration : Enumeration) (pairs : List (Σ _ : NodeId × NodeId, List DatumId))
      (polling : Option (NodeId × NodeId)) (transfers : AList (fun _ : NodeId × NodeId => DatumId))
  | pausing (enumeration : Enumeration) (computes : List Compute)
      (transfers : AList (fun _ : NodeId × NodeId => DatumId))
  | finishing (enumeration : Enumeration) (transfers : List (Σ _ : NodeId × NodeId, DatumId))
  | installing (enumeration : Enumeration) (computes : List Compute)
  | resuming (enumeration : Enumeration) (computes : List Compute)
  | reclaiming (drops : List (NodeId × DatumId))

/-- A migration under way; `latest` is the last acknowledged state of each datum.  A node is behind on
a datum if the operation last acknowledged has not taken effect there, or one that nobody acknowledged
has since. -/
structure Live (Compute : Type) where
  rings : Compute → Ring
  alive : Compute → NodeId → Bool
  stale : Compute → NodeId → Bool
  paused : Compute → Bool
  halted : Compute → Bool
  nodes : StorageNodes
  thread : Option CopyThread
  ops : AList (fun _ : DatumId => ClientOp Compute)
  driver : DriverState Compute
  latest : DatumId → Option (Bytes × ℕ)
  behind : NodeId → DatumId → Bool

/-- What happens next.  `begin` is a write of a value or, without one, a delete; with `readFails` a
compute node cannot read at a node, and with `gossip` it learns that a node has joined or left. -/
inductive LiveLabel (Compute : Type) where
  | begin (compute : Compute) (id : DatumId) (content : Option Bytes) (n : ℕ)
  | reach (id : DatumId) (outcome : CallOutcome)
  | acknowledge (id : DatumId)
  | abandon (id : DatumId)
  | readFails (compute : Compute) (node : NodeId)
  | gossip (compute : Compute) (node : NodeId) (joins : Bool)
  | copyRead (readable : Bool)
  | copySend (applied : Bool)
  | copyDone
  | drive (transferId : DatumId) (fates : DatumId → CopyFate)

namespace Live

variable {Compute : Type} [DecidableEq Compute]

/-! ## Clients -/

/-- Whether a compute node calls a storage node for its datums. -/
def serves (live : Live Compute) (compute : Compute) (node : NodeId) : Bool :=
  live.alive compute node && !live.stale compute node

/-- The stale marks after one more is set. -/
def markStale (live : Live Compute) (compute : Compute) (node : NodeId) :
    Compute → NodeId → Bool :=
  Function.update live.stale compute (Function.update (live.stale compute) node true)

/-- An operation starts on a compute node that is neither paused nor halted, if no other operation on
the datum is under way.  Without a replica to call the compute node halts. -/
def begin (hash : ℕ → ℕ → ℕ) (live : Live Compute) (compute : Compute) (id : DatumId)
    (content : Option Bytes) (n : ℕ) : Option (Live Compute) :=
  if live.paused compute || live.halted compute || (live.ops.lookup id).isSome then none
  else
    match ((live.rings compute).replicas hash id n).filter (live.serves compute) with
    | [] => some { live with halted := Function.update live.halted compute true }
    | node :: nodes =>
        some { live with
          ops := live.ops.insert id
            ⟨compute, content.map fun bytes => (bytes, n), node :: nodes, [], false⟩ }

/-- The next call of an operation; a replica that does not answer is marked stale. -/
def reach (live : Live Compute) (id : DatumId) (outcome : CallOutcome) : Option (Live Compute) :=
  match live.ops.lookup id with
  | none => none
  | some op =>
      match op.remaining with
      | [] => none
      | node :: rest =>
          some { live with
            nodes := live.nodes.send node id op.state outcome.arrives
            stale := if outcome.isAnswered then live.stale else live.markStale op.compute node
            ops := live.ops.insert id { op with
              remaining := rest
              reached := if outcome.arrives then node :: op.reached else op.reached
              acked := op.acked || outcome.isAnswered } }

/-- All replicas have been called, and one of them has answered. -/
def acknowledge (live : Live Compute) (id : DatumId) : Option (Live Compute) :=
  match live.ops.lookup id with
  | none => none
  | some op =>
      if op.remaining = [] ∧ op.acked = true then
        some { live with
          ops := live.ops.erase id
          latest := Function.update live.latest id op.state
          behind := fun node other =>
            if other = id then node ∉ op.reached else live.behind node other }
      else none

/-- All replicas have been called, and none has answered: the compute node halts. -/
def abandon (live : Live Compute) (id : DatumId) : Option (Live Compute) :=
  match live.ops.lookup id with
  | none => none
  | some op =>
      if op.remaining = [] ∧ op.acked = false then
        some { live with
          ops := live.ops.erase id
          halted := Function.update live.halted op.compute true
          behind := fun node other =>
            live.behind node other || decide (other = id ∧ node ∈ op.reached) }
      else none

def readFails (live : Live Compute) (compute : Compute) (node : NodeId) : Live Compute :=
  { live with stale := live.markStale compute node }

/-- A node that leaves is stale from then on; if it joins again it stays so. -/
def gossip (live : Live Compute) (compute : Compute) (node : NodeId) (joins : Bool) :
    Live Compute :=
  { live with
    alive := Function.update live.alive compute (Function.update (live.alive compute) node joins)
    stale := if joins then live.stale else live.markStale compute node }

/-! ## The copy thread -/

def copyRead (live : Live Compute) (readable : Bool) : Option (Live Compute) :=
  match live.thread with
  | none => none
  | some thread =>
      (thread.task.copyRead (thread.ports ⟨readable, true⟩) live.nodes).map fun (task, nodes) =>
        { live with thread := some { thread with task := task }, nodes := nodes }

def copySend (live : Live Compute) (applied : Bool) : Option (Live Compute) :=
  match live.thread with
  | none => none
  | some thread =>
      (thread.task.copySend (thread.ports ⟨true, applied⟩) live.nodes).map fun (task, nodes) =>
        { live with thread := some { thread with task := task }, nodes := nodes }

def copyDone (live : Live Compute) : Option (Live Compute) :=
  match live.thread with
  | none => none
  | some thread =>
      (thread.task.copyDone (thread.ports ⟨true, true⟩) live.nodes).map fun nodes =>
        { live with thread := none, nodes := nodes }

/-! ## The driver -/

/-- One page of the listing of `node`. -/
def listPage (live : Live Compute) (node : NodeId) (members : List NodeId)
    (after : Option DatumId) (gathered : List (DatumId × ℕ)) (enumeration : Enumeration) :
    Live Compute :=
  let found := (live.nodes node).log.listIds after pageLen
  if found.length < pageLen ∨ found = [] then
    { live with
      driver := .listing members none []
        (enumeration.record node (some (gathered ++ found))) }
  else
    { live with
      driver := .listing (node :: members) (found.getLast?.map Prod.fst) (gathered ++ found)
        enumeration }

/-- Starts a transfer under a new transfer id. -/
def startTransfer (live : Live Compute) (enumeration : Enumeration) (pair : NodeId × NodeId)
    (ids : List DatumId) (pairs : List (Σ _ : NodeId × NodeId, List DatumId))
    (transfers : AList (fun _ : NodeId × NodeId => DatumId)) (transferId : DatumId) :
    Option (Live Compute) :=
  if ((live.nodes pair.1).transfers transferId).isSome || live.thread.isSome then none
  else
    some { live with
      nodes := live.nodes.update pair.1 (·.start transferId ids pair.2)
      thread := some ⟨pair.1, pair.2, transferId, ⟨ids.dedup, none⟩⟩
      driver := .copying enumeration pairs (some pair) (transfers.insert pair transferId) }

/-- Asks how far a transfer is, until it is done. -/
def poll (live : Live Compute) (enumeration : Enumeration) (pair : NodeId × NodeId)
    (pairs : List (Σ _ : NodeId × NodeId, List DatumId))
    (transfers : AList (fun _ : NodeId × NodeId => DatumId)) : Option (Live Compute) :=
  match (transfers.lookup pair).bind fun transferId => (live.nodes pair.1).status transferId with
  | some (_, _, true) => some { live with driver := .copying enumeration pairs none transfers }
  | _ => none

/-- The next call of the driver.  It has learned the ring `old` of the members `current`, is to
install `new`, and talks to `computes`. -/
def drive (hash : ℕ → ℕ → ℕ) (computes : List Compute) (old new : Ring) (live : Live Compute)
    (transferId : DatumId) (fates : DatumId → CopyFate) : Option (Live Compute) :=
  match live.driver with
  | .listing (node :: members) after gathered enumeration =>
      some (live.listPage node members after gathered enumeration)
  | .listing [] _ _ enumeration =>
      some { live with
        driver := .copying enumeration (byPair (moves hash old new enumeration)).entries none ∅ }
  | .copying enumeration (⟨pair, ids⟩ :: pairs) none transfers =>
      live.startTransfer enumeration pair ids pairs transfers transferId
  | .copying enumeration pairs (some pair) transfers =>
      live.poll enumeration pair pairs transfers
  | .copying enumeration [] none transfers =>
      some { live with driver := .pausing enumeration computes transfers }
  | .pausing enumeration (compute :: rest) transfers =>
      -- the pause is acknowledged when the operations under way have drained
      if live.ops.entries.any fun op => op.2.compute = compute then none
      else
        some { live with
          paused := Function.update live.paused compute true
          driver := .pausing enumeration rest transfers }
  | .pausing enumeration [] transfers =>
      some { live with driver := .finishing enumeration transfers.entries }
  | .finishing enumeration (⟨pair, transferId⟩ :: rest) =>
      match live.nodes.finishTransfer pair.1 transferId fates with
      | (.error _, _) => none
      | (.ok _, nodes) =>
          some { live with nodes := nodes, driver := .finishing enumeration rest }
  | .finishing enumeration [] => some { live with driver := .installing enumeration computes }
  | .installing enumeration (compute :: rest) =>
      some { live with
        rings := Function.update live.rings compute new
        -- the installed members are current again
        stale := Function.update live.stale compute
          fun node => live.stale compute node && decide (node ∉ new.nodeIds)
        driver := .installing enumeration rest }
  | .installing enumeration [] => some { live with driver := .resuming enumeration computes }
  | .resuming enumeration (compute :: rest) =>
      some { live with
        paused := Function.update live.paused compute false
        driver := .resuming enumeration rest }
  | .resuming enumeration [] =>
      some { live with driver := .reclaiming (drops hash old new enumeration) }
  | .reclaiming ((node, id) :: rest) =>
      some { live with
        nodes := live.nodes.update node (·.delete id)
        driver := .reclaiming rest }
  | .reclaiming [] => none

def step (hash : ℕ → ℕ → ℕ) (computes : List Compute) (old new : Ring) (live : Live Compute) :
    LiveLabel Compute → Option (Live Compute)
  | .begin compute id content n => live.begin hash compute id content n
  | .reach id outcome => live.reach id outcome
  | .acknowledge id => live.acknowledge id
  | .abandon id => live.abandon id
  | .readFails compute node => some (live.readFails compute node)
  | .gossip compute node joins => some (live.gossip compute node joins)
  | .copyRead readable => live.copyRead readable
  | .copySend applied => live.copySend applied
  | .copyDone => live.copyDone
  | .drive transferId fates => live.drive hash computes old new transferId fates

def system (hash : ℕ → ℕ → ℕ) (computes : List Compute) (old new : Ring)
    (init : Live Compute → Prop) : System (Live Compute) (LiveLabel Compute) where
  init := init
  step := step hash computes old new

/-! ## What the steps of the copy thread do -/

omit [DecidableEq Compute]

variable {live next : Live Compute}

theorem copyRead_cases {readable : Bool} (stepped : live.copyRead readable = some next) :
    ∃ thread id rest, live.thread = some thread ∧ thread.task.sending = none ∧
      thread.task.remaining = id :: rest ∧
      ((∃ payload, (live.nodes thread.source).readValue id readable = some payload ∧
          next = { live with
            thread := some { thread with task := ⟨rest, some (id, payload)⟩ } }) ∨
        (live.nodes thread.source).readValue id readable = none ∧
          next = { live with
            thread := some { thread with task := ⟨rest, none⟩ }
            nodes := live.nodes.update thread.source (·.bumpCopied thread.transferId) }) := by
  unfold copyRead at stepped
  split at stepped
  · cases stepped
  · rename_i thread runs
    rcases Option.map_eq_some_iff.mp stepped with ⟨⟨task, nodes⟩, read, rfl⟩
    rcases CopyTask.copyRead_cases read with
      ⟨id, rest, idle, remaining, ⟨payload, found, rfl, rfl⟩ | ⟨absent, rfl, rfl⟩⟩
    · exact ⟨thread, id, rest, runs, idle, remaining, Or.inl ⟨payload, found, rfl⟩⟩
    · exact ⟨thread, id, rest, runs, idle, remaining, Or.inr ⟨absent, rfl⟩⟩

theorem copySend_cases {applied : Bool} (stepped : live.copySend applied = some next) :
    ∃ thread id payload, live.thread = some thread ∧ thread.task.sending = some (id, payload) ∧
      next = { live with
        thread := some { thread with task := ⟨thread.task.remaining, none⟩ }
        nodes := (live.nodes.send thread.dest id (some payload) applied).update thread.source
          (·.bumpCopied thread.transferId) } := by
  unfold copySend at stepped
  split at stepped
  · cases stepped
  · rename_i thread runs
    rcases Option.map_eq_some_iff.mp stepped with ⟨⟨task, nodes⟩, sent, rfl⟩
    rcases CopyTask.copySend_cases sent with ⟨id, payload, sending, rfl, rfl⟩
    exact ⟨thread, id, payload, runs, sending, rfl⟩

theorem copyDone_cases (stepped : live.copyDone = some next) :
    ∃ thread, live.thread = some thread ∧ thread.task.sending = none ∧
      thread.task.remaining = [] ∧ next = { live with
        thread := none
        nodes := live.nodes.update thread.source (·.markDone thread.transferId) } := by
  unfold copyDone at stepped
  split at stepped
  · cases stepped
  · rename_i thread runs
    rcases Option.map_eq_some_iff.mp stepped with ⟨nodes, ended, rfl⟩
    rcases CopyTask.copyDone_cases ended with ⟨idle, remaining, rfl⟩
    exact ⟨thread, runs, idle, remaining, rfl⟩

end Live

end Seisin
