import Seisin.Ops
import Seisin.Collation

/-!
# The owning thread

One turn of a worker thread: it takes a message from its inbox and answers with its new state, the
new store content and the effects it had on the rest of the world, in the order the source performs
them.  Each thread is the sole lock manager of the datums whose native home it is, and tracks the
records of the ops assigned to it.  Index kinds are a parameter: `IndexKinds` gives the registry's
`open` and the trait methods of a resident index.

Sends to another node leave through a peer link (`Effect.call`) or, without a link, come back as the
failure message the source posts; a node that owns every slot of its ring never takes those branches.
-/

namespace Seisin

/-! ## Index kinds -/

inductive WriteThrough where
  | none
  | put (bytes : Bytes)
  | delete
  deriving DecidableEq

/-- The stored bytes of an index after a write-through. -/
def WriteThrough.onStored : WriteThrough → Option Bytes → Option Bytes
  | .none, stored => stored
  | .put bytes, _ => some bytes
  | .delete, _ => Option.none

structure IndexApplyOutcome where
  violation : Option String
  writeThrough : WriteThrough
  deriving DecidableEq

/-- The registered index kinds over one type of resident structures: `kinds` is the registry, an
entry being the kind's `open` from the stored bytes; the others are the resident trait's methods. -/
structure IndexKinds (Resident : Type) where
  kinds : String → Option (DatumId → Option Bytes → Except String Resident)
  apply : Resident → Bytes → Resident × IndexApplyOutcome
  query : Resident → Bytes → Except String Bytes
  execute : Resident → Bytes → Resident × Except String Bytes

/-! ## Messages and state -/

inductive AcquireReply where
  | local (inbox : ThreadId)
  | remote (link : NodeId) (correlationId : ℕ)
  deriving DecidableEq

inductive RecallReply where
  | local (inbox : ThreadId)
  | remote (link : NodeId) (correlationId : ℕ)
  deriving DecidableEq

inductive IndexUpdateReply where
  | local (inbox : ThreadId)
  | remote (link : NodeId) (correlationId : ℕ)
  deriving DecidableEq

inductive ExistsReply where
  | local (inbox : ThreadId)
  | remote (link : NodeId) (correlationId : ℕ)
  | sync
  deriving DecidableEq

inductive WorkerMessage where
  | runOp (opId : DatumId) (opName : String) (datumIds : List DatumId) (payload : Bytes)
  | acquire (opId datumId : DatumId) (requesterNode : NodeId) (requesterThread : ThreadId)
      (reply : AcquireReply)
  | acquireGranted (opId datumId : DatumId)
  | acquireFailed (opId datumId : DatumId) (retriesLeft : ℕ)
  | recall (datumId : DatumId) (reply : RecallReply)
  | release (datumId : DatumId)
  | evictNonNative (isNative : DatumId → Bool)
  | releaseLocksHeldBy (nodeId : NodeId)
  | indexUpdate (target opId : DatumId) (indexKind : String) (payload : Bytes)
      (reply : IndexUpdateReply)
  | indexUpdateReplied (opId target : DatumId) (violation : Option String)
  | indexQuery (target : DatumId) (indexKind : String) (query : Bytes)
  | indexExecute (target : DatumId) (indexKind : String) (payload : Bytes)
  | existsCheck (datumId opId : DatumId) (reply : ExistsReply)
  | existsCheckReplied (opId target : DatumId) (exists_ : Bool)

/-- The requests a worker sends over a peer link. -/
inductive PeerRequest where
  | acquire (opId datumId : DatumId) (requesterNode : NodeId) (requesterThread : ThreadId)
      (retriesLeft : ℕ)
  | recall (datumId : DatumId)
  | release (datumId : DatumId)
  | indexUpdate (target opId : DatumId) (indexKind : String) (payload : Bytes)
  | existsCheck (datumId opId : DatumId)

inductive PeerResponse where
  | granted
  | released
  | indexUpdateResult (violation : Option String)
  | exists_ (found : Bool)

/-- What a turn does outside the thread's own state.  `invoked` and `committed` record when a handler
ran and when its staged writes reached the store. -/
inductive Effect where
  | send (thread : ThreadId) (message : WorkerMessage)
  | call (node : NodeId) (thread : ThreadId) (request : PeerRequest)
  | respond (link : NodeId) (correlationId : ℕ) (response : PeerResponse)
  | reply (opId : DatumId) (result : Except String Bytes)
  | answer (result : Except String Bytes)
  | answerExists (found : Bool)
  | invoked (opId : DatumId)
  | committed (opId : DatumId) (datumIds : List DatumId) (writes : List StagedWrite)

structure IndexUpdateState where
  stagedWrites : List StagedWrite
  opResult : Bytes
  pending : ℕ
  violation : Option String
  existsExpectations : AList (fun _ : DatumId => Expectation)

structure OpRecord where
  opName : String
  payload : Bytes
  datumIds : List DatumId
  stillNeeded : List DatumId
  acquired : List DatumId
  indexUpdateState : Option IndexUpdateState

/-- The callback of a queued acquisition: where to post the grant. -/
structure Grant where
  reply : AcquireReply
  opId : DatumId
  datumId : DatumId
  deriving DecidableEq

structure Worker (Resident : Type) where
  cache : Cache
  nativeLocks : AList (fun _ : DatumId => NativeLock Grant)
  opRecords : AList (fun _ : DatumId => OpRecord)
  residentIndexes : DatumId → Option Resident

/-- What a worker thread is spawned with. -/
structure Env (Resident : Type) where
  selfNodeId : NodeId
  native : DatumId → NodeId × ThreadId
  linked : NodeId → Bool
  ops : OpRegistry
  indexKinds : IndexKinds Resident

/-- A worker's state and the store after a turn, with the turn's effects. -/
structure Turn (Resident : Type) where
  worker : Worker Resident
  store : Store
  effects : List Effect

def maxAcquireRetries : ℕ := 3

variable {Resident : Type}

namespace Worker

def new : Worker Resident where
  cache := Cache.empty
  nativeLocks := ∅
  opRecords := ∅
  residentIndexes := fun _ => none

/-- The lock of a datum, or a fresh one if the thread has none yet. -/
def lock (worker : Worker Resident) (datumId : DatumId) : NativeLock Grant :=
  (worker.nativeLocks.lookup datumId).getD NativeLock.new

def setLock (worker : Worker Resident) (datumId : DatumId) (lock : NativeLock Grant) :
    Worker Resident :=
  { worker with nativeLocks := worker.nativeLocks.insert datumId lock }

/-- The ops of this thread that hold `datumId`. -/
def woundable (worker : Worker Resident) (datumId : DatumId) : List DatumId :=
  (worker.opRecords.entries.filter fun entry => datumId ∈ entry.2.acquired).map Sigma.fst

/-- The op a recall takes `datumId` from: the first one met in the map's iteration order, which
`hint` stands for. -/
def wounded (worker : Worker Resident) (datumId hint : DatumId) : Option DatumId :=
  if hint ∈ worker.woundable datumId then some hint else (worker.woundable datumId).head?

end Worker

/-! ## Replies and sends -/

def AcquireReply.grant (reply : AcquireReply) (opId datumId : DatumId) : Effect :=
  match reply with
  | .local inbox => .send inbox (.acquireGranted opId datumId)
  | .remote link correlationId => .respond link correlationId .granted

def Grant.fire (grant : Grant) : Effect :=
  grant.reply.grant grant.opId grant.datumId

def RecallReply.ack (reply : RecallReply) (datumId : DatumId) : Effect :=
  match reply with
  | .local inbox => .send inbox (.release datumId)
  | .remote link correlationId => .respond link correlationId .released

def IndexUpdateReply.respond (reply : IndexUpdateReply) (opId target : DatumId)
    (violation : Option String) : Effect :=
  match reply with
  | .local inbox => .send inbox (.indexUpdateReplied opId target violation)
  | .remote link correlationId => .respond link correlationId (.indexUpdateResult violation)

def ExistsReply.respond (reply : ExistsReply) (opId target : DatumId) (found : Bool) : Effect :=
  match reply with
  | .local inbox => .send inbox (.existsCheckReplied opId target found)
  | .remote link correlationId => .respond link correlationId (.exists_ found)
  | .sync => .answerExists found

namespace Env

variable (env : Env Resident)

/-- Asks the native home of `datumId` for its lock on behalf of `opId`. -/
def sendAcquire (selfThreadId : ThreadId) (opId datumId : DatumId) (retriesLeft : ℕ) : Effect :=
  let (nativeNode, nativeThread) := env.native datumId
  if nativeNode = env.selfNodeId then
    .send nativeThread
      (.acquire opId datumId env.selfNodeId selfThreadId (.local selfThreadId))
  else if env.linked nativeNode then
    .call nativeNode nativeThread
      (.acquire opId datumId env.selfNodeId selfThreadId retriesLeft)
  else .send selfThreadId (.acquireFailed opId datumId retriesLeft)

def dispatchIndexUpdate (selfThreadId : ThreadId) (opId : DatumId)
    (update : PendingIndexUpdate) : Effect :=
  let (nativeNode, nativeThread) := env.native update.target
  if nativeNode = env.selfNodeId then
    .send nativeThread
      (.indexUpdate update.target opId update.indexKind update.payload (.local selfThreadId))
  else if env.linked nativeNode then
    .call nativeNode nativeThread
      (.indexUpdate update.target opId update.indexKind update.payload)
  else
    .send selfThreadId (.indexUpdateReplied opId update.target
      (some ("no peer-link connection to node NodeId(" ++ toString nativeNode ++ ")")))

/-- A failed or unroutable check counts as a missing datum. -/
def dispatchExistsCheck (selfThreadId : ThreadId) (opId target : DatumId) : Effect :=
  let (nativeNode, nativeThread) := env.native target
  if nativeNode = env.selfNodeId then
    .send nativeThread (.existsCheck target opId (.local selfThreadId))
  else if env.linked nativeNode then
    .call nativeNode nativeThread (.existsCheck target opId)
  else .send selfThreadId (.existsCheckReplied opId target false)

def releaseDatum (datumId : DatumId) : List Effect :=
  let (nativeNode, nativeThread) := env.native datumId
  if nativeNode = env.selfNodeId then [.send nativeThread (.release datumId)]
  else if env.linked nativeNode then [.call nativeNode nativeThread (.release datumId)]
  else []

/-- Releases every datum of the list; the thread's own cache entries go first. -/
def releaseDatums (datumIds : List DatumId) (cache : Cache) : Cache × List Effect :=
  (datumIds.foldl Cache.invalidate cache, datumIds.flatMap env.releaseDatum)

/-- Asks whoever holds `datumId` to give it up; an unreachable holder counts as having done so. -/
def sendRecall (selfThreadId : ThreadId) (datumId : DatumId) (holder : Holder) : Effect :=
  if holder.nodeId = env.selfNodeId then
    .send holder.threadId (.recall datumId (.local selfThreadId))
  else if env.linked holder.nodeId then .call holder.nodeId holder.threadId (.recall datumId)
  else .send selfThreadId (.release datumId)

end Env

/-! ## The op lifecycle -/

/-- Writes an op's staged writes through to the store. -/
def commitWrites (writes : List StagedWrite) (cache : Cache) (store : Store) : Cache × Store :=
  writes.foldl
    (fun (cache, store) write =>
      match write.content with
      | some bytes => cache.putReplicated store write.id bytes write.n
      | none => cache.deleteReplicated store write.id write.n)
    (cache, store)

namespace Env

variable (env : Env Resident)

/-- Runs `opId` if nothing is left to acquire and it has not entered its index-update phase. -/
def tryRunIfReady (selfThreadId : ThreadId) (opId : DatumId) (worker : Worker Resident)
    (store : Store) : Turn Resident :=
  match worker.opRecords.lookup opId with
  | none => ⟨worker, store, []⟩
  | some record =>
      if record.stillNeeded = [] ∧ record.indexUpdateState.isNone then
        let (ctx, result) := env.ops.invoke store record.opName (OpContext.new worker.cache)
          record.datumIds record.payload
        match result with
        | .error message =>
            let (cache, releases) := env.releaseDatums record.acquired ctx.cache
            ⟨{ worker with cache := cache, opRecords := worker.opRecords.erase opId }, store,
              .invoked opId :: .reply opId (.error message) :: releases⟩
        | .ok opResult =>
            if ctx.pendingIndexUpdates = [] ∧ ctx.pendingExistsChecks = [] then
              let (written, committed) := commitWrites ctx.takeStagedWrites ctx.cache store
              let (cache, releases) := env.releaseDatums record.acquired written
              ⟨{ worker with cache := cache, opRecords := worker.opRecords.erase opId }, committed,
                .invoked opId :: .committed opId record.datumIds ctx.takeStagedWrites ::
                  .reply opId (.ok opResult) :: releases⟩
            else
              let state : IndexUpdateState :=
                { stagedWrites := ctx.takeStagedWrites
                  opResult := opResult
                  pending := ctx.pendingIndexUpdates.length + ctx.pendingExistsChecks.length
                  violation := none
                  existsExpectations := ctx.pendingExistsChecks.foldl
                    (fun expectations check => expectations.insert check.target check.expect) ∅ }
              ⟨{ worker with
                  cache := ctx.cache
                  opRecords := worker.opRecords.insert opId
                    { record with indexUpdateState := some state } }, store,
                .invoked opId ::
                  (ctx.pendingIndexUpdates.map (env.dispatchIndexUpdate selfThreadId opId) ++
                    ctx.pendingExistsChecks.map fun check =>
                      env.dispatchExistsCheck selfThreadId opId check.target)⟩
      else ⟨worker, store, []⟩

/-- Commits or fails `opId` once its index-update phase has no replies outstanding. -/
def finishOpIfSettled (opId : DatumId) (worker : Worker Resident) (store : Store) :
    Turn Resident :=
  match worker.opRecords.lookup opId with
  | none => ⟨worker, store, []⟩
  | some record =>
      match record.indexUpdateState with
      | none => ⟨worker, store, []⟩
      | some state =>
          if state.pending = 0 then
            match state.violation with
            | some message =>
                let (cache, releases) := env.releaseDatums record.acquired worker.cache
                ⟨{ worker with cache := cache, opRecords := worker.opRecords.erase opId }, store,
                  .reply opId (.error message) :: releases⟩
            | none =>
                let (written, committed) := commitWrites state.stagedWrites worker.cache store
                let (cache, releases) := env.releaseDatums record.acquired written
                ⟨{ worker with cache := cache, opRecords := worker.opRecords.erase opId },
                  committed,
                  .committed opId record.datumIds state.stagedWrites ::
                    .reply opId (.ok state.opResult) :: releases⟩
          else ⟨worker, store, []⟩

/-- Abandons `opId`: replies with an error and releases everything it had acquired. -/
def failOp (opId : DatumId) (message : String) (worker : Worker Resident) (store : Store) :
    Turn Resident :=
  match worker.opRecords.lookup opId with
  | none => ⟨worker, store, []⟩
  | some record =>
      let (cache, releases) := env.releaseDatums record.acquired worker.cache
      ⟨{ worker with cache := cache, opRecords := worker.opRecords.erase opId }, store,
        .reply opId (.error message) :: releases⟩

end Env

/-! ## Index service -/

namespace IndexKinds

/-- Builds the resident structure of `target` from what the cache or the store holds for it. -/
def openResident (indexKinds : IndexKinds Resident) (cache : Cache) (store : Store)
    (target : DatumId) (indexKind : String) : Except String Resident × Cache :=
  match indexKinds.kinds indexKind with
  | none => (.error ("no index kind registered for \"" ++ indexKind ++ "\""), cache)
  | some openKind =>
      let (stored, loaded) := cache.get store target
      (openKind target stored, loaded)

end IndexKinds

namespace Env

variable (env : Env Resident)

/-- The resident structure of `target`, built on a cold miss and kept from then on. -/
def residentFor (worker : Worker Resident) (store : Store) (target : DatumId)
    (indexKind : String) : Except String Resident × Worker Resident :=
  match worker.residentIndexes target with
  | some resident => (.ok resident, worker)
  | none =>
      match env.indexKinds.openResident worker.cache store target indexKind with
      | (.ok resident, cache) =>
          (.ok resident,
            { worker with
              cache := cache
              residentIndexes := Function.update worker.residentIndexes target (some resident) })
      | (.error message, cache) => (.error message, { worker with cache := cache })

/-- Persists what an accepted update asks the worker to persist. -/
def writeThrough (outcome : IndexApplyOutcome) (target : DatumId) (cache : Cache)
    (store : Store) : Cache × Store :=
  if outcome.violation.isNone then
    match outcome.writeThrough with
    | .put bytes => cache.put store target bytes
    | .delete => cache.delete store target
    | .none => (cache, store)
  else (cache, store)

def serveIndexUpdate (worker : Worker Resident) (store : Store) (target opId : DatumId)
    (indexKind : String) (payload : Bytes) (reply : IndexUpdateReply) : Turn Resident :=
  match env.residentFor worker store target indexKind with
  | (.error message, opened) => ⟨opened, store, [reply.respond opId target (some message)]⟩
  | (.ok resident, opened) =>
      let (applied, outcome) := env.indexKinds.apply resident payload
      let (cache, persisted) := writeThrough outcome target opened.cache store
      ⟨{ opened with
          cache := cache
          residentIndexes := Function.update opened.residentIndexes target (some applied) },
        persisted, [reply.respond opId target outcome.violation]⟩

def serveIndexQuery (worker : Worker Resident) (store : Store) (target : DatumId)
    (indexKind : String) (query : Bytes) : Turn Resident :=
  match env.residentFor worker store target indexKind with
  | (.error message, opened) => ⟨opened, store, [.answer (.error message)]⟩
  | (.ok resident, opened) =>
      ⟨opened, store, [.answer (env.indexKinds.query resident query)]⟩

def serveIndexExecute (worker : Worker Resident) (store : Store) (target : DatumId)
    (indexKind : String) (payload : Bytes) : Turn Resident :=
  match env.residentFor worker store target indexKind with
  | (.error message, opened) => ⟨opened, store, [.answer (.error message)]⟩
  | (.ok resident, opened) =>
      let (executed, result) := env.indexKinds.execute resident payload
      ⟨{ opened with
          residentIndexes := Function.update opened.residentIndexes target (some executed) },
        store, [.answer result]⟩

end Env

namespace IndexUpdateState

def onIndexUpdateReplied (state : IndexUpdateState) (violation : Option String) :
    IndexUpdateState :=
  { state with pending := state.pending - 1, violation := state.violation.or violation }

/-- Consumes the expectation of an answered check; a tracked missing reference grows `pending`
again and has to be dispatched. -/
def onExistsCheckReplied (state : IndexUpdateState) (target : DatumId) (found : Bool) :
    IndexUpdateState × Option PendingIndexUpdate :=
  let consumed : IndexUpdateState :=
    { state with
      pending := state.pending - 1
      existsExpectations := state.existsExpectations.erase target }
  match found, state.existsExpectations.lookup target with
  | true, some (.present _) => (consumed, none)
  | false, some (.absent _) => (consumed, none)
  | true, some (.absent message) =>
      ({ consumed with violation := consumed.violation.or (some message) }, none)
  | false, some (.present (.track pendingDatum indexKind entry)) =>
      ({ consumed with pending := consumed.pending + 1 }, some ⟨pendingDatum, indexKind, entry⟩)
  | false, _ =>
      ({ consumed with
          violation := consumed.violation.or
            (some ("dangling reference: " ++ target.debug ++ " does not exist")) }, none)
  | true, none => (consumed, none)

end IndexUpdateState

/-! ## The message loop -/

namespace Turn

/-- Continues a turn with a computation on the state it leaves. -/
def andThen (turn : Turn Resident) (next : Worker Resident → Store → Turn Resident) :
    Turn Resident :=
  let rest := next turn.worker turn.store
  ⟨rest.worker, rest.store, turn.effects ++ rest.effects⟩

end Turn

namespace Env

variable (env : Env Resident)

def handleRunOp (selfThreadId : ThreadId) (opId : DatumId) (opName : String)
    (datumIds : List DatumId) (payload : Bytes) (worker : Worker Resident) (store : Store) :
    Turn Resident :=
  let record : OpRecord :=
    { opName := opName
      payload := payload
      datumIds := datumIds
      stillNeeded := datumIds
      acquired := []
      indexUpdateState := none }
  Turn.andThen
    ⟨{ worker with opRecords := worker.opRecords.insert opId record }, store,
      datumIds.map fun datumId => env.sendAcquire selfThreadId opId datumId maxAcquireRetries⟩
    (env.tryRunIfReady selfThreadId opId)

def handleAcquire (selfThreadId : ThreadId) (opId datumId : DatumId) (requesterNode : NodeId)
    (requesterThread : ThreadId) (reply : AcquireReply) (worker : Worker Resident)
    (store : Store) : Turn Resident :=
  let (lock, fired, outcome) :=
    (worker.lock datumId).request opId requesterNode requesterThread ⟨reply, opId, datumId⟩
  let recalls : List Effect :=
    match outcome with
    | .recallNeeded holder => [env.sendRecall selfThreadId datumId holder]
    | _ => []
  ⟨worker.setLock datumId lock, store, fired.toList.map Grant.fire ++ recalls⟩

/-- A grant whose record is already gone is released at once, since nothing else would. -/
def handleAcquireGranted (selfThreadId : ThreadId) (opId datumId : DatumId)
    (worker : Worker Resident) (store : Store) : Turn Resident :=
  match worker.opRecords.lookup opId with
  | some record =>
      let granted : OpRecord :=
        { record with
          stillNeeded := record.stillNeeded.filter fun id => id ≠ datumId
          acquired := record.acquired ++ [datumId] }
      env.tryRunIfReady selfThreadId opId
        { worker with opRecords := worker.opRecords.insert opId granted } store
  | none =>
      let (cache, releases) := env.releaseDatums [datumId] worker.cache
      ⟨{ worker with cache := cache }, store, releases⟩

def handleAcquireFailed (selfThreadId : ThreadId) (opId datumId : DatumId) (retriesLeft : ℕ)
    (worker : Worker Resident) (store : Store) : Turn Resident :=
  if 0 < retriesLeft then
    ⟨worker, store, [env.sendAcquire selfThreadId opId datumId (retriesLeft - 1)]⟩
  else
    env.failOp opId
      ("failed to acquire datum " ++ datumId.debug ++ " after " ++ toString maxAcquireRetries ++
        " retries") worker store

/-- Takes `datumId` from the op that holds it, acknowledges, and asks for it again. -/
def handleRecall (selfThreadId : ThreadId) (hint datumId : DatumId) (reply : RecallReply)
    (worker : Worker Resident) (store : Store) : Turn Resident :=
  let evicted := { worker with cache := worker.cache.invalidate datumId }
  match worker.wounded datumId hint with
  | none => ⟨evicted, store, [reply.ack datumId]⟩
  | some opId =>
      match worker.opRecords.lookup opId with
      | none => ⟨evicted, store, [reply.ack datumId]⟩
      | some record =>
          let stripped : OpRecord :=
            { record with
              acquired := record.acquired.erase datumId
              stillNeeded := record.stillNeeded ++ [datumId] }
          ⟨{ evicted with opRecords := worker.opRecords.insert opId stripped }, store,
            [reply.ack datumId, env.sendAcquire selfThreadId opId datumId maxAcquireRetries]⟩

def handleRelease (datumId : DatumId) (worker : Worker Resident) (store : Store) :
    Turn Resident :=
  let evicted := { worker with cache := worker.cache.invalidate datumId }
  match worker.nativeLocks.lookup datumId with
  | none => ⟨evicted, store, []⟩
  | some lock =>
      let (released, fired) := lock.release
      ⟨evicted.setLock datumId released, store, fired.toList.map Grant.fire⟩

/-- Releases what a dead node held and prunes its queued requests, lock by lock. -/
def handleReleaseLocksHeldBy (nodeId : NodeId) (worker : Worker Resident) (store : Store) :
    Turn Resident :=
  worker.nativeLocks.entries.foldl
    (fun turn entry =>
      let (lock, fired) := entry.2.handleNodeDeath nodeId
      let heldByDead := entry.2.currentHolder.any fun holder => holder.nodeId = nodeId
      let worker := turn.worker.setLock entry.1 lock
      ⟨if heldByDead then { worker with cache := worker.cache.invalidate entry.1 } else worker,
        turn.store, turn.effects ++ fired.toList.map Grant.fire⟩)
    ⟨worker, store, []⟩

def handleIndexUpdateReplied (opId : DatumId) (violation : Option String)
    (worker : Worker Resident) (store : Store) : Turn Resident :=
  match worker.opRecords.lookup opId with
  | none => env.finishOpIfSettled opId worker store
  | some record =>
      env.finishOpIfSettled opId
        { worker with
          opRecords := worker.opRecords.insert opId
            { record with
              indexUpdateState := record.indexUpdateState.map
                (IndexUpdateState.onIndexUpdateReplied · violation) } } store

def handleExistsCheckReplied (selfThreadId : ThreadId) (opId target : DatumId) (found : Bool)
    (worker : Worker Resident) (store : Store) : Turn Resident :=
  match worker.opRecords.lookup opId with
  | none => env.finishOpIfSettled opId worker store
  | some record =>
      match record.indexUpdateState with
      | none => env.finishOpIfSettled opId worker store
      | some state =>
          let (replied, tracked) := state.onExistsCheckReplied target found
          Turn.andThen
            ⟨{ worker with
                opRecords := worker.opRecords.insert opId
                  { record with indexUpdateState := some replied } }, store,
              tracked.toList.map (env.dispatchIndexUpdate selfThreadId opId)⟩
            (env.finishOpIfSettled opId)

/-- One turn of the worker loop. -/
def handle (selfThreadId : ThreadId) (hint : DatumId) (message : WorkerMessage)
    (worker : Worker Resident) (store : Store) : Turn Resident :=
  match message with
  | .runOp opId opName datumIds payload =>
      env.handleRunOp selfThreadId opId opName datumIds payload worker store
  | .acquire opId datumId requesterNode requesterThread reply =>
      env.handleAcquire selfThreadId opId datumId requesterNode requesterThread reply worker store
  | .acquireGranted opId datumId =>
      env.handleAcquireGranted selfThreadId opId datumId worker store
  | .acquireFailed opId datumId retriesLeft =>
      env.handleAcquireFailed selfThreadId opId datumId retriesLeft worker store
  | .recall datumId reply => env.handleRecall selfThreadId hint datumId reply worker store
  | .release datumId => handleRelease datumId worker store
  | .evictNonNative isNative =>
      ⟨{ worker with cache := worker.cache.evictNonNative isNative }, store, []⟩
  | .releaseLocksHeldBy nodeId => handleReleaseLocksHeldBy nodeId worker store
  | .indexUpdate target opId indexKind payload reply =>
      env.serveIndexUpdate worker store target opId indexKind payload reply
  | .indexUpdateReplied opId _target violation =>
      env.handleIndexUpdateReplied opId violation worker store
  | .indexQuery target indexKind query =>
      env.serveIndexQuery worker store target indexKind query
  | .indexExecute target indexKind payload =>
      env.serveIndexExecute worker store target indexKind payload
  | .existsCheck datumId opId reply =>
      let (found, cache) := worker.cache.get store datumId
      ⟨{ worker with cache := cache }, store, [reply.respond opId datumId found.isSome]⟩
  | .existsCheckReplied opId target found =>
      env.handleExistsCheckReplied selfThreadId opId target found worker store

end Env

end Seisin
