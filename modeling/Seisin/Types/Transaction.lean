import Seisin.Lib.Dispatch
import Seisin.Types.TypedContext

/-!
# A typed op on its own

What one op does to the database while no other op runs: its handler runs against the store, the
index updates and existence checks it scheduled are served at the homes of their targets, and when
every reply is in, the staged writes are committed or the op fails.

Requests for one index datum are served in the order in which they were sent, since they share a
path; otherwise any order is possible, and the choices of a `Dispatch.Choice` list stand for it.
Owning threads keep resident structures and caches; with no other op running, a cached copy is a
copy of what the store holds, so a slot keeps only the stored bytes and the resident structure.
-/

namespace Seisin

open Dispatch

variable {Resident : Type}

/-- Every cached copy is what the store holds. -/
def Cache.Copies (cache : Cache) (store : Store) : Prop :=
  ∀ id content, cache id = some content → store id = some content

namespace Cache.Copies

variable {cache : Cache} {store : Store}

theorem read (current : cache.Copies store) (id : DatumId) (n : ℕ) :
    (cache.getReplicated store id n).1 = store id := by
  rw [Cache.getReplicated_fst]
  cases cached : cache id with
  | none => rfl
  | some content => simp [current id content cached]

theorem getReplicated (current : cache.Copies store) (id : DatumId) (n : ℕ) :
    (cache.getReplicated store id n).2.Copies store := by
  intro other content cached
  unfold Cache.getReplicated at cached
  split at cached
  · exact current other content cached
  · split at cached
    · rename_i loaded stored
      rcases eq_or_ne other id with rfl | differ
      · rw [stored, ← cached]
        simp
      · simp only [Function.update_of_ne differ] at cached
        exact current other content cached
    · exact current other content cached

theorem put (current : cache.Copies store) (id : DatumId) (content : Bytes) :
    (cache.put store id content).1.Copies (cache.put store id content).2 := by
  intro other found cached
  simp only [Cache.put, Cache.putReplicated, Store.putReplicated] at cached ⊢
  rcases eq_or_ne other id with rfl | differ
  · rwa [Function.update_self] at cached ⊢
  · rw [Function.update_of_ne differ] at cached ⊢
    exact current other found cached

theorem delete (current : cache.Copies store) (id : DatumId) :
    (cache.delete store id).1.Copies (cache.delete store id).2 := by
  intro other found cached
  simp only [Cache.delete, Cache.deleteReplicated, Store.deleteReplicated] at cached ⊢
  rcases eq_or_ne other id with rfl | differ
  · rw [Function.update_self] at cached
    cases cached
  · rw [Function.update_of_ne differ] at cached ⊢
    exact current other found cached

end Cache.Copies

/-- What the database holds under one id: the stored bytes and the structure its home keeps. -/
structure Slot (Resident : Type) where
  stored : Option Bytes
  resident : Option Resident
  deriving DecidableEq

abbrev Database (Resident : Type) := DatumId → Slot Resident

namespace Slot

def empty : Slot Resident := ⟨none, none⟩

/-- The resident structure, opened from the stored bytes on a cold miss. -/
def openFor (kinds : IndexKinds Resident) (target : DatumId) (indexKind : String)
    (slot : Slot Resident) : Except String Resident :=
  match slot.resident with
  | some resident => .ok resident
  | none =>
      match kinds.kinds indexKind with
      | none => .error ("no index kind registered for \"" ++ indexKind ++ "\"")
      | some openKind => openKind target slot.stored

/-- Serves one update; the answer is the violation, if any. -/
def serve (kinds : IndexKinds Resident) (update : PendingIndexUpdate) (slot : Slot Resident) :
    Slot Resident × Option String :=
  match slot.openFor kinds update.target update.indexKind with
  | .error message => (slot, some message)
  | .ok resident =>
      let (applied, outcome) := kinds.apply resident update.payload
      (⟨if outcome.violation.isNone then outcome.writeThrough.onStored slot.stored
          else slot.stored, some applied⟩, outcome.violation)

end Slot

/-! ## The index phase -/

inductive IndexTask where
  | update (update : PendingIndexUpdate)
  | check (target : DatumId)
  deriving DecidableEq

def IndexTask.target : IndexTask → DatumId
  | .update request => request.target
  | .check target => target

inductive IndexAnswer where
  | updated (violation : Option String)
  | found (exists_ : Bool)
  deriving DecidableEq

/-- How homes answer the requests of an op, and what its thread does with the answers. -/
def indexProtocol (kinds : IndexKinds Resident) :
    Protocol DatumId IndexTask IndexAnswer (Slot Resident) IndexUpdateState where
  key := IndexTask.target
  serve := fun task slot =>
    match task with
    | .update update =>
        let (served, violation) := slot.serve kinds update
        (served, .updated violation)
    | .check _ => (slot, .found slot.stored.isSome)
  hear := fun state task answer =>
    match answer with
    | .updated violation => (state.onIndexUpdateReplied violation, [])
    | .found exists_ =>
        let (replied, tracked) := state.onExistsCheckReplied task.target exists_
        (replied, tracked.toList.map .update)

abbrev Phase (Resident : Type) :=
  Dispatch.State DatumId IndexTask IndexAnswer (Slot Resident) IndexUpdateState

namespace OpContext

/-- The bookkeeping of an op that enters its index phase. -/
def indexUpdateState (ctx : OpContext) (opResult : Bytes) : IndexUpdateState where
  stagedWrites := ctx.takeStagedWrites
  opResult := opResult
  pending := ctx.pendingIndexUpdates.length + ctx.pendingExistsChecks.length
  violation := none
  existsExpectations := ctx.pendingExistsChecks.foldl
    (fun expectations check => expectations.insert check.target check.expect) ∅

/-- The index phase as it begins: updates are sent before checks. -/
def phase (ctx : OpContext) (opResult : Bytes) (database : Database Resident) :
    Phase Resident where
  servers := database
  waiting := ctx.pendingIndexUpdates.map .update ++
    ctx.pendingExistsChecks.map fun check => .check check.target
  replies := []
  client := ctx.indexUpdateState opResult

end OpContext

/-! ## The whole op -/

inductive Verdict where
  | committed (result : Bytes)
  | refused (message : String)
  | panicked
  deriving DecidableEq

namespace Database

def empty : Database Resident := fun _ => Slot.empty

def store (database : Database Resident) : Store := fun id => (database id).stored

/-- The database after staged writes have reached the store. -/
def commit (writes : List StagedWrite) (database : Database Resident) : Database Resident :=
  fun id => { database id with stored := (commitWrites writes Cache.empty database.store).2 id }

end Database

/-- The end of an index phase; there is none while replies are outstanding. -/
def Phase.settle (phase : Phase Resident) : Option (Verdict × Database Resident) :=
  if phase.client.pending = 0 then
    match phase.client.violation with
    | some message => some (.refused message, phase.servers)
    | none =>
        some (.committed phase.client.opResult,
          Database.commit phase.client.stagedWrites phase.servers)
  else none

/-- Runs a typed op from its first call to its reply, if the choices lead that far. -/
def transact (env : TypedEnv) (kinds : IndexKinds Resident) (prog : TypedProg) (cache : Cache)
    (choices : List Choice) (database : Database Resident) :
    Option (Verdict × Database Resident) :=
  match (env.compile prog ∅).run database.store (OpContext.new cache) with
  | (_, none) => some (.panicked, database)
  | (ctx, some opResult) =>
      if ctx.pendingIndexUpdates = [] ∧ ctx.pendingExistsChecks = [] then
        some (.committed opResult, database.commit ctx.takeStagedWrites)
      else
        ((indexProtocol kinds).system.exec (ctx.phase opResult database) choices).bind Phase.settle

/-! ## The worker's turns -/

namespace Env

variable {env : Env Resident}

/-- What a write-through leaves stored for its target. -/
theorem writeThrough_target (outcome : IndexApplyOutcome) (target : DatumId) (cache : Cache)
    (store : Store) :
    (writeThrough outcome target cache store).2 target =
      if outcome.violation.isNone then outcome.writeThrough.onStored (store target)
      else store target := by
  unfold writeThrough
  split
  · cases outcome.writeThrough with
    | none => rfl
    | put bytes => exact Function.update_self _ _ _
    | delete => exact Function.update_self _ _ _
  · rfl

theorem copies_writeThrough {cache : Cache} {store : Store} (current : cache.Copies store)
    (outcome : IndexApplyOutcome) (target : DatumId) :
    (writeThrough outcome target cache store).1.Copies
      (writeThrough outcome target cache store).2 := by
  unfold writeThrough
  split
  · cases outcome.writeThrough with
    | none => exact current
    | put bytes => exact current.put target bytes
    | delete => exact current.delete target
  · exact current

/-- Serving an update leaves every cached copy current. -/
theorem copies_serveIndexUpdate {worker : Worker Resident} {store : Store}
    (current : worker.cache.Copies store) (target opId : DatumId) (indexKind : String)
    (payload : Bytes) (reply : IndexUpdateReply) :
    (env.serveIndexUpdate worker store target opId indexKind payload reply).worker.cache.Copies
      (env.serveIndexUpdate worker store target opId indexKind payload reply).store := by
  have opened : (env.residentFor worker store target indexKind).2.cache.Copies store := by
    unfold residentFor IndexKinds.openResident
    cases worker.residentIndexes target with
    | some resident => exact current
    | none =>
        cases env.indexKinds.kinds indexKind with
        | none => exact current
        | some openKind =>
            dsimp only
            cases openKind target (worker.cache.get store target).1 with
            | error message => exact current.getReplicated target 1
            | ok resident => exact current.getReplicated target 1
  unfold serveIndexUpdate
  rcases accessed : env.residentFor worker store target indexKind with ⟨message | resident, next⟩
  · rw [accessed] at opened
    exact opened
  · rw [accessed] at opened
    exact copies_writeThrough opened (env.indexKinds.apply resident payload).2 target

/-- A thread whose cached copy of the target is current serves an update as its slot does. -/
theorem serveIndexUpdate_eq_serve (worker : Worker Resident) (store : Store)
    (update : PendingIndexUpdate) (opId : DatumId) (reply : IndexUpdateReply)
    (current : worker.cache.Copies store) :
    let turn := env.serveIndexUpdate worker store update.target opId update.indexKind
      update.payload reply
    let served := Slot.serve env.indexKinds update
      ⟨store update.target, worker.residentIndexes update.target⟩
    (⟨turn.store update.target, turn.worker.residentIndexes update.target⟩ : Slot Resident) =
        served.1 ∧
      turn.effects = [reply.respond opId update.target served.2] := by
  have read : (worker.cache.get store update.target).1 = store update.target :=
    current.read update.target 1
  simp only [serveIndexUpdate, residentFor, Slot.serve, Slot.openFor]
  cases was : worker.residentIndexes update.target with
  | some resident => simp [writeThrough_target]
  | none =>
      simp only [IndexKinds.openResident]
      cases registered : env.indexKinds.kinds update.indexKind with
      | none => simp [was]
      | some openKind =>
          simp only [read]
          cases opens : openKind update.target (store update.target) with
          | error message => simp [was]
          | ok resident => simp [writeThrough_target]

/-- The message that carries a task to the home of its target. -/
def dispatchTask (env : Env Resident) (selfThreadId : ThreadId) (opId : DatumId) :
    IndexTask → Effect
  | .update request => env.dispatchIndexUpdate selfThreadId opId request
  | .check target => env.dispatchExistsCheck selfThreadId opId target

/-- An op with everything acquired enters its index phase. -/
theorem tryRunIfReady_phase {selfThreadId : ThreadId} {opId : DatumId} {worker : Worker Resident}
    {store : Store} {record : OpRecord} {ctx : OpContext} {opResult : Bytes}
    (recorded : worker.opRecords.lookup opId = some record)
    (acquired : record.stillNeeded = []) (fresh : record.indexUpdateState = none)
    (invoked : env.ops.invoke store record.opName (OpContext.new worker.cache) record.datumIds
      record.payload = (ctx, .ok opResult))
    (schedules : ¬(ctx.pendingIndexUpdates = [] ∧ ctx.pendingExistsChecks = []))
    (database : Database Resident) :
    let turn := env.tryRunIfReady selfThreadId opId worker store
    turn.store = store ∧
      turn.worker.opRecords.lookup opId =
        some { record with indexUpdateState := some (ctx.phase opResult database).client } ∧
      turn.effects = .invoked opId ::
        (ctx.phase opResult database).waiting.map (env.dispatchTask selfThreadId opId) := by
  simp only [tryRunIfReady, recorded, acquired, fresh, invoked, if_neg schedules]
  simp [OpContext.phase, OpContext.indexUpdateState, dispatchTask, Function.comp_def]

/-- Committing stores the same content whatever was cached. -/
theorem commitWrites_store (writes : List StagedWrite) (first second : Cache) (store : Store) :
    (commitWrites writes first store).2 = (commitWrites writes second store).2 := by
  unfold commitWrites
  induction writes generalizing first second store with
  | nil => rfl
  | cons write writes ih =>
      simp only [List.foldl_cons]
      cases write.content with
      | none => exact ih _ _ _
      | some content => exact ih _ _ _

/-- An op whose replies are in is finished as its phase settles. -/
theorem finishOpIfSettled_settle {opId : DatumId} {worker : Worker Resident} {store : Store}
    {record : OpRecord} {phase : Phase Resident}
    (recorded : worker.opRecords.lookup opId = some record)
    (inPhase : record.indexUpdateState = some phase.client)
    (same : Database.store phase.servers = store) :
    (env.finishOpIfSettled opId worker store).store =
      (phase.settle.map fun settled => settled.2.store).getD store := by
  simp only [finishOpIfSettled, recorded, inPhase, Phase.settle]
  split
  · cases phase.client.violation with
    | some message => exact same.symm
    | none =>
        rw [← same]
        exact commitWrites_store _ _ _ _
  · rfl

end Env

end Seisin
