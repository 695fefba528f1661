import Seisin.Worker.Isolation
import Seisin.Worker.Verdicts

/-!
# What a turn does to the copies

`OpTurn` lists what becomes of an op that may be ready to run or to finish, with the copies it
leaves the thread: while the op has its datums they are loaded from the store, and when it ends they
are dropped and the datums given back.  `Turn.Isolates` sums up every turn of a thread as far as
plain datums go, those that are no indexes.
-/

namespace Seisin

variable {Resident : Type}

/-! ## Copies and writes -/

theorem foldl_invalidate (ids : List DatumId) (cache : Cache) (id : DatumId) :
    ids.foldl Cache.invalidate cache id = if id ∈ ids then none else cache id := by
  induction ids generalizing cache with
  | nil => rfl
  | cons dropped ids ih =>
      rw [List.foldl_cons, ih]
      by_cases later : id ∈ ids
      · simp [later]
      · by_cases same : id = dropped
        · simp [same, Cache.invalidate]
        · simp [later, same, Cache.invalidate]

theorem commitWrites_other {writes : List StagedWrite} {id : DatumId}
    (unwritten : ∀ write ∈ writes, write.id ≠ id) (cache : Cache) (store : Store) :
    (commitWrites writes cache store).1 id = cache id ∧
      (commitWrites writes cache store).2 id = store id := by
  unfold commitWrites
  induction writes generalizing cache store with
  | nil => exact ⟨rfl, rfl⟩
  | cons write writes ih =>
      have apart : id ≠ write.id := fun same => unwritten write List.mem_cons_self same.symm
      have rest := ih fun later isLater => unwritten later (List.mem_cons_of_mem _ isLater)
      rw [List.foldl_cons]
      cases write.content with
      | none =>
          refine ⟨(rest _ _).1.trans ?_, (rest _ _).2.trans ?_⟩
          · simp [apart]
          · simp [Store.deleteReplicated, apart]
      | some bytes =>
          refine ⟨(rest _ _).1.trans ?_, (rest _ _).2.trans ?_⟩
          · simp [apart]
          · simp [Store.putReplicated, apart]

/-- The copies of the given datums may have been loaded from the store. -/
def Cache.LoadedAmong (ids : List DatumId) (store : Store) (before after : Cache) : Prop :=
  ∀ id, after id = before id ∨ id ∈ ids ∧ after id = store id

/-- The thread has no copy of the datum, or a current one. -/
def Cache.Current (cache : Cache) (store : Store) (id : DatumId) : Prop :=
  cache id = none ∨ cache id = store id

/-! ## Messages -/

/-- Index updates are not for plain datums, and what loads a copy arrives at the datum's home. -/
def WorkerMessage.Admissible (env : Env Resident) (plain : DatumId → Prop) (receiver : ThreadId) :
    WorkerMessage → Prop
  | .indexUpdate target _ _ _ _ => ¬plain target
  | .existsCheck target _ _ | .indexQuery target _ _ | .indexExecute target _ _ =>
      receiver = env.home target
  | _ => True

/-- A thread sends messages that are admissible so, and starts no op. -/
def Effect.Admissible (env : Env Resident) (plain : DatumId → Prop) : Effect → Prop
  | .send _ (.runOp _ _ _ _) => False
  | .send receiver message => message.Admissible env plain receiver
  | _ => True

/-- A reply with a result. -/
def Effect.toResult : Effect → Option (DatumId × Bytes)
  | .reply opId (.ok result) => some (opId, result)
  | _ => none

/-! ## Records that wait for replies -/

/-- The entries an op may still have to track are for the given targets. -/
def IndexUpdateState.TracksIn (updated : DatumId → Prop) (state : IndexUpdateState) : Prop :=
  ∀ target expect, state.existsExpectations.lookup target = some expect → expect.TracksIn updated

theorem deciding_mem {checks : List PendingExistsCheck} {target : DatumId} {expect : Expectation}
    (decides : deciding checks target = some expect) : ∃ check ∈ checks, check.expect = expect := by
  rcases Option.map_eq_some_iff.mp decides with ⟨check, last, isExpected⟩
  exact ⟨check, List.mem_of_mem_filter (List.mem_of_getLast? last), isExpected⟩

/-- What the record has staged is what its op would do alone on the store. -/
def OpRecord.Staged (ops : OpRegistry) (plain : DatumId → Prop) (store : Store)
    (record : OpRecord) : Prop :=
  ∀ state, record.indexUpdateState = some state →
    ops.Executes store record.request state.stagedWrites state.opResult ∧
      state.TracksIn fun id => ¬plain id

theorem OpRecord.Staged.congr {ops : OpRegistry} {plain : DatumId → Prop} {store other : Store}
    {record : OpRecord} (confined : ops.Confined plain)
    (staged : record.Staged ops plain store)
    (agree : record.indexUpdateState ≠ none →
      ∀ id ∈ record.datumIds, plain id → store id = other id) :
    record.Staged ops plain other := by
  intro state entered
  rcases staged state entered with ⟨executes, tracks⟩
  exact ⟨executes.congr confined (agree (by simp [entered])), tracks⟩

/-- Every datum of the op is acquired, or still needed by an op that has not run. -/
def OpRecord.Covered (record : OpRecord) : Prop :=
  ∀ id ∈ record.datumIds,
    id ∈ record.acquired ∨ id ∈ record.stillNeeded ∧ record.indexUpdateState = none

theorem OpRecord.Covered.acquired {record : OpRecord} (covered : record.Covered)
    (past : record.stillNeeded = [] ∨ record.indexUpdateState ≠ none) :
    ∀ id ∈ record.datumIds, id ∈ record.acquired := by
  intro id wanted
  rcases covered id wanted with acquired | ⟨needed, fresh⟩
  · exact acquired
  · rcases past with collated | entered
    · simp [collated] at needed
    · exact absurd fresh entered

/-! ## The op of a turn -/

/-- The worker without the op's record and without copies of what it had. -/
def Worker.ended (worker : Worker Resident) (opId : DatumId) (record : OpRecord) (cache : Cache) :
    Worker Resident :=
  { worker with
    cache := record.acquired.foldl Cache.invalidate cache
    opRecords := worker.opRecords.erase opId }

/-- What becomes of the record of an op that may be ready to run or to finish: it waits, it fails,
it commits its writes, or it stages them and waits for replies.  An op that ends gives everything
back. -/
inductive OpTurn (env : Env Resident) (plain : DatumId → Prop) (opId : DatumId) (record : OpRecord)
    (worker : Worker Resident) (store : Store) : Turn Resident → Prop where
  | waiting : OpTurn env plain opId record worker store ⟨worker, store, []⟩
  | failed (cache : Cache) (notes : List Effect)
      (loaded : Cache.LoadedAmong record.acquired store worker.cache cache)
      (results : notes.filterMap Effect.toResult = [])
      (admissible : ∀ effect ∈ notes, effect.Admissible env plain) :
      OpTurn env plain opId record worker store
        ⟨worker.ended opId record cache, store, notes ++ env.releases record⟩
  | committed (cache : Cache) (notes : List Effect) (writes : List StagedWrite) (result : Bytes)
      (loaded : Cache.LoadedAmong record.acquired store worker.cache cache)
      (executes : env.ops.Executes store record.request writes result)
      (acquired : ∀ id ∈ record.datumIds, id ∈ record.acquired)
      (results : notes.filterMap Effect.toResult = [(opId, result)])
      (admissible : ∀ effect ∈ notes, effect.Admissible env plain) :
      OpTurn env plain opId record worker store
        ⟨worker.ended opId record (commitWrites writes cache store).1,
          (commitWrites writes cache store).2, notes ++ env.releases record⟩
  | settling (cache : Cache) (effects : List Effect) (state : IndexUpdateState)
      (loaded : Cache.LoadedAmong record.acquired store worker.cache cache)
      (executes : env.ops.Executes store record.request state.stagedWrites state.opResult)
      (tracks : state.TracksIn fun id => ¬plain id)
      (results : effects.filterMap Effect.toResult = [])
      (admissible : ∀ effect ∈ effects, effect.Admissible env plain) :
      OpTurn env plain opId record worker store
        ⟨{ worker with
            cache := cache
            opRecords := worker.opRecords.insert opId
              { record with indexUpdateState := some state } }, store, effects⟩

section Releases

variable (env : Env Resident) (record : OpRecord)

theorem releases_results : (env.releases record).filterMap Effect.toResult = [] := by
  simp [Env.releases, Effect.toResult]

theorem releases_admissible (plain : DatumId → Prop) :
    ∀ effect ∈ env.releases record, effect.Admissible env plain := by
  intro effect effectMem
  rcases List.mem_map.mp effectMem with ⟨datumId, _, rfl⟩
  exact trivial

theorem mem_releases {id : DatumId} (acquired : id ∈ record.acquired) :
    .send (env.home id) (.release id) ∈ env.releases record :=
  List.mem_map.mpr ⟨id, acquired, rfl⟩

end Releases

namespace Env

variable {env : Env Resident} {plain : DatumId → Prop}

theorem dispatch_admissible (standalone : env.Standalone) (thread : ThreadId) (opId : DatumId)
    {updates : List PendingIndexUpdate} (updated : ∀ update ∈ updates, ¬plain update.target)
    (checks : List PendingExistsCheck) :
    ∀ effect ∈ updates.map (env.dispatchIndexUpdate thread opId) ++
        checks.map fun check => env.dispatchExistsCheck thread opId check.target,
      effect.Admissible env plain ∧ effect.toResult = none := by
  intro effect effectMem
  rcases List.mem_append.mp effectMem with dispatched | dispatched
  · rcases List.mem_map.mp dispatched with ⟨update, updateMem, rfl⟩
    rw [dispatchIndexUpdate_standalone standalone]
    exact ⟨updated update updateMem, rfl⟩
  · rcases List.mem_map.mp dispatched with ⟨check, _, rfl⟩
    rw [dispatchExistsCheck_standalone standalone]
    exact ⟨rfl, rfl⟩

/-- An op that finds current copies of what it has acquired runs as it would alone. -/
theorem tryRunIfReady_opTurn (standalone : env.Standalone) (confined : env.ops.Confined plain)
    (thread : ThreadId) (store : Store) {opId : DatumId} {worker : Worker Resident} {record : OpRecord}
    (found : worker.record opId = some record) (covered : record.Covered)
    (current : ∀ id ∈ record.acquired, plain id → worker.cache.Current store id) :
    OpTurn env plain opId record worker store (env.tryRunIfReady thread opId worker store) := by
  have lookedUp : worker.opRecords.lookup opId = some record := found
  unfold tryRunIfReady
  rw [lookedUp]
  dsimp only
  by_cases ready : record.stillNeeded = [] ∧ record.indexUpdateState.isNone
  · rw [if_pos ready]
    have acquired := covered.acquired (Or.inl ready.1)
    have leaves := OpRegistry.invoke_leaves confined store record.request
      (OpContext.new worker.cache)
    have runs : ∀ result, (env.ops.invoke store record.opName (OpContext.new worker.cache)
        record.datumIds record.payload).2 = .ok result → env.ops.Executes store record.request
          (env.ops.invoke store record.opName (OpContext.new worker.cache) record.datumIds
            record.payload).1.takeStagedWrites result := by
      intro result returned
      exact OpRegistry.executes_of_current record.request confined
        (fun id wanted isPlain => current id (acquired id wanted) isPlain) returned
    simp only [OpRecord.request] at leaves
    generalize env.ops.invoke store record.opName (OpContext.new worker.cache)
      record.datumIds record.payload = invoked at leaves runs ⊢
    rcases invoked with ⟨ctx, outcome⟩
    have loaded : Cache.LoadedAmong record.acquired store worker.cache ctx.cache := by
      intro id
      rcases leaves.cached id with same | ⟨touched, isStored⟩
      · exact Or.inl same
      · exact Or.inr ⟨acquired id touched.1, isStored⟩
    have releases : ∀ cache, (env.releaseDatums record.acquired cache).2 = env.releases record :=
      releaseDatums_standalone standalone record.acquired
    cases outcome with
    | error message =>
        dsimp only
        rw [releases]
        exact .failed ctx.cache [.invoked opId, .reply opId (.error message)] loaded rfl
          (by simp [Effect.Admissible])
    | ok result =>
        have executes := runs result rfl
        dsimp only
        split
        · rw [releases]
          exact .committed ctx.cache
            [.invoked opId, .committed opId record.datumIds ctx.takeStagedWrites,
              .reply opId (.ok result)] ctx.takeStagedWrites result loaded executes acquired rfl
            (by simp [Effect.Admissible])
        · have updated : ∀ update ∈ ctx.pendingIndexUpdates, ¬plain update.target := by
            intro update scheduled
            rcases leaves.updates update scheduled with earlier | isUpdated
            · cases earlier
            · exact isUpdated
          have dispatched := dispatch_admissible standalone thread opId updated
            ctx.pendingExistsChecks
          refine .settling ctx.cache _ _ loaded executes ?_ ?_ ?_
          · intro target expect expected
            rw [lookup_expectations] at expected
            rcases deciding_mem expected with ⟨check, checkMem, rfl⟩
            rcases leaves.checks check checkMem with earlier | isTracked
            · cases earlier
            · exact isTracked
          · refine List.filterMap_eq_nil_iff.mpr ?_
            intro effect effectMem
            rcases List.mem_cons.mp effectMem with rfl | effectMem
            · rfl
            · exact (dispatched effect effectMem).2
          · intro effect effectMem
            rcases List.mem_cons.mp effectMem with rfl | effectMem
            · exact trivial
            · exact (dispatched effect effectMem).1
  · rw [if_neg ready]
    exact .waiting

/-- An op that waits for replies finishes as it would alone. -/
theorem finishOpIfSettled_opTurn (standalone : env.Standalone) {opId : DatumId}
    {worker : Worker Resident} {record : OpRecord} {store : Store}
    (found : worker.record opId = some record) (covered : record.Covered)
    (staged : record.Staged env.ops plain store) :
    OpTurn env plain opId record worker store (env.finishOpIfSettled opId worker store) := by
  have lookedUp : worker.opRecords.lookup opId = some record := found
  unfold finishOpIfSettled
  simp only [lookedUp]
  cases entered : record.indexUpdateState with
  | none => exact .waiting
  | some state =>
      have executes := (staged state entered).1
      have acquired := covered.acquired (Or.inr (by simp [entered]))
      have loaded : Cache.LoadedAmong record.acquired store worker.cache worker.cache :=
        fun id => Or.inl rfl
      have releases : ∀ cache, (env.releaseDatums record.acquired cache).2 = env.releases record :=
        releaseDatums_standalone standalone record.acquired
      dsimp only
      split
      · cases state.violation with
        | some message =>
            dsimp only
            rw [releases]
            exact .failed worker.cache [.reply opId (.error message)] loaded rfl
              (by simp [Effect.Admissible])
        | none =>
            dsimp only
            rw [releases]
            exact .committed worker.cache [.committed opId record.datumIds state.stagedWrites,
              .reply opId (.ok state.opResult)] state.stagedWrites state.opResult loaded executes
              acquired rfl (by simp [Effect.Admissible])
      · exact .waiting

end Env

/-! ## Every turn -/

/-- What becomes of a thread's copy of a datum: it is kept or dropped, it is loaded by the datum's
home or for an op that has the datum, or it is dropped when the datum is given back. -/
inductive Turn.Copies (env : Env Resident) (thread : ThreadId) (worker : Worker Resident)
    (store : Store) (turn : Turn Resident) (id : DatumId) : Prop where
  | kept (stored : turn.store id = store id)
      (cached : turn.worker.cache id = worker.cache id ∨ turn.worker.cache id = none)
  | loaded (stored : turn.store id = store id) (cached : turn.worker.cache id = store id)
      (entitled : env.home id = thread ∨
        ∃ opId record, turn.worker.record opId = some record ∧ id ∈ record.acquired)
  | returned (cached : turn.worker.cache id = none)
      (released : .send (env.home id) (.release id) ∈ turn.effects)

/-- The request is that of a record of the thread, or of the message it takes. -/
def Worker.Requested (worker : Worker Resident) (message : WorkerMessage) (opId : DatumId)
    (request : OpRequest) : Prop :=
  (∃ record, worker.record opId = some record ∧ record.request = request) ∨
    message = .runOp opId request.opName request.datumIds request.payload

/-- A turn as far as plain datums go: their copies, the records it leaves, and the op it commits, if
it commits one. -/
structure Turn.Isolates (env : Env Resident) (plain : DatumId → Prop) (thread : ThreadId)
    (message : WorkerMessage) (worker : Worker Resident) (store : Store) (turn : Turn Resident) :
    Prop where
  copies : ∀ id, plain id → Turn.Copies env thread worker store turn id
  returned : ∀ opId record id, worker.record opId = some record → id ∈ record.acquired →
    (∃ after, turn.worker.record opId = some after ∧ id ∈ after.acquired) ∨
      turn.worker.cache id = none ∧ .send (env.home id) (.release id) ∈ turn.effects
  freed : ∀ id, message = .release id → turn.worker.cache id = none
  records : ∀ opId record, turn.worker.record opId = some record →
    record.Staged env.ops plain store ∧ worker.Requested message opId record.request
  results : (turn.effects.filterMap Effect.toResult = [] ∧
      ∀ id, plain id → turn.store id = store id) ∨
    ∃ opId request writes result cache,
      turn.effects.filterMap Effect.toResult = [(opId, result)] ∧
        env.ops.Executes store request writes result ∧
          turn.store = (commitWrites writes cache store).2 ∧
            worker.Requested message opId request
  admissible : ∀ effect ∈ turn.effects, effect.Admissible env plain

/-- What holds of a thread's records and copies, and of the message it takes. -/
structure Worker.Consistent (env : Env Resident) (plain : DatumId → Prop) (thread : ThreadId)
    (message : WorkerMessage) (worker : Worker Resident) (store : Store) : Prop where
  covered : ∀ opId record, worker.record opId = some record → record.Covered
  staged : ∀ opId record, worker.record opId = some record → record.Staged env.ops plain store
  current : ∀ opId record, worker.record opId = some record →
    ∀ id ∈ record.acquired, plain id → worker.cache.Current store id
  granted : ∀ opId id, message = .acquireGranted opId id → plain id →
    worker.cache.Current store id
  started : ∀ opId opName datumIds payload, message = .runOp opId opName datumIds payload →
    worker.record opId = none
  recalled : ∀ id reply, message = .recall id reply → reply = .local (env.home id)
  admissible : message.Admissible env plain thread
  local_ : ¬message.Remote

section Opened

variable {env : Env Resident} {plain : DatumId → Prop} {thread : ThreadId}
  {message : WorkerMessage} {worker : Worker Resident} {store : Store} {opId : DatumId}
  {record : OpRecord} {turn : Turn Resident}

theorem Worker.record_opened (worker : Worker Resident) (opId : DatumId) (record : OpRecord) :
    Worker.record { worker with opRecords := worker.opRecords.insert opId record } =
      Function.update worker.record opId (some record) :=
  Worker.record_insert worker.opRecords opId record

theorem Worker.record_opened_self (worker : Worker Resident) (opId : DatumId)
    (record : OpRecord) :
    Worker.record { worker with opRecords := worker.opRecords.insert opId record } opId =
      some record := by
  rw [Worker.record_opened, Function.update_self]

/-- The copies a turn of an op leaves. -/
theorem OpTurn.copies (confined : env.ops.Confined plain)
    (opTurn : OpTurn env plain opId record worker store turn)
    (id : DatumId) : Turn.Copies env thread worker store turn id := by
  cases opTurn with
  | waiting => exact .kept rfl (Or.inl rfl)
  | failed cache notes loaded results admissible =>
      by_cases acquired : id ∈ record.acquired
      · refine .returned ?_ (List.mem_append_right _ (mem_releases env record acquired))
        simp [Worker.ended, foldl_invalidate, acquired]
      · refine .kept rfl (Or.inl ?_)
        rcases loaded id with same | ⟨isAcquired, _⟩
        · simp [Worker.ended, foldl_invalidate, acquired, same]
        · exact absurd isAcquired acquired
  | committed cache notes writes result loaded executes acquires results admissible =>
      by_cases acquired : id ∈ record.acquired
      · refine .returned ?_ (List.mem_append_right _ (mem_releases env record acquired))
        simp [Worker.ended, foldl_invalidate, acquired]
      · have unwritten : ∀ write ∈ writes, write.id ≠ id := by
          rintro write writeMem rfl
          exact acquired (acquires _ (executes.confined confined write writeMem).1)
        have other := commitWrites_other unwritten cache store
        refine .kept other.2 (Or.inl ?_)
        rcases loaded id with same | ⟨isAcquired, _⟩
        · simp [Worker.ended, foldl_invalidate, acquired, other.1, same]
        · exact absurd isAcquired acquired
  | settling cache effects state loaded executes tracks results admissible =>
      rcases loaded id with same | ⟨acquired, isStored⟩
      · exact .kept rfl (Or.inl same)
      · refine .loaded rfl isStored (Or.inr ⟨opId, { record with indexUpdateState := some state },
          AList.lookup_insert _, acquired⟩)

/-- The records a turn of an op leaves: those of other ops, and its own unless it ends. -/
theorem OpTurn.leaves (opTurn : OpTurn env plain opId record worker store turn)
    (found : worker.record opId = some record) :
    (∃ after, turn.worker.record = Function.update worker.record opId (some after) ∧
      after.request = record.request ∧ after.acquired = record.acquired ∧
        (record.Staged env.ops plain store → after.Staged env.ops plain store)) ∨
    turn.worker.record = Function.update worker.record opId none ∧
      ∀ id ∈ record.acquired, turn.worker.cache id = none ∧
        .send (env.home id) (.release id) ∈ turn.effects := by
  have ended : ∀ cache, (worker.ended opId record cache).record =
      Function.update worker.record opId none :=
    fun cache => Worker.record_erase worker.opRecords opId
  cases opTurn with
  | waiting =>
      left
      refine ⟨record, ?_, rfl, rfl, id⟩
      rw [← found, Function.update_eq_self]
  | failed cache notes loaded results admissible =>
      right
      refine ⟨ended cache, fun id acquired => ⟨?_, List.mem_append_right _
        (mem_releases env record acquired)⟩⟩
      simp [Worker.ended, foldl_invalidate, acquired]
  | committed cache notes writes result loaded executes acquires results admissible =>
      right
      refine ⟨ended _, fun id acquired => ⟨?_, List.mem_append_right _
        (mem_releases env record acquired)⟩⟩
      simp [Worker.ended, foldl_invalidate, acquired]
  | settling cache effects state loaded executes tracks results admissible =>
      left
      refine ⟨_, Worker.record_opened worker opId _, rfl, rfl, ?_⟩
      intro _ entered isState
      cases isState
      exact ⟨executes, tracks⟩

/-- The results of a turn of an op: none, with the store unchanged, or that of the committed op. -/
theorem OpTurn.results (opTurn : OpTurn env plain opId record worker store turn) :
    turn.effects.filterMap Effect.toResult = [] ∧ turn.store = store ∨
    ∃ writes result cache, turn.effects.filterMap Effect.toResult = [(opId, result)] ∧
      env.ops.Executes store record.request writes result ∧
        turn.store = (commitWrites writes cache store).2 := by
  cases opTurn with
  | waiting => exact Or.inl ⟨rfl, rfl⟩
  | failed cache notes loaded results admissible =>
      left
      rw [List.filterMap_append, results, releases_results]
      exact ⟨rfl, rfl⟩
  | committed cache notes writes result loaded executes acquires results admissible =>
      right
      refine ⟨writes, result, cache, ?_, executes, rfl⟩
      rw [List.filterMap_append, results, releases_results]
      rfl
  | settling cache effects state loaded executes tracks results admissible =>
      exact Or.inl ⟨results, rfl⟩

theorem OpTurn.admissible (opTurn : OpTurn env plain opId record worker store turn) :
    ∀ effect ∈ turn.effects, effect.Admissible env plain := by
  cases opTurn with
  | waiting => simp
  | failed cache notes loaded results admissible =>
      intro effect effectMem
      rcases List.mem_append.mp effectMem with noted | released
      · exact admissible effect noted
      · exact releases_admissible env record plain effect released
  | committed cache notes writes result loaded executes acquires results admissible =>
      intro effect effectMem
      rcases List.mem_append.mp effectMem with noted | released
      · exact admissible effect noted
      · exact releases_admissible env record plain effect released
  | settling cache effects state loaded executes tracks results admissible => exact admissible

/-- A turn of an op whose record has just been filed or updated. -/
theorem OpTurn.isolates (confined : env.ops.Confined plain)
    (consistent : Worker.Consistent env plain thread message worker store)
    (opTurn : OpTurn env plain opId record
      { worker with opRecords := worker.opRecords.insert opId record } store turn)
    (staged : record.Staged env.ops plain store)
    (requested : worker.Requested message opId record.request)
    (carried : ∀ before, worker.record opId = some before →
      ∀ id ∈ before.acquired, id ∈ record.acquired)
    (holds : ∀ id, message ≠ .release id) (sent : List Effect)
    (sentAdmissible : ∀ effect ∈ sent, effect.Admissible env plain)
    (sentResults : sent.filterMap Effect.toResult = []) :
    Turn.Isolates env plain thread message worker store
      ⟨turn.worker, turn.store, sent ++ turn.effects⟩ where
  copies := by
    intro id _
    cases opTurn.copies confined id with
    | kept stored cached => exact .kept stored cached
    | loaded stored cached entitled => exact .loaded stored cached entitled
    | returned cached released => exact .returned cached (List.mem_append_right _ released)
  returned := by
    intro other before id otherFound acquired
    rcases opTurn.leaves (Worker.record_opened_self worker opId record) with
      ⟨after, records, _, sameAcquired, _⟩ | ⟨records, gone⟩
    · left
      rw [Worker.record_opened, Function.update_idem] at records
      by_cases same : other = opId
      · subst same
        refine ⟨after, by rw [records, Function.update_self], ?_⟩
        rw [sameAcquired]
        exact carried before otherFound id acquired
      · exact ⟨before, by rw [records, Function.update_of_ne same, otherFound], acquired⟩
    · rw [Worker.record_opened, Function.update_idem] at records
      by_cases same : other = opId
      · subst same
        have ended := gone id (carried before otherFound id acquired)
        exact Or.inr ⟨ended.1, List.mem_append_right _ ended.2⟩
      · exact Or.inl
          ⟨before, by rw [records, Function.update_of_ne same, otherFound], acquired⟩
  freed := fun id isRelease => absurd isRelease (holds id)
  records := by
    intro other left leftFound
    have elsewhere : worker.record other = some left →
        left.Staged env.ops plain store ∧ worker.Requested message other left.request :=
      fun found => ⟨consistent.staged other left found, Or.inl ⟨left, found, rfl⟩⟩
    rcases opTurn.leaves (Worker.record_opened_self worker opId record) with
      ⟨after, records, request, _, keeps⟩ | ⟨records, _⟩
    · rw [Worker.record_opened, Function.update_idem] at records
      by_cases same : other = opId
      · subst same
        rw [records, Function.update_self, Option.some.injEq] at leftFound
        subst leftFound
        rw [request]
        exact ⟨keeps staged, requested⟩
      · rw [records, Function.update_of_ne same] at leftFound
        exact elsewhere leftFound
    · rw [Worker.record_opened, Function.update_idem] at records
      by_cases same : other = opId
      · subst same
        rw [records, Function.update_self] at leftFound
        cases leftFound
      · rw [records, Function.update_of_ne same] at leftFound
        exact elsewhere leftFound
  results := by
    rcases opTurn.results with ⟨results, same⟩ | ⟨writes, result, cache, results, executes, stored⟩
    · left
      refine ⟨?_, fun id _ => congrFun same id⟩
      rw [List.filterMap_append, sentResults, results]
      rfl
    · right
      refine ⟨opId, record.request, writes, result, cache, ?_, executes, stored, requested⟩
      rw [List.filterMap_append, sentResults, results]
      rfl
  admissible := by
    intro effect effectMem
    rcases List.mem_append.mp effectMem with isSent | emitted
    · exact sentAdmissible effect isSent
    · exact opTurn.admissible effect emitted

/-- A turn that leaves the records alone and gives no result. -/
theorem Turn.isolates_quiet (consistent : Worker.Consistent env plain thread message worker store)
    (copies : ∀ id, plain id → Turn.Copies env thread worker store turn id)
    (stored : ∀ id, plain id → turn.store id = store id)
    (records : turn.worker.record = worker.record)
    (freed : ∀ id, message = .release id → turn.worker.cache id = none)
    (results : turn.effects.filterMap Effect.toResult = [])
    (admissible : ∀ effect ∈ turn.effects, effect.Admissible env plain) :
    Turn.Isolates env plain thread message worker store turn where
  copies := copies
  returned := fun opId record id found acquired =>
    Or.inl ⟨record, by rw [records, found], acquired⟩
  freed := freed
  records := by
    intro opId record found
    rw [records] at found
    exact ⟨consistent.staged opId record found, Or.inl ⟨record, found, rfl⟩⟩
  results := Or.inl ⟨results, stored⟩
  admissible := admissible

end Opened

/-! ## Grants and indexes -/

theorem Grant.fire_admissible (env : Env Resident) (plain : DatumId → Prop) (grant : Grant) :
    grant.fire.Admissible env plain ∧ grant.fire.toResult = none := by
  rcases grant with ⟨reply, opId, datumId⟩
  cases reply with
  | «local» inbox => exact ⟨trivial, rfl⟩
  | remote link correlationId => exact ⟨trivial, rfl⟩

theorem Grant.fired_admissible (env : Env Resident) (plain : DatumId → Prop)
    (fired : Option Grant) : ∀ effect ∈ fired.toList.map Grant.fire,
      effect.Admissible env plain ∧ effect.toResult = none := by
  intro effect effectMem
  rcases List.mem_map.mp effectMem with ⟨grant, _, rfl⟩
  exact grant.fire_admissible env plain

theorem results_eq_nil {effects : List Effect} {env : Env Resident} {plain : DatumId → Prop}
    (quiet : ∀ effect ∈ effects, effect.Admissible env plain ∧ effect.toResult = none) :
    effects.filterMap Effect.toResult = [] :=
  List.filterMap_eq_nil_iff.mpr fun effect effectMem => (quiet effect effectMem).2

namespace Env

variable {env : Env Resident} {plain : DatumId → Prop}

theorem sendRecall_admissible (env : Env Resident) (plain : DatumId → Prop) (thread : ThreadId)
    (datumId : DatumId) (holder : Holder) :
    (env.sendRecall thread datumId holder).Admissible env plain ∧
      (env.sendRecall thread datumId holder).toResult = none := by
  unfold sendRecall
  split
  · exact ⟨trivial, rfl⟩
  · split
    · exact ⟨trivial, rfl⟩
    · exact ⟨trivial, rfl⟩

/-- Opening an index loads a copy of its datum, or none. -/
theorem residentFor_copies (env : Env Resident) (worker : Worker Resident) (store : Store)
    (target : DatumId) (indexKind : String) (id : DatumId) :
    (env.residentFor worker store target indexKind).2.cache id = worker.cache id ∨
      id = target ∧ (env.residentFor worker store target indexKind).2.cache id = store id := by
  have opened : (env.indexKinds.openResident worker.cache store target indexKind).2 id =
        worker.cache id ∨ id = target ∧
      (env.indexKinds.openResident worker.cache store target indexKind).2 id = store id := by
    unfold IndexKinds.openResident
    split
    · exact Or.inl rfl
    · exact worker.cache.getReplicated_copies store target 1 id
  unfold residentFor
  split
  · exact Or.inl rfl
  · split
    · rename_i accessed
      rw [accessed] at opened
      exact opened
    · rename_i accessed
      rw [accessed] at opened
      exact opened

theorem writeThrough_cache_other (outcome : IndexApplyOutcome) {target id : DatumId}
    (other : id ≠ target) (cache : Cache) (store : Store) :
    (writeThrough outcome target cache store).1 id = cache id := by
  unfold writeThrough
  split
  · cases outcome.writeThrough with
    | none => rfl
    | put bytes => exact Function.update_of_ne other _ _
    | delete => exact Function.update_of_ne other _ _
  · rfl

theorem serveIndexUpdate_cache_other (worker : Worker Resident) (store : Store)
    {target id : DatumId} (other : id ≠ target) (opId : DatumId) (indexKind : String)
    (payload : Bytes) (reply : IndexUpdateReply) :
    (env.serveIndexUpdate worker store target opId indexKind payload reply).worker.cache id =
      worker.cache id := by
  have opened : (env.residentFor worker store target indexKind).2.cache id = worker.cache id := by
    rcases env.residentFor_copies worker store target indexKind id with same | ⟨isTarget, _⟩
    · exact same
    · exact absurd isTarget other
  unfold serveIndexUpdate
  split
  · rename_i accessed
    rw [accessed] at opened
    exact opened
  · rename_i accessed
    rw [accessed] at opened
    exact (writeThrough_cache_other _ other _ _).trans opened

end Env

/-! ## The message loop -/

namespace Env

variable {env : Env Resident} {plain : DatumId → Prop} {thread : ThreadId}
  {worker : Worker Resident} {store : Store}

theorem handleRunOp_isolates (standalone : env.Standalone) (confined : env.ops.Confined plain)
    {opId : DatumId} {opName : String} {datumIds : List DatumId} {payload : Bytes}
    (consistent : Worker.Consistent env plain thread (.runOp opId opName datumIds payload) worker
      store) :
    Turn.Isolates env plain thread (.runOp opId opName datumIds payload) worker store
      (env.handleRunOp thread opId opName datumIds payload worker store) := by
  have absent := consistent.started opId opName datumIds payload rfl
  have requests : ∀ effect ∈ datumIds.map fun datumId =>
      env.sendAcquire thread opId datumId maxAcquireRetries,
      effect.Admissible env plain ∧ effect.toResult = none := by
    intro effect effectMem
    rcases List.mem_map.mp effectMem with ⟨datumId, _, rfl⟩
    rw [sendAcquire_standalone standalone]
    exact ⟨trivial, rfl⟩
  have opTurn := tryRunIfReady_opTurn standalone confined thread store
    (Worker.record_opened_self worker opId ⟨opName, payload, datumIds, datumIds, [], none⟩)
    (fun id wanted => Or.inr ⟨wanted, rfl⟩) (by simp)
  refine opTurn.isolates confined consistent ?_ (Or.inr rfl) ?_ (by simp) _
    (fun effect effectMem => (requests effect effectMem).1) (results_eq_nil requests)
  · intro state entered
    cases entered
  · intro before found
    rw [absent] at found
    cases found

theorem handleAcquire_isolates {opId datumId : DatumId} {requesterNode : NodeId}
    {requesterThread : ThreadId} {reply : AcquireReply}
    (consistent : Worker.Consistent env plain thread
      (.acquire opId datumId requesterNode requesterThread reply) worker store) :
    Turn.Isolates env plain thread (.acquire opId datumId requesterNode requesterThread reply)
      worker store
      (env.handleAcquire thread opId datumId requesterNode requesterThread reply worker store) := by
  have quiet : ∀ effect ∈ (env.handleAcquire thread opId datumId requesterNode requesterThread reply
      worker store).effects, effect.Admissible env plain ∧ effect.toResult = none := by
    intro effect effectMem
    unfold handleAcquire at effectMem
    rcases List.mem_append.mp effectMem with fired | recalled
    · exact Grant.fired_admissible env plain _ effect fired
    · split at recalled
      · rename_i holder _
        rw [List.mem_singleton.mp recalled]
        exact sendRecall_admissible env plain thread datumId holder
      · cases recalled
  exact Turn.isolates_quiet consistent (fun id _ => .kept rfl (Or.inl rfl)) (fun _ _ => rfl) rfl
    (by simp) (results_eq_nil quiet) fun effect effectMem => (quiet effect effectMem).1

theorem handleAcquireGranted_isolates (standalone : env.Standalone)
    (confined : env.ops.Confined plain) {opId datumId : DatumId}
    (consistent : Worker.Consistent env plain thread (.acquireGranted opId datumId) worker store) :
    Turn.Isolates env plain thread (.acquireGranted opId datumId) worker store
      (env.handleAcquireGranted thread opId datumId worker store) := by
  unfold handleAcquireGranted
  cases found : worker.record opId with
  | none =>
      have lookedUp : worker.opRecords.lookup opId = none := found
      rw [lookedUp]
      dsimp only
      rw [releaseDatums_standalone standalone]
      refine Turn.isolates_quiet consistent ?_ (fun _ _ => rfl) rfl (by simp) rfl
        (by simp [Effect.Admissible, WorkerMessage.Admissible])
      intro id _
      refine .kept rfl ?_
      by_cases same : id = datumId
      · right
        simp [releaseDatums, Cache.invalidate, same]
      · left
        simp [releaseDatums, Cache.invalidate, same]
  | some record =>
      have lookedUp : worker.opRecords.lookup opId = some record := found
      rw [lookedUp]
      dsimp only
      have covered := consistent.covered opId record found
      have staged := consistent.staged opId record found
      have opTurn := tryRunIfReady_opTurn standalone confined thread store
        (Worker.record_opened_self worker opId
          { record with
            stillNeeded := record.stillNeeded.filter fun id => id ≠ datumId
            acquired := record.acquired ++ [datumId] }) ?_ ?_
      · refine opTurn.isolates confined consistent staged (Or.inl ⟨record, found, rfl⟩) ?_
          (by simp) [] (by simp) rfl
        intro before beforeFound id acquired
        rw [found, Option.some.injEq] at beforeFound
        subst beforeFound
        exact List.mem_append_left _ acquired
      · intro id wanted
        by_cases same : id = datumId
        · left
          simp [same]
        · rcases covered id wanted with acquired | ⟨needed, fresh⟩
          · exact Or.inl (List.mem_append_left _ acquired)
          · exact Or.inr ⟨List.mem_filter.mpr ⟨needed, by simpa using same⟩, fresh⟩
      · intro id acquired isPlain
        rcases List.mem_append.mp acquired with earlier | isGranted
        · exact consistent.current opId record found id earlier isPlain
        · cases List.mem_singleton.mp isGranted
          exact consistent.granted opId datumId rfl isPlain

theorem handleRecall_isolates (standalone : env.Standalone) (hint : DatumId) {datumId : DatumId}
    {reply : RecallReply}
    (consistent : Worker.Consistent env plain thread (.recall datumId reply) worker store) :
    Turn.Isolates env plain thread (.recall datumId reply) worker store
      (env.handleRecall thread hint datumId reply worker store) := by
  have replies := consistent.recalled datumId reply rfl
  subst replies
  have copies : ∀ id, plain id → worker.cache.invalidate datumId id = worker.cache id ∨
      worker.cache.invalidate datumId id = none := by
    intro id _
    by_cases same : id = datumId
    · exact Or.inr (by simp [Cache.invalidate, same])
    · exact Or.inl (by simp [Cache.invalidate, same])
  have missed : Turn.Isolates env plain thread (.recall datumId (.local (env.home datumId))) worker
      store ⟨{ worker with cache := worker.cache.invalidate datumId }, store,
        [RecallReply.ack (.local (env.home datumId)) datumId]⟩ :=
    Turn.isolates_quiet consistent (fun id isPlain => .kept rfl (copies id isPlain))
      (fun _ _ => rfl) rfl (by simp) rfl (by simp [RecallReply.ack, Effect.Admissible,
        WorkerMessage.Admissible])
  unfold handleRecall
  split
  · exact missed
  · rename_i opId _
    cases found : worker.record opId with
    | none =>
        have lookedUp : worker.opRecords.lookup opId = none := found
        rw [lookedUp]
        exact missed
    | some record =>
        have lookedUp : worker.opRecords.lookup opId = some record := found
        rw [lookedUp]
        dsimp only
        rw [sendAcquire_standalone standalone]
        have opened := Worker.record_opened
          { worker with cache := worker.cache.invalidate datumId } opId
          { record with
            acquired := record.acquired.erase datumId
            stillNeeded := record.stillNeeded ++ [datumId] }
        refine ⟨fun id isPlain => .kept rfl (copies id isPlain), ?_, by simp, ?_,
          Or.inl ⟨rfl, fun _ _ => rfl⟩, by simp [RecallReply.ack, Effect.Admissible,
            WorkerMessage.Admissible]⟩
        · intro other before id otherFound acquired
          by_cases same : id = datumId
          · right
            subst same
            exact ⟨by simp [Cache.invalidate], by simp [RecallReply.ack]⟩
          · left
            by_cases wounded : other = opId
            · subst wounded
              rw [found, Option.some.injEq] at otherFound
              subst otherFound
              exact ⟨_, AList.lookup_insert _, (List.mem_erase_of_ne same).mpr acquired⟩
            · refine ⟨before, ?_, acquired⟩
              rw [opened, Function.update_of_ne wounded]
              exact otherFound
        · intro other left leftFound
          rw [opened] at leftFound
          by_cases wounded : other = opId
          · subst wounded
            rw [Function.update_self, Option.some.injEq] at leftFound
            subst leftFound
            exact ⟨consistent.staged other record found, Or.inl ⟨record, found, rfl⟩⟩
          · rw [Function.update_of_ne wounded] at leftFound
            exact ⟨consistent.staged other left leftFound, Or.inl ⟨left, leftFound, rfl⟩⟩

theorem handleRelease_isolates {datumId : DatumId}
    (consistent : Worker.Consistent env plain thread (.release datumId) worker store) :
    Turn.Isolates env plain thread (.release datumId) worker store
      (handleRelease datumId worker store) := by
  have copies : ∀ id, plain id → worker.cache.invalidate datumId id = worker.cache id ∨
      worker.cache.invalidate datumId id = none := by
    intro id _
    by_cases same : id = datumId
    · exact Or.inr (by simp [Cache.invalidate, same])
    · exact Or.inl (by simp [Cache.invalidate, same])
  have freed : ∀ id, WorkerMessage.release datumId = .release id →
      worker.cache.invalidate datumId id = none := by
    rintro id same
    cases same
    simp [Cache.invalidate]
  unfold handleRelease
  split
  · exact Turn.isolates_quiet consistent (fun id isPlain => .kept rfl (copies id isPlain))
      (fun _ _ => rfl) rfl freed rfl (by simp)
  · have fired := Grant.fired_admissible env plain
    exact Turn.isolates_quiet consistent (fun id isPlain => .kept rfl (copies id isPlain))
      (fun _ _ => rfl) rfl freed (results_eq_nil (fired _))
      fun effect effectMem => (fired _ effect effectMem).1

theorem unanswered_isolates {message : WorkerMessage} {opId : DatumId}
    (consistent : Worker.Consistent env plain thread message worker store)
    (holds : ∀ id, message ≠ .release id)
    (gone : ∀ record, worker.record opId = some record → record.indexUpdateState = none) :
    Turn.Isolates env plain thread message worker store
      (env.finishOpIfSettled opId worker store) := by
  rw [finishOpIfSettled_absent store gone]
  exact Turn.isolates_quiet consistent (fun id _ => .kept rfl (Or.inl rfl)) (fun _ _ => rfl) rfl
    (fun id isRelease => absurd isRelease (holds id)) rfl (by simp)

theorem handleIndexUpdateReplied_isolates (standalone : env.Standalone)
    (confined : env.ops.Confined plain) {opId target : DatumId} {violation : Option String}
    (consistent : Worker.Consistent env plain thread (.indexUpdateReplied opId target violation)
      worker store) :
    Turn.Isolates env plain thread (.indexUpdateReplied opId target violation) worker store
      (env.handleIndexUpdateReplied opId violation worker store) := by
  unfold handleIndexUpdateReplied
  cases found : worker.record opId with
  | none =>
      have lookedUp : worker.opRecords.lookup opId = none := found
      rw [lookedUp]
      exact unanswered_isolates consistent (by simp) (by simp [found])
  | some record =>
      have lookedUp : worker.opRecords.lookup opId = some record := found
      rw [lookedUp]
      dsimp only
      have covered := consistent.covered opId record found
      have staged : OpRecord.Staged env.ops plain store
          { record with
            indexUpdateState := record.indexUpdateState.map
              (IndexUpdateState.onIndexUpdateReplied · violation) } := by
        intro state entered
        rcases Option.map_eq_some_iff.mp entered with ⟨before, wasEntered, rfl⟩
        exact consistent.staged opId record found before wasEntered
      have opTurn := finishOpIfSettled_opTurn standalone
        (Worker.record_opened_self worker opId
          { record with
            indexUpdateState := record.indexUpdateState.map
              (IndexUpdateState.onIndexUpdateReplied · violation) }) ?_ staged
      · refine opTurn.isolates confined consistent staged (Or.inl ⟨record, found, rfl⟩) ?_
          (by simp) [] (by simp) rfl
        intro before beforeFound id acquired
        rw [found, Option.some.injEq] at beforeFound
        subst beforeFound
        exact acquired
      · intro id wanted
        rcases covered id wanted with acquired | ⟨needed, fresh⟩
        · exact Or.inl acquired
        · exact Or.inr ⟨needed, by simp [fresh]⟩

theorem onExistsCheckReplied_staged (state : IndexUpdateState) (target : DatumId) (found : Bool) :
    (state.onExistsCheckReplied target found).1.stagedWrites = state.stagedWrites ∧
      (state.onExistsCheckReplied target found).1.opResult = state.opResult ∧
        (state.onExistsCheckReplied target found).1.existsExpectations =
          state.existsExpectations.erase target := by
  unfold IndexUpdateState.onExistsCheckReplied
  dsimp only
  split <;> exact ⟨rfl, rfl, rfl⟩

/-- What an answered check still has to track was expected of its target. -/
theorem onExistsCheckReplied_tracked {state : IndexUpdateState} {updated : DatumId → Prop}
    (tracks : state.TracksIn updated) (target : DatumId) (found : Bool) :
    ∀ update ∈ (state.onExistsCheckReplied target found).2.toList, updated update.target := by
  intro update tracked
  unfold IndexUpdateState.onExistsCheckReplied at tracked
  dsimp only at tracked
  split at tracked
  all_goals try cases tracked
  · rename_i expected
    exact tracks target _ expected
  · rename_i impossible
    cases impossible

theorem handleExistsCheckReplied_isolates (standalone : env.Standalone)
    (confined : env.ops.Confined plain) {opId target : DatumId} {answer : Bool}
    (consistent : Worker.Consistent env plain thread (.existsCheckReplied opId target answer)
      worker store) :
    Turn.Isolates env plain thread (.existsCheckReplied opId target answer) worker store
      (env.handleExistsCheckReplied thread opId target answer worker store) := by
  unfold handleExistsCheckReplied
  cases found : worker.record opId with
  | none =>
      have lookedUp : worker.opRecords.lookup opId = none := found
      rw [lookedUp]
      exact unanswered_isolates consistent (by simp) (by simp [found])
  | some record =>
      have lookedUp : worker.opRecords.lookup opId = some record := found
      rw [lookedUp]
      dsimp only
      cases entered : record.indexUpdateState with
      | none => exact unanswered_isolates consistent (by simp) (by simp [found, entered])
      | some state =>
          dsimp only
          have covered := consistent.covered opId record found
          rcases consistent.staged opId record found state entered with ⟨executes, tracks⟩
          rcases onExistsCheckReplied_staged state target answer with
            ⟨sameWrites, sameResult, erased⟩
          have updated := onExistsCheckReplied_tracked tracks target answer
          have staged : OpRecord.Staged env.ops plain store
              { record with
                indexUpdateState := some (state.onExistsCheckReplied target answer).1 } := by
            intro replied isReplied
            cases isReplied
            rw [sameWrites, sameResult]
            refine ⟨executes, ?_⟩
            intro other expect expected
            rw [erased] at expected
            by_cases same : other = target
            · subst same
              rw [AList.lookup_erase] at expected
              cases expected
            · rw [AList.lookup_erase_ne same] at expected
              exact tracks other expect expected
          have opTurn := finishOpIfSettled_opTurn standalone
            (Worker.record_opened_self worker opId
              { record with
                indexUpdateState := some (state.onExistsCheckReplied target answer).1 }) ?_ staged
          · have dispatched : ∀ effect ∈ (state.onExistsCheckReplied target answer).2.toList.map
                (env.dispatchIndexUpdate thread opId),
                effect.Admissible env plain ∧ effect.toResult = none := by
              have sent := dispatch_admissible standalone thread opId updated []
              simpa only [List.map_nil, List.append_nil] using sent
            refine opTurn.isolates confined consistent staged (Or.inl ⟨record, found, rfl⟩) ?_
              (by simp) _ (fun effect effectMem => (dispatched effect effectMem).1)
              (results_eq_nil dispatched)
            intro before beforeFound id acquired
            rw [found, Option.some.injEq] at beforeFound
            subst beforeFound
            exact acquired
          · intro id wanted
            rcases covered id wanted with acquired | ⟨needed, fresh⟩
            · exact Or.inl acquired
            · rw [entered] at fresh
              cases fresh

/-- A turn that serves its home's datum may load a copy of it. -/
theorem served_isolates {message : WorkerMessage}
    (consistent : Worker.Consistent env plain thread message worker store)
    (holds : ∀ id, message ≠ .release id) {served : Worker Resident} {effects : List Effect}
    {target : DatumId} (atHome : thread = env.home target)
    (copies : ∀ id, served.cache id = worker.cache id ∨ id = target ∧ served.cache id = store id)
    (records : served.record = worker.record)
    (quiet : ∀ effect ∈ effects, effect.Admissible env plain ∧ effect.toResult = none) :
    Turn.Isolates env plain thread message worker store ⟨served, store, effects⟩ := by
  refine Turn.isolates_quiet consistent ?_ (fun _ _ => rfl) records
    (fun id isRelease => absurd isRelease (holds id)) (results_eq_nil quiet)
    fun effect effectMem => (quiet effect effectMem).1
  intro id _
  rcases copies id with same | ⟨rfl, isStored⟩
  · exact .kept rfl (Or.inl same)
  · exact .loaded rfl isStored (Or.inl atHome.symm)

theorem serveIndexUpdate_isolates {target opId : DatumId} {indexKind : String} {payload : Bytes}
    {reply : IndexUpdateReply}
    (consistent : Worker.Consistent env plain thread
      (.indexUpdate target opId indexKind payload reply) worker store) :
    Turn.Isolates env plain thread (.indexUpdate target opId indexKind payload reply) worker store
      (env.serveIndexUpdate worker store target opId indexKind payload reply) := by
  have apart : ∀ id, plain id → id ≠ target := by
    rintro id isPlain rfl
    exact consistent.admissible isPlain
  have quiet : ∀ violation, (reply.respond opId target violation).Admissible env plain ∧
      (reply.respond opId target violation).toResult = none := by
    intro violation
    cases reply with
    | «local» inbox => exact ⟨trivial, rfl⟩
    | remote link correlationId => exact ⟨trivial, rfl⟩
  have responds : ∃ violation, (env.serveIndexUpdate worker store target opId indexKind payload
      reply).effects = [reply.respond opId target violation] := by
    unfold serveIndexUpdate
    split
    · exact ⟨_, rfl⟩
    · exact ⟨_, rfl⟩
  have records : (env.serveIndexUpdate worker store target opId indexKind payload
      reply).worker.record = worker.record := by
    have frame := (residentFor_frame env worker store target indexKind).2
    unfold serveIndexUpdate
    split
    · rename_i accessed
      rw [accessed] at frame
      exact frame
    · rename_i accessed
      rw [accessed] at frame
      exact frame
  rcases responds with ⟨violation, responded⟩
  have stored := fun id (isPlain : plain id) =>
    env.serveIndexUpdate_other worker store (apart id isPlain) opId indexKind payload reply
  refine Turn.isolates_quiet consistent ?_ stored records (by simp) ?_ ?_
  · intro id isPlain
    exact .kept (stored id isPlain) (Or.inl (serveIndexUpdate_cache_other worker store
      (apart id isPlain) opId indexKind payload reply))
  · rw [responded]
    simp [(quiet violation).2]
  · rw [responded]
    simpa using (quiet violation).1

theorem serveIndexQuery_isolates {target : DatumId} {indexKind : String} {query : Bytes}
    (consistent : Worker.Consistent env plain thread (.indexQuery target indexKind query) worker
      store) :
    Turn.Isolates env plain thread (.indexQuery target indexKind query) worker store
      (env.serveIndexQuery worker store target indexKind query) := by
  have copies := env.residentFor_copies worker store target indexKind
  have frame := (residentFor_frame env worker store target indexKind).2
  unfold serveIndexQuery
  split
  · rename_i accessed
    rw [accessed] at copies frame
    exact served_isolates consistent (by simp) consistent.admissible copies frame
      (by simp [Effect.Admissible, Effect.toResult])
  · rename_i accessed
    rw [accessed] at copies frame
    exact served_isolates consistent (by simp) consistent.admissible copies frame
      (by simp [Effect.Admissible, Effect.toResult])

theorem serveIndexExecute_isolates {target : DatumId} {indexKind : String} {payload : Bytes}
    (consistent : Worker.Consistent env plain thread (.indexExecute target indexKind payload) worker
      store) :
    Turn.Isolates env plain thread (.indexExecute target indexKind payload) worker store
      (env.serveIndexExecute worker store target indexKind payload) := by
  have copies := env.residentFor_copies worker store target indexKind
  have frame := (residentFor_frame env worker store target indexKind).2
  unfold serveIndexExecute
  split
  · rename_i accessed
    rw [accessed] at copies frame
    exact served_isolates consistent (by simp) consistent.admissible copies frame
      (by simp [Effect.Admissible, Effect.toResult])
  · rename_i accessed
    rw [accessed] at copies frame
    exact served_isolates consistent (by simp) consistent.admissible copies frame
      (by simp [Effect.Admissible, Effect.toResult])

/-- Every turn, as far as plain datums go. -/
theorem handle_isolates (standalone : env.Standalone) (confined : env.ops.Confined plain)
    (hint : DatumId) {message : WorkerMessage}
    (consistent : Worker.Consistent env plain thread message worker store) :
    Turn.Isolates env plain thread message worker store
      (env.handle thread hint message worker store) := by
  cases message with
  | runOp opId opName datumIds payload =>
      exact handleRunOp_isolates standalone confined consistent
  | acquire opId datumId requesterNode requesterThread reply =>
      exact handleAcquire_isolates consistent
  | acquireGranted opId datumId =>
      exact handleAcquireGranted_isolates standalone confined consistent
  | acquireFailed opId failed retriesLeft => exact absurd trivial consistent.local_
  | «recall» recalled reply => exact handleRecall_isolates standalone hint consistent
  | release released => exact handleRelease_isolates consistent
  | evictNonNative isNative =>
      refine Turn.isolates_quiet consistent ?_ (fun _ _ => rfl) rfl (by simp) rfl
        (by simp [handle])
      intro id _
      refine .kept rfl ?_
      simp only [handle, Cache.evictNonNative]
      split
      · exact Or.inl rfl
      · exact Or.inr rfl
  | releaseLocksHeldBy nodeId => exact absurd trivial consistent.local_
  | indexUpdate target opId indexKind payload reply => exact serveIndexUpdate_isolates consistent
  | indexUpdateReplied opId target violation =>
      exact handleIndexUpdateReplied_isolates standalone confined consistent
  | indexQuery target indexKind query => exact serveIndexQuery_isolates consistent
  | indexExecute target indexKind payload => exact serveIndexExecute_isolates consistent
  | existsCheck checked opId reply =>
      have copies := worker.cache.getReplicated_copies store checked 1
      refine served_isolates consistent (by simp) consistent.admissible copies rfl ?_
      intro effect effectMem
      rw [List.mem_singleton.mp effectMem]
      cases reply with
      | «local» inbox => exact ⟨trivial, rfl⟩
      | remote link correlationId => exact ⟨trivial, rfl⟩
      | sync => exact ⟨trivial, rfl⟩
  | existsCheckReplied opId target found =>
      exact handleExistsCheckReplied_isolates standalone confined consistent

end Env

end Seisin
