import Seisin.Worker

/-!
# What a turn does to locks and op records

For a node that owns every slot of its compute ring, `Move` lists once what a turn of the worker
loop can do to the thread's locks and op records and which effects it has.  Everything proved about
collation is proved from this list; cached content, the store and resident indexes play no part
in it.  `handle_move` states that the message loop does nothing else.
-/

namespace Seisin

variable {Resident : Type}

namespace Worker

def record (worker : Worker Resident) (opId : DatumId) : Option OpRecord :=
  worker.opRecords.lookup opId

theorem mem_woundable {worker : Worker Resident} {datumId opId : DatumId} :
    opId ∈ worker.woundable datumId ↔
      ∃ record, worker.record opId = some record ∧ datumId ∈ record.acquired := by
  simp only [woundable, List.mem_map, List.mem_filter, decide_eq_true_eq, record]
  constructor
  · rintro ⟨entry, ⟨entryMem, holds⟩, rfl⟩
    exact ⟨entry.2, AList.mem_lookup_iff.mpr entryMem, holds⟩
  · rintro ⟨found, lookedUp, holds⟩
    exact ⟨⟨opId, found⟩, ⟨AList.mem_lookup_iff.mp lookedUp, holds⟩, rfl⟩

theorem wounded_mem {worker : Worker Resident} {datumId hint opId : DatumId}
    (wounded : worker.wounded datumId hint = some opId) : opId ∈ worker.woundable datumId := by
  unfold Worker.wounded at wounded
  split at wounded
  · rename_i hintMem
    cases wounded
    exact hintMem
  · exact List.mem_of_mem_head? wounded

theorem wounded_eq_none {worker : Worker Resident} {datumId hint : DatumId} :
    worker.wounded datumId hint = none ↔ worker.woundable datumId = [] := by
  unfold Worker.wounded
  split
  · rename_i hintMem
    simp only [reduceCtorEq, false_iff]
    exact List.ne_nil_of_mem hintMem
  · exact List.head?_eq_none_iff

theorem lock_setLock (worker : Worker Resident) (datumId : DatumId) (lock : NativeLock Grant) :
    (worker.setLock datumId lock).lock = Function.update worker.lock datumId lock := by
  funext other
  by_cases same : other = datumId
  · subst same
    simp [Worker.lock, setLock]
  · simp [Worker.lock, setLock, same]

theorem record_insert (records : AList (fun _ : DatumId => OpRecord)) (opId : DatumId)
    (record : OpRecord) :
    (fun other => (records.insert opId record).lookup other) =
      Function.update (fun other => records.lookup other) opId (some record) := by
  funext other
  by_cases same : other = opId
  · subst same
    simp
  · simp [same]

theorem record_erase (records : AList (fun _ : DatumId => OpRecord)) (opId : DatumId) :
    (fun other => (records.erase opId).lookup other) =
      Function.update (fun other => records.lookup other) opId none := by
  funext other
  by_cases same : other = opId
  · subst same
    simp
  · simp [same]

end Worker

namespace Env

variable (env : Env Resident)

/-- Every slot of the compute ring belongs to this node. -/
def Standalone : Prop := ∀ datumId, (env.native datumId).1 = env.selfNodeId

/-- The thread that is native home of a datum. -/
def home (datumId : DatumId) : ThreadId := (env.native datumId).2

variable {env}

theorem sendAcquire_standalone (standalone : env.Standalone) (thread : ThreadId)
    (opId datumId : DatumId) (retriesLeft : ℕ) :
    env.sendAcquire thread opId datumId retriesLeft =
      .send (env.home datumId) (.acquire opId datumId env.selfNodeId thread (.local thread)) := by
  simp [sendAcquire, standalone datumId, home]

theorem dispatchIndexUpdate_standalone (standalone : env.Standalone) (thread : ThreadId)
    (opId : DatumId) (update : PendingIndexUpdate) :
    env.dispatchIndexUpdate thread opId update =
      .send (env.home update.target)
        (.indexUpdate update.target opId update.indexKind update.payload (.local thread)) := by
  simp [dispatchIndexUpdate, standalone update.target, home]

theorem dispatchExistsCheck_standalone (standalone : env.Standalone) (thread : ThreadId)
    (opId target : DatumId) :
    env.dispatchExistsCheck thread opId target =
      .send (env.home target) (.existsCheck target opId (.local thread)) := by
  simp [dispatchExistsCheck, standalone target, home]

theorem releaseDatums_standalone (standalone : env.Standalone) (datumIds : List DatumId)
    (cache : Cache) :
    (env.releaseDatums datumIds cache).2 =
      datumIds.map fun datumId => .send (env.home datumId) (.release datumId) := by
  simp only [releaseDatums]
  induction datumIds with
  | nil => rfl
  | cons datumId rest ih =>
      simp [releaseDatum, standalone datumId, home, ih]

end Env

/-- The effects that dispatch the index updates and existence checks of an op run by `thread`. -/
inductive Dispatch (thread : ThreadId) (opId : DatumId) : Effect → Prop where
  | indexUpdate (receiver : ThreadId) (target : DatumId) (indexKind : String) (payload : Bytes) :
      Dispatch thread opId
        (.send receiver (.indexUpdate target opId indexKind payload (.local thread)))
  | existsCheck (receiver : ThreadId) (target : DatumId) :
      Dispatch thread opId (.send receiver (.existsCheck target opId (.local thread)))

/-- The releases an op ends with. -/
def Env.releases (env : Env Resident) (record : OpRecord) : List Effect :=
  record.acquired.map fun datumId => .send (env.home datumId) (.release datumId)

/-- What `try_run_if_ready` makes of a record. -/
inductive Ran (env : Env Resident) (thread : ThreadId) (opId : DatumId) (record : OpRecord) :
    Option OpRecord → List Effect → Prop where
  | waiting (unready : record.stillNeeded ≠ [] ∨ record.indexUpdateState ≠ none) :
      Ran env thread opId record (some record) []
  | failed (collated : record.stillNeeded = []) (fresh : record.indexUpdateState = none)
      (message : String) :
      Ran env thread opId record none
        (.invoked opId :: .reply opId (.error message) :: env.releases record)
  | committed (collated : record.stillNeeded = []) (fresh : record.indexUpdateState = none)
      (writes : List StagedWrite) (result : Bytes) :
      Ran env thread opId record none
        (.invoked opId :: .committed opId record.datumIds writes :: .reply opId (.ok result) ::
          env.releases record)
  | settling (collated : record.stillNeeded = []) (fresh : record.indexUpdateState = none)
      (state : IndexUpdateState) (dispatches : List Effect)
      (counted : state.pending = dispatches.length) (some_ : dispatches ≠ [])
      (dispatched : ∀ effect ∈ dispatches, Dispatch thread opId effect) :
      Ran env thread opId record (some { record with indexUpdateState := some state })
        (.invoked opId :: dispatches)

/-- What `finish_op_if_settled` makes of a record. -/
inductive Finished (env : Env Resident) (opId : DatumId) (record : OpRecord) :
    Option OpRecord → List Effect → Prop where
  | waiting (state : IndexUpdateState) (entered : record.indexUpdateState = some state)
      (outstanding : state.pending ≠ 0) : Finished env opId record (some record) []
  | failed (state : IndexUpdateState) (entered : record.indexUpdateState = some state)
      (settled : state.pending = 0) (message : String) :
      Finished env opId record none (.reply opId (.error message) :: env.releases record)
  | committed (state : IndexUpdateState) (entered : record.indexUpdateState = some state)
      (settled : state.pending = 0) (result : Bytes) :
      Finished env opId record none
        (.committed opId record.datumIds state.stagedWrites :: .reply opId (.ok result) ::
          env.releases record)

/-- One turn of a thread: the message it takes, its locks and records before and after, and the
turn's effects. -/
inductive Move (env : Env Resident) (thread : ThreadId)
    (locks : DatumId → NativeLock Grant) (records : DatumId → Option OpRecord) :
    WorkerMessage → (DatumId → NativeLock Grant) → (DatumId → Option OpRecord) →
      List Effect → Prop where
  | runOp (opId : DatumId) (opName : String) (datumIds : List DatumId) (payload : Bytes)
      (after : Option OpRecord) (rest : List Effect)
      (ran : Ran env thread opId ⟨opName, payload, datumIds, datumIds, [], none⟩ after rest) :
      Move env thread locks records (.runOp opId opName datumIds payload) locks
        (Function.update records opId after)
        (datumIds.map (fun datumId => .send (env.home datumId)
          (.acquire opId datumId env.selfNodeId thread (.local thread))) ++ rest)
  | acquire (opId datumId : DatumId) (requesterNode : NodeId) (requesterThread : ThreadId)
      (reply : AcquireReply) :
      Move env thread locks records
        (.acquire opId datumId requesterNode requesterThread reply)
        (Function.update locks datumId
          ((locks datumId).request opId requesterNode requesterThread
            ⟨reply, opId, datumId⟩).1) records
        (((locks datumId).request opId requesterNode requesterThread
            ⟨reply, opId, datumId⟩).2.1.toList.map Grant.fire ++
          match ((locks datumId).request opId requesterNode requesterThread
            ⟨reply, opId, datumId⟩).2.2 with
          | .recallNeeded holder => [env.sendRecall thread datumId holder]
          | _ => [])
  | grantLost (opId datumId : DatumId) (gone : records opId = none) :
      Move env thread locks records (.acquireGranted opId datumId) locks records
        [.send (env.home datumId) (.release datumId)]
  | granted (opId datumId : DatumId) (record : OpRecord) (found : records opId = some record)
      (after : Option OpRecord) (effects : List Effect)
      (ran : Ran env thread opId
        { record with
          stillNeeded := record.stillNeeded.filter fun id => id ≠ datumId
          acquired := record.acquired ++ [datumId] } after effects) :
      Move env thread locks records (.acquireGranted opId datumId) locks
        (Function.update records opId after) effects
  | recallMissed (datumId : DatumId) (reply : RecallReply)
      (missed : ∀ opId record, records opId = some record → datumId ∉ record.acquired) :
      Move env thread locks records (.recall datumId reply) locks records
        [reply.ack datumId]
  | recalled (datumId : DatumId) (reply : RecallReply) (opId : DatumId) (record : OpRecord)
      (found : records opId = some record) (holds : datumId ∈ record.acquired) :
      Move env thread locks records (.recall datumId reply) locks
        (Function.update records opId (some
          { record with
            acquired := record.acquired.erase datumId
            stillNeeded := record.stillNeeded ++ [datumId] }))
        [reply.ack datumId, .send (env.home datumId)
          (.acquire opId datumId env.selfNodeId thread (.local thread))]
  | release (datumId : DatumId) :
      Move env thread locks records (.release datumId)
        (Function.update locks datumId (locks datumId).release.1) records
        ((locks datumId).release.2.toList.map Grant.fire)
  | indexUpdateLost (opId target : DatumId) (violation : Option String)
      (gone : ∀ record, records opId = some record → record.indexUpdateState = none) :
      Move env thread locks records (.indexUpdateReplied opId target violation) locks
        records []
  | indexUpdateReplied (opId target : DatumId) (violation : Option String) (record : OpRecord)
      (state : IndexUpdateState) (found : records opId = some record)
      (entered : record.indexUpdateState = some state) (after : Option OpRecord)
      (effects : List Effect)
      (finished : Finished env opId
        { record with indexUpdateState := some (state.onIndexUpdateReplied violation) } after
        effects) :
      Move env thread locks records (.indexUpdateReplied opId target violation) locks
        (Function.update records opId after) effects
  | existsCheckLost (opId target : DatumId) (answer : Bool)
      (gone : ∀ record, records opId = some record → record.indexUpdateState = none) :
      Move env thread locks records (.existsCheckReplied opId target answer) locks
        records []
  | existsCheckReplied (opId target : DatumId) (answer : Bool) (record : OpRecord)
      (state : IndexUpdateState) (found : records opId = some record)
      (entered : record.indexUpdateState = some state) (after : Option OpRecord)
      (effects : List Effect)
      (finished : Finished env opId
        { record with indexUpdateState := some (state.onExistsCheckReplied target answer).1 }
        after effects) :
      Move env thread locks records (.existsCheckReplied opId target answer) locks
        (Function.update records opId after)
        ((state.onExistsCheckReplied target answer).2.toList.map
          (fun update => .send (env.home update.target)
            (.indexUpdate update.target opId update.indexKind update.payload (.local thread))) ++
          effects)
  | indexUpdate (target opId : DatumId) (indexKind : String) (payload : Bytes)
      (reply : IndexUpdateReply) (violation : Option String) :
      Move env thread locks records (.indexUpdate target opId indexKind payload reply) locks
        records [reply.respond opId target violation]
  | existsCheck (datumId opId : DatumId) (reply : ExistsReply) (answer : Bool) :
      Move env thread locks records (.existsCheck datumId opId reply) locks records
        [reply.respond opId datumId answer]
  | evictNonNative (isNative : DatumId → Bool) :
      Move env thread locks records (.evictNonNative isNative) locks records []
  | indexQuery (target : DatumId) (indexKind : String) (query : Bytes)
      (result : Except String Bytes) :
      Move env thread locks records (.indexQuery target indexKind query) locks records
        [.answer result]
  | indexExecute (target : DatumId) (indexKind : String) (payload : Bytes)
      (result : Except String Bytes) :
      Move env thread locks records (.indexExecute target indexKind payload) locks records
        [.answer result]

/-- The messages only ring changes and other nodes give rise to. -/
def WorkerMessage.Remote : WorkerMessage → Prop
  | .acquireFailed _ _ _ | .releaseLocksHeldBy _ => True
  | _ => False

namespace Env

variable {env : Env Resident}

theorem tryRunIfReady_spec (standalone : env.Standalone) (thread : ThreadId) {opId : DatumId}
    {worker : Worker Resident} {record : OpRecord} (store : Store)
    (found : worker.record opId = some record) :
    ∃ after effects, Ran env thread opId record after effects ∧
      (env.tryRunIfReady thread opId worker store).effects = effects ∧
      (env.tryRunIfReady thread opId worker store).worker.lock = worker.lock ∧
      (env.tryRunIfReady thread opId worker store).worker.record =
        Function.update worker.record opId after := by
  have lookedUp : worker.opRecords.lookup opId = some record := found
  unfold tryRunIfReady
  rw [lookedUp]
  dsimp only
  by_cases ready : record.stillNeeded = [] ∧ record.indexUpdateState.isNone
  · rw [if_pos ready]
    rcases ready with ⟨collated, fresh⟩
    have fresh : record.indexUpdateState = none := by simpa using fresh
    generalize env.ops.invoke store record.opName (OpContext.new worker.cache)
      record.datumIds record.payload = invoked
    rcases invoked with ⟨ctx, message | result⟩
    · refine ⟨none, _, .failed collated fresh message, ?_, rfl, ?_⟩
      · simp [releaseDatums_standalone standalone, Env.releases]
      · exact Worker.record_erase worker.opRecords opId
    · by_cases quiet : ctx.pendingIndexUpdates = [] ∧ ctx.pendingExistsChecks = []
      · simp only [quiet, and_self, if_true]
        refine ⟨none, _, .committed collated fresh ctx.takeStagedWrites result, ?_, rfl, ?_⟩
        · simp [releaseDatums_standalone standalone, Env.releases]
        · exact Worker.record_erase worker.opRecords opId
      · simp only [quiet, if_false]
        refine ⟨_, _, .settling collated fresh
          { stagedWrites := ctx.takeStagedWrites
            opResult := result
            pending := ctx.pendingIndexUpdates.length + ctx.pendingExistsChecks.length
            violation := none
            existsExpectations := ctx.pendingExistsChecks.foldl
              (fun expectations check => expectations.insert check.target check.expect) ∅ }
          (ctx.pendingIndexUpdates.map (env.dispatchIndexUpdate thread opId) ++
            ctx.pendingExistsChecks.map fun check =>
              env.dispatchExistsCheck thread opId check.target) ?_ ?_ ?_, rfl, rfl, ?_⟩
        · simp
        · simpa using quiet
        · intro effect effectMem
          simp only [List.mem_append, List.mem_map] at effectMem
          rcases effectMem with ⟨update, _, rfl⟩ | ⟨check, _, rfl⟩
          · rw [dispatchIndexUpdate_standalone standalone]
            exact .indexUpdate _ _ _ _
          · rw [dispatchExistsCheck_standalone standalone]
            exact .existsCheck _ _
        · exact Worker.record_insert worker.opRecords opId _
  · rw [if_neg ready]
    refine ⟨some record, [], .waiting ?_, rfl, rfl, ?_⟩
    · by_contra unready
      push Not at unready
      exact ready ⟨unready.1, by simp [unready.2]⟩
    · rw [← found, Function.update_eq_self]

theorem finishOpIfSettled_spec (standalone : env.Standalone) {opId : DatumId}
    {worker : Worker Resident} {record : OpRecord} {state : IndexUpdateState} (store : Store)
    (found : worker.record opId = some record)
    (entered : record.indexUpdateState = some state) :
    ∃ after effects, Finished env opId record after effects ∧
      (env.finishOpIfSettled opId worker store).effects = effects ∧
      (env.finishOpIfSettled opId worker store).worker.lock = worker.lock ∧
      (env.finishOpIfSettled opId worker store).worker.record =
        Function.update worker.record opId after := by
  have lookedUp : worker.opRecords.lookup opId = some record := found
  unfold finishOpIfSettled
  simp only [lookedUp, entered]
  by_cases settled : state.pending = 0
  · rw [if_pos settled]
    cases violated : state.violation with
    | some message =>
        refine ⟨none, _, .failed state entered settled message, ?_, rfl, ?_⟩
        · simp [releaseDatums_standalone standalone, Env.releases]
        · exact Worker.record_erase worker.opRecords opId
    | none =>
        refine ⟨none, _, .committed state entered settled state.opResult, ?_, rfl, ?_⟩
        · simp [releaseDatums_standalone standalone, Env.releases]
        · exact Worker.record_erase worker.opRecords opId
  · rw [if_neg settled]
    refine ⟨some record, [], .waiting state entered settled, rfl, rfl, ?_⟩
    rw [← found, Function.update_eq_self]

/-- Settling a record whose index-update state has just been replaced. -/
theorem finishOpIfSettled_update (standalone : env.Standalone) (worker : Worker Resident)
    (store : Store) (opId : DatumId) (record : OpRecord) (state : IndexUpdateState) :
    ∃ after effects,
      Finished env opId { record with indexUpdateState := some state } after effects ∧
      (env.finishOpIfSettled opId
        { worker with
          opRecords := worker.opRecords.insert opId
            { record with indexUpdateState := some state } } store).effects = effects ∧
      (env.finishOpIfSettled opId
        { worker with
          opRecords := worker.opRecords.insert opId
            { record with indexUpdateState := some state } } store).worker.lock = worker.lock ∧
      (env.finishOpIfSettled opId
        { worker with
          opRecords := worker.opRecords.insert opId
            { record with indexUpdateState := some state } } store).worker.record =
        Function.update worker.record opId after := by
  let updated : Worker Resident :=
    { worker with
      opRecords := worker.opRecords.insert opId { record with indexUpdateState := some state } }
  have updatedRecord : updated.record = Function.update worker.record opId
      (some { record with indexUpdateState := some state }) :=
    Worker.record_insert worker.opRecords opId _
  have found : updated.record opId = some { record with indexUpdateState := some state } :=
    AList.lookup_insert _
  rcases finishOpIfSettled_spec standalone store found rfl with
    ⟨after, effects, finished, effectsEq, lockEq, afterEq⟩
  rw [updatedRecord, Function.update_idem] at afterEq
  exact ⟨after, effects, finished, effectsEq, lockEq, afterEq⟩

/-- An op without a record, or whose handler has not run, has nothing to settle. -/
theorem finishOpIfSettled_absent {opId : DatumId} {worker : Worker Resident} (store : Store)
    (gone : ∀ record, worker.record opId = some record → record.indexUpdateState = none) :
    env.finishOpIfSettled opId worker store = ⟨worker, store, []⟩ := by
  unfold finishOpIfSettled
  cases found : worker.opRecords.lookup opId with
  | none => rfl
  | some record =>
      have fresh := gone record found
      simp [fresh]

theorem residentFor_frame (env : Env Resident) (worker : Worker Resident) (store : Store)
    (target : DatumId)
    (indexKind : String) :
    (env.residentFor worker store target indexKind).2.lock = worker.lock ∧
      (env.residentFor worker store target indexKind).2.record = worker.record := by
  unfold residentFor
  cases worker.residentIndexes target with
  | some resident => exact ⟨rfl, rfl⟩
  | none =>
      rcases env.indexKinds.openResident worker.cache store target indexKind with
        ⟨message | resident, cache⟩
      · exact ⟨rfl, rfl⟩
      · exact ⟨rfl, rfl⟩

theorem handleRunOp_move (standalone : env.Standalone) (thread : ThreadId) (opId : DatumId)
    (opName : String) (datumIds : List DatumId) (payload : Bytes) (worker : Worker Resident)
    (store : Store) :
    Move env thread worker.lock worker.record (.runOp opId opName datumIds payload)
      (env.handleRunOp thread opId opName datumIds payload worker store).worker.lock
      (env.handleRunOp thread opId opName datumIds payload worker store).worker.record
      (env.handleRunOp thread opId opName datumIds payload worker store).effects := by
  let record : OpRecord := ⟨opName, payload, datumIds, datumIds, [], none⟩
  let started : Worker Resident :=
    { worker with opRecords := worker.opRecords.insert opId record }
  have found : started.record opId = some record := AList.lookup_insert _
  rcases tryRunIfReady_spec standalone thread store found with
    ⟨after, effects, ran, effectsEq, lockEq, recordEq⟩
  have move : Move env thread worker.lock worker.record _ _ _ _ :=
    .runOp opId opName datumIds payload after effects ran
  have startedRecord : started.record = Function.update worker.record opId (some record) :=
    Worker.record_insert worker.opRecords opId record
  rw [startedRecord, Function.update_idem] at recordEq
  have handled : env.handleRunOp thread opId opName datumIds payload worker store =
      Turn.andThen ⟨started, store, datumIds.map fun datumId =>
        env.sendAcquire thread opId datumId maxAcquireRetries⟩
        (env.tryRunIfReady thread opId) := rfl
  rw [handled]
  simp only [Turn.andThen, effectsEq, lockEq, recordEq, sendAcquire_standalone standalone]
  exact move

theorem handleAcquireGranted_move (standalone : env.Standalone) (thread : ThreadId)
    (opId datumId : DatumId) (worker : Worker Resident) (store : Store) :
    Move env thread worker.lock worker.record (.acquireGranted opId datumId)
      (env.handleAcquireGranted thread opId datumId worker store).worker.lock
      (env.handleAcquireGranted thread opId datumId worker store).worker.record
      (env.handleAcquireGranted thread opId datumId worker store).effects := by
  cases found : worker.record opId with
  | none =>
      have lookedUp : worker.opRecords.lookup opId = none := found
      have handled : (env.handleAcquireGranted thread opId datumId worker store).effects =
          [.send (env.home datumId) (.release datumId)] := by
        simp [handleAcquireGranted, lookedUp, releaseDatums_standalone standalone]
      have lockEq : (env.handleAcquireGranted thread opId datumId worker store).worker.lock =
          worker.lock := by
        simp only [handleAcquireGranted, lookedUp]
        rfl
      have recordEq : (env.handleAcquireGranted thread opId datumId worker store).worker.record =
          worker.record := by
        simp only [handleAcquireGranted, lookedUp]
        rfl
      rw [handled, lockEq, recordEq]
      exact .grantLost opId datumId found
  | some record =>
      let granted : OpRecord :=
        { record with
          stillNeeded := record.stillNeeded.filter fun id => id ≠ datumId
          acquired := record.acquired ++ [datumId] }
      let updated : Worker Resident :=
        { worker with opRecords := worker.opRecords.insert opId granted }
      have grantedFound : updated.record opId = some granted := AList.lookup_insert _
      rcases tryRunIfReady_spec standalone thread store grantedFound with
        ⟨after, effects, ran, effectsEq, lockEq, recordEq⟩
      have updatedRecord : updated.record = Function.update worker.record opId (some granted) :=
        Worker.record_insert worker.opRecords opId granted
      rw [updatedRecord, Function.update_idem] at recordEq
      have lookedUp : worker.opRecords.lookup opId = some record := found
      have handled : env.handleAcquireGranted thread opId datumId worker store =
          env.tryRunIfReady thread opId updated store := by
        simp only [handleAcquireGranted, lookedUp]
        rfl
      rw [handled, effectsEq, lockEq, recordEq]
      exact .granted opId datumId record found after effects ran

theorem handleRecall_move (standalone : env.Standalone) (thread : ThreadId)
    (hint datumId : DatumId) (reply : RecallReply) (worker : Worker Resident) (store : Store) :
    Move env thread worker.lock worker.record (.recall datumId reply)
      (env.handleRecall thread hint datumId reply worker store).worker.lock
      (env.handleRecall thread hint datumId reply worker store).worker.record
      (env.handleRecall thread hint datumId reply worker store).effects := by
  unfold handleRecall
  cases chosen : worker.wounded datumId hint with
  | none =>
      apply Move.recallMissed
      intro opId record found holds
      have unwounded := Worker.wounded_eq_none.mp chosen
      have opMem : opId ∈ worker.woundable datumId :=
        Worker.mem_woundable.mpr ⟨record, found, holds⟩
      rw [unwounded] at opMem
      cases opMem
  | some opId =>
      rcases Worker.mem_woundable.mp (Worker.wounded_mem chosen) with ⟨record, found, holds⟩
      have lookedUp : worker.opRecords.lookup opId = some record := found
      simp only [lookedUp, sendAcquire_standalone standalone]
      have recordEq := Worker.record_insert worker.opRecords opId
        { record with
          acquired := record.acquired.erase datumId
          stillNeeded := record.stillNeeded ++ [datumId] }
      have move : Move env thread worker.lock worker.record _ _ _ _ :=
        .recalled datumId reply opId record found holds
      unfold Worker.record at move ⊢
      rw [← recordEq] at move
      exact move

theorem handleRelease_move (thread : ThreadId) (datumId : DatumId) (worker : Worker Resident)
    (store : Store) :
    Move env thread worker.lock worker.record (.release datumId)
      (handleRelease datumId worker store).worker.lock
      (handleRelease datumId worker store).worker.record
      (handleRelease datumId worker store).effects := by
  have move : Move env thread worker.lock worker.record _ _ _ _ := .release datumId
  unfold handleRelease
  cases found : worker.nativeLocks.lookup datumId with
  | none =>
      have fresh : worker.lock datumId = NativeLock.new := by simp [Worker.lock, found]
      have unchanged : Function.update worker.lock datumId NativeLock.new = worker.lock := by
        rw [← fresh, Function.update_eq_self]
      rw [fresh, NativeLock.release_empty rfl] at move
      have moved : Move env thread worker.lock worker.record (.release datumId)
          (Function.update worker.lock datumId NativeLock.new) worker.record [] := move
      rw [unchanged] at moved
      exact moved
  | some lock =>
      have held : worker.lock datumId = lock := by simp [Worker.lock, found]
      rw [held] at move
      have lockEq := Worker.lock_setLock
        { worker with cache := worker.cache.invalidate datumId } datumId lock.release.1
      dsimp only
      rw [lockEq]
      exact move

theorem handleIndexUpdateReplied_move (standalone : env.Standalone) (thread : ThreadId)
    (opId target : DatumId) (violation : Option String) (worker : Worker Resident)
    (store : Store) :
    Move env thread worker.lock worker.record (.indexUpdateReplied opId target violation)
      (env.handleIndexUpdateReplied opId violation worker store).worker.lock
      (env.handleIndexUpdateReplied opId violation worker store).worker.record
      (env.handleIndexUpdateReplied opId violation worker store).effects := by
  unfold handleIndexUpdateReplied
  cases found : worker.record opId with
  | none =>
      have lookedUp : worker.opRecords.lookup opId = none := found
      simp only [lookedUp]
      rw [finishOpIfSettled_absent store (by simp [found])]
      exact .indexUpdateLost opId target violation (by simp [found])
  | some record =>
      have lookedUp : worker.opRecords.lookup opId = some record := found
      simp only [lookedUp]
      have recordEq := Worker.record_insert worker.opRecords opId
        { record with
          indexUpdateState := record.indexUpdateState.map
            (IndexUpdateState.onIndexUpdateReplied · violation) }
      cases entered : record.indexUpdateState with
      | none =>
          have same : { record with indexUpdateState := none } = record := by
            rw [← entered]
          rw [entered, Option.map_none, same] at recordEq
          have unchanged : (fun other => (worker.opRecords.insert opId record).lookup other) =
              worker.record := by
            rw [recordEq]
            exact (congrArg _ found.symm).trans (Function.update_eq_self opId worker.record)
          simp only [Option.map_none, same]
          rw [finishOpIfSettled_absent store]
          · have moved : Move env thread worker.lock worker.record
                (.indexUpdateReplied opId target violation) worker.lock worker.record [] :=
              .indexUpdateLost opId target violation (by simp [found, entered])
            change Move env thread worker.lock worker.record _ worker.lock
              (fun other => (worker.opRecords.insert opId record).lookup other) []
            rw [unchanged]
            exact moved
          · intro other otherFound
            have atOp := congrFun unchanged opId
            rw [found] at atOp
            have eq : some other = some record := otherFound.symm.trans atOp
            cases eq
            exact entered
      | some state =>
          simp only [Option.map_some]
          rcases finishOpIfSettled_update standalone worker store opId record
              (state.onIndexUpdateReplied violation) with
            ⟨after, effects, finished, effectsEq, lockEq, afterEq⟩
          rw [effectsEq, lockEq, afterEq]
          exact .indexUpdateReplied opId target violation record state found entered after
            effects finished

theorem handleExistsCheckReplied_move (standalone : env.Standalone) (thread : ThreadId)
    (opId target : DatumId) (answer : Bool) (worker : Worker Resident) (store : Store) :
    Move env thread worker.lock worker.record (.existsCheckReplied opId target answer)
      (env.handleExistsCheckReplied thread opId target answer worker store).worker.lock
      (env.handleExistsCheckReplied thread opId target answer worker store).worker.record
      (env.handleExistsCheckReplied thread opId target answer worker store).effects := by
  unfold handleExistsCheckReplied
  cases found : worker.record opId with
  | none =>
      have lookedUp : worker.opRecords.lookup opId = none := found
      simp only [lookedUp]
      rw [finishOpIfSettled_absent store (by simp [found])]
      exact .existsCheckLost opId target answer (by simp [found])
  | some record =>
      have lookedUp : worker.opRecords.lookup opId = some record := found
      simp only [lookedUp]
      cases entered : record.indexUpdateState with
      | none =>
          dsimp only
          rw [finishOpIfSettled_absent store (by simp [found, entered])]
          exact .existsCheckLost opId target answer (by simp [found, entered])
      | some state =>
          rcases finishOpIfSettled_update standalone worker store opId record
              (state.onExistsCheckReplied target answer).1 with
            ⟨after, effects, finished, effectsEq, lockEq, afterEq⟩
          have dispatched : env.dispatchIndexUpdate thread opId = fun update =>
              .send (env.home update.target) (.indexUpdate update.target opId update.indexKind
                update.payload (.local thread)) :=
            funext (dispatchIndexUpdate_standalone standalone thread opId)
          simp only [Turn.andThen, effectsEq, lockEq, afterEq, dispatched]
          exact .existsCheckReplied opId target answer record state found entered after effects
            finished

/-- The message loop does what `Move` lists and nothing else. -/
theorem handle_move (standalone : env.Standalone) (thread : ThreadId) (hint : DatumId)
    {message : WorkerMessage} (local_ : ¬message.Remote) (worker : Worker Resident)
    (store : Store) :
    Move env thread worker.lock worker.record message
      (env.handle thread hint message worker store).worker.lock
      (env.handle thread hint message worker store).worker.record
      (env.handle thread hint message worker store).effects := by
  cases message with
  | runOp opId opName datumIds payload =>
      exact handleRunOp_move standalone thread opId opName datumIds payload worker store
  | acquire opId datumId requesterNode requesterThread reply =>
      have move : Move env thread worker.lock worker.record _ _ _ _ :=
        .acquire opId datumId requesterNode requesterThread reply
      rw [← Worker.lock_setLock] at move
      exact move
  | acquireGranted opId datumId =>
      exact handleAcquireGranted_move standalone thread opId datumId worker store
  | acquireFailed opId datumId retriesLeft => exact absurd trivial local_
  | «recall» datumId reply =>
      exact handleRecall_move standalone thread hint datumId reply worker store
  | release datumId => exact handleRelease_move thread datumId worker store
  | evictNonNative isNative => exact .evictNonNative isNative
  | releaseLocksHeldBy nodeId => exact absurd trivial local_
  | indexUpdate target opId indexKind payload reply =>
      simp only [handle, serveIndexUpdate]
      rcases residentFor_frame env worker store target indexKind with ⟨lockEq, recordEq⟩
      rcases opened : env.residentFor worker store target indexKind with
        ⟨message | resident, after⟩
      · rw [opened] at lockEq recordEq
        dsimp only at lockEq recordEq ⊢
        rw [lockEq, recordEq]
        exact .indexUpdate target opId indexKind payload reply (some message)
      · rw [opened] at lockEq recordEq
        dsimp only at lockEq recordEq ⊢
        change Move env thread worker.lock worker.record _ after.lock after.record _
        rw [lockEq, recordEq]
        exact .indexUpdate target opId indexKind payload reply _
  | indexUpdateReplied opId target violation =>
      exact handleIndexUpdateReplied_move standalone thread opId target violation worker store
  | indexQuery target indexKind query =>
      simp only [handle, serveIndexQuery]
      rcases residentFor_frame env worker store target indexKind with ⟨lockEq, recordEq⟩
      rcases opened : env.residentFor worker store target indexKind with
        ⟨message | resident, after⟩
      · rw [opened] at lockEq recordEq
        dsimp only at lockEq recordEq ⊢
        rw [lockEq, recordEq]
        exact .indexQuery target indexKind query _
      · rw [opened] at lockEq recordEq
        dsimp only at lockEq recordEq ⊢
        rw [lockEq, recordEq]
        exact .indexQuery target indexKind query _
  | indexExecute target indexKind payload =>
      simp only [handle, serveIndexExecute]
      rcases residentFor_frame env worker store target indexKind with ⟨lockEq, recordEq⟩
      rcases opened : env.residentFor worker store target indexKind with
        ⟨message | resident, after⟩
      · rw [opened] at lockEq recordEq
        dsimp only at lockEq recordEq ⊢
        rw [lockEq, recordEq]
        exact .indexExecute target indexKind payload _
      · rw [opened] at lockEq recordEq
        dsimp only at lockEq recordEq ⊢
        change Move env thread worker.lock worker.record _ after.lock after.record _
        rw [lockEq, recordEq]
        exact .indexExecute target indexKind payload _
  | existsCheck datumId opId reply => exact .existsCheck datumId opId reply _
  | existsCheckReplied opId target answer =>
      exact handleExistsCheckReplied_move standalone thread opId target answer worker store

end Env

end Seisin
