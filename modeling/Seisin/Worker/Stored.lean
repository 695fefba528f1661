import Seisin.Worker.Discard
import Mathlib

/-!
# What a turn stores, and what it keeps cached

The stored content of a datum changes in two ways only: an op commits a write of it and is answered
with a result in the same turn, or the datum is an index and the turn serves an update of it.  A
thread's own turns never leave it with a copy of a datum that they removed from the store.
-/

namespace Seisin

variable {Resident : Type}

/-- The content that committing `writes` leaves for a datum they write: the last one staged. -/
def committedContent (writes : List StagedWrite) (datumId : DatumId) : Option (Option Bytes) :=
  (writes.reverse.find? fun write => write.id = datumId).map StagedWrite.content

theorem committedContent_cons (write : StagedWrite) (writes : List StagedWrite)
    (datumId : DatumId) :
    committedContent (write :: writes) datumId =
      (committedContent writes datumId).or
        (if write.id = datumId then some write.content else none) := by
  simp only [committedContent, List.reverse_cons, List.find?_append]
  cases writes.reverse.find? fun write => decide (write.id = datumId) with
  | some later => rfl
  | none =>
      by_cases same : write.id = datumId
      · simp [same]
      · simp [same]

theorem commitWrites_content (writes : List StagedWrite) (cache : Cache) (store : Store)
    (datumId : DatumId) :
    (commitWrites writes cache store).2 datumId =
      (committedContent writes datumId).getD (store datumId) := by
  unfold commitWrites
  induction writes generalizing cache store with
  | nil => rfl
  | cons write writes ih =>
      rw [List.foldl_cons, committedContent_cons, ih]
      cases committedContent writes datumId with
      | some later => rfl
      | none =>
          by_cases same : write.id = datumId
          · subst same
            cases write.content with
            | none => simp [Cache.deleteReplicated, Store.deleteReplicated]
            | some bytes => simp [Cache.putReplicated, Store.putReplicated]
          · have other : datumId ≠ write.id := fun equal => same equal.symm
            cases write.content with
            | none => simp [Cache.deleteReplicated, Store.deleteReplicated, same, other]
            | some bytes => simp [Cache.putReplicated, Store.putReplicated, same, other]

/-- What a turn does to the stored content of a datum. -/
inductive Turn.Stores (message : WorkerMessage) (store : Store) (turn : Turn Resident)
    (datumId : DatumId) : Prop where
  | kept (same : turn.store datumId = store datumId)
  | committed (opId : DatumId) (datumIds : List DatumId) (writes : List StagedWrite)
      (content : Option Bytes) (result : Bytes)
      (commits : .committed opId datumIds writes ∈ turn.effects)
      (replies : .reply opId (.ok result) ∈ turn.effects)
      (wrote : committedContent writes datumId = some content)
      (stored : turn.store datumId = content)
  | served (opId : DatumId) (indexKind : String) (payload : Bytes) (reply : IndexUpdateReply)
      (serves : message = .indexUpdate datumId opId indexKind payload reply)

namespace Turn.Stores

variable {message : WorkerMessage} {store : Store} {turn : Turn Resident} {datumId : DatumId}

theorem prepend (stores : Turn.Stores message store turn datumId) (effects : List Effect) :
    Turn.Stores message store ⟨turn.worker, turn.store, effects ++ turn.effects⟩ datumId := by
  cases stores with
  | kept same => exact .kept same
  | committed opId datumIds writes content result commits replies wrote stored =>
      exact .committed opId datumIds writes content result
        (List.mem_append_right _ commits) (List.mem_append_right _ replies) wrote stored
  | served opId indexKind payload reply serves =>
      exact .served opId indexKind payload reply serves

/-- A turn that commits `writes` for an op and answers it. -/
theorem ofCommit {opId : DatumId} {datumIds : List DatumId} {writes : List StagedWrite}
    {cache : Cache} {result : Bytes}
    (commits : .committed opId datumIds writes ∈ turn.effects)
    (replies : .reply opId (.ok result) ∈ turn.effects)
    (stored : turn.store = (commitWrites writes cache store).2) :
    Turn.Stores message store turn datumId := by
  have content := commitWrites_content writes cache store datumId
  rw [← stored] at content
  cases wrote : committedContent writes datumId with
  | none =>
      rw [wrote] at content
      exact .kept content
  | some written =>
      rw [wrote] at content
      exact .committed opId datumIds writes written result commits replies wrote content

end Turn.Stores

namespace Env

variable (env : Env Resident)

theorem tryRunIfReady_stores (message : WorkerMessage) (thread : ThreadId) (opId : DatumId)
    (worker : Worker Resident) (store : Store) (datumId : DatumId) :
    Turn.Stores message store (env.tryRunIfReady thread opId worker store) datumId := by
  unfold tryRunIfReady
  cases worker.opRecords.lookup opId with
  | none => exact .kept rfl
  | some record =>
      dsimp only
      split
      · generalize env.ops.invoke store record.opName (OpContext.new worker.cache)
          record.datumIds record.payload = invoked
        rcases invoked with ⟨ctx, message | result⟩
        · exact .kept rfl
        · dsimp only
          split
          · exact .ofCommit (.tail _ (.head _)) (.tail _ (.tail _ (.head _))) rfl
          · exact .kept rfl
      · exact .kept rfl

theorem finishOpIfSettled_stores (message : WorkerMessage) (opId : DatumId)
    (worker : Worker Resident) (store : Store) (datumId : DatumId) :
    Turn.Stores message store (env.finishOpIfSettled opId worker store) datumId := by
  unfold finishOpIfSettled
  cases worker.opRecords.lookup opId with
  | none => exact .kept rfl
  | some record =>
      dsimp only
      cases record.indexUpdateState with
      | none => exact .kept rfl
      | some state =>
          dsimp only
          split
          · cases state.violation with
            | some violation => exact .kept rfl
            | none => exact .ofCommit (.head _) (.tail _ (.head _)) rfl
          · exact .kept rfl

theorem writeThrough_other (outcome : IndexApplyOutcome) {target datumId : DatumId}
    (other : datumId ≠ target) (cache : Cache) (store : Store) :
    (writeThrough outcome target cache store).2 datumId = store datumId := by
  unfold writeThrough
  split
  · cases outcome.writeThrough with
    | none => rfl
    | put bytes => exact Function.update_of_ne other _ _
    | delete => exact Function.update_of_ne other _ _
  · rfl

theorem serveIndexUpdate_other (worker : Worker Resident) (store : Store)
    {target datumId : DatumId} (other : datumId ≠ target) (opId : DatumId) (indexKind : String)
    (payload : Bytes) (reply : IndexUpdateReply) :
    (env.serveIndexUpdate worker store target opId indexKind payload reply).store datumId =
      store datumId := by
  unfold serveIndexUpdate
  split
  · rfl
  · exact writeThrough_other _ other _ _

theorem handleReleaseLocksHeldBy_store (nodeId : NodeId) (worker : Worker Resident)
    (store : Store) : (handleReleaseLocksHeldBy nodeId worker store).store = store := by
  unfold handleReleaseLocksHeldBy
  exact List.foldlRecOn (motive := fun turn : Turn Resident => turn.store = store) _ _ rfl
    fun turn same entry _ => same

/-- Every turn keeps the stored content of a datum, commits a write of it, or serves it as an
index. -/
theorem handle_stores (thread : ThreadId) (hint : DatumId) (message : WorkerMessage)
    (worker : Worker Resident) (store : Store) (datumId : DatumId) :
    Turn.Stores message store (env.handle thread hint message worker store) datumId := by
  cases message with
  | runOp opId opName datumIds payload =>
      exact (env.tryRunIfReady_stores _ thread opId _ store datumId).prepend _
  | acquire opId datumId requesterNode requesterThread reply => exact .kept rfl
  | acquireGranted opId granted =>
      simp only [handle, handleAcquireGranted]
      split
      · exact env.tryRunIfReady_stores _ thread opId _ store datumId
      · exact .kept rfl
  | acquireFailed opId failed retriesLeft =>
      simp only [handle, handleAcquireFailed, failOp]
      split
      · exact .kept rfl
      · split
        · exact .kept rfl
        · exact .kept rfl
  | «recall» recalled reply =>
      simp only [handle, handleRecall]
      split
      · exact .kept rfl
      · split
        · exact .kept rfl
        · exact .kept rfl
  | release released =>
      simp only [handle, handleRelease]
      split
      · exact .kept rfl
      · exact .kept rfl
  | evictNonNative isNative => exact .kept rfl
  | releaseLocksHeldBy nodeId =>
      exact .kept (congrFun (handleReleaseLocksHeldBy_store nodeId worker store) datumId)
  | indexUpdate target opId indexKind payload reply =>
      by_cases same : datumId = target
      · subst same
        exact .served opId indexKind payload reply rfl
      · exact .kept (env.serveIndexUpdate_other worker store same opId indexKind payload reply)
  | indexUpdateReplied opId target violation =>
      simp only [handle, handleIndexUpdateReplied]
      split
      · exact env.finishOpIfSettled_stores _ opId worker store datumId
      · exact env.finishOpIfSettled_stores _ opId _ store datumId
  | indexQuery target indexKind query =>
      simp only [handle, serveIndexQuery]
      split
      · exact .kept rfl
      · exact .kept rfl
  | indexExecute target indexKind payload =>
      simp only [handle, serveIndexExecute]
      split
      · exact .kept rfl
      · exact .kept rfl
  | existsCheck checked opId reply => exact .kept rfl
  | existsCheckReplied opId target found =>
      simp only [handle, handleExistsCheckReplied]
      split
      · exact env.finishOpIfSettled_stores _ opId worker store datumId
      · split
        · exact env.finishOpIfSettled_stores _ opId worker store datumId
        · exact (env.finishOpIfSettled_stores _ opId _ store datumId).prepend _

end Env

/-! ## Cached copies of removed content -/

/-- A cached copy of the datum is a copy of something still stored. -/
def Cache.Backed (cache : Cache) (store : Store) (datumId : DatumId) : Prop :=
  cache datumId ≠ none → store datumId ≠ none

namespace Cache.Backed

variable {cache loaded : Cache} {store : Store} {datumId : DatumId}

theorem load (backed : cache.Backed store datumId) (from_ : LoadedFrom store cache loaded) :
    loaded.Backed store datumId := by
  intro present
  rcases from_ datumId with same | dropped | stored
  · exact backed (same ▸ present)
  · exact absurd dropped present
  · exact stored ▸ present

theorem put (backed : cache.Backed store datumId) (id : DatumId) (content : Bytes) (n : ℕ) :
    (cache.putReplicated store id content n).1.Backed (cache.putReplicated store id content n).2
      datumId := by
  by_cases same : datumId = id
  · simp [Backed, Cache.putReplicated, Store.putReplicated, same]
  · simpa [Backed, Cache.putReplicated, Store.putReplicated, same] using backed

theorem delete (backed : cache.Backed store datumId) (id : DatumId) (n : ℕ) :
    (cache.deleteReplicated store id n).1.Backed (cache.deleteReplicated store id n).2
      datumId := by
  by_cases same : datumId = id
  · simp [Backed, Cache.deleteReplicated, same]
  · simpa [Backed, Cache.deleteReplicated, Store.deleteReplicated, same] using backed

theorem commit (backed : cache.Backed store datumId) (writes : List StagedWrite) :
    (commitWrites writes cache store).1.Backed (commitWrites writes cache store).2 datumId := by
  unfold commitWrites
  induction writes generalizing cache store with
  | nil => exact backed
  | cons write writes ih =>
      rw [List.foldl_cons]
      cases write.content with
      | none => exact ih (backed.delete write.id write.n)
      | some bytes => exact ih (backed.put write.id bytes write.n)

end Cache.Backed

namespace Env

variable {store : Store} {datumId : DatumId}

theorem tryRunIfReady_backed (env : Env Resident) (thread : ThreadId) (opId : DatumId)
    (worker : Worker Resident) (backed : worker.cache.Backed store datumId) :
    (env.tryRunIfReady thread opId worker store).worker.cache.Backed
      (env.tryRunIfReady thread opId worker store).store datumId := by
  unfold tryRunIfReady
  cases worker.opRecords.lookup opId with
  | none => exact backed
  | some record =>
      dsimp only
      split
      · have loaded := env.ops.invoke_cache store record.opName (OpContext.new worker.cache)
          record.datumIds record.payload
        generalize env.ops.invoke store record.opName (OpContext.new worker.cache)
          record.datumIds record.payload = invoked at loaded ⊢
        have ran : invoked.1.cache.Backed store datumId := backed.load loaded
        rcases invoked with ⟨ctx, message | result⟩
        · exact ran.load (env.releaseDatums_cache store _ _)
        · dsimp only
          split
          · exact (ran.commit _).load (env.releaseDatums_cache _ _ _)
          · exact ran
      · exact backed

theorem finishOpIfSettled_backed (env : Env Resident) (opId : DatumId) (worker : Worker Resident)
    (backed : worker.cache.Backed store datumId) :
    (env.finishOpIfSettled opId worker store).worker.cache.Backed
      (env.finishOpIfSettled opId worker store).store datumId := by
  unfold finishOpIfSettled
  cases worker.opRecords.lookup opId with
  | none => exact backed
  | some record =>
      dsimp only
      cases record.indexUpdateState with
      | none => exact backed
      | some state =>
          dsimp only
          split
          · cases state.violation with
            | some violation => exact backed.load (env.releaseDatums_cache store _ _)
            | none => exact (backed.commit _).load (env.releaseDatums_cache _ _ _)
          · exact backed

theorem residentFor_backed (env : Env Resident) {worker : Worker Resident}
    (backed : worker.cache.Backed store datumId) (target : DatumId) (indexKind : String) :
    (env.residentFor worker store target indexKind).2.cache.Backed store datumId := by
  have opened : (env.indexKinds.openResident worker.cache store target indexKind).2.Backed store
      datumId := by
    unfold IndexKinds.openResident
    split
    · exact backed
    · exact backed.load (.getReplicated worker.cache target 1)
  unfold residentFor
  split
  · exact backed
  · split
    · rename_i accessed
      rw [accessed] at opened
      exact opened
    · rename_i accessed
      rw [accessed] at opened
      exact opened

theorem writeThrough_backed {cache : Cache} (backed : cache.Backed store datumId)
    (outcome : IndexApplyOutcome) (target : DatumId) :
    (writeThrough outcome target cache store).1.Backed
      (writeThrough outcome target cache store).2 datumId := by
  unfold writeThrough
  split
  · cases outcome.writeThrough with
    | none => exact backed
    | put bytes => exact backed.put target bytes 1
    | delete => exact backed.delete target 1
  · exact backed

/-- A thread's own turn leaves it no copy of what the turn removes. -/
theorem handle_backed (env : Env Resident) (thread : ThreadId) (hint : DatumId)
    {message : WorkerMessage} (local_ : ¬message.Remote) {worker : Worker Resident}
    (backed : worker.cache.Backed store datumId) :
    (env.handle thread hint message worker store).worker.cache.Backed
      (env.handle thread hint message worker store).store datumId := by
  cases message with
  | runOp opId opName datumIds payload => exact env.tryRunIfReady_backed thread opId _ backed
  | acquire opId datumId requesterNode requesterThread reply => exact backed
  | acquireGranted opId granted =>
      simp only [handle, handleAcquireGranted]
      split
      · exact env.tryRunIfReady_backed thread opId _ backed
      · exact backed.load (env.releaseDatums_cache store _ _)
  | acquireFailed opId failed retriesLeft => exact absurd trivial local_
  | «recall» recalled reply =>
      have evicted := backed.load (.invalidate worker.cache recalled)
      simp only [handle, handleRecall]
      split
      · exact evicted
      · split
        · exact evicted
        · exact evicted
  | release released =>
      have evicted := backed.load (.invalidate worker.cache released)
      simp only [handle, handleRelease]
      split
      · exact evicted
      · exact evicted
  | evictNonNative isNative =>
      intro present
      apply backed
      intro absent
      simp [handle, Cache.evictNonNative, absent] at present
  | releaseLocksHeldBy nodeId => exact absurd trivial local_
  | indexUpdate target opId indexKind payload reply =>
      have opened := env.residentFor_backed backed target indexKind
      simp only [handle, serveIndexUpdate]
      split
      · rename_i accessed
        rw [accessed] at opened
        exact opened
      · rename_i accessed
        rw [accessed] at opened
        exact writeThrough_backed opened _ target
  | indexUpdateReplied opId target violation =>
      simp only [handle, handleIndexUpdateReplied]
      split
      · exact env.finishOpIfSettled_backed opId _ backed
      · exact env.finishOpIfSettled_backed opId _ backed
  | indexQuery target indexKind query =>
      have opened := env.residentFor_backed backed target indexKind
      simp only [handle, serveIndexQuery]
      split
      · rename_i accessed
        rw [accessed] at opened
        exact opened
      · rename_i accessed
        rw [accessed] at opened
        exact opened
  | indexExecute target indexKind payload =>
      have opened := env.residentFor_backed backed target indexKind
      simp only [handle, serveIndexExecute]
      split
      · rename_i accessed
        rw [accessed] at opened
        exact opened
      · rename_i accessed
        rw [accessed] at opened
        exact opened
  | existsCheck checked opId reply => exact backed.load (.getReplicated worker.cache checked 1)
  | existsCheckReplied opId target found =>
      simp only [handle, handleExistsCheckReplied]
      split
      · exact env.finishOpIfSettled_backed opId _ backed
      · split
        · exact env.finishOpIfSettled_backed opId _ backed
        · exact env.finishOpIfSettled_backed opId _ backed

end Env

end Seisin
