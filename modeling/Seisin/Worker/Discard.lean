import Seisin.Worker.Moves

/-!
# What a turn leaves in the store and the resident indexes

Apart from serving an index, a turn changes the store only when it commits an op, and then it answers
that op with a result.  A turn that commits nothing leaves the store and every resident index alone;
its cached copies are kept, dropped, or loaded from the store.
-/

namespace Seisin

variable {Resident : Type}

/-- The messages that reach an index. -/
def WorkerMessage.ServesIndex : WorkerMessage → Prop
  | .indexUpdate _ _ _ _ _ | .indexQuery _ _ _ | .indexExecute _ _ _ => True
  | _ => False

/-- Every cached copy of `after` was in `before`, or is the stored content. -/
def Cache.LoadedFrom (store : Store) (before after : Cache) : Prop :=
  ∀ id, after id = before id ∨ after id = none ∨ after id = store id

namespace Cache.LoadedFrom

variable {store : Store} {first second third : Cache}

theorem refl (store : Store) (cache : Cache) : LoadedFrom store cache cache :=
  fun _ => Or.inl rfl

theorem trans (left : LoadedFrom store first second) (right : LoadedFrom store second third) :
    LoadedFrom store first third := by
  intro id
  rcases right id with same | dropped | loaded
  · rw [same]
    exact left id
  · exact Or.inr (Or.inl dropped)
  · exact Or.inr (Or.inr loaded)

theorem invalidate (cache : Cache) (dropped : DatumId) :
    LoadedFrom store cache (cache.invalidate dropped) := by
  intro id
  by_cases same : id = dropped
  · right
    left
    simp [Cache.invalidate, same]
  · left
    simp [Cache.invalidate, same]

theorem invalidateAll (ids : List DatumId) (cache : Cache) :
    LoadedFrom store cache (ids.foldl Cache.invalidate cache) := by
  induction ids generalizing cache with
  | nil => exact refl store cache
  | cons id ids ih => exact (invalidate cache id).trans (ih _)

theorem getReplicated (cache : Cache) (id : DatumId) (n : ℕ) :
    LoadedFrom store cache (cache.getReplicated store id n).2 := by
  intro other
  unfold Cache.getReplicated
  cases cached : cache id with
  | some content => exact Or.inl rfl
  | none =>
      cases stored : store id with
      | none => exact Or.inl rfl
      | some loaded =>
          by_cases same : other = id
          · right
            right
            simp [same, stored]
          · left
            simp [same]

end Cache.LoadedFrom

/-- Running a handler only loads its cache from the store. -/
theorem OpProg.run_cache (store : Store) (prog : OpProg) (ctx : OpContext) :
    Cache.LoadedFrom store ctx.cache (prog.run store ctx).1.cache := by
  induction prog generalizing ctx with
  | done result => exact .refl store _
  | panic => exact .refl store _
  | get id n next ih =>
      simp only [OpProg.run]
      have read : Cache.LoadedFrom store ctx.cache (ctx.getReplicated store id n).2.cache := by
        unfold OpContext.getReplicated
        split
        · exact .refl store _
        · exact .getReplicated ctx.cache id n
      exact read.trans (ih _ _)
  | put id content n next ih => exact ih _
  | delete id n next ih => exact ih _
  | scheduleIndexUpdate update next ih => exact ih _
  | scheduleExistsCheck check next ih => exact ih _

theorem OpRegistry.invoke_cache (ops : OpRegistry) (store : Store) (name : String)
    (ctx : OpContext) (datumIds : List DatumId) (payload : Bytes) :
    Cache.LoadedFrom store ctx.cache (ops.invoke store name ctx datumIds payload).1.cache := by
  unfold OpRegistry.invoke
  split
  · exact .refl store _
  · rename_i handler _
    have ran := (handler datumIds payload).run_cache store ctx
    split <;> simp_all

/-- A turn that commits nothing, or one that answers an op with a result. -/
inductive Turn.Outcome (worker : Worker Resident) (store : Store) (turn : Turn Resident) :
    Prop where
  | quiet (stored : turn.store = store)
      (residents : turn.worker.residentIndexes = worker.residentIndexes)
      (cached : Cache.LoadedFrom store worker.cache turn.worker.cache)
  | answered (opId : DatumId) (result : Bytes) (replies : .reply opId (.ok result) ∈ turn.effects)

namespace Turn.Outcome

variable {worker : Worker Resident} {store : Store} {turn : Turn Resident}

/-- The records a turn starts from do not matter. -/
theorem ofRecords {records : AList (fun _ : DatumId => OpRecord)}
    (outcome : Turn.Outcome { worker with opRecords := records } store turn) :
    Turn.Outcome worker store turn := by
  cases outcome with
  | quiet stored kept loaded => exact .quiet stored kept loaded
  | answered opId result replies => exact .answered opId result replies

theorem prepend (outcome : Turn.Outcome worker store turn) (effects : List Effect) :
    Turn.Outcome worker store ⟨turn.worker, turn.store, effects ++ turn.effects⟩ := by
  cases outcome with
  | quiet stored kept loaded => exact .quiet stored kept loaded
  | answered opId result replies =>
      exact .answered opId result (List.mem_append.mpr (Or.inr replies))

end Turn.Outcome

namespace Env

variable {env : Env Resident}

theorem releaseDatums_cache (env : Env Resident) (store : Store) (datumIds : List DatumId)
    (cache : Cache) : Cache.LoadedFrom store cache (env.releaseDatums datumIds cache).1 :=
  .invalidateAll datumIds cache

theorem tryRunIfReady_outcome (env : Env Resident) (thread : ThreadId) (opId : DatumId)
    (worker : Worker Resident) (store : Store) :
    Turn.Outcome worker store (env.tryRunIfReady thread opId worker store) := by
  unfold tryRunIfReady
  cases found : worker.opRecords.lookup opId with
  | none => exact .quiet rfl rfl (.refl store _)
  | some record =>
      dsimp only
      split
      · have loaded := env.ops.invoke_cache store record.opName (OpContext.new worker.cache)
          record.datumIds record.payload
        generalize env.ops.invoke store record.opName (OpContext.new worker.cache)
          record.datumIds record.payload = invoked at loaded ⊢
        rcases invoked with ⟨ctx, message | result⟩
        · exact .quiet rfl rfl (loaded.trans (env.releaseDatums_cache store _ _))
        · dsimp only
          split
          · exact .answered opId result (by simp)
          · exact .quiet rfl rfl loaded
      · exact .quiet rfl rfl (.refl store _)

theorem finishOpIfSettled_outcome (env : Env Resident) (opId : DatumId)
    (worker : Worker Resident) (store : Store) :
    Turn.Outcome worker store (env.finishOpIfSettled opId worker store) := by
  unfold finishOpIfSettled
  cases found : worker.opRecords.lookup opId with
  | none => exact .quiet rfl rfl (.refl store _)
  | some record =>
      dsimp only
      cases entered : record.indexUpdateState with
      | none => exact .quiet rfl rfl (.refl store _)
      | some state =>
          dsimp only
          split
          · cases violated : state.violation with
            | some message =>
                exact .quiet rfl rfl (env.releaseDatums_cache store _ _)
            | none => exact .answered opId state.opResult (by simp)
          · exact .quiet rfl rfl (.refl store _)

/-- Every turn but the service of an index commits nothing or answers an op with a result. -/
theorem handle_outcome (thread : ThreadId) (hint : DatumId) {message : WorkerMessage}
    (local_ : ¬message.Remote) (other : ¬message.ServesIndex) (worker : Worker Resident)
    (store : Store) :
    Turn.Outcome worker store (env.handle thread hint message worker store) := by
  cases message with
  | runOp opId opName datumIds payload =>
      exact ((env.tryRunIfReady_outcome thread opId _ store).ofRecords).prepend _
  | acquire opId datumId requesterNode requesterThread reply =>
      exact .quiet rfl rfl (.refl store _)
  | acquireGranted opId datumId =>
      simp only [handle, handleAcquireGranted]
      split
      · exact (env.tryRunIfReady_outcome thread opId _ store).ofRecords
      · exact .quiet rfl rfl (env.releaseDatums_cache store [datumId] worker.cache)
  | acquireFailed opId datumId retriesLeft => exact absurd trivial local_
  | «recall» datumId reply =>
      have loaded : Cache.LoadedFrom store worker.cache (worker.cache.invalidate datumId) :=
        .invalidate worker.cache datumId
      simp only [handle, handleRecall]
      split
      · exact .quiet rfl rfl loaded
      · split
        · exact .quiet rfl rfl loaded
        · exact .quiet rfl rfl loaded
  | release datumId =>
      have loaded : Cache.LoadedFrom store worker.cache (worker.cache.invalidate datumId) :=
        .invalidate worker.cache datumId
      simp only [handle, handleRelease]
      split
      · exact .quiet rfl rfl loaded
      · exact .quiet rfl rfl loaded
  | evictNonNative isNative =>
      refine .quiet rfl rfl ?_
      intro id
      simp only [handle, Cache.evictNonNative]
      split
      · exact Or.inl rfl
      · exact Or.inr (Or.inl rfl)
  | releaseLocksHeldBy nodeId => exact absurd trivial local_
  | indexUpdate target opId indexKind payload reply => exact absurd trivial other
  | indexUpdateReplied opId target violation =>
      simp only [handle, handleIndexUpdateReplied]
      split
      · exact env.finishOpIfSettled_outcome opId worker store
      · exact (env.finishOpIfSettled_outcome opId _ store).ofRecords
  | indexQuery target indexKind query => exact absurd trivial other
  | indexExecute target indexKind payload => exact absurd trivial other
  | existsCheck datumId opId reply =>
      exact .quiet rfl rfl (.getReplicated worker.cache datumId 1)
  | existsCheckReplied opId target found =>
      simp only [handle, handleExistsCheckReplied]
      split
      · exact env.finishOpIfSettled_outcome opId worker store
      · split
        · exact env.finishOpIfSettled_outcome opId worker store
        · exact ((env.finishOpIfSettled_outcome opId _ store).ofRecords).prepend _

end Env

end Seisin
