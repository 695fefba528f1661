import Seisin.Worker.Stored

/-!
# Ops in isolation

A handler that stays among the datums its op declares computes the same from current copies of them
as it does alone on the store: the writes it stages, what it schedules and its result.
-/

namespace Seisin

variable {Resident : Type}

/-! ## Handlers that stay among their datums -/

/-- A missing reference is tracked in an index only. -/
def Expectation.TracksIn (updated : DatumId → Prop) : Expectation → Prop
  | .present (.track pendingDatum _ _) => updated pendingDatum
  | _ => True

namespace OpProg

/-- The calls touch only the given datums, and schedule updates only of the given targets. -/
def Confined (touched updated : DatumId → Prop) : OpProg → Prop
  | .done _ | .panic => True
  | .get id _ next => touched id ∧ ∀ value, (next value).Confined touched updated
  | .put id _ _ next => touched id ∧ next.Confined touched updated
  | .delete id _ next => touched id ∧ next.Confined touched updated
  | .scheduleIndexUpdate update next => updated update.target ∧ next.Confined touched updated
  | .scheduleExistsCheck check next =>
      check.expect.TracksIn updated ∧ next.Confined touched updated

end OpProg

/-- Handlers touch only datums their op declares, and none of them is an index. -/
def OpRegistry.Confined (ops : OpRegistry) (plain : DatumId → Prop) : Prop :=
  ∀ name handler, ops name = some handler → ∀ datumIds payload,
    (handler datumIds payload).Confined (fun id => id ∈ datumIds ∧ plain id) fun id => ¬plain id

/-- What a thread sees of a datum. -/
def Cache.sees (cache : Cache) (store : Store) (id : DatumId) : Option Bytes :=
  (cache id).or (store id)

/-- Two contexts, each over its own store, between which a handler cannot tell. -/
structure OpContext.Alike (touched : DatumId → Prop) (store other : Store)
    (left right : OpContext) : Prop where
  staged : left.staged = right.staged
  pendingIndexUpdates : left.pendingIndexUpdates = right.pendingIndexUpdates
  pendingExistsChecks : left.pendingExistsChecks = right.pendingExistsChecks
  sees : ∀ id, touched id → left.cache.sees store id = right.cache.sees other id

theorem Cache.sees_getReplicated (cache : Cache) (store : Store) (id : DatumId) (n : ℕ)
    (other : DatumId) : (cache.getReplicated store id n).2.sees store other =
      cache.sees store other := by
  unfold Cache.getReplicated Cache.sees
  cases cached : cache id with
  | some content => rfl
  | none =>
      cases stored : store id with
      | none => rfl
      | some loaded =>
          by_cases same : other = id
          · simp [same, cached, stored]
          · simp [same]

/-- A read loads a copy of the datum it reads, or none. -/
theorem Cache.getReplicated_copies (cache : Cache) (store : Store) (id : DatumId) (n : ℕ)
    (other : DatumId) : (cache.getReplicated store id n).2 other = cache other ∨
      other = id ∧ (cache.getReplicated store id n).2 other = store other := by
  unfold Cache.getReplicated
  cases cached : cache id with
  | some content => exact Or.inl rfl
  | none =>
      cases stored : store id with
      | none => exact Or.inl rfl
      | some loaded =>
          by_cases same : other = id
          · right
            subst same
            exact ⟨rfl, by simp [stored]⟩
          · left
            simp [same]

namespace OpProg

variable {touched updated : DatumId → Prop} {store other : Store}

theorem run_alike {prog : OpProg} (confined : prog.Confined touched updated)
    {left right : OpContext} (alike : OpContext.Alike touched store other left right) :
    (prog.run store left).2 = (prog.run other right).2 ∧
      OpContext.Alike touched store other (prog.run store left).1 (prog.run other right).1 := by
  induction prog generalizing left right with
  | done result => exact ⟨rfl, alike⟩
  | panic => exact ⟨rfl, alike⟩
  | get id n next ih =>
      simp only [run]
      have read : (left.getReplicated store id n).1 = (right.getReplicated other id n).1 ∧
          OpContext.Alike touched store other (left.getReplicated store id n).2
            (right.getReplicated other id n).2 := by
        simp only [OpContext.getReplicated, ← alike.staged]
        split
        · exact ⟨rfl, alike⟩
        · refine ⟨?_, rfl, alike.pendingIndexUpdates, alike.pendingExistsChecks, ?_⟩
          · simp only [Cache.getReplicated_fst]
            exact alike.sees id confined.1
          · intro seen isTouched
            simp only [Cache.sees_getReplicated]
            exact alike.sees seen isTouched
      rw [read.1]
      exact ih _ (confined.2 _) read.2
  | put id content n next ih =>
      exact ih confined.2 ⟨by simp only [OpContext.putReplicated, alike.staged],
        alike.pendingIndexUpdates, alike.pendingExistsChecks, alike.sees⟩
  | delete id n next ih =>
      exact ih confined.2 ⟨by simp only [OpContext.deleteReplicated, alike.staged],
        alike.pendingIndexUpdates, alike.pendingExistsChecks, alike.sees⟩
  | scheduleIndexUpdate update next ih =>
      exact ih confined.2 ⟨alike.staged,
        by simp only [OpContext.scheduleIndexUpdate, alike.pendingIndexUpdates],
        alike.pendingExistsChecks, alike.sees⟩
  | scheduleExistsCheck check next ih =>
      exact ih confined.2 ⟨alike.staged, alike.pendingIndexUpdates,
        by simp only [OpContext.scheduleExistsCheck, alike.pendingExistsChecks], alike.sees⟩

/-- What a confined handler leaves: copies of touched datums loaded from the store, writes of
touched datums, and updates of the given targets. -/
structure Leaves (touched updated : DatumId → Prop) (store : Store) (before after : OpContext) :
    Prop where
  cached : ∀ id, after.cache id = before.cache id ∨ touched id ∧ after.cache id = store id
  staged : ∀ id ∈ after.staged, id ∈ before.staged ∨ touched id
  updates : ∀ update ∈ after.pendingIndexUpdates,
    update ∈ before.pendingIndexUpdates ∨ updated update.target
  checks : ∀ check ∈ after.pendingExistsChecks,
    check ∈ before.pendingExistsChecks ∨ check.expect.TracksIn updated

namespace Leaves

variable {first second third : OpContext}

theorem refl (store : Store) (ctx : OpContext) : Leaves touched updated store ctx ctx :=
  ⟨fun _ => Or.inl rfl, fun _ => Or.inl, fun _ => Or.inl, fun _ => Or.inl⟩

theorem trans (left : Leaves touched updated store first second)
    (right : Leaves touched updated store second third) :
    Leaves touched updated store first third where
  cached := by
    intro id
    rcases right.cached id with same | loaded
    · rw [same]
      exact left.cached id
    · exact Or.inr loaded
  staged := by
    intro id isStaged
    rcases right.staged id isStaged with earlier | isTouched
    · exact left.staged id earlier
    · exact Or.inr isTouched
  updates := by
    intro update scheduled
    rcases right.updates update scheduled with earlier | isUpdated
    · exact left.updates update earlier
    · exact Or.inr isUpdated
  checks := by
    intro check scheduled
    rcases right.checks check scheduled with earlier | isTracked
    · exact left.checks check earlier
    · exact Or.inr isTracked

theorem getReplicated (store : Store) (ctx : OpContext) {id : DatumId} (n : ℕ)
    (isTouched : touched id) :
    Leaves touched updated store ctx (ctx.getReplicated store id n).2 := by
  unfold OpContext.getReplicated
  split
  · exact refl store ctx
  · refine ⟨?_, fun _ => Or.inl, fun _ => Or.inl, fun _ => Or.inl⟩
    intro other
    rcases ctx.cache.getReplicated_copies store id n other with same | ⟨rfl, isStored⟩
    · exact Or.inl same
    · exact Or.inr ⟨isTouched, isStored⟩

/-- A staged write of a touched datum. -/
theorem stage (store : Store) (ctx : OpContext) {id : DatumId} (write : Option Bytes × ℕ)
    (isTouched : touched id) :
    Leaves touched updated store ctx { ctx with staged := ctx.staged.insert id write } := by
  refine ⟨fun _ => Or.inl rfl, ?_, fun _ => Or.inl, fun _ => Or.inl⟩
  intro other isStaged
  rcases (AList.mem_insert _).mp isStaged with rfl | earlier
  · exact Or.inr isTouched
  · exact Or.inl earlier

end Leaves

theorem run_leaves {prog : OpProg} (confined : prog.Confined touched updated) (ctx : OpContext) :
    Leaves touched updated store ctx (prog.run store ctx).1 := by
  induction prog generalizing ctx with
  | done result => exact .refl store ctx
  | panic => exact .refl store ctx
  | get id n next ih =>
      exact (Leaves.getReplicated store ctx n confined.1).trans (ih _ (confined.2 _) _)
  | put id content n next ih => exact (Leaves.stage store ctx _ confined.1).trans (ih confined.2 _)
  | delete id n next ih => exact (Leaves.stage store ctx _ confined.1).trans (ih confined.2 _)
  | scheduleIndexUpdate update next ih =>
      have first : Leaves touched updated store ctx (ctx.scheduleIndexUpdate update) := by
        refine ⟨fun _ => Or.inl rfl, fun _ => Or.inl, ?_, fun _ => Or.inl⟩
        intro scheduled isScheduled
        rcases List.mem_append.mp isScheduled with earlier | isNew
        · exact Or.inl earlier
        · cases List.mem_singleton.mp isNew
          exact Or.inr confined.1
      exact first.trans (ih confined.2 _)
  | scheduleExistsCheck check next ih =>
      have first : Leaves touched updated store ctx (ctx.scheduleExistsCheck check) := by
        refine ⟨fun _ => Or.inl rfl, fun _ => Or.inl, fun _ => Or.inl, ?_⟩
        intro scheduled isScheduled
        rcases List.mem_append.mp isScheduled with earlier | isNew
        · exact Or.inl earlier
        · cases List.mem_singleton.mp isNew
          exact Or.inr confined.1
      exact first.trans (ih confined.2 _)

end OpProg

/-! ## An op alone on the store -/

/-- What a client asks for. -/
structure OpRequest where
  opName : String
  datumIds : List DatumId
  payload : Bytes
  deriving DecidableEq

def OpRecord.request (record : OpRecord) : OpRequest :=
  ⟨record.opName, record.datumIds, record.payload⟩

namespace OpRegistry

/-- Runs the handler on the store without a copy of anything. -/
def invokeAlone (ops : OpRegistry) (store : Store) (request : OpRequest) :
    OpContext × Except String Bytes :=
  ops.invoke store request.opName (OpContext.new Cache.empty) request.datumIds request.payload

/-- The whole op at once: the store it leaves, with its writes committed, and its result. -/
def runAlone (ops : OpRegistry) (store : Store) (request : OpRequest) :
    Store × Except String Bytes :=
  match ops.invokeAlone store request with
  | (ctx, .ok result) => ((commitWrites ctx.takeStagedWrites Cache.empty store).2, .ok result)
  | (_, .error message) => (store, .error message)

/-- Run alone on the store, the op stages `writes` and returns `result`. -/
def Executes (ops : OpRegistry) (store : Store) (request : OpRequest) (writes : List StagedWrite)
    (result : Bytes) : Prop :=
  (ops.invokeAlone store request).2 = .ok result ∧
    (ops.invokeAlone store request).1.takeStagedWrites = writes

variable {ops : OpRegistry} {plain : DatumId → Prop} {store other : Store} {request : OpRequest}
  {writes : List StagedWrite} {result : Bytes}

theorem Executes.runAlone (executes : ops.Executes store request writes result) :
    ops.runAlone store request = ((commitWrites writes Cache.empty store).2, .ok result) := by
  rcases executes with ⟨returned, staged⟩
  unfold OpRegistry.runAlone
  rcases invoked : ops.invokeAlone store request with ⟨ctx, outcome⟩
  rw [invoked] at returned staged
  dsimp only at returned staged
  subst returned staged
  rfl

theorem invoke_alike (confined : ops.Confined plain) (request : OpRequest)
    {left right : OpContext}
    (alike : OpContext.Alike (fun id => id ∈ request.datumIds ∧ plain id) store other left right) :
    (ops.invoke store request.opName left request.datumIds request.payload).2 =
        (ops.invoke other request.opName right request.datumIds request.payload).2 ∧
      OpContext.Alike (fun id => id ∈ request.datumIds ∧ plain id) store other
        (ops.invoke store request.opName left request.datumIds request.payload).1
        (ops.invoke other request.opName right request.datumIds request.payload).1 := by
  unfold invoke
  cases found : ops request.opName with
  | none => exact ⟨rfl, alike⟩
  | some handler =>
      have ran := OpProg.run_alike
        (confined request.opName handler found request.datumIds request.payload) alike
      dsimp only
      rcases leftRun : (handler request.datumIds request.payload).run store left with
        ⟨leftCtx, leftResult⟩
      rcases rightRun : (handler request.datumIds request.payload).run other right with
        ⟨rightCtx, rightResult⟩
      rw [leftRun, rightRun] at ran
      rcases ran with ⟨rfl, ranAlike⟩
      cases leftResult with
      | none => exact ⟨rfl, ranAlike⟩
      | some value => exact ⟨rfl, ranAlike⟩

theorem invoke_leaves (confined : ops.Confined plain) (store : Store) (request : OpRequest)
    (ctx : OpContext) :
    OpProg.Leaves (fun id => id ∈ request.datumIds ∧ plain id) (fun id => ¬plain id) store ctx
      (ops.invoke store request.opName ctx request.datumIds request.payload).1 := by
  unfold invoke
  cases found : ops request.opName with
  | none => exact .refl store ctx
  | some handler =>
      have ran : OpProg.Leaves (fun id => id ∈ request.datumIds ∧ plain id) (fun id => ¬plain id)
          store ctx ((handler request.datumIds request.payload).run store ctx).1 :=
        OpProg.run_leaves
          (confined request.opName handler found request.datumIds request.payload) ctx
      dsimp only
      rcases isRun : (handler request.datumIds request.payload).run store ctx with ⟨after, value⟩
      rw [isRun] at ran
      cases value with
      | none => exact ran
      | some value => exact ran

/-- An op executes alike on stores that agree on the datums it may touch. -/
theorem Executes.congr (confined : ops.Confined plain)
    (executes : ops.Executes store request writes result)
    (agree : ∀ id ∈ request.datumIds, plain id → store id = other id) :
    ops.Executes other request writes result := by
  have alike : OpContext.Alike (fun id => id ∈ request.datumIds ∧ plain id) store other
      (OpContext.new Cache.empty) (OpContext.new Cache.empty) :=
    ⟨rfl, rfl, rfl, fun id touched => agree id touched.1 touched.2⟩
  rcases invoke_alike confined request alike with ⟨same, ran⟩
  refine ⟨same.symm.trans executes.1, ?_⟩
  rw [invokeAlone, OpContext.takeStagedWrites, ← ran.staged]
  exact executes.2

/-- An op that finds current copies of its datums executes as it does alone. -/
theorem executes_of_current (request : OpRequest) (confined : ops.Confined plain) {cache : Cache}
    (current : ∀ id ∈ request.datumIds, plain id → cache id = none ∨ cache id = store id)
    (returned : (ops.invoke store request.opName (OpContext.new cache) request.datumIds
      request.payload).2 = .ok result) :
    ops.Executes store request (ops.invoke store request.opName (OpContext.new cache)
      request.datumIds request.payload).1.takeStagedWrites result := by
  have alike : OpContext.Alike (fun id => id ∈ request.datumIds ∧ plain id) store store
      (OpContext.new cache) (OpContext.new Cache.empty) := by
    refine ⟨rfl, rfl, rfl, ?_⟩
    intro id touched
    rcases current id touched.1 touched.2 with missing | same
    · simp [OpContext.new, Cache.sees, Cache.empty, missing]
    · simp [OpContext.new, Cache.sees, Cache.empty, same]
  rcases invoke_alike confined request alike with ⟨same, ran⟩
  refine ⟨same.symm.trans returned, ?_⟩
  rw [invokeAlone, OpContext.takeStagedWrites, OpContext.takeStagedWrites, ran.staged]

/-- An op writes only what it declares. -/
theorem Executes.confined (confined : ops.Confined plain)
    (executes : ops.Executes store request writes result) :
    ∀ write ∈ writes, write.id ∈ request.datumIds ∧ plain write.id := by
  intro write isWrite
  rw [← executes.2] at isWrite
  rcases List.mem_map.mp isWrite with ⟨entry, entryMem, rfl⟩
  have isStaged : entry.1 ∈ (ops.invokeAlone store request).1.staged :=
    List.mem_map.mpr ⟨entry, entryMem, rfl⟩
  rcases (invoke_leaves confined store request _).staged _ isStaged with impossible | touched
  · cases impossible
  · exact touched

end OpRegistry

end Seisin
