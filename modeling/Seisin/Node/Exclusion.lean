import Seisin.Node.Refinement

/-!
# Collation is exclusive as long as recalls find what they recall

A recall is acknowledged by a release whether or not the receiving thread still holds the datum.  In
runs in which every recall finds an op that holds it, no two records ever hold one datum; in runs
in which that op has not entered its index-update phase either, an op commits under all its locks.
Both conditions can fail, and the two runs below show what happens then: a recall that crosses an
ordinary release frees the next holder's lock, and a recall of an op that waits for its index updates
lets it commit a datum that has been handed on.
-/

namespace Seisin

open WoundWait Transition

variable {Resident : Type}

namespace Node

/-- No two records, on one thread or on two, have the same datum acquired. -/
def AcquiredExclusively (node : Node Resident) : Prop :=
  ∀ thread other opId otherOp record otherRecord datumId,
    node.record thread opId = some record → node.record other otherOp = some otherRecord →
    datumId ∈ record.acquired → datumId ∈ otherRecord.acquired →
    thread = other ∧ opId = otherOp

/-- A step that commits an op's staged writes finds the op as holder of all its datums' locks. -/
def CommitsLocked (env : Env Resident) (node : Node Resident) (label : NodeLabel) : Prop :=
  ∀ opId datumIds writes, .committed opId datumIds writes ∈ node.effects env label →
    ∀ datumId ∈ datumIds, ∃ holder,
      (node.lock env datumId).currentHolder = some holder ∧ holder.opId = opId

/-- A delivered recall finds an op of its thread that holds the datum. -/
def RecallFindsHolder (node : Node Resident) (label : NodeLabel) : Prop :=
  ∀ sender receiver hint datumId reply, label = .deliver sender receiver hint →
    node.inFlight.find? (between sender receiver) =
      some ⟨sender, receiver, .recall datumId reply⟩ →
    ∃ opId record, node.record receiver opId = some record ∧ datumId ∈ record.acquired

/-- A delivered recall finds an op of its thread that holds the datum and has not run yet. -/
def RecallFindsCollating (node : Node Resident) (label : NodeLabel) : Prop :=
  ∀ sender receiver hint datumId reply, label = .deliver sender receiver hint →
    node.inFlight.find? (between sender receiver) =
      some ⟨sender, receiver, .recall datumId reply⟩ →
    ∃ opId record, node.record receiver opId = some record ∧ datumId ∈ record.acquired ∧
      record.indexUpdateState = none

theorem RecallFindsCollating.findsHolder {node : Node Resident} {label : NodeLabel}
    (finds : node.RecallFindsCollating label) : node.RecallFindsHolder label := by
  intro sender receiver hint datumId reply delivers first
  rcases finds sender receiver hint datumId reply delivers first with
    ⟨opId, record, found, holds, _⟩
  exact ⟨opId, record, found, holds⟩

variable {env : Env Resident}

/-! ## The invariants of a run -/

theorem lifecycle_new (store : Store) :
    Lifecycle ((new store : Node Resident).view env) where
  phases := by
    intro opId
    refine ⟨.unsubmitted, ?_, ?_, ?_, ?_, ?_⟩
    · simp [view, new]
    · simp [view, new, Phase.starts]
    · intro thread
      simp [view, new, record, Worker.record, Worker.new, Phase.status]
    · simp [view, new, Phase.replies]
    · simp [view, new, Phase.invocations]
  awaited := by
    intro thread opId
    simp [view, new, State.awaited, record, Worker.record, Worker.new]
  unready := by simp [view, new, record, Worker.record, Worker.new]
  positive := by simp [view, new, record, Worker.record, Worker.new]

theorem exclusive_new (store : Store) : Exclusive ((new store : Node Resident).view env) := by
  intro datumId
  refine ⟨.free, ?_, ?_, ?_, ?_⟩
  · simp [view, new]
  · simp [view, new, State.holds, record, Worker.record, Worker.new]
  · simp [view, new]
  · simp [view, new, lock, Worker.lock, Worker.new, NativeLock.new, NativeLock.view,
      Custody.Matches]

theorem covered_new (store : Store) : Covered ((new store : Node Resident).view env) := by
  simp [Covered, view, new, record, Worker.record, Worker.new]

theorem lifecycle_step (standalone : env.Standalone) {node next : Node Resident}
    {label : NodeLabel} (routed : node.Routed env) (life : Lifecycle (node.view env))
    (stepped : step env node label = some next) : Lifecycle (next.view env) := by
  rcases refines_step standalone routed stepped with same | ⟨event, taken, _⟩
  · rw [same]
    exact life
  · exact life.step taken

theorem not_recallMissed {node : Node Resident} {label : NodeLabel} {event : Event}
    (finds : node.RecallFindsHolder label)
    (explained : event = .regular ∨ event = .recallCollating ∨
      ∃ sender receiver hint message, label = .deliver sender receiver hint ∧
        node.inFlight.find? (between sender receiver) = some ⟨sender, receiver, message⟩ ∧
        Explains node receiver message event) : event ≠ .recallMissed := by
  rintro rfl
  rcases explained with impossible | impossible |
    ⟨sender, receiver, hint, message, delivers, first, datumId, reply, rfl, missed⟩
  · cases impossible
  · cases impossible
  · rcases finds sender receiver hint datumId reply delivers first with
      ⟨opId, record, found, holds⟩
    exact missed opId record found holds

/-- What holds of the records and locks in runs whose recalls find what they recall. -/
structure Exclusion (env : Env Resident) (node : Node Resident) : Prop where
  routed : node.Routed env
  life : Lifecycle (node.view env)
  exclusive : Exclusive (node.view env)

theorem exclusion_step (standalone : env.Standalone) {node next : Node Resident}
    {label : NodeLabel} (exclusion : Exclusion env node) (finds : node.RecallFindsHolder label)
    (stepped : step env node label = some next) : Exclusion env next where
  routed := routed_step standalone exclusion.routed stepped
  life := lifecycle_step standalone exclusion.routed exclusion.life stepped
  exclusive := by
    rcases refines_step standalone exclusion.routed stepped with
      same | ⟨event, taken, explained⟩
    · rw [same]
      exact exclusion.exclusive
    · exact exclusion.exclusive.step exclusion.life taken (not_recallMissed finds explained)

theorem exclusion_new (store : Store) : Exclusion env (new store : Node Resident) :=
  ⟨routed_new store, lifecycle_new store, exclusive_new store⟩

theorem view_tickets (env : Env Resident) {node : Node Resident} {thread : ThreadId} {opId : DatumId}
    {record : OpRecord} (found : node.record thread opId = some record) :
    (node.view env).tickets thread opId = some record.view := by
  simp [view, found]

/-- Two records that hold one datum are the record of one op. -/
theorem Exclusion.unique {node : Node Resident} (exclusion : Exclusion env node) :
    node.AcquiredExclusively := by
  intro thread other opId otherOp record otherRecord datumId found otherFound holds otherHolds
  rcases exclusion.exclusive datumId with ⟨custody, tracks⟩
  have held := tracks.eq_held (view_tickets env found) holds
  have otherHeld := tracks.eq_held (view_tickets env otherFound) otherHolds
  rw [held, Custody.held.injEq] at otherHeld
  exact otherHeld

/-- In every run whose recalls all find the datum they recall, no datum is ever acquired by two op
records. -/
theorem acquired_exclusively (standalone : env.Standalone) {node : Node Resident}
    (reached : (system env).ReachableVia RecallFindsHolder node) :
    node.AcquiredExclusively := by
  have exclusion : Exclusion env node := by
    apply reached.induction
    · rintro _ ⟨store, rfl⟩
      exact exclusion_new store
    · intro state label next holds finds stepped
      exact exclusion_step standalone holds finds stepped
  exact exclusion.unique

/-- A node whose thread 0 is home of every datum, with the given handlers and index kinds that
accept every update. -/
def soleHomeEnv (ops : OpRegistry) : Env Unit where
  selfNodeId := 0
  native := fun _ => (0, 0)
  linked := fun _ => false
  ops := ops
  indexKinds :=
    { kinds := fun _ => some fun _ _ => .ok ()
      apply := fun resident _ => (resident, ⟨none, .none⟩)
      query := fun _ _ => .ok []
      execute := fun resident _ => (resident, .ok []) }

theorem soleHomeEnv_standalone (ops : OpRegistry) : (soleHomeEnv ops).Standalone :=
  fun _ => rfl

/-- An op that writes its first datum, after an index update if its name asks for one. -/
def writerOps : OpRegistry := fun name => some fun datumIds _ =>
  .put (datumIds.headD 0) [1] 1
    (if name = "index" then .scheduleIndexUpdate ⟨9, "kind", []⟩ (.done []) else .done [])

/-- Op 3 finishes and releases datum 7 while a recall on behalf of op 1 is on its way to it.  The
recall is acknowledged although nothing is held any more, which frees the lock op 1 now has, and
op 2 is granted the datum as well. -/
def crossingRun : List NodeLabel :=
  [.submit 2 1 "write" [7, 8] [], .submit 3 2 "write" [7, 8] [], .submit 1 3 "write" [7] [],
    .deliver .client 1 0, .deliver (.worker 1) 0 0, .deliver (.worker 0) 1 0,
    .deliver .client 2 0, .deliver (.worker 2) 0 0, .deliver (.worker 1) 0 0,
    .deliver (.worker 0) 1 0, .deliver (.worker 0) 2 0, .deliver (.worker 1) 0 0,
    .deliver .client 3 0, .deliver (.worker 3) 0 0, .deliver (.worker 0) 3 0]

theorem acquired_twice : ∃ node, (system (soleHomeEnv writerOps)).exec (new fun _ => none)
    crossingRun = some node ∧ (system (soleHomeEnv writerOps)).Reachable node ∧
    ¬node.AcquiredExclusively := by
  have observed : ((system (soleHomeEnv writerOps)).exec (new fun _ => none) crossingRun).map
      (fun node => ((node.record 2 1).map OpRecord.acquired,
        (node.record 3 2).map OpRecord.acquired)) = some (some [7], some [7]) := by
    decide +kernel
  rcases Option.map_eq_some_iff.mp observed with ⟨node, executed, acquired⟩
  refine ⟨node, executed, System.reachable_of_exec ⟨_, rfl⟩ executed, ?_⟩
  intro exclusive
  simp only [Prod.mk.injEq, Option.map_eq_some_iff] at acquired
  rcases acquired with ⟨⟨record, found, holds⟩, ⟨other, otherFound, otherHolds⟩⟩
  have same := exclusive 2 3 1 2 record other 7 found otherFound (by simp [holds])
    (by simp [otherHolds])
  exact absurd same.1 (by decide)

/-- Whether the recall that `label` delivers, if it delivers one, finds a record of its thread that
holds the datum and passes `test`. -/
def recallFinds (test : OpRecord → Bool) (node : Node Resident) : NodeLabel → Bool
  | .deliver sender receiver _ =>
      match node.inFlight.find? (between sender receiver) with
      | some ⟨_, _, .recall datumId _⟩ =>
          (node.workers receiver).opRecords.entries.any fun entry =>
            decide (datumId ∈ entry.2.acquired) && test entry.2
      | _ => true
  | _ => true

theorem recallFinds_sound {test : OpRecord → Bool} {node : Node Resident} {label : NodeLabel}
    (finds : recallFinds test node label = true) :
    ∀ sender receiver hint datumId reply, label = .deliver sender receiver hint →
      node.inFlight.find? (between sender receiver) =
        some ⟨sender, receiver, .recall datumId reply⟩ →
      ∃ opId record, node.record receiver opId = some record ∧ datumId ∈ record.acquired ∧
        test record = true := by
  rintro sender receiver hint datumId reply rfl first
  simp only [recallFinds, first, List.any_eq_true, Bool.and_eq_true, decide_eq_true_eq] at finds
  rcases finds with ⟨⟨opId, record⟩, entryMem, holds, passes⟩
  exact ⟨opId, record, AList.mem_lookup_iff.mpr entryMem, holds, passes⟩

/-- Op 1 recalls datum 7 from op 3, which still waits for datum 8 and asks for 7 again. -/
def woundingRun : List NodeLabel :=
  [.submit 2 1 "write" [7] [], .submit 1 3 "write" [7, 8] [], .deliver .client 1 0,
    .deliver (.worker 1) 0 0, .deliver (.worker 0) 1 0, .deliver .client 2 0,
    .deliver (.worker 2) 0 0, .deliver (.worker 0) 1 0, .deliver (.worker 1) 0 0,
    .deliver (.worker 1) 0 0]

theorem acquired_exclusively_wounding : ∃ node,
    (system (soleHomeEnv writerOps)).ReachableVia RecallFindsHolder node ∧
    (node.record 1 3).map OpRecord.stillNeeded = some [8, 7] ∧ node.AcquiredExclusively := by
  have observed : ((system (soleHomeEnv writerOps)).execVia (recallFinds fun _ => true)
      (new fun _ => none) woundingRun).map
      (fun node => (node.record 1 3).map OpRecord.stillNeeded) = some (some [8, 7]) := by
    decide +kernel
  rcases Option.map_eq_some_iff.mp observed with ⟨node, executed, needed⟩
  have reached : (system (soleHomeEnv writerOps)).ReachableVia RecallFindsHolder node := by
    refine System.reachableVia_of_execVia ?_ ⟨_, rfl⟩ executed
    intro state label finds sender receiver hint datumId reply delivers first
    rcases recallFinds_sound finds sender receiver hint datumId reply delivers first with
      ⟨opId, record, found, holds, _⟩
    exact ⟨opId, record, found, holds⟩
  exact ⟨node, reached, needed, acquired_exclusively (soleHomeEnv_standalone writerOps) reached⟩

end Node

/-! ## Commits -/

def Effect.toCommit : Effect → Option (DatumId × List DatumId × List StagedWrite)
  | .committed opId datumIds writes => some (opId, datumIds, writes)
  | _ => none

theorem Effect.mem_of_toCommit {effects : List Effect} {opId : DatumId} {datumIds : List DatumId}
    {writes : List StagedWrite}
    (commits : (opId, datumIds, writes) ∈ effects.filterMap Effect.toCommit) :
    .committed opId datumIds writes ∈ effects := by
  rcases List.mem_filterMap.mp commits with ⟨effect, effectMem, isCommit⟩
  cases effect <;> simp_all [Effect.toCommit]

theorem Ran.committed_mem {env : Env Resident} {thread : ThreadId} {opId committedOp : DatumId}
    {record : OpRecord} {after : Option OpRecord} {effects : List Effect}
    {datumIds : List DatumId} {writes : List StagedWrite}
    (ran : Ran env thread opId record after effects)
    (commits : .committed committedOp datumIds writes ∈ effects) :
    committedOp = opId ∧ record.datumIds = datumIds ∧ record.stillNeeded = [] ∧
      record.indexUpdateState = none := by
  cases ran with
  | waiting unready => cases commits
  | failed collated fresh message => simp [Env.releases] at commits
  | committed collated fresh staged result =>
      simp only [Env.releases, List.mem_cons, reduceCtorEq, Effect.committed.injEq, false_or,
        List.mem_map, and_false, exists_false, or_false] at commits
      exact ⟨commits.1, commits.2.1.symm, collated, fresh⟩
  | settling collated fresh state dispatches counted some_ dispatched =>
      simp only [List.mem_cons, reduceCtorEq, false_or] at commits
      cases dispatched _ commits

theorem Finished.committed_mem {env : Env Resident} {opId committedOp : DatumId}
    {record : OpRecord} {after : Option OpRecord} {effects : List Effect}
    {datumIds : List DatumId} {writes : List StagedWrite}
    (finished : Finished env opId record after effects)
    (commits : .committed committedOp datumIds writes ∈ effects) :
    committedOp = opId ∧ record.datumIds = datumIds := by
  cases finished with
  | waiting state entered outstanding => cases commits
  | failed state entered settled message => simp [Env.releases] at commits
  | committed state entered settled result =>
      simp only [Env.releases, List.mem_cons, reduceCtorEq, Effect.committed.injEq,
        List.mem_map, and_false, exists_false, or_false] at commits
      exact ⟨commits.1, commits.2.1.symm⟩

/-- A commit happens when a handler has run on its last grant, or once its replies are in. -/
theorem Move.committed_mem {env : Env Resident} {thread : ThreadId}
    {locks locks' : DatumId → NativeLock Grant} {records records' : DatumId → Option OpRecord}
    {message : WorkerMessage} {effects : List Effect} {opId : DatumId} {datumIds : List DatumId}
    {writes : List StagedWrite}
    (move : Move env thread locks records message locks' records' effects)
    (commits : .committed opId datumIds writes ∈ effects) :
    datumIds = [] ∨
      (∃ datumId record, message = .acquireGranted opId datumId ∧ records opId = some record ∧
        record.datumIds = datumIds ∧ (record.stillNeeded.filter fun id => id ≠ datumId) = []) ∨
      (∃ record, records opId = some record ∧ record.datumIds = datumIds ∧
        record.indexUpdateState ≠ none) := by
  cases move with
  | runOp startedOp opName wanted payload after rest ran =>
      rcases List.mem_append.mp commits with requests | commits
      · simp at requests
      · rcases ran.committed_mem commits with ⟨_, same, collated, _⟩
        left
        exact same.symm.trans collated
  | acquire requestOp datumId requesterNode requesterThread reply =>
      rcases List.mem_append.mp commits with fired | recalled
      · rcases List.mem_map.mp fired with ⟨⟨reply, _, _⟩, _, fires⟩
        cases reply <;> cases fires
      · split at recalled
        · rename_i holder _
          simp only [List.mem_singleton, Env.sendRecall] at recalled
          split at recalled
          · cases recalled
          · split at recalled <;> cases recalled
        · cases recalled
  | grantLost grantedOp datumId gone => simp at commits
  | granted grantedOp datumId record found after effects ran =>
      rcases ran.committed_mem commits with ⟨rfl, same, collated, _⟩
      right
      left
      exact ⟨datumId, record, rfl, found, same, collated⟩
  | recallMissed datumId reply missed =>
      cases reply <;> simp [RecallReply.ack] at commits
  | recalled datumId reply woundedOp record found holds =>
      cases reply <;> simp [RecallReply.ack] at commits
  | release datumId =>
      rcases List.mem_map.mp commits with ⟨⟨reply, _, _⟩, _, fires⟩
      cases reply <;> cases fires
  | indexUpdateLost repliedOp target violation gone => cases commits
  | indexUpdateReplied repliedOp target violation record state found entered after effects
      finished =>
      rcases finished.committed_mem commits with ⟨rfl, same⟩
      right
      right
      exact ⟨record, found, same, by simp [entered]⟩
  | existsCheckLost repliedOp target answer gone => cases commits
  | existsCheckReplied repliedOp target answer record state found entered after effects
      finished =>
      rcases List.mem_append.mp commits with tracked | commits
      · simp at tracked
      · rcases finished.committed_mem commits with ⟨rfl, same⟩
        right
        right
        exact ⟨record, found, same, by simp [entered]⟩
  | indexUpdate target updatedOp indexKind payload reply violation =>
      cases reply <;> simp [IndexUpdateReply.respond] at commits
  | existsCheck datumId checkedOp reply answer =>
      cases reply <;> simp [ExistsReply.respond] at commits
  | evictNonNative isNative => cases commits
  | indexQuery target indexKind query result => simp at commits
  | indexExecute target indexKind payload result => simp at commits

namespace Node

variable {env : Env Resident}

/-- Exclusion together with the coverage of records past their collection phase. -/
structure CommitInvariant (env : Env Resident) (node : Node Resident) : Prop where
  exclusion : Exclusion env node
  covered : Covered (node.view env)

theorem not_recallSettling {node : Node Resident} {label : NodeLabel} {event : Event}
    (exclusion : Exclusion env node) (finds : node.RecallFindsCollating label)
    (explained : event = .regular ∨ event = .recallCollating ∨
      ∃ sender receiver hint message, label = .deliver sender receiver hint ∧
        node.inFlight.find? (between sender receiver) = some ⟨sender, receiver, message⟩ ∧
        Explains node receiver message event) : event ≠ .recallSettling := by
  rintro rfl
  rcases explained with impossible | impossible | ⟨sender, receiver, hint, message, delivers,
    first, datumId, reply, opId, record, rfl, found, holds, entered⟩
  · cases impossible
  · cases impossible
  · rcases finds sender receiver hint datumId reply delivers first with
      ⟨other, otherRecord, otherFound, otherHolds, fresh⟩
    rcases exclusion.unique receiver receiver opId other record otherRecord datumId found
      otherFound holds otherHolds with ⟨_, rfl⟩
    rw [found, Option.some.injEq] at otherFound
    subst otherFound
    exact entered fresh

theorem commitInvariant_step (standalone : env.Standalone) {node next : Node Resident}
    {label : NodeLabel} (invariant : CommitInvariant env node)
    (finds : node.RecallFindsCollating label) (stepped : step env node label = some next) :
    CommitInvariant env next where
  exclusion := exclusion_step standalone invariant.exclusion finds.findsHolder stepped
  covered := by
    rcases refines_step standalone invariant.exclusion.routed stepped with
      same | ⟨event, taken, explained⟩
    · rw [same]
      exact invariant.covered
    · exact invariant.covered.step taken
        (not_recallSettling invariant.exclusion finds explained)

theorem holder_of_view {node : Node Resident} {datumId : DatumId} {thread : ThreadId}
    {opId : DatumId} (held : ((node.view env).locks datumId).holder = some (thread, opId)) :
    ∃ holder, (node.lock env datumId).currentHolder = some holder ∧ holder.opId = opId := by
  simp only [view, NativeLock.view, Option.map_eq_some_iff, Prod.mk.injEq] at held
  rcases held with ⟨holder, isHolder, _, sameOp⟩
  exact ⟨holder, isHolder, sameOp⟩

theorem CommitInvariant.commitsLocked (standalone : env.Standalone) {node : Node Resident}
    (invariant : CommitInvariant env node) (label : NodeLabel) :
    node.CommitsLocked env label := by
  intro opId datumIds writes commits datumId wanted
  cases label with
  | deliver sender receiver hint =>
      simp only [effects] at commits
      cases first : node.inFlight.find? (between sender receiver) with
      | none => simp [first] at commits
      | some packet =>
          rw [first] at commits
          have endpoints : packet.receiver = receiver := by
            have matching := List.find?_some first
            simp only [between, Bool.and_eq_true, decide_eq_true_eq] at matching
            exact matching.2
          have inFlight := List.mem_of_find?_eq_some first
          have routed := invariant.exclusion.routed.packets packet inFlight
          have move := Env.handle_move standalone receiver hint routed.not_remote
            (node.workers receiver) node.store
          rcases invariant.exclusion.exclusive datumId with ⟨custody, tracks⟩
          rcases move.committed_mem commits with rfl |
            ⟨granted, record, isGrant, found, rfl, collated⟩ | ⟨record, found, rfl, entered⟩
          · cases wanted
          · have ticket := view_tickets env found
            rcases invariant.covered receiver opId record.view ticket datumId wanted with
              acquired | ⟨needed, _⟩
            · exact holder_of_view (tracks.holder_of_acquired ticket acquired)
            · have last : datumId = granted := by
                by_contra different
                have stays : datumId ∈ record.stillNeeded.filter fun id => id ≠ granted :=
                  List.mem_filter.mpr ⟨needed, by simpa using different⟩
                rw [collated] at stays
                cases stays
              subst last
              have granting : Signal.grant receiver opId datumId ∈ (node.view env).signals := by
                refine Multiset.mem_coe.mpr (List.mem_filterMap.mpr ⟨packet, inFlight, ?_⟩)
                simp [Packet.signal, isGrant, endpoints]
              exact holder_of_view (tracks.holder_of_granted granting)
          · have ticket := view_tickets env found
            rcases invariant.covered receiver opId record.view ticket datumId wanted with
              acquired | ⟨_, fresh⟩
            · exact holder_of_view (tracks.holder_of_acquired ticket acquired)
            · simp only [OpRecord.view, Option.map_eq_none_iff] at fresh
              exact absurd fresh entered
  | submit thread opId opName datumIds payload => simp [effects] at commits
  | indexQuery target indexKind query => simp [effects] at commits
  | indexExecute target indexKind payload => simp [effects] at commits
  | existsCheck checked => simp [effects] at commits

/-- In every run whose recalls all find the datum they recall with an op that has not run yet, an op
commits only while it holds the locks of all its datums. -/
theorem commits_locked (standalone : env.Standalone) {node : Node Resident}
    (reached : (system env).ReachableVia RecallFindsCollating node) (label : NodeLabel) :
    node.CommitsLocked env label := by
  have invariant : CommitInvariant env node := by
    apply reached.induction
    · rintro _ ⟨store, rfl⟩
      exact ⟨exclusion_new store, covered_new store⟩
    · intro state label next holds finds stepped
      exact commitInvariant_step standalone holds finds stepped
  exact invariant.commitsLocked standalone label

theorem commits_locked_wounding : ∃ node,
    (system (soleHomeEnv writerOps)).ReachableVia RecallFindsCollating node ∧
    (node.effects (soleHomeEnv writerOps) (.deliver (.worker 0) 2 0)).filterMap
      Effect.toCommit = [(1, [7], [⟨7, some [1], 1⟩])] ∧
    node.CommitsLocked (soleHomeEnv writerOps) (.deliver (.worker 0) 2 0) := by
  have observed : ((system (soleHomeEnv writerOps)).execVia
      (recallFinds fun record => record.indexUpdateState.isNone) (new fun _ => none)
      woundingRun).map (fun node =>
        (node.effects (soleHomeEnv writerOps) (.deliver (.worker 0) 2 0)).filterMap
          Effect.toCommit) = some [(1, [7], [⟨7, some [1], 1⟩])] := by
    decide +kernel
  rcases Option.map_eq_some_iff.mp observed with ⟨node, executed, commits⟩
  have reached : (system (soleHomeEnv writerOps)).ReachableVia RecallFindsCollating node := by
    refine System.reachableVia_of_execVia ?_ ⟨_, rfl⟩ executed
    intro state label finds sender receiver hint datumId reply delivers first
    rcases recallFinds_sound finds sender receiver hint datumId reply delivers first with
      ⟨opId, record, found, holds, fresh⟩
    exact ⟨opId, record, found, holds, by simpa using fresh⟩
  exact ⟨node, reached, commits, commits_locked (soleHomeEnv_standalone writerOps) reached _⟩

/-- Op 3 has written datum 7 and waits for its index update when op 1 recalls the datum; it is
granted to op 1 before the update is answered. -/
def lateRecallRun : List NodeLabel :=
  [.submit 2 1 "write" [7, 8] [], .submit 1 3 "index" [7] [], .deliver .client 1 0,
    .deliver (.worker 1) 0 0, .deliver (.worker 0) 1 0, .deliver .client 2 0,
    .deliver (.worker 2) 0 0, .deliver (.worker 0) 1 0, .deliver (.worker 1) 0 0,
    .deliver (.worker 1) 0 0]

theorem commits_unlocked : ∃ node,
    (system (soleHomeEnv writerOps)).exec (new fun _ => none) lateRecallRun = some node ∧
    (system (soleHomeEnv writerOps)).Reachable node ∧
    .committed 3 [7] [⟨7, some [1], 1⟩] ∈
      node.effects (soleHomeEnv writerOps) (.deliver (.worker 0) 1 0) ∧
    (node.lock (soleHomeEnv writerOps) 7).currentHolder = some ⟨0, 2, 1⟩ ∧
    ¬node.CommitsLocked (soleHomeEnv writerOps) (.deliver (.worker 0) 1 0) := by
  have observed : ((system (soleHomeEnv writerOps)).exec (new fun _ => none) lateRecallRun).map
      (fun node => ((node.effects (soleHomeEnv writerOps)
          (.deliver (.worker 0) 1 0)).filterMap Effect.toCommit,
        (node.lock (soleHomeEnv writerOps) 7).currentHolder)) =
      some ([(3, [7], [⟨7, some [1], 1⟩])], some ⟨0, 2, 1⟩) := by
    decide +kernel
  rcases Option.map_eq_some_iff.mp observed with ⟨node, executed, seen⟩
  simp only [Prod.mk.injEq] at seen
  rcases seen with ⟨commits, held⟩
  have committed : Effect.committed 3 [7] [⟨7, some [1], 1⟩] ∈
      node.effects (soleHomeEnv writerOps) (.deliver (.worker 0) 1 0) := by
    apply Effect.mem_of_toCommit
    rw [commits]
    exact List.mem_singleton_self _
  refine ⟨node, executed, System.reachable_of_exec ⟨_, rfl⟩ executed, committed, held, ?_⟩
  intro locked
  rcases locked 3 [7] _ committed 7 (by simp) with ⟨holder, isHolder, sameOp⟩
  rw [held, Option.some.injEq] at isHolder
  subst isHolder
  exact absurd sameOp (by decide)

end Node

end Seisin
