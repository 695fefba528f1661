import Seisin.Node.Routing
import Seisin.Lib.WoundWait.Exclusion
import Seisin.Lib.WoundWait.Progress

/-!
# A node runs the wound-wait protocol

The view of a node forgets the content of its messages, records and locks and keeps what collation
depends on.  Every step of a node either leaves its view alone (a client's question, an index
update on its way) or is a step of the protocol, and the steps that correspond to the two harmful
recalls are told apart by what the receiving thread finds in its op records.
-/

namespace Seisin

open WoundWait

variable {Resident : Type}

abbrev CollationSignal := Signal ThreadId DatumId DatumId

def NativeLock.view (lock : NativeLock Grant) : Lock ThreadId DatumId where
  holder := lock.currentHolder.map fun holder => (holder.threadId, holder.opId)
  waiters := (lock.waiters.map fun waiter => (waiter.threadId, waiter.opId) : List _)

def OpRecord.view (record : OpRecord) : Ticket DatumId where
  wanted := record.datumIds
  needed := record.stillNeeded
  acquired := record.acquired
  pending := record.indexUpdateState.map IndexUpdateState.pending

/-- What a message means for collation. -/
def Packet.signal (packet : Packet) : Option CollationSignal :=
  match packet.message with
  | .runOp opId _ _ _ => some (.start opId)
  | .acquire opId datumId _ requesterThread _ => some (.request requesterThread opId datumId)
  | .acquireGranted opId datumId => some (.grant packet.receiver opId datumId)
  | .recall datumId _ => some (.recall packet.receiver datumId)
  | .release datumId => some (.release datumId)
  | .indexUpdate _ opId _ _ (.local inbox) => some (.settle inbox opId)
  | .indexUpdateReplied opId _ _ => some (.settle packet.receiver opId)
  | .existsCheck _ opId (.local inbox) => some (.settle inbox opId)
  | .existsCheckReplied opId _ _ => some (.settle packet.receiver opId)
  | _ => none

def Node.view (env : Env Resident) (node : Node Resident) :
    State ThreadId DatumId DatumId where
  locks := fun datumId => (node.lock env datumId).view
  tickets := fun thread opId => (node.record thread opId).map OpRecord.view
  signals := (node.inFlight.filterMap Packet.signal : List CollationSignal)
  submitted := { opId | opId ∈ node.submitted }
  replied := fun opId => (node.replies.map Prod.fst).count opId
  invoked := fun opId => node.invocations.count opId

/-! ## Effects as signals -/

/-- The signals a turn of `thread` emits. -/
def emitted (thread : ThreadId) (effects : List Effect) : Multiset CollationSignal :=
  ((effects.filterMap (Effect.toPacket thread)).filterMap Packet.signal : List CollationSignal)

section Emitted

variable {env : Env Resident} {thread : ThreadId} {opId : DatumId}

@[simp]
theorem emitted_nil (thread : ThreadId) : emitted thread [] = 0 := rfl

theorem emitted_append (thread : ThreadId) (first second : List Effect) :
    emitted thread (first ++ second) = emitted thread first + emitted thread second := by
  simp [emitted]

theorem emitted_cons (thread : ThreadId) (effect : Effect) (effects : List Effect) :
    emitted thread (effect :: effects) = emitted thread [effect] + emitted thread effects :=
  emitted_append thread [effect] effects

theorem emitted_releases (env : Env Resident) (thread : ThreadId) (record : OpRecord) :
    emitted thread (env.releases record) = record.view.releases := by
  rcases record with ⟨opName, payload, datumIds, stillNeeded, acquired, state⟩
  simp only [Env.releases, Ticket.releases, OpRecord.view]
  induction acquired with
  | nil => rfl
  | cons datumId rest ih =>
      rw [List.map_cons, emitted_cons, ih]
      rfl

theorem emitted_requests (env : Env Resident) (thread : ThreadId) (opId : DatumId)
    (datumIds : List DatumId) :
    emitted thread (datumIds.map fun datumId => .send (env.home datumId)
      (.acquire opId datumId env.selfNodeId thread (.local thread))) =
      (datumIds : Multiset DatumId).map (.request thread opId) := by
  induction datumIds with
  | nil => rfl
  | cons datumId rest ih =>
      rw [List.map_cons, emitted_cons, ih]
      rfl

theorem emitted_dispatches {dispatches : List Effect}
    (dispatched : ∀ effect ∈ dispatches, Dispatch thread opId effect) :
    emitted thread dispatches = Multiset.replicate dispatches.length (.settle thread opId) := by
  induction dispatches with
  | nil => rfl
  | cons effect rest ih =>
      have head : emitted thread [effect] = {.settle thread opId} := by
        cases dispatched effect List.mem_cons_self <;> rfl
      rw [emitted_cons, ih fun other otherMem => dispatched other (List.mem_cons_of_mem _ otherMem),
        head, List.length_cons, Multiset.replicate_succ, Multiset.singleton_add]

/-- The ops a turn replies to. -/
def repliedOps (effects : List Effect) : List DatumId :=
  (effects.filterMap Effect.toReply).map Prod.fst

theorem repliedOps_releases (env : Env Resident) (record : OpRecord) :
    repliedOps (env.releases record) = [] := by
  simp [repliedOps, Env.releases, Effect.toReply, List.filterMap_map, Function.comp_def]

theorem invocations_releases (env : Env Resident) (record : OpRecord) :
    (env.releases record).filterMap Effect.toInvocation = [] := by
  simp [Env.releases, Effect.toInvocation, List.filterMap_map, Function.comp_def]

theorem repliedOps_dispatches {dispatches : List Effect}
    (dispatched : ∀ effect ∈ dispatches, Dispatch thread opId effect) :
    repliedOps dispatches = [] ∧ dispatches.filterMap Effect.toInvocation = [] := by
  have silent : ∀ effect ∈ dispatches,
      effect.toReply = none ∧ effect.toInvocation = none := by
    intro effect effectMem
    cases dispatched effect effectMem <;> exact ⟨rfl, rfl⟩
  constructor
  · simpa [repliedOps, List.filterMap_eq_nil_iff] using fun effect effectMem =>
      (silent effect effectMem).1
  · simpa [List.filterMap_eq_nil_iff] using fun effect effectMem => (silent effect effectMem).2

theorem Ran.proceeds {record : OpRecord} {after : Option OpRecord} {effects : List Effect}
    (ran : Ran env thread opId record after effects) :
    ∃ replied invoked, Proceeds thread opId record.view (after.map OpRecord.view)
      (emitted thread effects) replied invoked ∧
      repliedOps effects = List.replicate replied opId ∧
      effects.filterMap Effect.toInvocation = List.replicate invoked opId := by
  cases ran with
  | waiting unready =>
      refine ⟨0, 0, .waiting ?_, rfl, rfl⟩
      simpa [OpRecord.view] using unready
  | failed collated fresh message =>
      have ended : Proceeds thread opId record.view none record.view.releases 1 1 :=
        .ended collated (by simp [OpRecord.view, fresh])
      refine ⟨1, 1, ?_, ?_, ?_⟩
      · have signals : emitted thread (.invoked opId :: .reply opId (.error message) ::
            env.releases record) = record.view.releases :=
          emitted_releases env thread record
        rw [signals]
        exact ended
      · exact congrArg (opId :: ·) (repliedOps_releases env record)
      · exact congrArg (opId :: ·) (invocations_releases env record)
  | committed collated fresh writes result =>
      have ended : Proceeds thread opId record.view none record.view.releases 1 1 :=
        .ended collated (by simp [OpRecord.view, fresh])
      refine ⟨1, 1, ?_, ?_, ?_⟩
      · have signals : emitted thread (.invoked opId :: .committed opId record.datumIds writes ::
            .reply opId (.ok result) :: env.releases record) = record.view.releases :=
          emitted_releases env thread record
        rw [signals]
        exact ended
      · exact congrArg (opId :: ·) (repliedOps_releases env record)
      · exact congrArg (opId :: ·) (invocations_releases env record)
  | settling collated fresh state dispatches counted some_ dispatched =>
      rcases repliedOps_dispatches dispatched with ⟨unreplied, uninvoked⟩
      refine ⟨0, 1, ?_, ?_, ?_⟩
      · have signals : emitted thread (.invoked opId :: dispatches) =
            Multiset.replicate state.pending (.settle thread opId) := by
          rw [counted]
          exact emitted_dispatches dispatched
        rw [signals]
        have proceeds : Proceeds thread opId record.view _ _ 0 1 :=
          .settling collated (by simp [OpRecord.view, fresh]) state.pending (by
            rw [counted]
            simpa using some_)
        exact proceeds
      · simpa [repliedOps, Effect.toReply] using unreplied
      · simpa [Effect.toInvocation] using uninvoked

theorem Finished.settles {record : OpRecord} {state : IndexUpdateState}
    {after : Option OpRecord} {effects : List Effect}
    (finished : Finished env opId { record with indexUpdateState := some state } after effects)
    (thread : ThreadId) :
    ∃ replied, Settles record.view state.pending (after.map OpRecord.view)
      (emitted thread effects) replied ∧
      repliedOps effects = List.replicate replied opId ∧
      effects.filterMap Effect.toInvocation = List.replicate 0 opId := by
  have ended : state.pending = 0 → Settles record.view state.pending none
      (record.view.releases : Multiset CollationSignal) 1 := fun settled => .ended settled
  cases finished with
  | waiting entered outstanding =>
      cases outstanding
      rename_i outstanding
      refine ⟨0, ?_, rfl, rfl⟩
      have waits : Settles record.view state.pending _ (0 : Multiset CollationSignal) 0 :=
        .waiting outstanding
      exact waits
  | failed other entered settled message =>
      cases entered
      refine ⟨1, ?_, ?_, ?_⟩
      · have signals : emitted thread (.reply opId (.error message) ::
            env.releases { record with indexUpdateState := some state }) =
            record.view.releases := emitted_releases env thread _
        rw [signals]
        exact ended settled
      · exact congrArg (opId :: ·) (repliedOps_releases env _)
      · exact invocations_releases env _
  | committed other entered settled result =>
      cases entered
      refine ⟨1, ?_, ?_, ?_⟩
      · have signals : emitted thread (.committed opId record.datumIds state.stagedWrites ::
            .reply opId (.ok result) ::
            env.releases { record with indexUpdateState := some state }) =
            record.view.releases := emitted_releases env thread _
        rw [signals]
        exact ended settled
      · exact congrArg (opId :: ·) (repliedOps_releases env _)
      · exact invocations_releases env _

/-- A tracked missing reference is one more reply to wait for. -/
theorem pending_onExistsCheckReplied (state : IndexUpdateState) (target : DatumId)
    (found : Bool) :
    (state.onExistsCheckReplied target found).1.pending =
      state.pending - 1 + (state.onExistsCheckReplied target found).2.toList.length := by
  unfold IndexUpdateState.onExistsCheckReplied
  split <;> rfl

end Emitted

/-! ## The view of a delivery -/

namespace Node

/-- The signals of the messages a turn leaves in flight. -/
def signalsOf (packets : List Packet) : Multiset CollationSignal :=
  (packets.filterMap Packet.signal : List CollationSignal)

namespace Delivery

variable {env : Env Resident} {node next : Node Resident} {sender : Sender}
  {receiver : ThreadId} {message : WorkerMessage} {rest : List Packet}
  {locks : DatumId → NativeLock Grant} {records : DatumId → Option OpRecord}
  {effects : List Effect}
  (delivery : Delivery env node sender receiver message rest locks records effects next)

include delivery

theorem view_consumed {signal : CollationSignal}
    (means : (⟨sender, receiver, message⟩ : Packet).signal = some signal) :
    (node.view env).signals = signal ::ₘ signalsOf rest := by
  have perm := delivery.consumed.filterMap Packet.signal
  simp only [List.filterMap_cons, means] at perm
  exact Multiset.coe_eq_coe.mpr perm

theorem view_unconsumed (means : (⟨sender, receiver, message⟩ : Packet).signal = none) :
    (node.view env).signals = signalsOf rest := by
  have perm := delivery.consumed.filterMap Packet.signal
  simp only [List.filterMap_cons, means] at perm
  exact Multiset.coe_eq_coe.mpr perm

theorem view_signals : (next.view env).signals = signalsOf rest + emitted receiver effects := by
  simp [view, delivery.inFlight, signalsOf, emitted]

theorem view_submitted : (next.view env).submitted = (node.view env).submitted := by
  simp [view, delivery.submitted]

theorem view_locks_same (same : locks = (node.workers receiver).lock) :
    (next.view env).locks = (node.view env).locks := by
  funext datumId
  simp only [view, delivery.lock]
  split
  · rename_i atHome
    subst atHome
    rw [same]
    rfl
  · rfl

theorem view_locks_update {datumId : DatumId} {lock : NativeLock Grant}
    (atHome : env.home datumId = receiver)
    (updated : locks = Function.update (node.workers receiver).lock datumId lock) :
    (next.view env).locks = Function.update (node.view env).locks datumId lock.view := by
  funext other
  simp only [view, delivery.lock]
  by_cases same : other = datumId
  · subst same
    simp [atHome, updated]
  · rw [Function.update_of_ne same]
    split
    · rename_i otherHome
      subst otherHome
      simp only [updated, Function.update_of_ne same]
      rfl
    · rfl

theorem view_tickets_same (same : records = node.record receiver) :
    (next.view env).tickets = (node.view env).tickets := by
  funext thread opId
  simp only [view, delivery.record, same, Function.update_eq_self]

theorem view_tickets_update {opId : DatumId} {after : Option OpRecord}
    (updated : records = Function.update (node.record receiver) opId after) :
    (next.view env).tickets = Function.update (node.view env).tickets receiver
      (Function.update ((node.view env).tickets receiver) opId (after.map OpRecord.view)) := by
  funext thread other
  rw [update_update_apply]
  simp only [view, delivery.record, updated, update_update_apply]
  split <;> rfl

theorem view_replied {opId : DatumId} {count : ℕ}
    (replied : repliedOps effects = List.replicate count opId) :
    (next.view env).replied = Function.update (node.view env).replied opId
      ((node.view env).replied opId + count) := by
  have appended : next.replies.map Prod.fst =
      node.replies.map Prod.fst ++ List.replicate count opId := by
    rw [delivery.replies, List.map_append, ← replied]
    rfl
  funext other
  simp only [view, appended, List.count_append, List.count_replicate]
  by_cases same : other = opId
  · subst same
    simp
  · have different : ¬opId = other := fun eq => same eq.symm
    simp [same, different]

theorem view_invoked {opId : DatumId} {count : ℕ}
    (invoked : effects.filterMap Effect.toInvocation = List.replicate count opId) :
    (next.view env).invoked = Function.update (node.view env).invoked opId
      ((node.view env).invoked opId + count) := by
  funext other
  simp only [view, delivery.invocations, invoked, List.count_append, List.count_replicate]
  by_cases same : other = opId
  · subst same
    simp
  · have different : ¬opId = other := fun eq => same eq.symm
    simp [same, different]

theorem view_unreplied (replied : repliedOps effects = []) :
    (next.view env).replied = (node.view env).replied := by
  have appended : next.replies.map Prod.fst = node.replies.map Prod.fst := by
    rw [delivery.replies, List.map_append]
    simpa [repliedOps] using replied
  simp only [view, appended]

theorem view_uninvoked (invoked : effects.filterMap Effect.toInvocation = []) :
    (next.view env).invoked = (node.view env).invoked := by
  simp only [view, delivery.invocations, invoked, List.append_nil]

/-- A turn that touches nothing but the messages in flight. -/
theorem view_eq (lockSame : locks = (node.workers receiver).lock)
    (recordSame : records = node.record receiver) (replied : repliedOps effects = [])
    (invoked : effects.filterMap Effect.toInvocation = []) :
    next.view env = (node.view env).withSignals (signalsOf rest + emitted receiver effects) :=
  State.ext (delivery.view_locks_same lockSame) (delivery.view_tickets_same recordSame)
    delivery.view_signals delivery.view_submitted (delivery.view_unreplied replied)
    (delivery.view_uninvoked invoked)

/-- A turn that replaces the lock of one datum. -/
theorem view_setLock {datumId : DatumId} {lock : NativeLock Grant}
    (atHome : env.home datumId = receiver)
    (updated : locks = Function.update (node.workers receiver).lock datumId lock)
    (recordSame : records = node.record receiver) (replied : repliedOps effects = [])
    (invoked : effects.filterMap Effect.toInvocation = []) :
    next.view env = ((node.view env).setLock datumId lock.view).withSignals
      (signalsOf rest + emitted receiver effects) :=
  State.ext (delivery.view_locks_update atHome updated) (delivery.view_tickets_same recordSame)
    delivery.view_signals delivery.view_submitted (delivery.view_unreplied replied)
    (delivery.view_uninvoked invoked)

/-- A turn that replaces the record of one op. -/
theorem view_setTicket {opId : DatumId} {after : Option OpRecord} {replied invoked : ℕ}
    (lockSame : locks = (node.workers receiver).lock)
    (updated : records = Function.update (node.record receiver) opId after)
    (replies : repliedOps effects = List.replicate replied opId)
    (invocations : effects.filterMap Effect.toInvocation = List.replicate invoked opId) :
    next.view env = (((node.view env).setTicket receiver opId
      (after.map OpRecord.view)).log opId replied invoked).withSignals
      (signalsOf rest + emitted receiver effects) :=
  State.ext (delivery.view_locks_same lockSame) (delivery.view_tickets_update updated)
    delivery.view_signals delivery.view_submitted (delivery.view_replied replies)
    (delivery.view_invoked invocations)

end Delivery

/-! ## Steps of a node as steps of the protocol -/

/-- What the receiver of `message` finds when its turn is one of the harmful recalls. -/
def Explains (node : Node Resident) (receiver : ThreadId) (message : WorkerMessage) :
    Event → Prop
  | .recallMissed => ∃ datumId reply, message = .recall datumId reply ∧
      ∀ opId record, node.record receiver opId = some record → datumId ∉ record.acquired
  | .recallSettling => ∃ datumId reply opId record, message = .recall datumId reply ∧
      node.record receiver opId = some record ∧ datumId ∈ record.acquired ∧
      record.indexUpdateState ≠ none
  | _ => True

section Refines

variable {env : Env Resident} {node next : Node Resident} {sender : Sender}
  {receiver : ThreadId} {rest : List Packet} {locks : DatumId → NativeLock Grant}
  {records : DatumId → Option OpRecord} {effects : List Effect}

theorem lock_of_home (env : Env Resident) (node : Node Resident) {datumId : DatumId}
    (atHome : receiver = env.home datumId) :
    (node.workers receiver).lock datumId = node.lock env datumId := by
  subst atHome
  rfl

theorem view_waiters_cons {lock : NativeLock Grant} {waiter : Waiter Grant}
    {waiters : List (Waiter Grant)} (waiting : lock.waiters = waiter :: waiters) :
    lock.view.waiters = (waiter.threadId, waiter.opId) ::ₘ
      (waiters.map fun waiter => (waiter.threadId, waiter.opId) : List (ThreadId × DatumId)) := by
  simp [NativeLock.view, waiting]

theorem view_enqueue (waiters : List (Waiter Grant)) (waiter : Waiter Grant) :
    ((NativeLock.enqueue waiters waiter).map fun waiter => (waiter.threadId, waiter.opId) :
      Multiset (ThreadId × DatumId)) = (waiter.threadId, waiter.opId) ::ₘ
        (waiters.map fun waiter => (waiter.threadId, waiter.opId) :
          List (ThreadId × DatumId)) := by
  induction waiters with
  | nil => rfl
  | cons head tail ih =>
      rw [NativeLock.enqueue_cons]
      split
      · rfl
      · rw [List.map_cons, List.map_cons, ← Multiset.cons_coe, ih, Multiset.cons_swap]
        rfl

theorem refines_acquire (routed : node.Routed env) {opId datumId : DatumId}
    {requesterNode : NodeId} {requesterThread : ThreadId} {reply : AcquireReply}
    (delivery : Delivery env node sender receiver
      (.acquire opId datumId requesterNode requesterThread reply) rest
      (Function.update (node.workers receiver).lock datumId
        (((node.workers receiver).lock datumId).request opId requesterNode requesterThread
          ⟨reply, opId, datumId⟩).1) (node.record receiver)
      ((((node.workers receiver).lock datumId).request opId requesterNode requesterThread
          ⟨reply, opId, datumId⟩).2.1.toList.map Grant.fire ++
        match (((node.workers receiver).lock datumId).request opId requesterNode requesterThread
          ⟨reply, opId, datumId⟩).2.2 with
        | .recallNeeded holder => [env.sendRecall receiver datumId holder]
        | _ => []) next) :
    Step (node.view env) .regular (next.view env) := by
  have consumedRouted : (Packet.mk sender receiver
      (.acquire opId datumId requesterNode requesterThread reply)).Routed env :=
    routed.packets _ (delivery.consumed.mem_iff.mpr List.mem_cons_self)
  rcases consumedRouted with ⟨atHome, rfl, rfl⟩
  simp only at atHome
  have consumed := delivery.view_consumed rfl
  rw [lock_of_home env node atHome] at delivery
  cases held : (node.lock env datumId).currentHolder with
  | none =>
      rw [NativeLock.request_idle (routed.locks datumId) held] at delivery
      have viewEq := delivery.view_setLock atHome.symm rfl rfl rfl rfl
      rw [viewEq]
      refine .grantFree requesterThread opId datumId _ consumed ?_ ?_
      · simp [view, NativeLock.view, held]
      · simp [view, NativeLock.view, (routed.locks datumId).idle held]
  | some holder =>
      rw [NativeLock.request_held held] at delivery
      have isHolder : ((node.view env).locks datumId).holder =
          some (holder.threadId, holder.opId) := by
        simp [view, NativeLock.view, held]
      have recalls : emitted receiver (match (if opId < holder.opId then
          AcquireOutcome.recallNeeded holder else .queued) with
          | .recallNeeded holder => [env.sendRecall receiver datumId holder]
          | _ => []) =
          if opId < holder.opId then {.recall holder.threadId datumId} else 0 := by
        have holderNode := routed.holders datumId holder held
        by_cases older : opId < holder.opId
        · simp only [older, if_true, Env.sendRecall, holderNode]
          rfl
        · simp only [older, if_false]
          rfl
      have silent : repliedOps (match (if opId < holder.opId then
          AcquireOutcome.recallNeeded holder else .queued) with
          | .recallNeeded holder => [env.sendRecall receiver datumId holder]
          | _ => []) = [] ∧ (match (if opId < holder.opId then
          AcquireOutcome.recallNeeded holder else .queued) with
          | .recallNeeded holder => [env.sendRecall receiver datumId holder]
          | _ => []).filterMap Effect.toInvocation = [] := by
        have holderNode := routed.holders datumId holder held
        by_cases older : opId < holder.opId
        · simp only [older, if_true, Env.sendRecall, holderNode]
          exact ⟨rfl, rfl⟩
        · simp only [older, if_false]
          exact ⟨rfl, rfl⟩
      have viewEq := delivery.view_setLock atHome.symm rfl rfl silent.1 silent.2
      have queued := Step.queue requesterThread opId datumId (holder.threadId, holder.opId) _
        consumed isHolder
      have lockEq : (NativeLock.mk (some holder) (NativeLock.enqueue
          (node.lock env datumId).waiters ⟨opId, env.selfNodeId, requesterThread,
            ⟨.local requesterThread, opId, datumId⟩⟩)).view =
          ⟨some (holder.threadId, holder.opId), (requesterThread, opId) ::ₘ
            ((node.view env).locks datumId).waiters⟩ := by
        simp only [NativeLock.view, Option.map_some, view, Lock.mk.injEq, true_and]
        exact view_enqueue _ _
      rw [viewEq, lockEq]
      simp only [Option.toList_none, List.map_nil, List.nil_append, recalls]
      exact queued

theorem refines_release (routed : node.Routed env) {datumId : DatumId}
    (delivery : Delivery env node sender receiver (.release datumId) rest
      (Function.update (node.workers receiver).lock datumId
        ((node.workers receiver).lock datumId).release.1) (node.record receiver)
      (((node.workers receiver).lock datumId).release.2.toList.map Grant.fire) next) :
    Step (node.view env) .regular (next.view env) := by
  have atHome : receiver = env.home datumId :=
    routed.packets ⟨sender, receiver, .release datumId⟩
      (delivery.consumed.mem_iff.mpr List.mem_cons_self)
  have consumed := delivery.view_consumed rfl
  rw [lock_of_home env node atHome] at delivery
  cases waiting : (node.lock env datumId).waiters with
  | nil =>
      rw [NativeLock.release_empty waiting] at delivery
      have viewEq := delivery.view_setLock atHome.symm rfl rfl rfl rfl
      rw [viewEq]
      have idle : ((node.view env).locks datumId).waiters = 0 := by
        simp [view, NativeLock.view, waiting]
      have released := Step.releaseLast datumId _ consumed idle
      have lockEq : (NativeLock.mk none [] : NativeLock Grant).view = ⟨none, 0⟩ := rfl
      simpa [lockEq] using released
  | cons waiter waiters =>
      rw [NativeLock.release_cons waiting] at delivery
      have waiterRouted := routed.waiters datumId waiter (by simp [waiting])
      have fired : waiter.onGranted.fire =
          .send waiter.threadId (.acquireGranted waiter.opId datumId) := by
        rw [waiterRouted.2]
        rfl
      simp only [Option.toList_some, List.map_cons, List.map_nil, fired] at delivery
      have viewEq := delivery.view_setLock atHome.symm rfl rfl rfl rfl
      rw [viewEq]
      have waitingView : ((node.view env).locks datumId).waiters = _ := view_waiters_cons waiting
      refine .handOver datumId (waiter.threadId, waiter.opId) _ _ consumed waitingView ?_
      have sorted := (routed.locks datumId).sorted
      rw [waiting, List.pairwise_cons] at sorted
      intro other otherWaiting
      rcases List.mem_map.mp (Multiset.mem_coe.mp otherWaiting) with ⟨queued, queuedMem, rfl⟩
      exact sorted.1 queued queuedMem

/-- A turn is a step of the protocol, unless it only relays or answers something. -/
theorem refines_delivery (routed : node.Routed env) {message : WorkerMessage}
    (delivery : Delivery env node sender receiver message rest locks records effects next) :
    next.view env = node.view env ∨
      ∃ event, Step (node.view env) event (next.view env) ∧ Explains node receiver message event := by
  have unchanged : (node.view env).withSignals (node.view env).signals = node.view env := rfl
  have foundView : ∀ opId record, node.record receiver opId = some record →
      (node.view env).tickets receiver opId = some record.view := by
    intro opId record found
    simp [view, found]
  cases move : delivery.move with
  | runOp opId opName datumIds payload after effects ran =>
      rcases ran.proceeds with ⟨replied, invoked, proceeds, replies, invocations⟩
      have silent : repliedOps (datumIds.map fun datumId => .send (env.home datumId)
          (.acquire opId datumId env.selfNodeId receiver (.local receiver))) = [] ∧
          (datumIds.map fun datumId => Effect.send (env.home datumId)
            (.acquire opId datumId env.selfNodeId receiver (.local receiver))).filterMap
              Effect.toInvocation = [] := by
        constructor <;>
          simp [repliedOps, Effect.toReply, Effect.toInvocation, List.filterMap_map,
            Function.comp_def]
      have viewEq := delivery.view_setTicket rfl rfl
        (by rw [← replies]; simpa [repliedOps] using silent.1)
        (by rw [← invocations]; simpa using silent.2)
      right
      refine ⟨.regular, ?_, trivial⟩
      rw [viewEq, emitted_append, emitted_requests]
      exact .start receiver opId datumIds _ _ _ replied invoked (delivery.view_consumed rfl)
        proceeds
  | acquire opId datumId requesterNode requesterThread reply =>
      right
      exact ⟨.regular, refines_acquire routed delivery, trivial⟩
  | grantLost opId datumId gone =>
      right
      refine ⟨.regular, ?_, trivial⟩
      rw [delivery.view_eq rfl rfl rfl rfl]
      refine .grantLost receiver opId datumId _ (delivery.view_consumed rfl) ?_
      simp [view, gone]
  | granted opId datumId record found after effects ran =>
      rcases ran.proceeds with ⟨replied, invoked, proceeds, replies, invocations⟩
      right
      refine ⟨.regular, ?_, trivial⟩
      rw [delivery.view_setTicket rfl rfl replies invocations]
      exact .granted receiver opId datumId record.view _ _ _ replied invoked
        (delivery.view_consumed rfl) (foundView opId record found) proceeds
  | recallMissed datumId reply missed =>
      have replyEq : reply = .local (env.home datumId) :=
        routed.packets ⟨sender, receiver, .recall datumId reply⟩
          (delivery.consumed.mem_iff.mpr List.mem_cons_self)
      subst replyEq
      right
      refine ⟨.recallMissed, ?_, datumId, _, rfl, missed⟩
      rw [delivery.view_eq rfl rfl rfl rfl]
      exact .recallMissed receiver datumId _ (delivery.view_consumed rfl)
  | recalled datumId reply opId record found holds =>
      have replyEq : reply = .local (env.home datumId) :=
        routed.packets ⟨sender, receiver, .recall datumId reply⟩
          (delivery.consumed.mem_iff.mpr List.mem_cons_self)
      subst replyEq
      have viewEq := delivery.view_setTicket rfl rfl
        (rfl : repliedOps _ = List.replicate 0 opId)
        (rfl : List.filterMap Effect.toInvocation _ = List.replicate 0 opId)
      have recalled := Step.recalled receiver opId datumId record.view _
        (delivery.view_consumed rfl) (foundView opId record found) holds
      have logged : ∀ ticket, ((node.view env).setTicket receiver opId ticket).log opId 0 0 =
          (node.view env).setTicket receiver opId ticket := by
        intro ticket
        apply State.ext <;> simp [State.log]
      rw [logged] at viewEq
      right
      refine ⟨if record.view.pending = none then .recallCollating else .recallSettling, ?_, ?_⟩
      · rw [viewEq]
        exact recalled
      · cases entered : record.indexUpdateState with
        | none => simp [OpRecord.view, entered, Explains]
        | some state =>
            simp only [OpRecord.view, entered, Option.map_some, reduceCtorEq, if_false]
            exact ⟨datumId, _, opId, record, rfl, found, holds, by simp [entered]⟩
  | release datumId =>
      right
      exact ⟨.regular, refines_release routed delivery, trivial⟩
  | indexUpdateLost opId target violation gone =>
      right
      refine ⟨.regular, ?_, trivial⟩
      rw [delivery.view_eq rfl rfl rfl rfl]
      have lost := Step.settleLost receiver opId _ (delivery.view_consumed rfl) ?_
      · simpa using lost
      · intro ticket foundTicket
        simp only [view, Option.map_eq_some_iff] at foundTicket
        rcases foundTicket with ⟨record, found, rfl⟩
        simp [OpRecord.view, gone record found]
  | indexUpdateReplied opId target violation record state found entered after effects finished =>
      rcases finished.settles receiver with ⟨replied, settles, replies, invocations⟩
      right
      refine ⟨.regular, ?_, trivial⟩
      rw [delivery.view_setTicket rfl rfl replies invocations]
      have settled := Step.settled receiver opId record.view state.pending 0 replied _ _ _
        (delivery.view_consumed rfl) (foundView opId record found)
        (by simp [OpRecord.view, entered]) settles
      simpa using settled
  | existsCheckLost opId target answer gone =>
      right
      refine ⟨.regular, ?_, trivial⟩
      rw [delivery.view_eq rfl rfl rfl rfl]
      have lost := Step.settleLost receiver opId _ (delivery.view_consumed rfl) ?_
      · simpa using lost
      · intro ticket foundTicket
        simp only [view, Option.map_eq_some_iff] at foundTicket
        rcases foundTicket with ⟨record, found, rfl⟩
        simp [OpRecord.view, gone record found]
  | existsCheckReplied opId target answer record state found entered after effects finished =>
      rcases finished.settles receiver with ⟨replied, settles, replies, invocations⟩
      let tracked := (state.onExistsCheckReplied target answer).2.toList.map
        fun update => Effect.send (env.home update.target) (.indexUpdate update.target opId
          update.indexKind update.payload (.local receiver))
      have dispatched : ∀ effect ∈ tracked, Dispatch receiver opId effect := by
        intro effect effectMem
        rcases List.mem_map.mp effectMem with ⟨update, _, rfl⟩
        exact .indexUpdate _ _ _ _
      rcases repliedOps_dispatches dispatched with ⟨unreplied, uninvoked⟩
      have counted : tracked.length =
          (state.onExistsCheckReplied target answer).2.toList.length := List.length_map _
      have viewEq := delivery.view_setTicket rfl rfl
        (show repliedOps (tracked ++ effects) = List.replicate replied opId by
          rw [← replies]
          simpa [repliedOps] using unreplied)
        (show (tracked ++ effects).filterMap Effect.toInvocation = List.replicate 0 opId by
          rw [← invocations, List.filterMap_append, uninvoked, List.nil_append])
      right
      refine ⟨.regular, ?_, trivial⟩
      rw [pending_onExistsCheckReplied, ← counted] at settles
      have settled := Step.settled receiver opId record.view state.pending tracked.length replied
        _ _ _ (delivery.view_consumed rfl) (foundView opId record found)
        (by simp [OpRecord.view, entered]) settles
      rw [viewEq, emitted_append, emitted_dispatches dispatched]
      exact settled
  | indexUpdate target opId indexKind payload reply violation =>
      have replyLocal : ∃ inbox, reply = .local inbox :=
        routed.packets ⟨sender, receiver, .indexUpdate target opId indexKind payload reply⟩
          (delivery.consumed.mem_iff.mpr List.mem_cons_self)
      rcases replyLocal with ⟨inbox, rfl⟩
      left
      rw [delivery.view_eq rfl rfl rfl rfl, ← unchanged, delivery.view_consumed rfl]
      exact congrArg _ (add_comm _ _)
  | existsCheck datumId opId reply answer =>
      have replyRouted : (∃ inbox, reply = .local inbox) ∨ reply = .sync :=
        routed.packets ⟨sender, receiver, .existsCheck datumId opId reply⟩
          (delivery.consumed.mem_iff.mpr List.mem_cons_self)
      left
      rcases replyRouted with ⟨inbox, rfl⟩ | rfl
      · rw [delivery.view_eq rfl rfl rfl rfl, ← unchanged, delivery.view_consumed rfl]
        exact congrArg _ (add_comm _ _)
      · rw [delivery.view_eq rfl rfl rfl rfl, ← unchanged, delivery.view_unconsumed rfl]
        exact congrArg _ (add_zero _)
  | evictNonNative isNative =>
      left
      rw [delivery.view_eq rfl rfl rfl rfl, ← unchanged, delivery.view_unconsumed rfl]
      exact congrArg _ (add_zero _)
  | indexQuery target indexKind query result =>
      left
      rw [delivery.view_eq rfl rfl rfl rfl, ← unchanged, delivery.view_unconsumed rfl]
      exact congrArg _ (add_zero _)
  | indexExecute target indexKind payload result =>
      left
      rw [delivery.view_eq rfl rfl rfl rfl, ← unchanged, delivery.view_unconsumed rfl]
      exact congrArg _ (add_zero _)

theorem view_post_silent (node : Node Resident) {packet : Packet}
    (silent : packet.signal = none) : (node.post packet).view env = node.view env := by
  apply State.ext
  · rfl
  · rfl
  · simp only [view, post, List.filterMap_append, List.filterMap_cons, silent,
      List.filterMap_nil, List.append_nil]
  · rfl
  · rfl
  · rfl

/-- Every step of a node is a step of the protocol or invisible to it. -/
theorem refines_step (standalone : env.Standalone) (routed : node.Routed env) {label : NodeLabel}
    (stepped : step env node label = some next) :
    next.view env = node.view env ∨
      ∃ event, Step (node.view env) event (next.view env) ∧
        (event = .regular ∨ event = .recallCollating ∨
          ∃ sender receiver hint message, label = .deliver sender receiver hint ∧
            node.inFlight.find? (between sender receiver) = some ⟨sender, receiver, message⟩ ∧
            Explains node receiver message event) := by
  cases step_spec_of_routed standalone routed stepped with
  | submit thread opId opName datumIds payload fresh =>
      right
      refine ⟨.regular, ?_, Or.inl rfl⟩
      have submitted : Step (node.view env) .regular _ := .submit opId fresh
      have viewEq : view env { node.post ⟨.client, thread, .runOp opId opName datumIds payload⟩ with
          submitted := opId :: node.submitted } =
          { node.view env with
            submitted := insert opId (node.view env).submitted
            signals := .start opId ::ₘ (node.view env).signals } := by
        apply State.ext
        · rfl
        · rfl
        · simp only [view, post, List.filterMap_append]
          exact Multiset.coe_eq_coe.mpr (List.perm_append_comm)
        · ext other
          simp [view]
        · rfl
        · rfl
      rw [viewEq]
      exact submitted
  | indexQuery target indexKind query => exact Or.inl (view_post_silent node rfl)
  | indexExecute target indexKind payload => exact Or.inl (view_post_silent node rfl)
  | existsCheck datumId => exact Or.inl (view_post_silent node rfl)
  | deliver sender receiver hint message rest locks records effects next first turn delivery =>
      rcases refines_delivery routed delivery with same | ⟨event, taken, explained⟩
      · exact Or.inl same
      · right
        refine ⟨event, taken, ?_⟩
        right
        right
        exact ⟨sender, receiver, hint, message, rfl, first, explained⟩

end Refines

end Node

end Seisin
