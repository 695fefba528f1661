import Seisin.Node.Tier

/-!
# One node in place of many

Nodes that agree on the ring can be read as one node that owns all of it: every thread of every node
is a thread of the joint node, a call over a peer link is a message, and an answer under a
correlation id is the message that the caller's callback posts.  A turn of a thread is then a turn
of its joint thread, effect for effect, because a reply goes back to the thread it was asked for by.
-/

namespace Seisin

variable {Resident : Type}

/-! ## Replies that find their caller -/

/-- The grant goes to the thread that asked. -/
def AcquireReply.Reaches (calls : List Call) (node : NodeId) (opId datumId : DatumId)
    (place : NodeId × ThreadId) : AcquireReply → Prop
  | .local inbox => place = (node, inbox)
  | .remote _ call => ∃ retries,
      calls[call]? = some ⟨place, .acquire opId datumId place.1 place.2 retries⟩

def Waiter.Filed (calls : List Call) (node : NodeId) (datumId : DatumId)
    (waiter : Waiter Grant) : Prop :=
  waiter.onGranted.opId = waiter.opId ∧ waiter.onGranted.datumId = datumId ∧
    waiter.onGranted.reply.Reaches calls node waiter.opId datumId (waiter.nodeId, waiter.threadId)

/-- A message at `node` that asks for a reply over a peer link is filed there as it is; neither a
failure nor a change of the ring is on its way. -/
def WorkerMessage.Filed (calls : List Call) (node : NodeId) : WorkerMessage → Prop
  | .acquire opId datumId requesterNode requesterThread reply =>
      reply.Reaches calls node opId datumId (requesterNode, requesterThread)
  | .recall datumId (.remote _ call) => ∃ caller, calls[call]? = some ⟨caller, .recall datumId⟩
  | .indexUpdate target opId indexKind payload (.remote _ call) =>
      ∃ caller, calls[call]? = some ⟨caller, .indexUpdate target opId indexKind payload⟩
  | .existsCheck datumId _ (.remote _ call) =>
      ∃ caller opId, calls[call]? = some ⟨caller, .existsCheck datumId opId⟩
  | .acquireFailed _ _ _ | .evictNonNative _ | .releaseLocksHeldBy _ => False
  | _ => True

/-- A request for a lock names the thread it comes from. -/
def PeerRequest.From (caller : NodeId × ThreadId) : PeerRequest → Prop
  | .acquire _ _ requesterNode requesterThread _ => (requesterNode, requesterThread) = caller
  | _ => True

def Effect.Filed (calls : List Call) (sender : NodeId × ThreadId) : Effect → Prop
  | .send _ message => message.Filed calls sender.1
  | .call _ _ request => request.From sender
  | .respond _ correlationId response => ∃ filed, calls[correlationId]? = some filed ∧
      (filed.request.Acquires → response = .granted)
  | _ => True

/-! ## What becomes of threads, messages and effects -/

namespace Joint

def thread (place : NodeId × ThreadId) : ThreadId := Nat.pair place.1 place.2

theorem thread_inj {first second : NodeId × ThreadId} :
    thread first = thread second ↔ first = second := by
  rw [thread, thread, Nat.pair_eq_pair, Prod.ext_iff]

/-- What the threads of a node are spawned with while the ring stays as it is. -/
def siteEnv (spawn : Spawn Resident) (native : DatumId → NodeId × ThreadId) (node : NodeId) :
    Env Resident :=
  ⟨node, native, fun _ => true, spawn.ops, spawn.indexKinds⟩

def env (spawn : Spawn Resident) (native : DatumId → NodeId × ThreadId) : Env Resident where
  selfNodeId := 0
  native := fun datumId => (0, thread (native datumId))
  linked := fun _ => false
  ops := spawn.ops
  indexKinds := spawn.indexKinds

theorem env_standalone (spawn : Spawn Resident) (native : DatumId → NodeId × ThreadId) :
    (env spawn native).Standalone :=
  fun _ => rfl

/-- The joint thread a call is answered to. -/
def caller (calls : List Call) (call : ℕ) : ThreadId :=
  calls[call]?.elim 0 fun filed => thread filed.caller

/-- The op a filed existence check is for. -/
def checkedFor (calls : List Call) (call : ℕ) : DatumId :=
  match calls[call]? with
  | some ⟨_, .existsCheck _ opId⟩ => opId
  | _ => 0

/-- What a message to a thread of `node` is on the joint node. -/
def message (calls : List Call) (node : NodeId) : WorkerMessage → WorkerMessage
  | .acquire opId datumId requesterNode requesterThread _ =>
      .acquire opId datumId 0 (thread (requesterNode, requesterThread))
        (.local (thread (requesterNode, requesterThread)))
  | .recall datumId (.local inbox) => .recall datumId (.local (thread (node, inbox)))
  | .recall datumId (.remote _ call) => .recall datumId (.local (caller calls call))
  | .indexUpdate target opId indexKind payload (.local inbox) =>
      .indexUpdate target opId indexKind payload (.local (thread (node, inbox)))
  | .indexUpdate target opId indexKind payload (.remote _ call) =>
      .indexUpdate target opId indexKind payload (.local (caller calls call))
  | .existsCheck datumId opId (.local inbox) =>
      .existsCheck datumId opId (.local (thread (node, inbox)))
  | .existsCheck datumId _ (.remote _ call) =>
      .existsCheck datumId (checkedFor calls call) (.local (caller calls call))
  | other => other

/-- What a request of a peer link is on the joint node. -/
def request (place : NodeId × ThreadId) : PeerRequest → WorkerMessage
  | .acquire opId datumId requesterNode requesterThread _ =>
      .acquire opId datumId 0 (thread (requesterNode, requesterThread))
        (.local (thread (requesterNode, requesterThread)))
  | .recall datumId => .recall datumId (.local (thread place))
  | .release datumId => .release datumId
  | .indexUpdate target opId indexKind payload =>
      .indexUpdate target opId indexKind payload (.local (thread place))
  | .existsCheck datumId opId => .existsCheck datumId opId (.local (thread place))

/-- What an answer of a peer link comes to. -/
def response (calls : List Call) (call : ℕ) (answer : PeerResponse) :
    Option (ThreadId × WorkerMessage) :=
  calls[call]?.bind fun filed =>
    (filed.request.callback answer).map fun posted => (thread filed.caller, posted)

/-- What an effect of a thread is on the joint node; an acknowledged release has no counterpart. -/
def effect (calls : List Call) (sender : NodeId × ThreadId) : Effect → Option Effect
  | .send receiver sent => some (.send (thread (sender.1, receiver)) (message calls sender.1 sent))
  | .call node receiver asked => some (.send (thread (node, receiver)) (request sender asked))
  | .respond _ call answer =>
      (response calls call answer).map fun posted => .send posted.1 posted.2
  | other => some other

def effects (calls : List Call) (sender : NodeId × ThreadId) (done : List Effect) : List Effect :=
  done.filterMap (effect calls sender)

def holder (holder : Holder) : Holder := ⟨0, thread (holder.nodeId, holder.threadId), holder.opId⟩

def waiter (datumId : DatumId) (waiter : Waiter Grant) : Waiter Grant :=
  ⟨waiter.opId, 0, thread (waiter.nodeId, waiter.threadId),
    ⟨.local (thread (waiter.nodeId, waiter.threadId)), waiter.opId, datumId⟩⟩

def lock (datumId : DatumId) (found : NativeLock Grant) : NativeLock Grant :=
  ⟨found.currentHolder.map holder, found.waiters.map (waiter datumId)⟩

/-- The locks of a thread and of its joint thread. -/
structure Locks (calls : List Call) (node : NodeId)
    (locks joint : AList fun _ : DatumId => NativeLock Grant) : Prop where
  lookup : ∀ datumId, joint.lookup datumId = (locks.lookup datumId).map (lock datumId)
  filed : ∀ datumId found, locks.lookup datumId = some found →
    ∀ waiter ∈ found.waiters, waiter.Filed calls node datumId

/-- A worker of the joint node: it differs in its locks only. -/
def worker (alone : Worker Resident) (locks : AList fun _ : DatumId => NativeLock Grant) :
    Worker Resident :=
  { alone with nativeLocks := locks }

/-- A turn, with what it is on the joint node. -/
structure Turns (calls : List Call) (sender : NodeId × ThreadId) (turn joint : Turn Resident) :
    Prop where
  worker : joint.worker = Joint.worker turn.worker joint.worker.nativeLocks
  locks : Locks calls sender.1 turn.worker.nativeLocks joint.worker.nativeLocks
  store : joint.store = turn.store
  effects : joint.effects = effects calls sender turn.effects
  filed : ∀ effect ∈ turn.effects, effect.Filed calls sender

variable {calls : List Call} {node : NodeId} {self : ThreadId} {spawn : Spawn Resident}
  {native : DatumId → NodeId × ThreadId} {alone : Worker Resident}
  {locks : AList fun _ : DatumId => NativeLock Grant} {store : Store}

theorem effects_append (first second : List Effect) :
    effects calls (node, self) (first ++ second) =
      effects calls (node, self) first ++ effects calls (node, self) second :=
  List.filterMap_append

/-- A turn that continues another one. -/
theorem Turns.andThen {turn joint : Turn Resident}
    {next jointNext : Worker Resident → Store → Turn Resident}
    (first : Turns calls (node, self) turn joint)
    (continued : Turns calls (node, self) (next turn.worker turn.store)
      (jointNext (Joint.worker turn.worker joint.worker.nativeLocks) turn.store)) :
    Turns calls (node, self) (turn.andThen next) (joint.andThen jointNext) := by
  have jointEq : joint.andThen jointNext =
      ⟨(jointNext joint.worker turn.store).worker, (jointNext joint.worker turn.store).store,
        joint.effects ++ (jointNext joint.worker turn.store).effects⟩ := by
    rw [← first.store]
    rfl
  rw [← first.worker] at continued
  rw [jointEq]
  refine ⟨continued.worker, continued.locks, continued.store, ?_, ?_⟩
  · rw [first.effects, continued.effects, ← effects_append]
    rfl
  · intro effect effectMem
    rcases List.mem_append.mp effectMem with earlier | later
    · exact first.filed effect earlier
    · exact continued.filed effect later

/-! ## Sends -/

/-- A single send. -/
structure Sends (calls : List Call) (sender : NodeId × ThreadId) (sent joint : Effect) : Prop where
  effect : effect calls sender sent = some joint
  filed : sent.Filed calls sender

theorem Sends.effects {sent joint : List Effect}
    (sends : List.Forall₂ (Sends calls (node, self)) sent joint) :
    effects calls (node, self) sent = joint ∧ ∀ effect ∈ sent, effect.Filed calls (node, self) := by
  induction sends with
  | nil => exact ⟨rfl, by simp⟩
  | cons head _ ih =>
      refine ⟨?_, List.forall_mem_cons.mpr ⟨head.filed, ih.2⟩⟩
      rw [← ih.1]
      exact List.filterMap_cons_some head.effect

theorem sends_map {Item : Type} {items : List Item} {sent joint : Item → Effect}
    (each : ∀ item ∈ items, Sends calls (node, self) (sent item) (joint item)) :
    List.Forall₂ (Sends calls (node, self)) (items.map sent) (items.map joint) := by
  rw [List.forall₂_map_left_iff, List.forall₂_map_right_iff]
  exact List.forall₂_same.mpr each

theorem sends_acquire (opId datumId : DatumId) (retries jointRetries : ℕ) :
    Sends calls (node, self) ((siteEnv spawn native node).sendAcquire self opId datumId retries)
      ((env spawn native).sendAcquire (thread (node, self)) opId datumId jointRetries) := by
  rw [Env.sendAcquire_standalone (env_standalone spawn native)]
  unfold Env.sendAcquire
  rcases at_ : native datumId with ⟨home, homeThread⟩
  by_cases here : home = node
  · simp only [siteEnv, at_, here, if_true]
    exact ⟨by simp [effect, message, env, Env.home, at_, here], rfl⟩
  · simp only [siteEnv, at_, here, if_false, if_true]
    exact ⟨by simp [effect, request, env, Env.home, at_], rfl⟩

theorem sends_indexUpdate (opId : DatumId) (update : PendingIndexUpdate) :
    Sends calls (node, self) ((siteEnv spawn native node).dispatchIndexUpdate self opId update)
      ((env spawn native).dispatchIndexUpdate (thread (node, self)) opId update) := by
  rw [Env.dispatchIndexUpdate_standalone (env_standalone spawn native)]
  unfold Env.dispatchIndexUpdate
  rcases at_ : native update.target with ⟨home, homeThread⟩
  by_cases here : home = node
  · simp only [siteEnv, at_, here, if_true]
    exact ⟨by simp [effect, message, env, Env.home, at_, here], trivial⟩
  · simp only [siteEnv, at_, here, if_false, if_true]
    exact ⟨by simp [effect, request, env, Env.home, at_], trivial⟩

theorem sends_existsCheck (opId target : DatumId) :
    Sends calls (node, self) ((siteEnv spawn native node).dispatchExistsCheck self opId target)
      ((env spawn native).dispatchExistsCheck (thread (node, self)) opId target) := by
  rw [Env.dispatchExistsCheck_standalone (env_standalone spawn native)]
  unfold Env.dispatchExistsCheck
  rcases at_ : native target with ⟨home, homeThread⟩
  by_cases here : home = node
  · simp only [siteEnv, at_, here, if_true]
    exact ⟨by simp [effect, message, env, Env.home, at_, here], trivial⟩
  · simp only [siteEnv, at_, here, if_false, if_true]
    exact ⟨by simp [effect, request, env, Env.home, at_], trivial⟩

theorem sends_releases (datumIds : List DatumId) (cache : Cache) :
    List.Forall₂ (Sends calls (node, self))
      ((siteEnv spawn native node).releaseDatums datumIds cache).2
      ((env spawn native).releaseDatums datumIds cache).2 := by
  rw [Env.releaseDatums_standalone (env_standalone spawn native)]
  induction datumIds with
  | nil => exact .nil
  | cons datumId datumIds ih =>
      have released : (siteEnv spawn native node).releaseDatum datumId =
          [if (native datumId).1 = node then .send (native datumId).2 (.release datumId)
            else .call (native datumId).1 (native datumId).2 (.release datumId)] := by
        unfold Env.releaseDatum
        simp only [siteEnv, if_true]
        split <;> rfl
      simp only [Env.releaseDatums, List.flatMap_cons, released, List.map_cons,
        List.singleton_append] at ih ⊢
      refine .cons ?_ ih
      by_cases here : (native datumId).1 = node
      · rw [if_pos here]
        exact ⟨by simp [effect, message, env, Env.home, ← here], trivial⟩
      · rw [if_neg here]
        exact ⟨by simp [effect, request, env, Env.home], trivial⟩

theorem sends_recall (datumId : DatumId) (held : Holder) :
    Sends calls (node, self) ((siteEnv spawn native node).sendRecall self datumId held)
      ((env spawn native).sendRecall (thread (node, self)) datumId (holder held)) := by
  unfold Env.sendRecall
  by_cases here : held.nodeId = node
  · simp only [siteEnv, here, if_true]
    exact ⟨by simp [effect, message, env, holder, here], trivial⟩
  · simp only [siteEnv, here, if_false, if_true]
    exact ⟨by simp [effect, request, env, holder], trivial⟩

/-! ## Turns that leave the locks alone -/

/-- The joint thread opens an index from the same content. -/
theorem residentFor_worker (spawn : Spawn Resident) (native : DatumId → NodeId × ThreadId)
    (node : NodeId) (alone : Worker Resident) (locks : AList fun _ : DatumId => NativeLock Grant)
    (store : Store) (target : DatumId) (indexKind : String) :
    let outcome := (siteEnv spawn native node).residentFor alone store target indexKind
    outcome.2.nativeLocks = alone.nativeLocks ∧
      (env spawn native).residentFor (worker alone locks) store target indexKind =
        (outcome.1, worker outcome.2 locks) := by
  have sameKinds : (env spawn native).indexKinds = (siteEnv spawn native node).indexKinds := rfl
  unfold Env.residentFor
  simp only [worker, sameKinds]
  cases alone.residentIndexes target with
  | some resident => exact ⟨rfl, rfl⟩
  | none =>
      rcases (siteEnv spawn native node).indexKinds.openResident alone.cache store target
        indexKind with ⟨failure | resident, cache⟩
      · exact ⟨rfl, rfl⟩
      · exact ⟨rfl, rfl⟩

section Turns

variable (joined : Locks calls node alone.nativeLocks locks)
include joined

theorem turns_silent :
    Turns calls (node, self) ⟨alone, store, []⟩ ⟨worker alone locks, store, []⟩ :=
  ⟨rfl, joined, rfl, rfl, by simp⟩

/-- Whatever else changes, effects that are the same on the joint node come first. -/
theorem turns_of_effects (first : List Effect) {after : Worker Resident} {left : Store}
    {sent jointSent : List Effect}
    (lockless : after.nativeLocks = alone.nativeLocks)
    (kept : ∀ done ∈ first, effect calls (node, self) done = some done ∧
      done.Filed calls (node, self))
    (sends : List.Forall₂ (Sends calls (node, self)) sent jointSent) :
    Turns calls (node, self) ⟨after, left, first ++ sent⟩
      ⟨worker after locks, left, first ++ jointSent⟩ := by
  rcases Sends.effects sends with ⟨same, filed⟩
  refine ⟨rfl, lockless ▸ joined, rfl, ?_, ?_⟩
  · rw [effects_append, same]
    clear sends same filed
    induction first with
    | nil => rfl
    | cons done first ih =>
        rw [List.forall_mem_cons] at kept
        rw [effects, List.filterMap_cons_some kept.1.1]
        exact congrArg _ (ih kept.2)
  · intro done doneMem
    rcases List.mem_append.mp doneMem with early | late
    · exact (kept done early).2
    · exact filed done late

theorem turns_tryRunIfReady (opId : DatumId) :
    Turns calls (node, self)
      ((siteEnv spawn native node).tryRunIfReady self opId alone store)
      ((env spawn native).tryRunIfReady (thread (node, self)) opId (worker alone locks) store) := by
  have sameOps : (env spawn native).ops = (siteEnv spawn native node).ops := rfl
  unfold Env.tryRunIfReady
  simp only [worker, sameOps]
  cases found : alone.opRecords.lookup opId with
  | none => exact turns_silent joined
  | some record =>
      dsimp only
      by_cases ready : record.stillNeeded = [] ∧ record.indexUpdateState.isNone
      · rw [if_pos ready, if_pos ready]
        generalize (siteEnv spawn native node).ops.invoke store record.opName
          (OpContext.new alone.cache) record.datumIds record.payload = invoked
        rcases invoked with ⟨ctx, failure | result⟩
        · exact turns_of_effects joined [.invoked opId, .reply opId (.error failure)] rfl
            (by simp [effect, Effect.Filed]) (sends_releases record.acquired ctx.cache)
        · by_cases quiet : ctx.pendingIndexUpdates = [] ∧ ctx.pendingExistsChecks = []
          · simp only [quiet, and_self, if_true]
            exact turns_of_effects joined [.invoked opId,
              .committed opId record.datumIds ctx.takeStagedWrites, .reply opId (.ok result)] rfl
              (by simp [effect, Effect.Filed]) (sends_releases record.acquired _)
          · simp only [quiet, if_false]
            refine turns_of_effects joined [.invoked opId] rfl
              (by simp [effect, Effect.Filed]) ?_
            exact List.rel_append (sends_map fun update _ => sends_indexUpdate opId update)
              (sends_map fun check _ => sends_existsCheck opId check.target)
      · rw [if_neg ready, if_neg ready]
        exact turns_silent joined

theorem turns_finishOpIfSettled (opId : DatumId) :
    Turns calls (node, self)
      ((siteEnv spawn native node).finishOpIfSettled opId alone store)
      ((env spawn native).finishOpIfSettled opId (worker alone locks) store) := by
  unfold Env.finishOpIfSettled
  simp only [worker]
  cases found : alone.opRecords.lookup opId with
  | none => exact turns_silent joined
  | some record =>
      dsimp only
      cases entered : record.indexUpdateState with
      | none => exact turns_silent joined
      | some state =>
          dsimp only
          by_cases settled : state.pending = 0
          · rw [if_pos settled, if_pos settled]
            cases violated : state.violation with
            | some failure =>
                exact turns_of_effects joined [.reply opId (.error failure)] rfl
                  (by simp [effect, Effect.Filed]) (sends_releases record.acquired alone.cache)
            | none =>
                exact turns_of_effects joined
                  [.committed opId record.datumIds state.stagedWrites,
                    .reply opId (.ok state.opResult)] rfl
                  (by simp [effect, Effect.Filed]) (sends_releases record.acquired _)
          · rw [if_neg settled, if_neg settled]
            exact turns_silent joined

theorem turns_handleRunOp (opId : DatumId) (opName : String) (datumIds : List DatumId)
    (payload : Bytes) :
    Turns calls (node, self)
      ((siteEnv spawn native node).handleRunOp self opId opName datumIds payload alone store)
      ((env spawn native).handleRunOp (thread (node, self)) opId opName datumIds payload
        (worker alone locks) store) := by
  unfold Env.handleRunOp
  refine Turns.andThen (turns_of_effects joined [] rfl (by simp)
    (sends_map fun datumId _ => sends_acquire opId datumId _ _)) ?_
  apply turns_tryRunIfReady
  exact joined

theorem turns_handleAcquireGranted (opId datumId : DatumId) :
    Turns calls (node, self)
      ((siteEnv spawn native node).handleAcquireGranted self opId datumId alone store)
      ((env spawn native).handleAcquireGranted (thread (node, self)) opId datumId
        (worker alone locks) store) := by
  unfold Env.handleAcquireGranted
  simp only [worker]
  cases found : alone.opRecords.lookup opId with
  | none =>
      exact turns_of_effects joined [] rfl (by simp)
        (sends_releases [datumId] alone.cache)
  | some record =>
      apply turns_tryRunIfReady
      exact joined

theorem turns_handleIndexUpdateReplied (opId : DatumId) (violation : Option String) :
    Turns calls (node, self)
      ((siteEnv spawn native node).handleIndexUpdateReplied opId violation alone store)
      ((env spawn native).handleIndexUpdateReplied opId violation (worker alone locks) store) := by
  unfold Env.handleIndexUpdateReplied
  simp only [worker]
  cases found : alone.opRecords.lookup opId with
  | none => exact turns_finishOpIfSettled joined opId
  | some record =>
      apply turns_finishOpIfSettled
      exact joined

theorem turns_handleExistsCheckReplied (opId target : DatumId) (answer : Bool) :
    Turns calls (node, self)
      ((siteEnv spawn native node).handleExistsCheckReplied self opId target answer alone store)
      ((env spawn native).handleExistsCheckReplied (thread (node, self)) opId target answer
        (worker alone locks) store) := by
  unfold Env.handleExistsCheckReplied
  simp only [worker]
  cases found : alone.opRecords.lookup opId with
  | none => exact turns_finishOpIfSettled joined opId
  | some record =>
      dsimp only
      cases entered : record.indexUpdateState with
      | none => exact turns_finishOpIfSettled joined opId
      | some state =>
          refine Turns.andThen (turns_of_effects joined [] rfl (by simp)
            (sends_map fun update _ => sends_indexUpdate opId update)) ?_
          apply turns_finishOpIfSettled
          exact joined

theorem turns_handleRecall (hint datumId : DatumId) {reply jointReply : RecallReply}
    (acks : Sends calls (node, self) (reply.ack datumId) (jointReply.ack datumId)) :
    Turns calls (node, self)
      ((siteEnv spawn native node).handleRecall self hint datumId reply alone store)
      ((env spawn native).handleRecall (thread (node, self)) hint datumId jointReply
        (worker alone locks) store) := by
  have sameWounded : (worker alone locks).wounded datumId hint = alone.wounded datumId hint := rfl
  unfold Env.handleRecall
  rw [sameWounded]
  cases chosen : alone.wounded datumId hint with
  | none => exact turns_of_effects joined [] rfl (by simp) (.cons acks .nil)
  | some opId =>
      simp only [worker]
      cases found : alone.opRecords.lookup opId with
      | none => exact turns_of_effects joined [] rfl (by simp) (.cons acks .nil)
      | some record =>
          exact turns_of_effects joined [] rfl (by simp)
            (.cons acks (.cons (sends_acquire opId datumId _ _) .nil))

theorem turns_serveIndexUpdate (target opId : DatumId) (indexKind : String) (payload : Bytes)
    {reply jointReply : IndexUpdateReply}
    (responds : ∀ violation, Sends calls (node, self) (reply.respond opId target violation)
      (jointReply.respond opId target violation)) :
    Turns calls (node, self)
      ((siteEnv spawn native node).serveIndexUpdate alone store target opId indexKind payload reply)
      ((env spawn native).serveIndexUpdate (worker alone locks) store target opId indexKind payload
        jointReply) := by
  have sameKinds : (env spawn native).indexKinds = (siteEnv spawn native node).indexKinds := rfl
  rcases residentFor_worker spawn native node alone locks store target indexKind with
    ⟨lockless, opened⟩
  unfold Env.serveIndexUpdate
  rw [opened, sameKinds]
  generalize (siteEnv spawn native node).residentFor alone store target indexKind = outcome
    at lockless ⊢
  rcases outcome with ⟨failure | resident, after⟩
  · exact turns_of_effects joined [] lockless (by simp) (.cons (responds _) .nil)
  · exact turns_of_effects joined [] lockless (by simp) (.cons (responds _) .nil)

theorem turns_serveIndexQuery (target : DatumId) (indexKind : String) (query : Bytes) :
    Turns calls (node, self)
      ((siteEnv spawn native node).serveIndexQuery alone store target indexKind query)
      ((env spawn native).serveIndexQuery (worker alone locks) store target indexKind query) := by
  have sameKinds : (env spawn native).indexKinds = (siteEnv spawn native node).indexKinds := rfl
  rcases residentFor_worker spawn native node alone locks store target indexKind with
    ⟨lockless, opened⟩
  unfold Env.serveIndexQuery
  rw [opened, sameKinds]
  generalize (siteEnv spawn native node).residentFor alone store target indexKind = outcome
    at lockless ⊢
  rcases outcome with ⟨failure | resident, after⟩
  · exact turns_of_effects joined [.answer (.error failure)] lockless
      (by simp [effect, Effect.Filed]) .nil
  · exact turns_of_effects joined [.answer _] lockless (by simp [effect, Effect.Filed]) .nil

theorem turns_serveIndexExecute (target : DatumId) (indexKind : String) (payload : Bytes) :
    Turns calls (node, self)
      ((siteEnv spawn native node).serveIndexExecute alone store target indexKind payload)
      ((env spawn native).serveIndexExecute (worker alone locks) store target indexKind
        payload) := by
  have sameKinds : (env spawn native).indexKinds = (siteEnv spawn native node).indexKinds := rfl
  rcases residentFor_worker spawn native node alone locks store target indexKind with
    ⟨lockless, opened⟩
  unfold Env.serveIndexExecute
  rw [opened, sameKinds]
  generalize (siteEnv spawn native node).residentFor alone store target indexKind = outcome
    at lockless ⊢
  rcases outcome with ⟨failure | resident, after⟩
  · exact turns_of_effects joined [.answer (.error failure)] lockless
      (by simp [effect, Effect.Filed]) .nil
  · exact turns_of_effects joined [.answer _] lockless (by simp [effect, Effect.Filed]) .nil

end Turns

/-! ## Replies -/

theorem sends_grant {datumId : DatumId} {queued : Waiter Grant}
    (filed : queued.Filed calls node datumId) :
    Sends calls (node, self) queued.onGranted.fire (waiter datumId queued).onGranted.fire := by
  rcases queued with ⟨opId, requesterNode, requesterThread, ⟨reply, grantOp, grantDatum⟩⟩
  rcases filed with ⟨sameOp, sameDatum, reaches⟩
  dsimp only at sameOp sameDatum
  subst sameOp sameDatum
  cases reply with
  | «local» inbox =>
      have asking : (requesterNode, requesterThread) = (node, inbox) := reaches
      cases asking
      exact ⟨rfl, trivial⟩
  | remote link call =>
      rcases reaches with ⟨retries, found⟩
      refine ⟨?_, _, found, fun _ => rfl⟩
      simp [Grant.fire, AcquireReply.grant, effect, response, found, PeerRequest.callback, waiter]

theorem sends_ack (self : ThreadId) {datumId : DatumId} {reply : RecallReply}
    (filed : (WorkerMessage.recall datumId reply).Filed calls node) :
    ∃ jointReply : RecallReply,
      message calls node (.recall datumId reply) = .recall datumId jointReply ∧
      Sends calls (node, self) (reply.ack datumId) (jointReply.ack datumId) := by
  cases reply with
  | «local» inbox => exact ⟨_, rfl, rfl, trivial⟩
  | remote link call =>
      rcases filed with ⟨asking, found⟩
      refine ⟨_, rfl, ?_, _, found, ?_⟩
      · simp [RecallReply.ack, effect, response, found, PeerRequest.callback, caller]
      · exact fun acquires => acquires.elim

theorem sends_indexUpdateReply (self : ThreadId) {target opId : DatumId} {indexKind : String}
    {payload : Bytes} {reply : IndexUpdateReply}
    (filed : (WorkerMessage.indexUpdate target opId indexKind payload reply).Filed calls node) :
    ∃ jointReply : IndexUpdateReply,
      message calls node (.indexUpdate target opId indexKind payload reply) =
        .indexUpdate target opId indexKind payload jointReply ∧
      ∀ violation, Sends calls (node, self) (reply.respond opId target violation)
        (jointReply.respond opId target violation) := by
  cases reply with
  | «local» inbox => exact ⟨_, rfl, fun _ => ⟨rfl, trivial⟩⟩
  | remote link call =>
      rcases filed with ⟨asking, found⟩
      refine ⟨_, rfl, fun violation => ⟨?_, _, found, ?_⟩⟩
      · simp [IndexUpdateReply.respond, effect, response, found, PeerRequest.callback, caller]
      · exact fun acquires => acquires.elim

theorem sends_existsReply (self : ThreadId) {datumId opId : DatumId} {reply : ExistsReply}
    (filed : (WorkerMessage.existsCheck datumId opId reply).Filed calls node) :
    ∃ (jointOp : DatumId) (jointReply : ExistsReply),
      message calls node (.existsCheck datumId opId reply) =
        .existsCheck datumId jointOp jointReply ∧
      ∀ answer, Sends calls (node, self) (reply.respond opId datumId answer)
        (jointReply.respond jointOp datumId answer) := by
  cases reply with
  | «local» inbox => exact ⟨_, _, rfl, fun _ => ⟨rfl, trivial⟩⟩
  | sync => exact ⟨_, _, rfl, fun _ => ⟨rfl, trivial⟩⟩
  | remote link call =>
      rcases filed with ⟨asking, askedOp, found⟩
      refine ⟨_, _, rfl, fun answer => ⟨?_, _, found, ?_⟩⟩
      · simp [ExistsReply.respond, effect, response, found, PeerRequest.callback, caller,
          checkedFor]
      · exact fun acquires => acquires.elim

/-! ## Turns of the lock manager -/

theorem lock_worker (joined : Locks calls node alone.nativeLocks locks) (datumId : DatumId) :
    (worker alone locks).lock datumId = lock datumId (alone.lock datumId) := by
  simp only [Worker.lock, worker, joined.lookup]
  cases alone.nativeLocks.lookup datumId <;> rfl

theorem filed_lock (joined : Locks calls node alone.nativeLocks locks) (datumId : DatumId) :
    ∀ waiter ∈ (alone.lock datumId).waiters, waiter.Filed calls node datumId := by
  cases found : alone.nativeLocks.lookup datumId with
  | none => simp [Worker.lock, found, NativeLock.new]
  | some held =>
      have isLock : alone.lock datumId = held := by simp [Worker.lock, found]
      rw [isLock]
      exact joined.filed datumId held found

theorem Locks.insert {alone joint : AList fun _ : DatumId => NativeLock Grant}
    (joined : Locks calls node alone joint) {datumId : DatumId} {left : NativeLock Grant}
    (filed : ∀ waiter ∈ left.waiters, waiter.Filed calls node datumId) :
    Locks calls node (alone.insert datumId left) (joint.insert datumId (lock datumId left)) where
  lookup := by
    intro other
    by_cases same : other = datumId
    · subst same
      simp
    · simp [same, joined.lookup]
  filed := by
    intro other found lookedUp
    by_cases same : other = datumId
    · subst same
      rw [AList.lookup_insert, Option.some.injEq] at lookedUp
      exact lookedUp ▸ filed
    · rw [AList.lookup_insert_ne same] at lookedUp
      exact joined.filed other found lookedUp

/-- Handing a lock to its first waiter is the same on the joint node. -/
theorem grantFront_lock (self : ThreadId) {datumId : DatumId} (found : NativeLock Grant)
    (filed : ∀ waiter ∈ found.waiters, waiter.Filed calls node datumId) :
    (lock datumId found).grantFront.1 = lock datumId found.grantFront.1 ∧
      (∀ waiter ∈ found.grantFront.1.waiters, waiter.Filed calls node datumId) ∧
      List.Forall₂ (Sends calls (node, self)) (found.grantFront.2.toList.map Grant.fire)
        ((lock datumId found).grantFront.2.toList.map Grant.fire) := by
  rcases found with ⟨held, _ | ⟨first, rest⟩⟩
  · exact ⟨rfl, filed, .nil⟩
  · exact ⟨rfl, fun waiter waiterMem => filed waiter (List.mem_cons_of_mem _ waiterMem),
      .cons (sends_grant (filed first List.mem_cons_self)) .nil⟩

theorem enqueue_map (datumId : DatumId) (waiters : List (Waiter Grant)) (queued : Waiter Grant) :
    NativeLock.enqueue (waiters.map (waiter datumId)) (waiter datumId queued) =
      (NativeLock.enqueue waiters queued).map (waiter datumId) := by
  induction waiters with
  | nil => rfl
  | cons head rest ih =>
      simp only [List.map_cons, NativeLock.enqueue_cons, ih]
      split <;> rename_i older
      · rw [if_pos (show queued.opId < head.opId from older)]
        rfl
      · rw [if_neg (show ¬queued.opId < head.opId from older)]
        rfl

/-- A turn that replaces one lock. -/
theorem turns_setLock (alone : Worker Resident)
    (joined : Locks calls node alone.nativeLocks locks) {datumId : DatumId}
    {left jointLeft : NativeLock Grant} {sent jointSent : List Effect}
    (same : jointLeft = lock datumId left)
    (filed : ∀ waiter ∈ left.waiters, waiter.Filed calls node datumId)
    (sends : List.Forall₂ (Sends calls (node, self)) sent jointSent) :
    Turns calls (node, self) ⟨alone.setLock datumId left, store, sent⟩
      ⟨(worker alone locks).setLock datumId jointLeft, store, jointSent⟩ := by
  rcases Sends.effects sends with ⟨sameEffects, filedEffects⟩
  subst same
  exact ⟨rfl, joined.insert filed, rfl, sameEffects.symm, filedEffects⟩

theorem request_free {found : NativeLock Grant} (free : found.currentHolder = none)
    (opId : DatumId) (requesterNode : NodeId) (requesterThread : ThreadId) (onGranted : Grant) :
    found.request opId requesterNode requesterThread onGranted =
      let queued : NativeLock Grant := ⟨none, NativeLock.enqueue found.waiters
        ⟨opId, requesterNode, requesterThread, onGranted⟩⟩
      (queued.grantFront.1, queued.grantFront.2, .grantedImmediately) := by
  rcases found with ⟨held, waiters⟩
  dsimp only at free
  subst free
  rfl

theorem turns_handleAcquire (joined : Locks calls node alone.nativeLocks locks)
    {opId datumId : DatumId} {requesterNode : NodeId} {requesterThread : ThreadId}
    {reply : AcquireReply}
    (reaches : reply.Reaches calls node opId datumId (requesterNode, requesterThread)) :
    Turns calls (node, self)
      ((siteEnv spawn native node).handleAcquire self opId datumId requesterNode requesterThread
        reply alone store)
      ((env spawn native).handleAcquire (thread (node, self)) opId datumId 0
        (thread (requesterNode, requesterThread)) (.local (thread (requesterNode, requesterThread)))
        (worker alone locks) store) := by
  let request : Waiter Grant :=
    ⟨opId, requesterNode, requesterThread, ⟨reply, opId, datumId⟩⟩
  have filed : ∀ waiter ∈ NativeLock.enqueue (alone.lock datumId).waiters request,
      waiter.Filed calls node datumId := by
    intro queued queuedMem
    rcases NativeLock.mem_enqueue.mp queuedMem with rfl | earlier
    · exact ⟨rfl, rfl, reaches⟩
    · exact filed_lock joined datumId queued earlier
  have queuedLock : ∀ held, NativeLock.mk (held.map holder)
      (NativeLock.enqueue (lock datumId (alone.lock datumId)).waiters (waiter datumId request)) =
      lock datumId ⟨held, NativeLock.enqueue (alone.lock datumId).waiters request⟩ := fun held =>
    congrArg (NativeLock.mk (held.map holder))
      (enqueue_map datumId (alone.lock datumId).waiters request)
  unfold Env.handleAcquire
  rw [lock_worker joined]
  cases held : (alone.lock datumId).currentHolder with
  | none =>
      have free : (lock datumId (alone.lock datumId)).currentHolder = none := by
        simp [lock, held]
      rw [request_free held, request_free free]
      rcases grantFront_lock self
        ⟨none, NativeLock.enqueue (alone.lock datumId).waiters request⟩ filed with
        ⟨same, kept, sends⟩
      rw [← queuedLock] at same sends
      simp only [List.append_nil]
      exact turns_setLock alone joined same kept sends
  | some holding =>
      have isHeld : (lock datumId (alone.lock datumId)).currentHolder = some (holder holding) := by
        simp [lock, held]
      rw [NativeLock.request_held held, NativeLock.request_held isHeld]
      refine turns_setLock alone joined (queuedLock (some holding)) filed ?_
      by_cases older : opId < holding.opId
      · rw [if_pos older, if_pos (show opId < (holder holding).opId from older)]
        exact .cons (sends_recall datumId holding) .nil
      · rw [if_neg older, if_neg (show ¬opId < (holder holding).opId from older)]
        exact .nil

theorem turns_handleRelease (joined : Locks calls node alone.nativeLocks locks)
    (datumId : DatumId) :
    Turns calls (node, self) (Env.handleRelease datumId alone store)
      (Env.handleRelease datumId (worker alone locks) store) := by
  unfold Env.handleRelease
  have lookedUp : (worker alone locks).nativeLocks.lookup datumId =
      (alone.nativeLocks.lookup datumId).map (lock datumId) := joined.lookup datumId
  rw [lookedUp]
  cases found : alone.nativeLocks.lookup datumId with
  | none => exact turns_of_effects joined [] rfl (by simp) .nil
  | some held =>
      rcases grantFront_lock self ⟨none, held.waiters⟩
        (joined.filed datumId held found) with ⟨same, kept, sends⟩
      exact turns_setLock { alone with cache := alone.cache.invalidate datumId } joined same kept
        sends

/-! ## Every turn -/

/-- A turn of a thread is a turn of its joint thread. -/
theorem turns_handle (joined : Locks calls node alone.nativeLocks locks) (hint : DatumId)
    {taken : WorkerMessage} (filed : taken.Filed calls node) :
    Turns calls (node, self) ((siteEnv spawn native node).handle self hint taken alone store)
      ((env spawn native).handle (thread (node, self)) hint (message calls node taken)
        (worker alone locks) store) := by
  cases taken with
  | runOp opId opName datumIds payload =>
      exact turns_handleRunOp joined opId opName datumIds payload
  | acquire opId datumId requesterNode requesterThread reply =>
      exact turns_handleAcquire joined filed
  | acquireGranted opId datumId => exact turns_handleAcquireGranted joined opId datumId
  | acquireFailed opId datumId retriesLeft => exact filed.elim
  | «recall» datumId reply =>
      rcases sends_ack self filed with ⟨jointReply, isMessage, acks⟩
      rw [isMessage]
      exact turns_handleRecall joined hint datumId acks
  | release datumId => exact turns_handleRelease joined datumId
  | evictNonNative isNative => exact filed.elim
  | releaseLocksHeldBy dead => exact filed.elim
  | indexUpdate target opId indexKind payload reply =>
      rcases sends_indexUpdateReply self filed with ⟨jointReply, isMessage, responds⟩
      rw [isMessage]
      exact turns_serveIndexUpdate joined target opId indexKind payload responds
  | indexUpdateReplied opId target violation =>
      exact turns_handleIndexUpdateReplied joined opId violation
  | indexQuery target indexKind query => exact turns_serveIndexQuery joined target indexKind query
  | indexExecute target indexKind payload =>
      exact turns_serveIndexExecute joined target indexKind payload
  | existsCheck datumId opId reply =>
      rcases sends_existsReply self filed with ⟨jointOp, jointReply, isMessage, responds⟩
      rw [isMessage]
      exact turns_of_effects joined [] rfl (by simp) (.cons (responds _) .nil)
  | existsCheckReplied opId target answer =>
      exact turns_handleExistsCheckReplied joined opId target answer

end Joint

end Seisin
