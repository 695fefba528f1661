import Seisin.Worker.Discard

/-!
# What a turn owes the ops

An op in its index-update phase counts the replies it waits for.  Every update or check sent for it
is one of them, and so is every answer on its way back: a turn that takes one of these either passes
it on or takes it off the count, and the op is answered when none is left.  A node reached over a peer
link answers under the correlation id of a call; `filed` tells what was called for.
-/

namespace Seisin

variable {Resident : Type}

/-! ## Attribution -/

namespace PeerRequest

/-- The op a call settles a part of. -/
def owes : PeerRequest → Option DatumId
  | .indexUpdate _ opId _ _ => some opId
  | .existsCheck _ opId => some opId
  | _ => none

def Acquires : PeerRequest → Prop
  | .acquire _ _ _ _ _ => True
  | _ => False

end PeerRequest

/-- The op a message settles a part of. -/
def WorkerMessage.owes (filed : ℕ → Option PeerRequest) : WorkerMessage → Option DatumId
  | .indexUpdate _ opId _ _ (.local _) => some opId
  | .indexUpdate _ _ _ _ (.remote _ correlationId) => (filed correlationId).bind PeerRequest.owes
  | .existsCheck _ opId (.local _) => some opId
  | .existsCheck _ _ (.remote _ correlationId) => (filed correlationId).bind PeerRequest.owes
  | .indexUpdateReplied opId _ _ => some opId
  | .existsCheckReplied opId _ _ => some opId
  | _ => none

/-- The op a message is an answer for. -/
def WorkerMessage.settles : WorkerMessage → Option DatumId
  | .indexUpdateReplied opId _ _ => some opId
  | .existsCheckReplied opId _ _ => some opId
  | _ => none

/-- The op a message starts. -/
def WorkerMessage.starts : WorkerMessage → Option DatumId
  | .runOp opId _ _ _ => some opId
  | _ => none

/-- The messages threads send to each other; the others come from a client's handler. -/
def WorkerMessage.Internal : WorkerMessage → Prop
  | .runOp _ _ _ _ | .indexQuery _ _ _ | .indexExecute _ _ _ | .existsCheck _ _ .sync => False
  | _ => True

def Effect.owes (filed : ℕ → Option PeerRequest) : Effect → Option DatumId
  | .send _ message => message.owes filed
  | .call _ _ request => request.owes
  | .respond _ correlationId _ => (filed correlationId).bind PeerRequest.owes
  | _ => none

/-- How many effects settle a part of an op. -/
def owed (filed : ℕ → Option PeerRequest) (opId : DatumId) (effects : List Effect) : ℕ :=
  effects.countP fun effect => effect.owes filed = some opId

/-- The replies the op of a record waits for, once it has run. -/
def OpRecord.awaits (record : OpRecord) : Option ℕ :=
  record.indexUpdateState.map IndexUpdateState.pending

def Worker.awaits (worker : Worker Resident) (opId : DatumId) : Option (Option ℕ) :=
  (worker.record opId).map OpRecord.awaits

/-- The replies outstanding for an op, none if it has no record or has not run. -/
def outstanding (awaits : Option (Option ℕ)) : ℕ := (awaits.bind id).getD 0

/-! ## Soundness of messages and effects -/

section Sound

variable (filed : ℕ → Option PeerRequest) (runs : DatumId → NodeId × ThreadId → Prop)

/-- Answers come back to the thread that runs the op, and a correlation id is that of a call of the
same kind. -/
def WorkerMessage.Sound (receiver : NodeId × ThreadId) : WorkerMessage → Prop
  | .runOp opId _ _ _ => runs opId receiver
  | .acquire _ _ _ _ (.remote _ correlationId) =>
      ∃ request, filed correlationId = some request ∧ request.Acquires
  | .acquireFailed _ _ _ => False
  | .recall _ (.remote _ correlationId) => ∃ datumId, filed correlationId = some (.recall datumId)
  | .indexUpdate _ opId _ _ (.local thread) => runs opId (receiver.1, thread)
  | .indexUpdate _ opId _ _ (.remote _ correlationId) =>
      ∃ request, filed correlationId = some request ∧ request.owes = some opId
  | .existsCheck _ opId (.local thread) => runs opId (receiver.1, thread)
  | .existsCheck _ _ (.remote _ correlationId) =>
      ∃ request opId, filed correlationId = some request ∧ request.owes = some opId
  | .indexUpdateReplied opId _ _ => runs opId receiver
  | .existsCheckReplied opId _ _ => runs opId receiver
  | _ => True

def Effect.Sound (sender : NodeId × ThreadId) : Effect → Prop
  | .send receiver message =>
      message.Sound filed runs (sender.1, receiver) ∧ message.Internal
  | .call _ _ request => ∀ opId, request.owes = some opId → runs opId sender
  | .respond _ correlationId response =>
      ∃ request, filed correlationId = some request ∧ (request.Acquires → response = .granted)
  | .reply opId _ => runs opId sender
  | _ => True

/-- A grant that is to go over a peer link answers a call for it. -/
def Grant.Sound (grant : Grant) : Prop :=
  match grant.reply with
  | .local _ => True
  | .remote _ correlationId => ∃ request, filed correlationId = some request ∧ request.Acquires

def NativeLock.Sound (lock : NativeLock Grant) : Prop :=
  ∀ waiter ∈ lock.waiters, waiter.onGranted.Sound filed

end Sound

/-! ## Kinds of effects -/

/-- An effect of lock collation. -/
def Effect.Collates (filed : ℕ → Option PeerRequest) : Effect → Prop
  | .send _ (.acquire _ _ _ _ (.local _)) | .send _ (.acquireGranted _ _) => True
  | .send _ (.recall _ (.local _)) | .send _ (.release _) => True
  | .call _ _ (.acquire _ _ _ _ _) | .call _ _ (.recall _) | .call _ _ (.release _) => True
  | .respond _ correlationId response =>
      ∃ request, filed correlationId = some request ∧ request.owes = none ∧
        (request.Acquires → response = .granted)
  | _ => False

/-- An index update or existence check sent for an op by the thread that runs it. -/
inductive Effect.Dispatches (thread : ThreadId) (opId : DatumId) : Effect → Prop where
  | indexUpdate (receiver : ThreadId) (target : DatumId) (indexKind : String) (payload : Bytes) :
      Dispatches thread opId
        (.send receiver (.indexUpdate target opId indexKind payload (.local thread)))
  | indexUpdateCall (node : NodeId) (receiver : ThreadId) (target : DatumId) (indexKind : String)
      (payload : Bytes) :
      Dispatches thread opId (.call node receiver (.indexUpdate target opId indexKind payload))
  | existsCheck (receiver : ThreadId) (target : DatumId) :
      Dispatches thread opId (.send receiver (.existsCheck target opId (.local thread)))
  | existsCheckCall (node : NodeId) (receiver : ThreadId) (target : DatumId) :
      Dispatches thread opId (.call node receiver (.existsCheck target opId))

section Kinds

variable {filed : ℕ → Option PeerRequest} {runs : DatumId → NodeId × ThreadId → Prop}
  {effect : Effect} {effects : List Effect} {thread : ThreadId} {opId : DatumId}

theorem PeerRequest.Acquires.owes_eq {request : PeerRequest} (acquires : request.Acquires) :
    request.owes = none := by
  cases request <;> first | rfl | cases acquires

theorem WorkerMessage.Internal.starts {message : WorkerMessage} (internal : message.Internal) :
    message.starts = none := by
  cases message <;> first | rfl | cases internal

theorem WorkerMessage.owes_of_settles {message : WorkerMessage}
    (settles : message.settles = some opId) : message.owes filed = some opId := by
  cases message <;> first | exact settles | cases settles

theorem Effect.Collates.owes_eq (collates : effect.Collates filed) : effect.owes filed = none := by
  unfold Effect.Collates at collates
  split at collates <;> try rfl
  · rcases collates with ⟨request, found, unowed, _⟩
    simp [Effect.owes, found, unowed]
  · cases collates

theorem Effect.Collates.sound (collates : effect.Collates filed) (sender : NodeId × ThreadId) :
    effect.Sound filed runs sender := by
  unfold Effect.Collates at collates
  split at collates <;> try trivial
  · intro opId impossible
    cases impossible
  · intro opId impossible
    cases impossible
  · intro opId impossible
    cases impossible
  · rcases collates with ⟨request, found, _, granted⟩
    exact ⟨request, found, granted⟩

theorem Effect.Dispatches.owes_eq (dispatches : effect.Dispatches thread opId) :
    effect.owes filed = some opId := by
  cases dispatches <;> rfl

theorem Effect.Dispatches.sound {node : NodeId} (dispatches : effect.Dispatches thread opId)
    (runsHere : runs opId (node, thread)) : effect.Sound filed runs (node, thread) := by
  cases dispatches with
  | indexUpdate receiver target indexKind payload => exact ⟨runsHere, trivial⟩
  | indexUpdateCall owner receiver target indexKind payload =>
      rintro other ⟨⟩
      exact runsHere
  | existsCheck receiver target => exact ⟨runsHere, trivial⟩
  | existsCheckCall owner receiver target =>
      rintro other ⟨⟩
      exact runsHere

end Kinds

/-! ## What becomes of an op -/

/-- What becomes of what an op waits for when a thread tries to run or to finish it. -/
inductive OpFate (filed : ℕ → Option PeerRequest) (thread : ThreadId) (opId : DatumId) :
    Option (Option ℕ) → Option (Option ℕ) → List Effect → Prop where
  | stays (awaits : Option (Option ℕ)) (unsettled : awaits ≠ some (some 0)) :
      OpFate filed thread opId awaits awaits []
  | ends (awaits : Option (Option ℕ)) (done : outstanding awaits = 0) (notes : List Effect)
      (noted : ∀ note ∈ notes, note = .invoked opId ∨ ∃ ids writes, note = .committed opId ids writes)
      (result : Except String Bytes) (releases : List Effect)
      (collates : ∀ effect ∈ releases, effect.Collates filed) :
      OpFate filed thread opId awaits none (notes ++ .reply opId result :: releases)
  | settles (dispatches : List Effect) (nonempty : dispatches ≠ [])
      (dispatched : ∀ effect ∈ dispatches, effect.Dispatches thread opId) :
      OpFate filed thread opId (some none) (some (some dispatches.length))
        (.invoked opId :: dispatches)

/-- One turn of a thread, by the message it takes: what the ops of the thread wait for before and
after, and the effects. -/
inductive Accounts (filed : ℕ → Option PeerRequest) (thread : ThreadId)
    (before : DatumId → Option (Option ℕ)) :
    WorkerMessage → (DatumId → Option (Option ℕ)) → List Effect → Prop where
  | collation (message : WorkerMessage) (unowed : message.owes filed = none)
      (effects : List Effect) (collates : ∀ effect ∈ effects, effect.Collates filed) :
      Accounts filed thread before message before effects
  | runOp (opId : DatumId) (opName : String) (datumIds : List DatumId) (payload : Bytes)
      (acquires : List Effect) (collates : ∀ effect ∈ acquires, effect.Collates filed)
      (after : Option (Option ℕ)) (effects : List Effect)
      (fate : OpFate filed thread opId (some none) after effects) :
      Accounts filed thread before (.runOp opId opName datumIds payload)
        (Function.update before opId after) (acquires ++ effects)
  | granted (opId datumId : DatumId) (awaits : Option ℕ) (found : before opId = some awaits)
      (after : Option (Option ℕ)) (effects : List Effect)
      (fate : OpFate filed thread opId (some awaits) after effects) :
      Accounts filed thread before (.acquireGranted opId datumId)
        (Function.update before opId after) effects
  | replied (message : WorkerMessage) (opId : DatumId) (settles : message.settles = some opId)
      (pending : ℕ) (found : before opId = some (some pending)) (dispatches : List Effect)
      (dispatched : ∀ effect ∈ dispatches, effect.Dispatches thread opId)
      (after : Option (Option ℕ)) (effects : List Effect)
      (fate : OpFate filed thread opId (some (some (pending - 1 + dispatches.length))) after effects) :
      Accounts filed thread before message (Function.update before opId after)
        (dispatches ++ effects)
  | lost (message : WorkerMessage) (opId : DatumId) (settles : message.settles = some opId)
      (gone : outstanding (before opId) = 0) : Accounts filed thread before message before []
  | indexUpdate (target opId : DatumId) (indexKind : String) (payload : Bytes)
      (reply : IndexUpdateReply) (violation : Option String) :
      Accounts filed thread before (.indexUpdate target opId indexKind payload reply) before
        [reply.respond opId target violation]
  | existsCheck (datumId opId : DatumId) (reply : ExistsReply) (found : Bool) :
      Accounts filed thread before (.existsCheck datumId opId reply) before
        [reply.respond opId datumId found]
  | indexQuery (target : DatumId) (indexKind : String) (query : Bytes)
      (result : Except String Bytes) :
      Accounts filed thread before (.indexQuery target indexKind query) before [.answer result]
  | indexExecute (target : DatumId) (indexKind : String) (payload : Bytes)
      (result : Except String Bytes) :
      Accounts filed thread before (.indexExecute target indexKind payload) before
        [.answer result]

section Owed

variable (filed : ℕ → Option PeerRequest) (opId : DatumId)

@[simp]
theorem owed_nil : owed filed opId [] = 0 := rfl

theorem owed_cons (effect : Effect) (effects : List Effect) :
    owed filed opId (effect :: effects) =
      owed filed opId effects + if effect.owes filed = some opId then 1 else 0 := by
  simp [owed, List.countP_cons]

theorem owed_append (front back : List Effect) :
    owed filed opId (front ++ back) = owed filed opId front + owed filed opId back :=
  List.countP_append

variable {filed opId} {effects : List Effect}

theorem owed_eq_zero (unowed : ∀ effect ∈ effects, effect.owes filed ≠ some opId) :
    owed filed opId effects = 0 := by
  rw [owed, List.countP_eq_zero]
  intro effect effectMem
  simpa using unowed effect effectMem

theorem owed_of_collates (collates : ∀ effect ∈ effects, effect.Collates filed) :
    owed filed opId effects = 0 := by
  apply owed_eq_zero
  intro effect effectMem
  rw [(collates effect effectMem).owes_eq]
  simp

theorem owed_of_dispatches {thread : ThreadId}
    (dispatched : ∀ effect ∈ effects, effect.Dispatches thread opId) :
    owed filed opId effects = effects.length := by
  rw [owed, List.countP_eq_length]
  intro effect effectMem
  simp [(dispatched effect effectMem).owes_eq]

theorem owed_of_dispatches_ne {thread : ThreadId} {other : DatumId} (differ : other ≠ opId)
    (dispatched : ∀ effect ∈ effects, effect.Dispatches thread other) :
    owed filed opId effects = 0 := by
  apply owed_eq_zero
  intro effect effectMem
  rw [(dispatched effect effectMem).owes_eq]
  simpa using differ

end Owed

namespace OpFate

variable {filed : ℕ → Option PeerRequest} {thread : ThreadId} {opId : DatumId}
  {before after : Option (Option ℕ)} {effects : List Effect}

theorem owed_note {notes : List Effect} (noted : ∀ note ∈ notes, note = .invoked opId ∨
    ∃ ids writes, note = .committed opId ids writes) (other : DatumId) :
    owed filed other notes = 0 := by
  apply owed_eq_zero
  intro note noteMem
  rcases noted note noteMem with rfl | ⟨ids, writes, rfl⟩
  · simp [Effect.owes]
  · simp [Effect.owes]

/-- What the op waits for grows by what is sent for it. -/
theorem balance (fate : OpFate filed thread opId before after effects) :
    outstanding after = outstanding before + owed filed opId effects := by
  cases fate with
  | stays => rfl
  | ends _ done notes noted result releases collates =>
      rw [owed_append, owed_cons, owed_note noted, owed_of_collates collates, done]
      rfl
  | settles dispatches nonempty dispatched =>
      rw [owed_cons, owed_of_dispatches dispatched]
      simp [outstanding, Effect.owes]

/-- An op that waits for no more replies is answered. -/
theorem unsettled (fate : OpFate filed thread opId before after effects) :
    after ≠ some (some 0) := by
  cases fate with
  | stays _ unsettled => exact unsettled
  | ends => simp
  | settles dispatches nonempty dispatched =>
      simpa using nonempty

theorem owed_other (fate : OpFate filed thread opId before after effects) {other : DatumId}
    (differ : other ≠ opId) : owed filed other effects = 0 := by
  cases fate with
  | stays => rfl
  | ends _ done notes noted result releases collates =>
      rw [owed_append, owed_cons, owed_note noted, owed_of_collates collates]
      simp [Effect.owes]
  | settles dispatches nonempty dispatched =>
      rw [owed_cons, owed_of_dispatches_ne differ.symm dispatched]
      simp [Effect.owes]

theorem sound {runs : DatumId → NodeId × ThreadId → Prop} {node : NodeId}
    (fate : OpFate filed thread opId before after effects) (runsHere : runs opId (node, thread)) :
    ∀ effect ∈ effects, effect.Sound filed runs (node, thread) := by
  intro effect effectMem
  cases fate with
  | stays => cases effectMem
  | ends _ done notes noted result releases collates =>
      rcases List.mem_append.mp effectMem with isNote | effectMem
      · rcases noted effect isNote with rfl | ⟨ids, writes, rfl⟩
        · trivial
        · trivial
      · rcases List.mem_cons.mp effectMem with rfl | isRelease
        · exact runsHere
        · exact (collates effect isRelease).sound (node, thread)
  | settles dispatches nonempty dispatched =>
      rcases List.mem_cons.mp effectMem with rfl | isDispatch
      · trivial
      · exact (dispatched effect isDispatch).sound runsHere

/-- Only the op itself is answered, and then it waits for nothing any more. -/
theorem replied (fate : OpFate filed thread opId before after effects) {other : DatumId}
    {result : Except String Bytes} (replies : .reply other result ∈ effects) :
    other = opId ∧ after = none := by
  cases fate with
  | stays => cases replies
  | ends _ done notes noted reply releases collates =>
      rcases List.mem_append.mp replies with isNote | replies
      · rcases noted _ isNote with impossible | ⟨ids, writes, impossible⟩
        · cases impossible
        · cases impossible
      · rcases List.mem_cons.mp replies with same | isRelease
        · cases same
          exact ⟨rfl, rfl⟩
        · exact (collates _ isRelease).elim
  | settles dispatches nonempty dispatched =>
      rcases List.mem_cons.mp replies with impossible | isDispatch
      · cases impossible
      · cases dispatched _ isDispatch

end OpFate

namespace Accounts

variable {filed : ℕ → Option PeerRequest} {thread : ThreadId}
  {before after : DatumId → Option (Option ℕ)} {message : WorkerMessage} {effects : List Effect}

theorem respond_owes (target opId : DatumId) (indexKind : String) (payload : Bytes)
    (reply : IndexUpdateReply) (violation : Option String) :
    (reply.respond opId target violation).owes filed =
      (WorkerMessage.indexUpdate target opId indexKind payload reply).owes filed := by
  cases reply <;> rfl

theorem respond_owes_check {datumId opId : DatumId} (reply : ExistsReply) (found : Bool) :
    (reply.respond opId datumId found).owes filed =
      (WorkerMessage.existsCheck datumId opId reply).owes filed := by
  cases reply <;> rfl

/-- A turn takes off the count of an op what it was sent, and adds what it sends for it. -/
theorem balance (accounts : Accounts filed thread before message after effects)
    (fresh : ∀ opId, message.starts = some opId → before opId = none)
    (expected : ∀ opId, message.settles = some opId → 0 < outstanding (before opId))
    (opId : DatumId) :
    outstanding (after opId) + (if message.owes filed = some opId then 1 else 0) =
      outstanding (before opId) + owed filed opId effects := by
  cases accounts with
  | collation _ unowed _ collates =>
      rw [owed_of_collates collates, unowed]
      simp
  | runOp started opName datumIds payload acquires collates after effects fate =>
      rw [owed_append, owed_of_collates collates]
      by_cases same : opId = started
      · subst same
        rw [Function.update_self, fate.balance, fresh opId rfl]
        simp [WorkerMessage.owes, outstanding]
      · rw [Function.update_of_ne same, fate.owed_other same]
        simp [WorkerMessage.owes]
  | granted grantee datumId awaits found after effects fate =>
      by_cases same : opId = grantee
      · subst same
        rw [Function.update_self, fate.balance, found]
        simp [WorkerMessage.owes]
      · rw [Function.update_of_ne same, fate.owed_other same]
        simp [WorkerMessage.owes]
  | replied _ answered settles pending found dispatches dispatched after effects fate =>
      rw [owed_append, WorkerMessage.owes_of_settles settles]
      by_cases same : opId = answered
      · subst same
        have awaited := expected opId settles
        rw [found] at awaited
        have counted : 0 < pending := awaited
        rw [Function.update_self, fate.balance, found, owed_of_dispatches dispatched]
        simp only [outstanding, Option.bind_some, id, Option.getD_some, if_true]
        omega
      · have differ : answered ≠ opId := fun eq => same eq.symm
        rw [Function.update_of_ne same, fate.owed_other same,
          owed_of_dispatches_ne differ dispatched]
        simp [differ]
  | lost _ answered settles gone =>
      have awaited := expected answered settles
      omega
  | indexUpdate target updated indexKind payload reply violation =>
      rw [owed_cons, respond_owes target updated indexKind payload]
      simp
  | existsCheck datumId checked reply found =>
      rw [owed_cons, respond_owes_check]
      simp
  | indexQuery target indexKind query result => rfl
  | indexExecute target indexKind payload result => rfl

theorem sound {runs : DatumId → NodeId × ThreadId → Prop} {node : NodeId}
    (accounts : Accounts filed thread before message after effects)
    (messageSound : message.Sound filed runs (node, thread))
    (runsHere : ∀ opId, before opId ≠ none → runs opId (node, thread)) :
    ∀ effect ∈ effects, effect.Sound filed runs (node, thread) := by
  cases accounts with
  | collation _ unowed _ collates =>
      exact fun effect effectMem => (collates effect effectMem).sound (node, thread)
  | runOp started opName datumIds payload acquires collates after effects fate =>
      intro effect effectMem
      rcases List.mem_append.mp effectMem with isAcquire | effectMem
      · exact (collates effect isAcquire).sound (node, thread)
      · exact fate.sound messageSound effect effectMem
  | granted grantee datumId awaits found after effects fate =>
      exact fate.sound (runsHere grantee (by rw [found]; simp))
  | replied _ answered settles pending found dispatches dispatched after effects fate =>
      have here := runsHere answered (by rw [found]; simp)
      intro effect effectMem
      rcases List.mem_append.mp effectMem with isDispatch | effectMem
      · exact (dispatched effect isDispatch).sound here
      · exact fate.sound here effect effectMem
  | lost => exact fun effect effectMem => nomatch effectMem
  | indexUpdate target updated indexKind payload reply violation =>
      intro effect effectMem
      cases List.mem_singleton.mp effectMem
      cases reply with
      | «local» inbox => exact ⟨messageSound, trivial⟩
      | remote link correlationId =>
          rcases messageSound with ⟨request, found, owes⟩
          refine ⟨request, found, fun acquires => ?_⟩
          rw [acquires.owes_eq] at owes
          cases owes
  | existsCheck datumId checked reply found =>
      intro effect effectMem
      cases List.mem_singleton.mp effectMem
      cases reply with
      | «local» inbox => exact ⟨messageSound, trivial⟩
      | remote link correlationId =>
          rcases messageSound with ⟨request, opId, found, owes⟩
          refine ⟨request, found, fun acquires => ?_⟩
          rw [acquires.owes_eq] at owes
          cases owes
      | sync => trivial
  | indexQuery target indexKind query result =>
      exact fun effect effectMem => List.mem_singleton.mp effectMem ▸ trivial
  | indexExecute target indexKind payload result =>
      exact fun effect effectMem => List.mem_singleton.mp effectMem ▸ trivial

theorem unsettled (accounts : Accounts filed thread before message after effects)
    (waits : ∀ opId, before opId ≠ some (some 0)) (opId : DatumId) :
    after opId ≠ some (some 0) := by
  cases accounts with
  | runOp started opName datumIds payload acquires collates after effects fate =>
      by_cases same : opId = started
      · rw [same, Function.update_self]
        exact fate.unsettled
      · rw [Function.update_of_ne same]
        exact waits opId
  | granted grantee datumId awaits found after effects fate =>
      by_cases same : opId = grantee
      · rw [same, Function.update_self]
        exact fate.unsettled
      · rw [Function.update_of_ne same]
        exact waits opId
  | replied _ answered settles pending found dispatches dispatched after effects fate =>
      by_cases same : opId = answered
      · rw [same, Function.update_self]
        exact fate.unsettled
      · rw [Function.update_of_ne same]
        exact waits opId
  | _ => exact waits opId

/-- An op that has a record had one before, or was started by the turn. -/
theorem started (accounts : Accounts filed thread before message after effects) {opId : DatumId}
    (recorded : after opId ≠ none) : before opId ≠ none ∨ message.starts = some opId := by
  cases accounts with
  | runOp started opName datumIds payload acquires collates after effects fate =>
      by_cases same : opId = started
      · exact Or.inr (congrArg some same.symm)
      · rw [Function.update_of_ne same] at recorded
        exact Or.inl recorded
  | granted grantee datumId awaits found after effects fate =>
      left
      by_cases same : opId = grantee
      · rw [same, found]
        simp
      · rwa [Function.update_of_ne same] at recorded
  | replied _ answered settles pending found dispatches dispatched after effects fate =>
      left
      by_cases same : opId = answered
      · rw [same, found]
        simp
      · rwa [Function.update_of_ne same] at recorded
  | _ => exact Or.inl recorded

/-- An op that is answered had a record or was started by the turn, and has no record after it. -/
theorem replied_op (accounts : Accounts filed thread before message after effects) {opId : DatumId}
    {result : Except String Bytes} (replies : .reply opId result ∈ effects) :
    after opId = none ∧ (before opId ≠ none ∨ message.starts = some opId) := by
  cases accounts with
  | collation _ unowed _ collates => exact (collates _ replies).elim
  | runOp started opName datumIds payload acquires collates after effects fate =>
      rcases List.mem_append.mp replies with isAcquire | replies
      · exact (collates _ isAcquire).elim
      · rcases fate.replied replies with ⟨rfl, ended⟩
        exact ⟨by rw [Function.update_self, ended], Or.inr rfl⟩
  | granted grantee datumId awaits found after effects fate =>
      rcases fate.replied replies with ⟨rfl, ended⟩
      exact ⟨by rw [Function.update_self, ended], Or.inl (by rw [found]; simp)⟩
  | replied _ answered settles pending found dispatches dispatched after effects fate =>
      rcases List.mem_append.mp replies with isDispatch | replies
      · cases dispatched _ isDispatch
      · rcases fate.replied replies with ⟨rfl, ended⟩
        exact ⟨by rw [Function.update_self, ended], Or.inl (by rw [found]; simp)⟩
  | lost => cases replies
  | indexUpdate target updated indexKind payload reply violation =>
      cases reply <;> cases List.mem_singleton.mp replies
  | existsCheck datumId checked reply found =>
      cases reply <;> cases List.mem_singleton.mp replies
  | indexQuery => cases List.mem_singleton.mp replies
  | indexExecute => cases List.mem_singleton.mp replies

end Accounts

/-! ## Grants -/

section Grants

variable {filed : ℕ → Option PeerRequest} {lock : NativeLock Grant}

theorem Grant.collates_fire {grant : Grant} (sound : grant.Sound filed) :
    grant.fire.Collates filed := by
  rcases grant with ⟨inbox | ⟨link, correlationId⟩, opId, datumId⟩
  · trivial
  · rcases sound with ⟨request, found, acquires⟩
    exact ⟨request, found, acquires.owes_eq, fun _ => rfl⟩

namespace NativeLock

theorem Sound.grantFront (sound : lock.Sound filed) :
    lock.grantFront.1.Sound filed ∧ ∀ grant ∈ lock.grantFront.2, grant.Sound filed := by
  unfold NativeLock.grantFront
  cases waiting : lock.waiters with
  | nil => exact ⟨sound, by simp⟩
  | cons waiter rest =>
      rw [NativeLock.Sound, waiting] at sound
      refine ⟨fun other otherMem => sound other (List.mem_cons_of_mem _ otherMem), ?_⟩
      rintro grant ⟨⟩
      exact sound waiter List.mem_cons_self

theorem Sound.release (sound : lock.Sound filed) :
    lock.release.1.Sound filed ∧ ∀ grant ∈ lock.release.2, grant.Sound filed :=
  have dropped : NativeLock.Sound filed { lock with currentHolder := none } := sound
  dropped.grantFront

theorem Sound.request (sound : lock.Sound filed) (opId : DatumId) (nodeId : NodeId)
    (threadId : ThreadId) {grant : Grant} (granted : grant.Sound filed) :
    (lock.request opId nodeId threadId grant).1.Sound filed ∧
      ∀ fired ∈ (lock.request opId nodeId threadId grant).2.1, fired.Sound filed := by
  have queued : ∀ holder, NativeLock.Sound filed
      ⟨holder, enqueue lock.waiters ⟨opId, nodeId, threadId, grant⟩⟩ := by
    intro holder waiter waiterMem
    rcases mem_enqueue.mp waiterMem with rfl | waiterMem
    · exact granted
    · exact sound waiter waiterMem
  cases held : lock.currentHolder with
  | none =>
      simp only [NativeLock.request, held]
      exact (queued none).grantFront
  | some holder =>
      rw [request_held held]
      exact ⟨queued (some holder), by simp⟩

theorem Sound.handleNodeDeath (sound : lock.Sound filed) (nodeId : NodeId) :
    (lock.handleNodeDeath nodeId).1.Sound filed ∧
      ∀ grant ∈ (lock.handleNodeDeath nodeId).2, grant.Sound filed := by
  have pruned : NativeLock.Sound filed
      { lock with waiters := lock.waiters.filter fun waiter => waiter.nodeId ≠ nodeId } :=
    fun waiter waiterMem => sound waiter (List.mem_of_mem_filter waiterMem)
  unfold NativeLock.handleNodeDeath
  dsimp only
  split
  · exact pruned.release
  · exact ⟨pruned, by simp⟩

end NativeLock

end Grants

/-! ## Turns -/

namespace Env

variable {env : Env Resident} {filed : ℕ → Option PeerRequest} {worker : Worker Resident}
  {thread : ThreadId} {opId : DatumId}

/-- Every other node can be reached. -/
def Linked (env : Env Resident) : Prop := ∀ node, env.linked node = true

theorem collates_sendAcquire (linked : env.Linked) (datumId : DatumId) (retriesLeft : ℕ) :
    (env.sendAcquire thread opId datumId retriesLeft).Collates filed := by
  simp only [sendAcquire, linked (env.native datumId).1, if_true]
  split <;> trivial

theorem collates_sendRecall (linked : env.Linked) (datumId : DatumId) (holder : Holder) :
    (env.sendRecall thread datumId holder).Collates filed := by
  simp only [sendRecall, linked holder.nodeId, if_true]
  split <;> trivial

theorem collates_releaseDatums (linked : env.Linked) (datumIds : List DatumId) (cache : Cache) :
    ∀ effect ∈ (env.releaseDatums datumIds cache).2, effect.Collates filed := by
  intro effect effectMem
  rcases List.mem_flatMap.mp effectMem with ⟨datumId, _, released⟩
  simp only [releaseDatum, linked (env.native datumId).1, if_true] at released
  split at released
  · cases List.mem_singleton.mp released
    trivial
  · cases List.mem_singleton.mp released
    trivial

theorem dispatches_dispatchIndexUpdate (linked : env.Linked) (update : PendingIndexUpdate) :
    (env.dispatchIndexUpdate thread opId update).Dispatches thread opId := by
  simp only [dispatchIndexUpdate, linked (env.native update.target).1, if_true]
  split
  · exact .indexUpdate _ _ _ _
  · exact .indexUpdateCall _ _ _ _ _

theorem dispatches_dispatchExistsCheck (linked : env.Linked) (target : DatumId) :
    (env.dispatchExistsCheck thread opId target).Dispatches thread opId := by
  simp only [dispatchExistsCheck, linked (env.native target).1, if_true]
  split
  · exact .existsCheck _ _
  · exact .existsCheckCall _ _ _

theorem awaits_insert {after : Worker Resident} {record : OpRecord}
    (inserted : after.opRecords = worker.opRecords.insert opId record) :
    after.awaits = Function.update worker.awaits opId (some record.awaits) := by
  funext other
  simp only [Worker.awaits, Worker.record, inserted]
  by_cases same : other = opId
  · rw [same, AList.lookup_insert, Function.update_self, Option.map_some]
  · rw [AList.lookup_insert_ne same, Function.update_of_ne same]
    rfl

theorem awaits_erase {after : Worker Resident}
    (erased : after.opRecords = worker.opRecords.erase opId) :
    after.awaits = Function.update worker.awaits opId none := by
  funext other
  simp only [Worker.awaits, Worker.record, erased]
  by_cases same : other = opId
  · rw [same, AList.lookup_erase, Function.update_self, Option.map_none]
  · rw [AList.lookup_erase_ne same, Function.update_of_ne same]
    rfl

theorem awaits_of_record {after : Worker Resident} (same : after.record = worker.record) :
    after.awaits = worker.awaits := by
  funext opId
  rw [Worker.awaits, same, Worker.awaits]

theorem tryRunIfReady_fate (filed : ℕ → Option PeerRequest) (thread : ThreadId)
    (linked : env.Linked) {record : OpRecord} (store : Store)
    (found : worker.record opId = some record) (unsettled : record.awaits ≠ some 0) :
    ∃ after effects, OpFate filed thread opId (some record.awaits) after effects ∧
      (env.tryRunIfReady thread opId worker store).effects = effects ∧
      (env.tryRunIfReady thread opId worker store).worker.lock = worker.lock ∧
      (env.tryRunIfReady thread opId worker store).worker.awaits =
        Function.update worker.awaits opId after := by
  have lookedUp : worker.opRecords.lookup opId = some record := found
  have waits : worker.awaits opId = some record.awaits := by
    rw [Worker.awaits, found, Option.map_some]
  unfold tryRunIfReady
  rw [lookedUp]
  dsimp only
  by_cases ready : record.stillNeeded = [] ∧ record.indexUpdateState.isNone
  · rw [if_pos ready]
    have fresh : record.awaits = none := by
      rw [OpRecord.awaits, Option.isNone_iff_eq_none.mp ready.2, Option.map_none]
    rw [fresh]
    generalize env.ops.invoke store record.opName (OpContext.new worker.cache)
      record.datumIds record.payload = invoked
    rcases invoked with ⟨ctx, message | result⟩
    · refine ⟨none, _, .ends _ rfl [.invoked opId] (by simp) (.error message) _
        (collates_releaseDatums linked _ _), rfl, rfl, ?_⟩
      exact awaits_erase rfl
    · by_cases quiet : ctx.pendingIndexUpdates = [] ∧ ctx.pendingExistsChecks = []
      · simp only [quiet, and_self, if_true]
        refine ⟨none, _, .ends _ rfl
          [.invoked opId, .committed opId record.datumIds ctx.takeStagedWrites] (by simp)
          (.ok result) _ (collates_releaseDatums linked _ _), rfl, rfl, ?_⟩
        exact awaits_erase rfl
      · simp only [quiet, if_false]
        refine ⟨_, _, .settles (ctx.pendingIndexUpdates.map (env.dispatchIndexUpdate thread opId) ++
          ctx.pendingExistsChecks.map fun check =>
            env.dispatchExistsCheck thread opId check.target) (by simpa using quiet) ?_, rfl, rfl, ?_⟩
        · intro effect effectMem
          rcases List.mem_append.mp effectMem with isUpdate | isCheck
          · rcases List.mem_map.mp isUpdate with ⟨update, _, rfl⟩
            exact dispatches_dispatchIndexUpdate linked update
          · rcases List.mem_map.mp isCheck with ⟨check, _, rfl⟩
            exact dispatches_dispatchExistsCheck linked check.target
        · rw [awaits_insert rfl, OpRecord.awaits, Option.map_some, List.length_append,
            List.length_map, List.length_map]
  · rw [if_neg ready]
    refine ⟨_, [], .stays _ (by simpa using unsettled), rfl, rfl, ?_⟩
    rw [← waits, Function.update_eq_self]

theorem finishOpIfSettled_fate (filed : ℕ → Option PeerRequest) (thread : ThreadId)
    (linked : env.Linked) {record : OpRecord} {state : IndexUpdateState}
    (store : Store) (found : worker.record opId = some record)
    (entered : record.indexUpdateState = some state) :
    ∃ after effects, OpFate filed thread opId (some (some state.pending)) after effects ∧
      (env.finishOpIfSettled opId worker store).effects = effects ∧
      (env.finishOpIfSettled opId worker store).worker.lock = worker.lock ∧
      (env.finishOpIfSettled opId worker store).worker.awaits =
        Function.update worker.awaits opId after := by
  have lookedUp : worker.opRecords.lookup opId = some record := found
  have waits : worker.awaits opId = some (some state.pending) := by
    rw [Worker.awaits, found, Option.map_some, OpRecord.awaits, entered, Option.map_some]
  unfold finishOpIfSettled
  simp only [lookedUp, entered]
  by_cases settled : state.pending = 0
  · rw [if_pos settled]
    have done : outstanding (some (some state.pending)) = 0 := settled
    cases violated : state.violation with
    | some message =>
        refine ⟨none, _, .ends _ done [] (by simp) (.error message) _
          (collates_releaseDatums linked _ _), rfl, rfl, ?_⟩
        exact awaits_erase rfl
    | none =>
        refine ⟨none, _, .ends _ done [.committed opId record.datumIds state.stagedWrites] (by simp)
          (.ok state.opResult) _ (collates_releaseDatums linked _ _), rfl, rfl, ?_⟩
        exact awaits_erase rfl
  · rw [if_neg settled]
    refine ⟨_, [], .stays _ (by simpa using settled), rfl, rfl, ?_⟩
    rw [← waits, Function.update_eq_self]

theorem handleIndexUpdateReplied_accounts (linked : env.Linked) (target : DatumId)
    (violation : Option String) (store : Store) :
    Accounts filed thread worker.awaits (.indexUpdateReplied opId target violation)
        (env.handleIndexUpdateReplied opId violation worker store).worker.awaits
        (env.handleIndexUpdateReplied opId violation worker store).effects ∧
      (env.handleIndexUpdateReplied opId violation worker store).worker.lock = worker.lock := by
  have settles : (WorkerMessage.indexUpdateReplied opId target violation).settles = some opId := rfl
  unfold handleIndexUpdateReplied
  cases found : worker.record opId with
  | none =>
      have lookedUp : worker.opRecords.lookup opId = none := found
      have gone : outstanding (worker.awaits opId) = 0 := by
        rw [Worker.awaits, found]
        rfl
      simp only [lookedUp]
      rw [finishOpIfSettled_absent store (by simp [found])]
      exact ⟨.lost _ opId settles gone, rfl⟩
  | some record =>
      have lookedUp : worker.opRecords.lookup opId = some record := found
      simp only [lookedUp]
      cases entered : record.indexUpdateState with
      | none =>
          have waits : worker.awaits opId = some none := by
            rw [Worker.awaits, found, Option.map_some, OpRecord.awaits, entered, Option.map_none]
          have same : { record with indexUpdateState := none } = record := by
            rw [← entered]
          simp only [Option.map_none, same]
          rw [finishOpIfSettled_absent store]
          · have unchanged : ({ worker with opRecords := worker.opRecords.insert opId record } :
                Worker Resident).awaits = worker.awaits := by
              rw [awaits_insert rfl, OpRecord.awaits, entered, Option.map_none, ← waits,
                Function.update_eq_self]
            dsimp only
            rw [unchanged]
            exact ⟨.lost _ opId settles (by rw [waits]; rfl), rfl⟩
          · intro other otherFound
            cases (AList.lookup_insert _).symm.trans otherFound
            exact entered
      | some state =>
          simp only [Option.map_some]
          have waits : worker.awaits opId = some (some state.pending) := by
            rw [Worker.awaits, found, Option.map_some, OpRecord.awaits, entered, Option.map_some]
          let updated : Worker Resident :=
            { worker with
              opRecords := worker.opRecords.insert opId
                { record with
                  indexUpdateState := some (state.onIndexUpdateReplied violation) } }
          have updatedFound : updated.record opId = some
              { record with indexUpdateState := some (state.onIndexUpdateReplied violation) } :=
            AList.lookup_insert _
          rcases finishOpIfSettled_fate filed thread linked store
              updatedFound rfl with ⟨after, effects, fate, effectsEq, lockEq, awaitsEq⟩
          have updatedAwaits : updated.awaits = _ := awaits_insert rfl
          rw [updatedAwaits, Function.update_idem] at awaitsEq
          rw [effectsEq, awaitsEq]
          exact ⟨.replied _ opId settles state.pending waits [] (by simp) after effects fate, lockEq⟩

theorem pending_onExistsCheckReplied (state : IndexUpdateState) (target : DatumId)
    (found : Bool) :
    (state.onExistsCheckReplied target found).1.pending =
      state.pending - 1 + (state.onExistsCheckReplied target found).2.toList.length := by
  unfold IndexUpdateState.onExistsCheckReplied
  dsimp only
  split <;> rfl

theorem handleExistsCheckReplied_accounts (linked : env.Linked) (target : DatumId) (found : Bool)
    (store : Store) :
    Accounts filed thread worker.awaits (.existsCheckReplied opId target found)
        (env.handleExistsCheckReplied thread opId target found worker store).worker.awaits
        (env.handleExistsCheckReplied thread opId target found worker store).effects ∧
      (env.handleExistsCheckReplied thread opId target found worker store).worker.lock =
        worker.lock := by
  have settles : (WorkerMessage.existsCheckReplied opId target found).settles = some opId := rfl
  unfold handleExistsCheckReplied
  cases isRecord : worker.record opId with
  | none =>
      have lookedUp : worker.opRecords.lookup opId = none := isRecord
      have gone : outstanding (worker.awaits opId) = 0 := by
        rw [Worker.awaits, isRecord]
        rfl
      simp only [lookedUp]
      rw [finishOpIfSettled_absent store (by simp [isRecord])]
      exact ⟨.lost _ opId settles gone, rfl⟩
  | some record =>
      have lookedUp : worker.opRecords.lookup opId = some record := isRecord
      simp only [lookedUp]
      cases entered : record.indexUpdateState with
      | none =>
          have gone : outstanding (worker.awaits opId) = 0 := by
            rw [Worker.awaits, isRecord, Option.map_some, OpRecord.awaits, entered]
            rfl
          dsimp only
          rw [finishOpIfSettled_absent store (by simp [isRecord, entered])]
          exact ⟨.lost _ opId settles gone, rfl⟩
      | some state =>
          have waits : worker.awaits opId = some (some state.pending) := by
            rw [Worker.awaits, isRecord, Option.map_some, OpRecord.awaits, entered, Option.map_some]
          let updated : Worker Resident :=
            { worker with
              opRecords := worker.opRecords.insert opId
                { record with
                  indexUpdateState := some (state.onExistsCheckReplied target found).1 } }
          have updatedFound : updated.record opId = some
              { record with
                indexUpdateState := some (state.onExistsCheckReplied target found).1 } :=
            AList.lookup_insert _
          rcases finishOpIfSettled_fate filed thread linked store
              updatedFound rfl with ⟨after, effects, fate, effectsEq, lockEq, awaitsEq⟩
          have updatedAwaits : updated.awaits = _ := awaits_insert rfl
          rw [updatedAwaits, Function.update_idem] at awaitsEq
          simp only [Turn.andThen]
          rw [effectsEq, awaitsEq]
          refine ⟨.replied _ opId settles state.pending waits _ ?_ after effects ?_, lockEq⟩
          · intro effect effectMem
            rcases List.mem_map.mp effectMem with ⟨update, _, rfl⟩
            exact dispatches_dispatchIndexUpdate linked update
          · rw [List.length_map, ← pending_onExistsCheckReplied]
            exact fate

theorem handleRunOp_accounts (linked : env.Linked) (opName : String) (datumIds : List DatumId)
    (payload : Bytes) (store : Store) :
    Accounts filed thread worker.awaits (.runOp opId opName datumIds payload)
        (env.handleRunOp thread opId opName datumIds payload worker store).worker.awaits
        (env.handleRunOp thread opId opName datumIds payload worker store).effects ∧
      (env.handleRunOp thread opId opName datumIds payload worker store).worker.lock =
        worker.lock := by
  let record : OpRecord := ⟨opName, payload, datumIds, datumIds, [], none⟩
  let started : Worker Resident :=
    { worker with opRecords := worker.opRecords.insert opId record }
  have found : started.record opId = some record := AList.lookup_insert _
  rcases tryRunIfReady_fate filed thread linked store found (by simp [OpRecord.awaits, record]) with
    ⟨after, effects, fate, effectsEq, lockEq, awaitsEq⟩
  have startedAwaits : started.awaits = _ := awaits_insert rfl
  rw [startedAwaits, Function.update_idem] at awaitsEq
  unfold handleRunOp
  simp only [Turn.andThen]
  rw [effectsEq, awaitsEq]
  refine ⟨.runOp opId opName datumIds payload _ ?_ after effects fate, lockEq⟩
  intro effect effectMem
  rcases List.mem_map.mp effectMem with ⟨datumId, _, rfl⟩
  exact collates_sendAcquire linked datumId maxAcquireRetries

theorem handleAcquireGranted_accounts (linked : env.Linked) (datumId : DatumId) (store : Store)
    (unsettled : worker.awaits opId ≠ some (some 0)) :
    Accounts filed thread worker.awaits (.acquireGranted opId datumId)
        (env.handleAcquireGranted thread opId datumId worker store).worker.awaits
        (env.handleAcquireGranted thread opId datumId worker store).effects ∧
      (env.handleAcquireGranted thread opId datumId worker store).worker.lock = worker.lock := by
  unfold handleAcquireGranted
  cases found : worker.record opId with
  | none =>
      have lookedUp : worker.opRecords.lookup opId = none := found
      simp only [lookedUp]
      exact ⟨.collation _ rfl _ (collates_releaseDatums linked [datumId] worker.cache), rfl⟩
  | some record =>
      have lookedUp : worker.opRecords.lookup opId = some record := found
      have waits : worker.awaits opId = some record.awaits := by
        rw [Worker.awaits, found, Option.map_some]
      simp only [lookedUp]
      let granted : OpRecord :=
        { record with
          stillNeeded := record.stillNeeded.filter fun id => id ≠ datumId
          acquired := record.acquired ++ [datumId] }
      let updated : Worker Resident :=
        { worker with opRecords := worker.opRecords.insert opId granted }
      have grantedFound : updated.record opId = some granted := AList.lookup_insert _
      have grantedUnsettled : granted.awaits ≠ some 0 := by
        rw [waits] at unsettled
        exact fun settled => unsettled (congrArg some settled)
      rcases tryRunIfReady_fate filed thread linked store grantedFound grantedUnsettled with
        ⟨after, effects, fate, effectsEq, lockEq, awaitsEq⟩
      have updatedAwaits : updated.awaits = _ := awaits_insert rfl
      rw [updatedAwaits, Function.update_idem] at awaitsEq
      rw [effectsEq, awaitsEq]
      exact ⟨.granted opId datumId record.awaits waits after effects fate, lockEq⟩

theorem handleRecall_accounts (linked : env.Linked) (hint datumId : DatumId) {reply : RecallReply}
    (sound : ∀ link correlationId, reply = .remote link correlationId →
      ∃ recalled, filed correlationId = some (.recall recalled)) (store : Store) :
    Accounts filed thread worker.awaits (.recall datumId reply)
        (env.handleRecall thread hint datumId reply worker store).worker.awaits
        (env.handleRecall thread hint datumId reply worker store).effects ∧
      (env.handleRecall thread hint datumId reply worker store).worker.lock = worker.lock := by
  have acks : (reply.ack datumId).Collates filed := by
    cases reply with
    | «local» inbox => trivial
    | remote link correlationId =>
        rcases sound link correlationId rfl with ⟨recalled, found⟩
        exact ⟨_, found, rfl, fun impossible => impossible.elim⟩
  unfold handleRecall
  cases chosen : worker.wounded datumId hint with
  | none =>
      exact ⟨.collation _ rfl _ fun effect effectMem => List.mem_singleton.mp effectMem ▸ acks, rfl⟩
  | some opId =>
      rcases Worker.mem_woundable.mp (Worker.wounded_mem chosen) with ⟨record, found, _⟩
      have lookedUp : worker.opRecords.lookup opId = some record := found
      have waits : worker.awaits opId = some record.awaits := by
        rw [Worker.awaits, found, Option.map_some]
      simp only [lookedUp]
      let wounded : OpRecord :=
        { record with
          acquired := record.acquired.erase datumId
          stillNeeded := record.stillNeeded ++ [datumId] }
      let stripped : Worker Resident :=
        { worker with
          cache := worker.cache.invalidate datumId
          opRecords := worker.opRecords.insert opId wounded }
      have unchanged : stripped.awaits = worker.awaits := by
        have inserted : stripped.awaits = Function.update worker.awaits opId (some wounded.awaits) :=
          awaits_insert rfl
        have same : wounded.awaits = record.awaits := rfl
        rw [inserted, same, ← waits, Function.update_eq_self]
      refine ⟨?_, rfl⟩
      change Accounts filed thread worker.awaits _ stripped.awaits _
      rw [unchanged]
      refine .collation _ rfl _ ?_
      intro effect effectMem
      rcases List.mem_cons.mp effectMem with rfl | effectMem
      · exact acks
      · cases List.mem_singleton.mp effectMem
        exact collates_sendAcquire linked datumId maxAcquireRetries

theorem sound_setLock (locks : ∀ datumId, (worker.lock datumId).Sound filed) (datumId : DatumId)
    {lock : NativeLock Grant} (sound : lock.Sound filed) (other : DatumId) :
    ((worker.setLock datumId lock).lock other).Sound filed := by
  rw [Worker.lock_setLock]
  by_cases same : other = datumId
  · rw [same, Function.update_self]
    exact sound
  · rw [Function.update_of_ne same]
    exact locks other

theorem handleReleaseLocksHeldBy_accounts (nodeId : NodeId) (store : Store)
    (locks : ∀ datumId, (worker.lock datumId).Sound filed) :
    Accounts filed thread worker.awaits (.releaseLocksHeldBy nodeId)
        (handleReleaseLocksHeldBy nodeId worker store).worker.awaits
        (handleReleaseLocksHeldBy nodeId worker store).effects ∧
      ∀ datumId,
        ((handleReleaseLocksHeldBy nodeId worker store).worker.lock datumId).Sound filed := by
  have holds : (handleReleaseLocksHeldBy nodeId worker store).worker.awaits = worker.awaits ∧
      (∀ effect ∈ (handleReleaseLocksHeldBy nodeId worker store).effects,
        effect.Collates filed) ∧
      ∀ datumId,
        ((handleReleaseLocksHeldBy nodeId worker store).worker.lock datumId).Sound filed := by
    unfold handleReleaseLocksHeldBy
    apply List.foldlRecOn (motive := fun turn : Turn Resident =>
      turn.worker.awaits = worker.awaits ∧ (∀ effect ∈ turn.effects, effect.Collates filed) ∧
        ∀ datumId, (turn.worker.lock datumId).Sound filed)
    · exact ⟨rfl, by simp, locks⟩
    · rintro turn ⟨awaits, collates, sound⟩ entry entryMem
      have held : worker.nativeLocks.lookup entry.1 = some entry.2 :=
        AList.mem_lookup_iff.mpr entryMem
      have entrySound := locks entry.1
      rw [Worker.lock, held, Option.getD_some] at entrySound
      rcases entrySound.handleNodeDeath nodeId with ⟨lockSound, firedSound⟩
      dsimp only
      generalize hasFired : entry.2.handleNodeDeath nodeId = handled at lockSound firedSound ⊢
      have setSound := sound_setLock sound entry.1 lockSound
      refine ⟨?_, ?_, ?_⟩
      · split <;> exact awaits
      · intro effect effectMem
        rcases List.mem_append.mp effectMem with earlier | isFired
        · exact collates effect earlier
        · rcases List.mem_map.mp isFired with ⟨grant, grantMem, rfl⟩
          exact Grant.collates_fire (firedSound grant (Option.mem_toList.mp grantMem))
      · split <;> exact setSound
  rcases holds with ⟨awaits, collates, sound⟩
  rw [awaits]
  exact ⟨.collation _ rfl _ collates, sound⟩

theorem handleRelease_accounts (datumId : DatumId) (store : Store)
    (locks : ∀ datumId, (worker.lock datumId).Sound filed) :
    Accounts filed thread worker.awaits (.release datumId)
        (handleRelease datumId worker store).worker.awaits
        (handleRelease datumId worker store).effects ∧
      ∀ datumId', ((handleRelease datumId worker store).worker.lock datumId').Sound filed := by
  unfold handleRelease
  cases found : worker.nativeLocks.lookup datumId with
  | none => exact ⟨.collation _ rfl [] (by simp), locks⟩
  | some lock =>
      have sound := locks datumId
      rw [Worker.lock, found, Option.getD_some] at sound
      refine ⟨.collation _ rfl _ ?_, sound_setLock locks datumId sound.release.1⟩
      intro effect effectMem
      rcases List.mem_map.mp effectMem with ⟨grant, grantMem, rfl⟩
      exact Grant.collates_fire (sound.release.2 grant (Option.mem_toList.mp grantMem))

/-- Every turn but that of a failed acquisition keeps the accounts, and what it queues at its locks
is sound. -/
theorem handle_accounts (linked : env.Linked) (thread : ThreadId) (hint : DatumId)
    {message : WorkerMessage}
    {runs : DatumId → NodeId × ThreadId → Prop} {receiver : NodeId × ThreadId}
    (sound : message.Sound filed runs receiver) (store : Store)
    (locks : ∀ datumId, (worker.lock datumId).Sound filed)
    (unsettled : ∀ opId, worker.awaits opId ≠ some (some 0)) :
    Accounts filed thread worker.awaits message
        (env.handle thread hint message worker store).worker.awaits
        (env.handle thread hint message worker store).effects ∧
      ∀ datumId, ((env.handle thread hint message worker store).worker.lock datumId).Sound filed := by
  cases message with
  | runOp opId opName datumIds payload =>
      rcases handleRunOp_accounts linked opName datumIds payload store with ⟨accounts, lockEq⟩
      exact ⟨accounts, fun datumId => congrFun lockEq datumId ▸ locks datumId⟩
  | acquire opId datumId requesterNode requesterThread reply =>
      have granted : Grant.Sound filed ⟨reply, opId, datumId⟩ := by
        cases reply with
        | «local» inbox => trivial
        | remote link correlationId => exact sound
      have requested := (locks datumId).request opId requesterNode requesterThread granted
      refine ⟨.collation _ ?_ _ ?_, sound_setLock locks datumId requested.1⟩
      · cases reply <;> rfl
      · intro effect effectMem
        rcases List.mem_append.mp effectMem with isFired | isRecall
        · rcases List.mem_map.mp isFired with ⟨grant, grantMem, rfl⟩
          exact Grant.collates_fire (requested.2 grant (Option.mem_toList.mp grantMem))
        · split at isRecall
          · cases List.mem_singleton.mp isRecall
            exact collates_sendRecall linked datumId _
          · cases isRecall
  | acquireGranted opId datumId =>
      rcases handleAcquireGranted_accounts linked datumId store (unsettled opId) with
        ⟨accounts, lockEq⟩
      exact ⟨accounts, fun datumId => congrFun lockEq datumId ▸ locks datumId⟩
  | acquireFailed opId datumId retriesLeft => exact sound.elim
  | «recall» datumId reply =>
      have calls : ∀ link correlationId, reply = .remote link correlationId →
          ∃ recalled, filed correlationId = some (.recall recalled) := by
        rintro link correlationId rfl
        exact sound
      rcases handleRecall_accounts linked hint datumId calls store with ⟨accounts, lockEq⟩
      exact ⟨accounts, fun datumId => congrFun lockEq datumId ▸ locks datumId⟩
  | release datumId => exact handleRelease_accounts datumId store locks
  | evictNonNative isNative => exact ⟨.collation _ rfl [] (by simp), locks⟩
  | releaseLocksHeldBy nodeId => exact handleReleaseLocksHeldBy_accounts nodeId store locks
  | indexUpdate target opId indexKind payload reply =>
      simp only [handle, serveIndexUpdate]
      rcases residentFor_frame env worker store target indexKind with ⟨lockEq, recordEq⟩
      rcases opened : env.residentFor worker store target indexKind with
        ⟨message | resident, after⟩
      · rw [opened] at lockEq recordEq
        exact ⟨awaits_of_record recordEq ▸ .indexUpdate target opId indexKind payload reply _,
          fun datumId => congrFun lockEq datumId ▸ locks datumId⟩
      · rw [opened] at lockEq recordEq
        exact ⟨awaits_of_record recordEq ▸ .indexUpdate target opId indexKind payload reply _,
          fun datumId => congrFun lockEq datumId ▸ locks datumId⟩
  | indexUpdateReplied opId target violation =>
      rcases handleIndexUpdateReplied_accounts linked target violation store with ⟨accounts, lockEq⟩
      exact ⟨accounts, fun datumId => congrFun lockEq datumId ▸ locks datumId⟩
  | indexQuery target indexKind query =>
      simp only [handle, serveIndexQuery]
      rcases residentFor_frame env worker store target indexKind with ⟨lockEq, recordEq⟩
      rcases opened : env.residentFor worker store target indexKind with
        ⟨message | resident, after⟩
      · rw [opened] at lockEq recordEq
        exact ⟨awaits_of_record recordEq ▸ .indexQuery target indexKind query _,
          fun datumId => congrFun lockEq datumId ▸ locks datumId⟩
      · rw [opened] at lockEq recordEq
        exact ⟨awaits_of_record recordEq ▸ .indexQuery target indexKind query _,
          fun datumId => congrFun lockEq datumId ▸ locks datumId⟩
  | indexExecute target indexKind payload =>
      simp only [handle, serveIndexExecute]
      rcases residentFor_frame env worker store target indexKind with ⟨lockEq, recordEq⟩
      rcases opened : env.residentFor worker store target indexKind with
        ⟨message | resident, after⟩
      · rw [opened] at lockEq recordEq
        exact ⟨awaits_of_record recordEq ▸ .indexExecute target indexKind payload _,
          fun datumId => congrFun lockEq datumId ▸ locks datumId⟩
      · rw [opened] at lockEq recordEq
        exact ⟨awaits_of_record recordEq ▸ .indexExecute target indexKind payload _,
          fun datumId => congrFun lockEq datumId ▸ locks datumId⟩
  | existsCheck datumId opId reply => exact ⟨.existsCheck datumId opId reply _, locks⟩
  | existsCheckReplied opId target answer =>
      rcases handleExistsCheckReplied_accounts linked target answer store with ⟨accounts, lockEq⟩
      exact ⟨accounts, fun datumId => congrFun lockEq datumId ▸ locks datumId⟩

end Env

end Seisin
