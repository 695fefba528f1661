import Seisin.Worker.Accounts
import Seisin.Node.Gate

/-!
# Compute nodes behind their gates

Any number of compute nodes over one store, each with its gate and connection handlers and its worker
threads, and the messages between the threads.  A call to a thread of another node goes over a peer
link and is answered under its correlation id, the place of the call in `calls`.  Links stay up: every
node has a link to every other from the start, no frame on it is lost, and no call is answered by the
link itself because it dropped.  The ring may change at any time, and any message may overtake any
other.  A client draws the id of an op at random, so that no two ops have one id; `assigned` says
which thread runs an op, and for which handler.
-/

namespace Seisin

variable {Resident : Type}

/-- A call over a peer link, with the thread it is answered to. -/
structure Call where
  caller : NodeId × ThreadId
  request : PeerRequest

/-- What is on its way: a message to a thread, for a client's request from the handler `origin`, or
a frame of a peer link. -/
inductive Transit where
  | message (receiver : NodeId × ThreadId) (message : WorkerMessage) (origin : Option ℕ)
  | request (call : ℕ) (receiver : NodeId × ThreadId) (request : PeerRequest)
  | response (call : ℕ) (response : PeerResponse)

/-- What the nodes are spawned with. -/
structure Spawn (Resident : Type) where
  members : List NodeId
  ops : OpRegistry
  indexKinds : IndexKinds Resident

structure ComputeTier (Resident : Type) where
  sites : NodeId → Site
  workers : NodeId → ThreadId → Worker Resident
  native : NodeId → DatumId → NodeId × ThreadId
  store : Store
  inFlight : List Transit
  calls : List Call
  assigned : DatumId → Option ((NodeId × ThreadId) × ℕ)

/-- A handler takes a step, or passes its request to a thread; something in flight arrives; or gossip
changes a node's view of the ring, halts a node, or tells its threads of the change. -/
inductive TierLabel where
  | act (node : NodeId) (handler : ℕ) (action : Action)
  | dispatch (node : NodeId) (handler : ℕ) (thread : ThreadId)
  | deliver (index : ℕ) (hint : DatumId)
  | reroute (node : NodeId) (native : DatumId → NodeId × ThreadId)
  | halt (node : NodeId) (reason : String)
  | evict (receiver : NodeId × ThreadId) (isNative : DatumId → Bool)
  | bury (receiver : NodeId × ThreadId) (dead : NodeId)

/-! ## Peer links -/

namespace PeerResponse

def debug : PeerResponse → String
  | .granted => "Granted"
  | .released => "Released"
  | .indexUpdateResult none => "IndexUpdateResult \x7b violation: None \x7d"
  | .indexUpdateResult (some violation) =>
      "IndexUpdateResult \x7b violation: Some(\"" ++ violation ++ "\") \x7d"
  | .exists_ found => "Exists \x7b exists: " ++ toString found ++ " \x7d"

end PeerResponse

namespace PeerRequest

/-- The message a request is turned into where it arrives, to be answered under its correlation
id. -/
def toMessage (link : NodeId) (call : ℕ) : PeerRequest → WorkerMessage
  | .acquire opId datumId requesterNode requesterThread _ =>
      .acquire opId datumId requesterNode requesterThread (.remote link call)
  | .recall datumId => .recall datumId (.remote link call)
  | .release datumId => .release datumId
  | .indexUpdate target opId indexKind payload =>
      .indexUpdate target opId indexKind payload (.remote link call)
  | .existsCheck datumId _ => .existsCheck datumId 0 (.remote link call)

/-- A release is acknowledged where it arrives, before the thread has it. -/
def acknowledged (call : ℕ) : PeerRequest → List Transit
  | .release _ => [.response call .released]
  | _ => []

/-- What the caller's callback posts to the calling thread. -/
def callback : PeerRequest → PeerResponse → Option WorkerMessage
  | .acquire opId datumId _ _ _, .granted => some (.acquireGranted opId datumId)
  | .acquire opId datumId _ _ retriesLeft, _ => some (.acquireFailed opId datumId retriesLeft)
  | .recall datumId, _ => some (.release datumId)
  | .release _, _ => none
  | .indexUpdate target opId _ _, .indexUpdateResult violation =>
      some (.indexUpdateReplied opId target violation)
  | .indexUpdate target opId _ _, other =>
      some (.indexUpdateReplied opId target (some
        ("unexpected response applying index update to " ++ target.debug ++ ": " ++ other.debug)))
  | .existsCheck datumId opId, .exists_ found => some (.existsCheckReplied opId datumId found)
  | .existsCheck datumId opId, _ => some (.existsCheckReplied opId datumId false)

end PeerRequest

namespace ClientRequest

def message : ClientRequest → WorkerMessage
  | .op opId opName datumIds payload => .runOp opId opName datumIds payload
  | .indexQuery target indexKind query => .indexQuery target indexKind query
  | .indexExecute target indexKind payload => .indexExecute target indexKind payload
  | .existsCheck datumId => .existsCheck datumId 0 .sync

def opId : ClientRequest → Option DatumId
  | .op opId _ _ _ => some opId
  | _ => none

/-- An op may run on any thread; everything else is served by the native thread. -/
def ServedBy (native : DatumId → NodeId × ThreadId) (thread : NodeId × ThreadId) :
    ClientRequest → Prop
  | .op _ _ _ _ => True
  | .indexQuery target _ _ | .indexExecute target _ _ | .existsCheck target =>
      native target = thread

instance (native : DatumId → NodeId × ThreadId) (thread : NodeId × ThreadId)
    (request : ClientRequest) : Decidable (request.ServedBy native thread) := by
  cases request <;> unfold ServedBy <;> infer_instance

end ClientRequest

/-- The steps of a handler that a worker has no part in. -/
def Action.Own : Action → Prop
  | .dispatch _ | .answer _ => False
  | _ => True

instance : DecidablePred Action.Own := fun action => by
  cases action <;> unfold Action.Own <;> infer_instance

/-! ## Steps -/

namespace ComputeTier

def new (native : NodeId → DatumId → NodeId × ThreadId) (store : Store) : ComputeTier Resident where
  sites := fun _ => Site.new
  workers := fun _ _ => Worker.new
  native := native
  store := store
  inFlight := []
  calls := []
  assigned := fun _ => none

def setSite (tier : ComputeTier Resident) (node : NodeId) (site : Site) : ComputeTier Resident :=
  { tier with sites := Function.update tier.sites node site }

def setWorker (tier : ComputeTier Resident) (thread : NodeId × ThreadId)
    (worker : Worker Resident) : ComputeTier Resident :=
  { tier with
    workers := Function.update tier.workers thread.1
      (Function.update (tier.workers thread.1) thread.2 worker) }

def post (tier : ComputeTier Resident) (items : List Transit) : ComputeTier Resident :=
  { tier with inFlight := tier.inFlight ++ items }

theorem sites_setSite_self (tier : ComputeTier Resident) (node : NodeId) (site : Site) :
    (tier.setSite node site).sites node = site := by
  simp [setSite]

theorem sites_setSite_ne (tier : ComputeTier Resident) {node other : NodeId} (site : Site)
    (differ : other ≠ node) : (tier.setSite node site).sites other = tier.sites other := by
  simp [setSite, differ]

theorem workers_setWorker_self (tier : ComputeTier Resident) (thread : NodeId × ThreadId)
    (worker : Worker Resident) :
    (tier.setWorker thread worker).workers thread.1 thread.2 = worker := by
  simp [setWorker]

theorem workers_setWorker_ne (tier : ComputeTier Resident) {thread other : NodeId × ThreadId}
    (worker : Worker Resident) (differ : other ≠ thread) :
    (tier.setWorker thread worker).workers other.1 other.2 = tier.workers other.1 other.2 := by
  unfold setWorker
  by_cases node : other.1 = thread.1
  · have thread_ : other.2 ≠ thread.2 := fun same => differ (Prod.ext node same)
    rw [← node]
    simp [thread_]
  · simp [node]

/-- What a thread of a node is spawned with; every other node is linked, at any time. -/
def env (tier : ComputeTier Resident) (spawn : Spawn Resident) (node : NodeId) : Env Resident :=
  ⟨node, tier.native node, fun _ => true, spawn.ops, spawn.indexKinds⟩

/-- The handler gets the answer it waits for. -/
def answer (tier : ComputeTier Resident) (node : NodeId) (handler : ℕ) (opId : Option DatumId) :
    ComputeTier Resident :=
  match (tier.sites node).act handler (.answer opId) with
  | some site => tier.setSite node site
  | none => tier

/-- One effect of a turn that `sender` takes for `origin`. -/
def perform (sender : NodeId × ThreadId) (origin : Option ℕ) (tier : ComputeTier Resident) :
    Effect → ComputeTier Resident
  | .send thread message => tier.post [.message (sender.1, thread) message none]
  | .call node thread request =>
      { tier.post [.request tier.calls.length (node, thread) request] with
        calls := tier.calls ++ [⟨sender, request⟩] }
  | .respond _ call response => tier.post [.response call response]
  | .reply opId _ =>
      match tier.assigned opId with
      | some (_, handler) => tier.answer sender.1 handler (some opId)
      | none => tier
  | .answer _ | .answerExists _ =>
      match origin with
      | some handler => tier.answer sender.1 handler none
      | none => tier
  | .invoked _ | .committed _ _ _ => tier

/-- The turn in which a thread takes a message. -/
def turn (spawn : Spawn Resident) (tier : ComputeTier Resident) (receiver : NodeId × ThreadId)
    (hint : DatumId) (message : WorkerMessage) : Turn Resident :=
  (tier.env spawn receiver.1).handle receiver.2 hint message
    (tier.workers receiver.1 receiver.2) tier.store

def take (spawn : Spawn Resident) (tier : ComputeTier Resident) (receiver : NodeId × ThreadId)
    (hint : DatumId) (message : WorkerMessage) (origin : Option ℕ) : ComputeTier Resident :=
  let turn := tier.turn spawn receiver hint message
  turn.effects.foldl (perform receiver origin)
    { tier.setWorker receiver turn.worker with store := turn.store }

def arrive (spawn : Spawn Resident) (tier : ComputeTier Resident) (hint : DatumId) :
    Transit → ComputeTier Resident
  | .message receiver message origin => tier.take spawn receiver hint message origin
  | .request call receiver request =>
      match tier.calls[call]? with
      | none => tier
      | some filed =>
          tier.post (request.acknowledged call ++
            [.message receiver (request.toMessage filed.caller.1 call) none])
  | .response call response =>
      match tier.calls[call]? with
      | none => tier
      | some filed =>
          tier.post ((filed.request.callback response).toList.map fun message =>
            .message filed.caller message none)

/-- Steps are those of the handlers, of gossip and of arriving messages.  What is in flight stays so
until it is delivered; no step closes a link or drops a frame. -/
def step (spawn : Spawn Resident) (tier : ComputeTier Resident) :
    TierLabel → Option (ComputeTier Resident)
  | .act node handler action =>
      if node ∈ spawn.members ∧ action.Own then
        ((tier.sites node).act handler action).map (tier.setSite node)
      else none
  | .dispatch node handler thread =>
      match (tier.sites node).handlers handler with
      | .admitted request =>
          if node ∈ spawn.members ∧ request.ServedBy (tier.native node) (node, thread) ∧
              request.opId.all fun opId => (tier.assigned opId).isNone then
            ((tier.sites node).act handler (.dispatch request.opId)).map fun site =>
              { (tier.setSite node site).post
                  [.message (node, thread) request.message (some handler)] with
                assigned := fun opId =>
                  if request.opId = some opId then some ((node, thread), handler)
                  else tier.assigned opId }
          else none
      | _ => none
  | .deliver index hint =>
      tier.inFlight[index]?.map
        (arrive spawn { tier with inFlight := tier.inFlight.eraseIdx index } hint)
  | .reroute node native => some { tier with native := Function.update tier.native node native }
  | .halt node reason =>
      some (tier.setSite node
        { tier.sites node with halt := (tier.sites node).halt.halt reason })
  | .evict receiver isNative => some (tier.post [.message receiver (.evictNonNative isNative) none])
  | .bury receiver dead => some (tier.post [.message receiver (.releaseLocksHeldBy dead) none])

def system (spawn : Spawn Resident) : Transition.System (ComputeTier Resident) TierLabel where
  init := fun tier => ∃ native store, tier = new native store
  step := step spawn

end ComputeTier

end Seisin
