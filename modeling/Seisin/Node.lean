import Seisin.Lib.Transition
import Seisin.Worker.Moves
import Mathlib

/-!
# A node of worker threads

The threads of one node, their shared store and the messages between them.  Messages from one
sender to one receiver arrive in the order they were sent; between different pairs the scheduler
chooses.  A label names that choice: a client submits an op or asks a synchronous question, or a
thread takes the oldest message of one sender.  `submitted`, `replies` and `invocations` record what
clients asked for, what they were told and which handlers ran.
-/

namespace Seisin

variable {Resident : Type}

inductive Sender where
  | client
  | worker (thread : ThreadId)
  deriving DecidableEq

structure Packet where
  sender : Sender
  receiver : ThreadId
  message : WorkerMessage

structure Node (Resident : Type) where
  workers : ThreadId → Worker Resident
  store : Store
  inFlight : List Packet
  submitted : List DatumId
  replies : List (DatumId × Except String Bytes)
  invocations : List DatumId

inductive NodeLabel where
  | submit (thread : ThreadId) (opId : DatumId) (opName : String) (datumIds : List DatumId)
      (payload : Bytes)
  | indexQuery (target : DatumId) (indexKind : String) (query : Bytes)
  | indexExecute (target : DatumId) (indexKind : String) (payload : Bytes)
  | existsCheck (datumId : DatumId)
  | deliver (sender : Sender) (receiver : ThreadId) (hint : DatumId)

namespace Effect

def toPacket (sender : ThreadId) : Effect → Option Packet
  | .send receiver message => some ⟨.worker sender, receiver, message⟩
  | _ => none

def toReply : Effect → Option (DatumId × Except String Bytes)
  | .reply opId result => some (opId, result)
  | _ => none

def toInvocation : Effect → Option DatumId
  | .invoked opId => some opId
  | _ => none

end Effect

namespace Node

def new (store : Store) : Node Resident where
  workers := fun _ => Worker.new
  store := store
  inFlight := []
  submitted := []
  replies := []
  invocations := []

def post (node : Node Resident) (packet : Packet) : Node Resident :=
  { node with inFlight := node.inFlight ++ [packet] }

/-- The node after `thread` has taken one message, `rest` being what stays in flight. -/
def afterTurn (node : Node Resident) (thread : ThreadId) (rest : List Packet)
    (turn : Turn Resident) : Node Resident where
  workers := Function.update node.workers thread turn.worker
  store := turn.store
  inFlight := rest ++ turn.effects.filterMap (Effect.toPacket thread)
  submitted := node.submitted
  replies := node.replies ++ turn.effects.filterMap Effect.toReply
  invocations := node.invocations ++ turn.effects.filterMap Effect.toInvocation

def between (sender : Sender) (receiver : ThreadId) (packet : Packet) : Bool :=
  packet.sender = sender && packet.receiver = receiver

/-- The id a synchronous existence check carries; nothing reads it. -/
def echoOpId : DatumId := 0

def step (env : Env Resident) (node : Node Resident) : NodeLabel → Option (Node Resident)
  | .submit thread opId opName datumIds payload =>
      if opId ∈ node.submitted then none
      else some
        { node.post ⟨.client, thread, .runOp opId opName datumIds payload⟩ with
          submitted := opId :: node.submitted }
  | .indexQuery target indexKind query =>
      some (node.post ⟨.client, env.home target, .indexQuery target indexKind query⟩)
  | .indexExecute target indexKind payload =>
      some (node.post ⟨.client, env.home target, .indexExecute target indexKind payload⟩)
  | .existsCheck datumId =>
      some (node.post ⟨.client, env.home datumId, .existsCheck datumId echoOpId .sync⟩)
  | .deliver sender receiver hint =>
      match node.inFlight.find? (between sender receiver) with
      | none => none
      | some packet =>
          some (node.afterTurn receiver (node.inFlight.eraseP (between sender receiver))
            (env.handle receiver hint packet.message (node.workers receiver) node.store))

/-- What a step does outside the threads' own state. -/
def effects (env : Env Resident) (node : Node Resident) : NodeLabel → List Effect
  | .deliver sender receiver hint =>
      match node.inFlight.find? (between sender receiver) with
      | none => []
      | some packet =>
          (env.handle receiver hint packet.message (node.workers receiver) node.store).effects
  | _ => []

/-- A node starts with no ops and some stored content. -/
def system (env : Env Resident) : Transition.System (Node Resident) NodeLabel where
  init := fun node => ∃ store, node = new store
  step := step env

/-- The record of an op on a thread. -/
def record (node : Node Resident) (thread : ThreadId) (opId : DatumId) : Option OpRecord :=
  (node.workers thread).record opId

/-- The lock of a datum, at its native home. -/
def lock (env : Env Resident) (node : Node Resident) (datumId : DatumId) : NativeLock Grant :=
  (node.workers (env.home datumId)).lock datumId

/-! ## What a delivery does -/

theorem step_deliver {env : Env Resident} {node next : Node Resident} {sender : Sender}
    {receiver : ThreadId} {hint : DatumId}
    (stepped : step env node (.deliver sender receiver hint) = some next) :
    ∃ message rest,
      node.inFlight.Perm (⟨sender, receiver, message⟩ :: rest) ∧
      node.inFlight.find? (between sender receiver) = some ⟨sender, receiver, message⟩ ∧
      next = node.afterTurn receiver rest
        (env.handle receiver hint message (node.workers receiver) node.store) := by
  simp only [step] at stepped
  cases found : node.inFlight.find? (between sender receiver) with
  | none => simp [found] at stepped
  | some packet =>
      have matching := List.find?_some found
      have endpoints : packet.sender = sender ∧ packet.receiver = receiver := by
        simpa [between] using matching
      have packetEq : packet = ⟨sender, receiver, packet.message⟩ := by
        rcases packet with ⟨packetSender, packetReceiver, message⟩
        simp only at endpoints
        rw [endpoints.1, endpoints.2]
      rw [found] at stepped
      simp only [Option.some.injEq] at stepped
      refine ⟨packet.message, node.inFlight.eraseP (between sender receiver), ?_, ?_,
        stepped.symm⟩
      · rw [← packetEq]
        rcases List.find?_eq_some_iff_append.mp found |>.2 with ⟨before, after, split, unmatched⟩
        rw [split, List.eraseP_append_right _ (by simpa using unmatched)]
        rw [List.eraseP_cons_of_pos (by simpa using matching)]
        exact List.perm_middle
      · rw [← packetEq]

theorem record_afterTurn (node : Node Resident) (thread : ThreadId) (rest : List Packet)
    (turn : Turn Resident) :
    (node.afterTurn thread rest turn).record =
      Function.update node.record thread turn.worker.record := by
  funext other
  by_cases same : other = thread
  · subst same
    funext opId
    simp [record, afterTurn]
  · funext opId
    simp [record, afterTurn, same]

theorem lock_afterTurn (env : Env Resident) (node : Node Resident) (thread : ThreadId)
    (rest : List Packet) (turn : Turn Resident) (datumId : DatumId) :
    (node.afterTurn thread rest turn).lock env datumId =
      if env.home datumId = thread then turn.worker.lock datumId else node.lock env datumId := by
  by_cases same : env.home datumId = thread
  · simp [lock, afterTurn, same]
  · simp [lock, afterTurn, same]

/-- A turn taken by `receiver`: the message it consumed, what it did to its locks and records, and
the state of the node it leaves. -/
structure Delivery (env : Env Resident) (node : Node Resident) (sender : Sender)
    (receiver : ThreadId) (message : WorkerMessage) (rest : List Packet)
    (locks : DatumId → NativeLock Grant) (records : DatumId → Option OpRecord)
    (effects : List Effect) (next : Node Resident) : Prop where
  consumed : node.inFlight.Perm (⟨sender, receiver, message⟩ :: rest)
  move : Move env receiver (node.workers receiver).lock (node.record receiver) message locks
    records effects
  inFlight : next.inFlight = rest ++ effects.filterMap (Effect.toPacket receiver)
  record : next.record = Function.update node.record receiver records
  lock : ∀ datumId, next.lock env datumId =
    if env.home datumId = receiver then locks datumId else node.lock env datumId
  locks : ∀ thread, (next.workers thread).lock =
    if thread = receiver then locks else (node.workers thread).lock
  submitted : next.submitted = node.submitted
  replies : next.replies = node.replies ++ effects.filterMap Effect.toReply
  invocations : next.invocations = node.invocations ++ effects.filterMap Effect.toInvocation

/-- What a step does, either posting a client's message or taking a turn. -/
inductive StepSpec (env : Env Resident) (node : Node Resident) :
    NodeLabel → Node Resident → Prop where
  | submit (thread : ThreadId) (opId : DatumId) (opName : String) (datumIds : List DatumId)
      (payload : Bytes) (fresh : opId ∉ node.submitted) :
      StepSpec env node (.submit thread opId opName datumIds payload)
        { node.post ⟨.client, thread, .runOp opId opName datumIds payload⟩ with
          submitted := opId :: node.submitted }
  | indexQuery (target : DatumId) (indexKind : String) (query : Bytes) :
      StepSpec env node (.indexQuery target indexKind query)
        (node.post ⟨.client, env.home target, .indexQuery target indexKind query⟩)
  | indexExecute (target : DatumId) (indexKind : String) (payload : Bytes) :
      StepSpec env node (.indexExecute target indexKind payload)
        (node.post ⟨.client, env.home target, .indexExecute target indexKind payload⟩)
  | existsCheck (datumId : DatumId) :
      StepSpec env node (.existsCheck datumId)
        (node.post ⟨.client, env.home datumId, .existsCheck datumId echoOpId .sync⟩)
  | deliver (sender : Sender) (receiver : ThreadId) (hint : DatumId) (message : WorkerMessage)
      (rest : List Packet) (locks : DatumId → NativeLock Grant)
      (records : DatumId → Option OpRecord) (effects : List Effect) (next : Node Resident)
      (first : node.inFlight.find? (between sender receiver) =
        some ⟨sender, receiver, message⟩)
      (turn : effects =
        (env.handle receiver hint message (node.workers receiver) node.store).effects)
      (delivery : Delivery env node sender receiver message rest locks records effects next) :
      StepSpec env node (.deliver sender receiver hint) next

theorem step_spec {env : Env Resident} (standalone : env.Standalone) {node next : Node Resident}
    {label : NodeLabel} (local_ : ∀ packet ∈ node.inFlight, ¬packet.message.Remote)
    (stepped : step env node label = some next) : StepSpec env node label next := by
  cases label with
  | submit thread opId opName datumIds payload =>
      simp only [step] at stepped
      split at stepped
      · cases stepped
      · rename_i fresh
        cases stepped
        exact .submit thread opId opName datumIds payload fresh
  | indexQuery target indexKind query =>
      cases stepped
      exact .indexQuery target indexKind query
  | indexExecute target indexKind payload =>
      cases stepped
      exact .indexExecute target indexKind payload
  | existsCheck datumId =>
      cases stepped
      exact .existsCheck datumId
  | deliver sender receiver hint =>
      rcases step_deliver stepped with ⟨message, rest, consumed, first, rfl⟩
      have packetMem : (⟨sender, receiver, message⟩ : Packet) ∈ node.inFlight :=
        consumed.mem_iff.mpr List.mem_cons_self
      let turn := env.handle receiver hint message (node.workers receiver) node.store
      refine .deliver sender receiver hint message rest turn.worker.lock turn.worker.record
        turn.effects _ first rfl ?_
      exact {
        consumed := consumed
        move := Env.handle_move standalone receiver hint (local_ _ packetMem) _ node.store
        inFlight := rfl
        record := record_afterTurn node receiver rest _
        lock := lock_afterTurn env node receiver rest _
        locks := by
          intro thread
          by_cases same : thread = receiver
          · subst same
            simp [afterTurn, turn]
          · simp [afterTurn, same]
        submitted := rfl
        replies := rfl
        invocations := rfl }

end Node

end Seisin
