import Seisin.Node

/-!
# Routing

On a node that owns its whole ring, every lock request and release goes to the datum's native home,
every grant and recall acknowledgement comes back to the thread it concerns, and the locks stay
well-formed.  These facts hold in every reachable state; the collation arguments build on them.
-/

namespace Seisin

variable {Resident : Type}

/-- Where a message may be sent and whom it answers to. -/
def Packet.Routed (env : Env Resident) (packet : Packet) : Prop :=
  match packet.message with
  | .acquire _ datumId requesterNode requesterThread reply =>
      packet.receiver = env.home datumId ∧ requesterNode = env.selfNodeId ∧
        reply = .local requesterThread
  | .release datumId => packet.receiver = env.home datumId
  | .recall datumId reply => reply = .local (env.home datumId)
  | .indexUpdate _ _ _ _ reply => ∃ inbox, reply = .local inbox
  | .existsCheck _ _ reply => (∃ inbox, reply = .local inbox) ∨ reply = .sync
  | .indexQuery _ _ _ | .indexExecute _ _ _ => packet.sender = .client
  | .acquireFailed _ _ _ | .releaseLocksHeldBy _ => False
  | _ => True

theorem Packet.Routed.not_remote {env : Env Resident} {packet : Packet}
    (routed : packet.Routed env) : ¬packet.message.Remote := by
  rcases packet with ⟨sender, receiver, message⟩
  cases message <;> simp_all [Routed, WorkerMessage.Remote]

/-- A queued request remembers the thread that made it. -/
def Waiter.Routed (env : Env Resident) (datumId : DatumId) (waiter : Waiter Grant) : Prop :=
  waiter.nodeId = env.selfNodeId ∧
    waiter.onGranted = ⟨.local waiter.threadId, waiter.opId, datumId⟩

namespace Node

structure Routed (env : Env Resident) (node : Node Resident) : Prop where
  packets : ∀ packet ∈ node.inFlight, packet.Routed env
  waiters : ∀ datumId, ∀ waiter ∈ (node.lock env datumId).waiters, waiter.Routed env datumId
  holders : ∀ datumId holder, (node.lock env datumId).currentHolder = some holder →
    holder.nodeId = env.selfNodeId
  locks : ∀ datumId, (node.lock env datumId).WellFormed
  strangers : ∀ thread datumId, env.home datumId ≠ thread →
    (node.workers thread).lock datumId = NativeLock.new

end Node

/-! ## Routing of effects -/

def Effect.Routed (env : Env Resident) (effect : Effect) : Prop :=
  ∀ receiver message, effect = .send receiver message →
    ∀ sender, (Packet.mk sender receiver message).Routed env

namespace Effect

variable {env : Env Resident}

theorem routed_grant {waiter : Waiter Grant} {datumId : DatumId}
    (routed : waiter.Routed env datumId) : waiter.onGranted.fire.Routed env := by
  intro receiver message sends sender
  rw [routed.2] at sends
  simp only [Grant.fire, AcquireReply.grant, send.injEq] at sends
  rcases sends with ⟨rfl, rfl⟩
  exact trivial

theorem routed_dispatch {thread : ThreadId} {opId : DatumId} {effect : Effect}
    (dispatch : Dispatch thread opId effect) : effect.Routed env := by
  intro receiver message sends sender
  cases dispatch with
  | indexUpdate receiver target indexKind payload =>
      cases sends
      exact ⟨thread, rfl⟩
  | existsCheck receiver target =>
      cases sends
      exact Or.inl ⟨thread, rfl⟩

theorem routed_release (datumId : DatumId) :
    (send (env.home datumId) (.release datumId)).Routed env := by
  intro receiver message sends sender
  cases sends
  rfl

theorem routed_acquire (opId datumId : DatumId) (thread : ThreadId) :
    (send (env.home datumId)
      (.acquire opId datumId env.selfNodeId thread (.local thread))).Routed env := by
  intro receiver message sends sender
  cases sends
  exact ⟨rfl, rfl, rfl⟩

theorem routed_releases (record : OpRecord) :
    ∀ effect ∈ env.releases record, effect.Routed env := by
  intro effect effectMem
  simp only [Env.releases, List.mem_map] at effectMem
  rcases effectMem with ⟨datumId, _, rfl⟩
  exact routed_release datumId

theorem routed_ran {thread : ThreadId} {opId : DatumId} {record : OpRecord}
    {after : Option OpRecord} {effects : List Effect}
    (ran : Ran env thread opId record after effects) :
    ∀ effect ∈ effects, effect.Routed env := by
  intro effect effectMem
  cases ran with
  | waiting unready => cases effectMem
  | failed collated fresh message =>
      simp only [List.mem_cons] at effectMem
      rcases effectMem with rfl | rfl | effectMem
      · intro receiver message sends
        cases sends
      · intro receiver message sends
        cases sends
      · exact routed_releases record effect effectMem
  | committed collated fresh writes result =>
      simp only [List.mem_cons] at effectMem
      rcases effectMem with rfl | rfl | rfl | effectMem
      · intro receiver message sends
        cases sends
      · intro receiver message sends
        cases sends
      · intro receiver message sends
        cases sends
      · exact routed_releases record effect effectMem
  | settling collated fresh state dispatches counted some_ dispatched =>
      simp only [List.mem_cons] at effectMem
      rcases effectMem with rfl | effectMem
      · intro receiver message sends
        cases sends
      · exact routed_dispatch (dispatched effect effectMem)

theorem routed_finished {opId : DatumId} {record : OpRecord} {after : Option OpRecord}
    {effects : List Effect} (finished : Finished env opId record after effects) :
    ∀ effect ∈ effects, effect.Routed env := by
  intro effect effectMem
  cases finished with
  | waiting state entered outstanding => cases effectMem
  | failed state entered settled message =>
      simp only [List.mem_cons] at effectMem
      rcases effectMem with rfl | effectMem
      · intro receiver message sends
        cases sends
      · exact routed_releases record effect effectMem
  | committed state entered settled result =>
      simp only [List.mem_cons] at effectMem
      rcases effectMem with rfl | rfl | effectMem
      · intro receiver message sends
        cases sends
      · intro receiver message sends
        cases sends
      · exact routed_releases record effect effectMem

theorem routed_move {thread : ThreadId} {locks locks' : DatumId → NativeLock Grant}
    {records records' : DatumId → Option OpRecord} {message : WorkerMessage}
    {effects : List Effect} {sender : Sender}
    (move : Move env thread locks records message locks' records' effects)
    (consumed : (Packet.mk sender thread message).Routed env)
    (waiters : ∀ datumId, env.home datumId = thread →
      ∀ waiter ∈ (locks datumId).waiters, waiter.Routed env datumId)
    (holders : ∀ datumId, env.home datumId = thread → ∀ holder,
      (locks datumId).currentHolder = some holder → holder.nodeId = env.selfNodeId)
    (wellFormed : ∀ datumId, env.home datumId = thread → (locks datumId).WellFormed) :
    ∀ effect ∈ effects, effect.Routed env := by
  intro effect effectMem
  cases move with
  | runOp opId opName datumIds payload after rest ran =>
      rcases List.mem_append.mp effectMem with effectMem | effectMem
      · rcases List.mem_map.mp effectMem with ⟨datumId, _, rfl⟩
        exact routed_acquire opId datumId thread
      · exact routed_ran ran effect effectMem
  | acquire opId datumId requesterNode requesterThread reply =>
      rcases consumed with ⟨atHome, rfl, rfl⟩
      cases held : (locks datumId).currentHolder with
      | none =>
          rw [NativeLock.request_idle (wellFormed datumId atHome.symm) held] at effectMem
          simp only [Option.toList_some, List.map_cons, List.map_nil, List.append_nil,
            List.mem_singleton] at effectMem
          subst effectMem
          intro receiver message sends sender
          cases sends
          exact trivial
      | some holder =>
          rw [NativeLock.request_held held] at effectMem
          by_cases older : opId < holder.opId
          · have holderNode := holders datumId atHome.symm holder held
            simp only [Option.toList_none, List.map_nil, older, if_true, List.nil_append,
              List.mem_singleton, Env.sendRecall, holderNode] at effectMem
            subst effectMem
            intro receiver message sends sender
            cases sends
            exact congrArg RecallReply.local atHome
          · simp [older] at effectMem
  | grantLost opId datumId gone =>
      rw [List.mem_singleton] at effectMem
      subst effectMem
      exact routed_release datumId
  | granted opId datumId record found after effects ran =>
      exact routed_ran ran effect effectMem
  | recallMissed datumId reply missed =>
      have replyEq : reply = .local (env.home datumId) := consumed
      rw [List.mem_singleton, replyEq] at effectMem
      subst effectMem
      exact routed_release datumId
  | recalled datumId reply opId record found holds =>
      have replyEq : reply = .local (env.home datumId) := consumed
      simp only [List.mem_cons, List.not_mem_nil, or_false, replyEq] at effectMem
      rcases effectMem with rfl | rfl
      · exact routed_release datumId
      · exact routed_acquire opId datumId thread
  | release datumId =>
      have atHome : thread = env.home datumId := consumed
      cases waiting : (locks datumId).waiters with
      | nil =>
          rw [NativeLock.release_empty waiting] at effectMem
          cases effectMem
      | cons waiter rest =>
          rw [NativeLock.release_cons waiting] at effectMem
          simp only [Option.toList_some, List.map_cons, List.map_nil,
            List.mem_singleton] at effectMem
          subst effectMem
          exact routed_grant (waiters datumId atHome.symm waiter (by simp [waiting]))
  | indexUpdateLost opId target violation gone => cases effectMem
  | indexUpdateReplied opId target violation record state found entered after effects finished =>
      exact routed_finished finished effect effectMem
  | existsCheckLost opId target answer gone => cases effectMem
  | existsCheckReplied opId target answer record state found entered after effects finished =>
      rcases List.mem_append.mp effectMem with effectMem | effectMem
      · rcases List.mem_map.mp effectMem with ⟨update, _, rfl⟩
        exact routed_dispatch (.indexUpdate _ _ _ _)
      · exact routed_finished finished effect effectMem
  | indexUpdate target opId indexKind payload reply violation =>
      rcases consumed with ⟨inbox, rfl⟩
      rw [List.mem_singleton] at effectMem
      subst effectMem
      intro receiver message sends sender
      cases sends
      exact trivial
  | existsCheck datumId opId reply answer =>
      rw [List.mem_singleton] at effectMem
      subst effectMem
      intro receiver message sends sender
      rcases consumed with ⟨inbox, rfl⟩ | rfl
      · cases sends
        exact trivial
      · cases sends
  | evictNonNative isNative => cases effectMem
  | indexQuery target indexKind query result =>
      rw [List.mem_singleton] at effectMem
      subst effectMem
      intro receiver message sends
      cases sends
  | indexExecute target indexKind payload result =>
      rw [List.mem_singleton] at effectMem
      subst effectMem
      intro receiver message sends
      cases sends

end Effect

/-- Locks of the home thread stay well-formed and keep only routed requests. -/
theorem Move.locks_routed {env : Env Resident} {thread : ThreadId}
    {locks locks' : DatumId → NativeLock Grant} {records records' : DatumId → Option OpRecord}
    {message : WorkerMessage} {effects : List Effect} {sender : Sender}
    (move : Move env thread locks records message locks' records' effects)
    (consumed : (Packet.mk sender thread message).Routed env) (datumId : DatumId)
    (waiters : ∀ waiter ∈ (locks datumId).waiters, waiter.Routed env datumId)
    (holders : ∀ holder, (locks datumId).currentHolder = some holder →
      holder.nodeId = env.selfNodeId)
    (wellFormed : (locks datumId).WellFormed) :
    (∀ waiter ∈ (locks' datumId).waiters, waiter.Routed env datumId) ∧
      (∀ holder, (locks' datumId).currentHolder = some holder →
        holder.nodeId = env.selfNodeId) ∧ (locks' datumId).WellFormed := by
  cases move with
  | acquire opId requested requesterNode requesterThread reply =>
      by_cases same : datumId = requested
      · subst same
        rcases consumed with ⟨_, rfl, rfl⟩
        rw [Function.update_self]
        refine ⟨?_, ?_, NativeLock.request_wellFormed wellFormed _ _ _ _⟩
        · cases held : (locks datumId).currentHolder with
          | none =>
              rw [NativeLock.request_idle wellFormed held]
              simp
          | some holder =>
              rw [NativeLock.request_held held]
              intro waiter waiterMem
              rcases NativeLock.mem_enqueue.mp waiterMem with rfl | waiterMem
              · exact ⟨rfl, rfl⟩
              · exact waiters waiter waiterMem
        · cases held : (locks datumId).currentHolder with
          | none =>
              rw [NativeLock.request_idle wellFormed held]
              intro holder holderEq
              cases holderEq
              rfl
          | some holder =>
              rw [NativeLock.request_held held]
              intro other otherEq
              cases otherEq
              exact holders holder held
      · rw [Function.update_of_ne same]
        exact ⟨waiters, holders, wellFormed⟩
  | release released =>
      by_cases same : datumId = released
      · subst same
        rw [Function.update_self]
        refine ⟨?_, ?_, NativeLock.release_wellFormed wellFormed⟩
        · cases waiting : (locks datumId).waiters with
          | nil =>
              rw [NativeLock.release_empty waiting]
              simp
          | cons waiter rest =>
              rw [NativeLock.release_cons waiting]
              intro other otherMem
              exact waiters other (by simp [waiting, otherMem])
        · cases waiting : (locks datumId).waiters with
          | nil =>
              rw [NativeLock.release_empty waiting]
              simp
          | cons waiter rest =>
              rw [NativeLock.release_cons waiting]
              intro holder holderEq
              cases holderEq
              exact (waiters waiter (by simp [waiting])).1
      · rw [Function.update_of_ne same]
        exact ⟨waiters, holders, wellFormed⟩
  | _ => exact ⟨waiters, holders, wellFormed⟩

/-- Only the home thread of a datum touches its lock. -/
theorem Move.lock_of_stranger {env : Env Resident} {thread : ThreadId}
    {locks locks' : DatumId → NativeLock Grant} {records records' : DatumId → Option OpRecord}
    {message : WorkerMessage} {effects : List Effect} {sender : Sender}
    (move : Move env thread locks records message locks' records' effects)
    (consumed : (Packet.mk sender thread message).Routed env) {datumId : DatumId}
    (stranger : env.home datumId ≠ thread) : locks' datumId = locks datumId := by
  cases move with
  | acquire opId requested requesterNode requesterThread reply =>
      have atHome : thread = env.home requested := consumed.1
      rw [Function.update_of_ne]
      rintro rfl
      exact stranger atHome.symm
  | release released =>
      have atHome : thread = env.home released := consumed
      rw [Function.update_of_ne]
      rintro rfl
      exact stranger atHome.symm
  | _ => rfl

namespace Node

variable {env : Env Resident}

theorem routed_new (store : Store) : (new store : Node Resident).Routed env where
  packets := by simp [new]
  waiters := by simp [new, lock, Worker.lock, Worker.new, NativeLock.new]
  holders := by simp [new, lock, Worker.lock, Worker.new, NativeLock.new]
  locks := by
    intro datumId
    simpa [new, lock, Worker.lock, Worker.new] using NativeLock.new_wellFormed
  strangers := by simp [new, Worker.lock, Worker.new]

theorem routed_post {node : Node Resident} (routed : node.Routed env) {packet : Packet}
    (packetRouted : packet.Routed env) : (node.post packet).Routed env where
  packets := by
    intro other otherMem
    rcases List.mem_append.mp otherMem with otherMem | otherMem
    · exact routed.packets other otherMem
    · rw [List.mem_singleton] at otherMem
      exact otherMem ▸ packetRouted
  waiters := routed.waiters
  holders := routed.holders
  locks := routed.locks
  strangers := routed.strangers

theorem routed_delivery {node next : Node Resident} {sender : Sender} {receiver : ThreadId}
    {message : WorkerMessage} {rest : List Packet} {locks : DatumId → NativeLock Grant}
    {records : DatumId → Option OpRecord} {effects : List Effect} (routed : node.Routed env)
    (delivery : Delivery env node sender receiver message rest locks records effects next) :
    next.Routed env := by
  have consumedRouted : (Packet.mk sender receiver message).Routed env :=
    routed.packets _ (delivery.consumed.mem_iff.mpr List.mem_cons_self)
  have lockAt : ∀ datumId, env.home datumId = receiver →
      (node.workers receiver).lock datumId = node.lock env datumId := by
    rintro datumId rfl
    rfl
  have lockRouted : ∀ datumId,
      (∀ waiter ∈ (next.lock env datumId).waiters, waiter.Routed env datumId) ∧
        (∀ holder, (next.lock env datumId).currentHolder = some holder →
          holder.nodeId = env.selfNodeId) ∧ (next.lock env datumId).WellFormed := by
    intro datumId
    rw [delivery.lock datumId]
    split
    · rename_i atHome
      apply delivery.move.locks_routed consumedRouted datumId
      · rw [lockAt datumId atHome]
        exact routed.waiters datumId
      · rw [lockAt datumId atHome]
        exact routed.holders datumId
      · rw [lockAt datumId atHome]
        exact routed.locks datumId
    · exact ⟨routed.waiters datumId, routed.holders datumId, routed.locks datumId⟩
  constructor
  · intro packet packetMem
    rw [delivery.inFlight] at packetMem
    rcases List.mem_append.mp packetMem with packetMem | packetMem
    · exact routed.packets packet
        (delivery.consumed.mem_iff.mpr (List.mem_cons_of_mem _ packetMem))
    · rcases List.mem_filterMap.mp packetMem with ⟨effect, effectMem, isPacket⟩
      have effectRouted := Effect.routed_move delivery.move consumedRouted
        (fun datumId atHome => by rw [lockAt datumId atHome]; exact routed.waiters datumId)
        (fun datumId atHome => by rw [lockAt datumId atHome]; exact routed.holders datumId)
        (fun datumId atHome => by rw [lockAt datumId atHome]; exact routed.locks datumId)
        effect effectMem
      cases effect with
      | send target sentMessage =>
          cases isPacket
          exact effectRouted target sentMessage rfl (.worker receiver)
      | _ => cases isPacket
  · exact fun datumId => (lockRouted datumId).1
  · exact fun datumId => (lockRouted datumId).2.1
  · exact fun datumId => (lockRouted datumId).2.2
  · intro thread datumId stranger
    rw [delivery.locks thread]
    split
    · rename_i same
      subst same
      rw [delivery.move.lock_of_stranger consumedRouted stranger]
      exact routed.strangers thread datumId stranger
    · exact routed.strangers thread datumId stranger

theorem step_spec_of_routed (standalone : env.Standalone) {node next : Node Resident}
    {label : NodeLabel} (routed : node.Routed env) (stepped : step env node label = some next) :
    StepSpec env node label next :=
  step_spec standalone (fun packet packetMem => (routed.packets packet packetMem).not_remote)
    stepped

theorem routed_step (standalone : env.Standalone) {node next : Node Resident} {label : NodeLabel}
    (routed : node.Routed env) (stepped : step env node label = some next) :
    next.Routed env := by
  cases step_spec_of_routed standalone routed stepped with
  | submit thread opId opName datumIds payload fresh =>
      have posted : (node.post ⟨.client, thread, .runOp opId opName datumIds payload⟩).Routed env :=
        routed_post routed trivial
      exact ⟨posted.packets, posted.waiters, posted.holders, posted.locks, posted.strangers⟩
  | indexQuery target indexKind query => exact routed_post routed rfl
  | indexExecute target indexKind payload => exact routed_post routed rfl
  | existsCheck datumId => exact routed_post routed (Or.inr rfl)
  | deliver sender receiver hint message rest locks records effects next first turn delivery =>
      exact routed_delivery routed delivery

theorem routed_of_reachable (standalone : env.Standalone) {node : Node Resident}
    (reached : (system env).Reachable node) : node.Routed env := by
  apply reached.induction
  · rintro _ ⟨store, rfl⟩
    exact routed_new store
  · intro state label next routed _ stepped
    exact routed_step standalone routed stepped

end Node

end Seisin
