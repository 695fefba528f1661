import Seisin.Node.Exclusion
import Seisin.Worker.Stored
import Mathlib

/-!
# Existence checks and committed writes

An existence check is answered by the native thread of its datum from the thread's own cache, and
without the datum's lock.  An op that deletes the datum runs on any thread: it commits, replies, and
only then sends the release that makes the native thread drop its copy.  A check that arrives in
between is answered from the copy.  This is the only way a check can miss a committed write: a run
answers every check from the writes committed so far exactly as long as no check is taken while the
native thread still has a copy it cached before another thread's op removed the datum.
-/

namespace Seisin

open Transition

variable {Resident : Type}

/-! ## Index updates and checks go to the native thread -/

/-- Index updates and existence checks are sent to the native thread of their datum. -/
def WorkerMessage.Addressed (env : Env Resident) (receiver : ThreadId) : WorkerMessage → Prop
  | .indexUpdate target _ _ _ _ => receiver = env.home target
  | .existsCheck datumId _ _ => receiver = env.home datumId
  | _ => True

def Effect.Addressed (env : Env Resident) : Effect → Prop
  | .send receiver message => message.Addressed env receiver
  | _ => True

namespace Env

variable {env : Env Resident}

theorem addressed_dispatchIndexUpdate (standalone : env.Standalone) (thread : ThreadId)
    (opId : DatumId) (update : PendingIndexUpdate) :
    (env.dispatchIndexUpdate thread opId update).Addressed env := by
  rw [dispatchIndexUpdate_standalone standalone]
  exact rfl

theorem addressed_dispatchExistsCheck (standalone : env.Standalone) (thread : ThreadId)
    (opId target : DatumId) :
    (env.dispatchExistsCheck thread opId target).Addressed env := by
  rw [dispatchExistsCheck_standalone standalone]
  exact rfl

theorem addressed_releaseDatums (standalone : env.Standalone) (datumIds : List DatumId)
    (cache : Cache) :
    ∀ effect ∈ (env.releaseDatums datumIds cache).2, effect.Addressed env := by
  intro effect effectMem
  rw [releaseDatums_standalone standalone] at effectMem
  rcases List.mem_map.mp effectMem with ⟨datumId, _, rfl⟩
  exact trivial

theorem addressed_tryRunIfReady (standalone : env.Standalone) (thread : ThreadId)
    (opId : DatumId) (worker : Worker Resident) (store : Store) :
    ∀ effect ∈ (env.tryRunIfReady thread opId worker store).effects, effect.Addressed env := by
  intro effect effectMem
  unfold tryRunIfReady at effectMem
  cases found : worker.opRecords.lookup opId with
  | none => simp [found] at effectMem
  | some record =>
      rw [found] at effectMem
      dsimp only at effectMem
      split at effectMem
      · generalize env.ops.invoke store record.opName (OpContext.new worker.cache)
          record.datumIds record.payload = invoked at effectMem
        rcases invoked with ⟨ctx, message | result⟩
        · simp only [List.mem_cons] at effectMem
          rcases effectMem with rfl | rfl | effectMem
          · exact trivial
          · exact trivial
          · exact addressed_releaseDatums standalone _ _ effect effectMem
        · dsimp only at effectMem
          split at effectMem
          · simp only [List.mem_cons] at effectMem
            rcases effectMem with rfl | rfl | rfl | effectMem
            · exact trivial
            · exact trivial
            · exact trivial
            · exact addressed_releaseDatums standalone _ _ effect effectMem
          · simp only [List.mem_cons, List.mem_append, List.mem_map] at effectMem
            rcases effectMem with rfl | ⟨update, _, rfl⟩ | ⟨check, _, rfl⟩
            · exact trivial
            · exact addressed_dispatchIndexUpdate standalone thread opId update
            · exact addressed_dispatchExistsCheck standalone thread opId check.target
      · cases effectMem

theorem addressed_finishOpIfSettled (standalone : env.Standalone) (opId : DatumId)
    (worker : Worker Resident) (store : Store) :
    ∀ effect ∈ (env.finishOpIfSettled opId worker store).effects, effect.Addressed env := by
  intro effect effectMem
  unfold finishOpIfSettled at effectMem
  cases found : worker.opRecords.lookup opId with
  | none => simp [found] at effectMem
  | some record =>
      rw [found] at effectMem
      dsimp only at effectMem
      cases entered : record.indexUpdateState with
      | none => simp [entered] at effectMem
      | some state =>
          rw [entered] at effectMem
          dsimp only at effectMem
          split at effectMem
          · cases violated : state.violation with
            | some violation =>
                simp only [violated, List.mem_cons] at effectMem
                rcases effectMem with rfl | effectMem
                · exact trivial
                · exact addressed_releaseDatums standalone _ _ effect effectMem
            | none =>
                simp only [violated, List.mem_cons] at effectMem
                rcases effectMem with rfl | rfl | effectMem
                · exact trivial
                · exact trivial
                · exact addressed_releaseDatums standalone _ _ effect effectMem
          · cases effectMem

theorem addressed_grant (grant : Grant) : grant.fire.Addressed env := by
  rcases grant with ⟨reply, opId, datumId⟩
  cases reply with
  | «local» inbox => exact trivial
  | remote link correlationId => exact trivial

/-- Every index update and check a turn sends goes to the native thread. -/
theorem addressed_handle (standalone : env.Standalone) (thread : ThreadId) (hint : DatumId)
    {message : WorkerMessage} (local_ : ¬message.Remote) (worker : Worker Resident)
    (store : Store) :
    ∀ effect ∈ (env.handle thread hint message worker store).effects, effect.Addressed env := by
  intro effect effectMem
  cases message with
  | runOp opId opName datumIds payload =>
      simp only [handle, handleRunOp, Turn.andThen, List.mem_append, List.mem_map] at effectMem
      rcases effectMem with ⟨datumId, _, rfl⟩ | effectMem
      · rw [sendAcquire_standalone standalone]
        exact trivial
      · exact addressed_tryRunIfReady standalone thread opId _ store effect effectMem
  | acquire opId datumId requesterNode requesterThread reply =>
      simp only [handle, handleAcquire, List.mem_append, List.mem_map] at effectMem
      rcases effectMem with ⟨grant, _, rfl⟩ | effectMem
      · exact addressed_grant grant
      · split at effectMem
        · rcases List.mem_singleton.mp effectMem with rfl
          unfold sendRecall
          split
          · exact trivial
          · split
            · exact trivial
            · exact trivial
        · cases effectMem
  | acquireGranted opId granted =>
      simp only [handle, handleAcquireGranted] at effectMem
      split at effectMem
      · exact addressed_tryRunIfReady standalone thread opId _ store effect effectMem
      · exact addressed_releaseDatums standalone [granted] worker.cache effect effectMem
  | acquireFailed opId failed retriesLeft => exact absurd trivial local_
  | «recall» recalled reply =>
      have acked : (reply.ack recalled).Addressed env := by
        cases reply with
        | «local» inbox => exact trivial
        | remote link correlationId => exact trivial
      simp only [handle, handleRecall] at effectMem
      split at effectMem
      · rcases List.mem_singleton.mp effectMem with rfl
        exact acked
      · split at effectMem
        · rcases List.mem_singleton.mp effectMem with rfl
          exact acked
        · simp only [List.mem_cons, List.not_mem_nil, or_false] at effectMem
          rcases effectMem with rfl | rfl
          · exact acked
          · rw [sendAcquire_standalone standalone]
            exact trivial
  | release released =>
      simp only [handle, handleRelease] at effectMem
      split at effectMem
      · cases effectMem
      · rcases List.mem_map.mp effectMem with ⟨grant, _, rfl⟩
        exact addressed_grant grant
  | evictNonNative isNative => cases effectMem
  | releaseLocksHeldBy nodeId => exact absurd trivial local_
  | indexUpdate target opId indexKind payload reply =>
      have answered : ∀ violation, (reply.respond opId target violation).Addressed env := by
        intro violation
        cases reply with
        | «local» inbox => exact trivial
        | remote link correlationId => exact trivial
      simp only [handle, serveIndexUpdate] at effectMem
      split at effectMem
      · rcases List.mem_singleton.mp effectMem with rfl
        exact answered _
      · rcases List.mem_singleton.mp effectMem with rfl
        exact answered _
  | indexUpdateReplied opId target violation =>
      simp only [handle, handleIndexUpdateReplied] at effectMem
      split at effectMem
      · exact addressed_finishOpIfSettled standalone opId _ store effect effectMem
      · exact addressed_finishOpIfSettled standalone opId _ store effect effectMem
  | indexQuery target indexKind query =>
      simp only [handle, serveIndexQuery] at effectMem
      split at effectMem
      · rcases List.mem_singleton.mp effectMem with rfl
        exact trivial
      · rcases List.mem_singleton.mp effectMem with rfl
        exact trivial
  | indexExecute target indexKind payload =>
      simp only [handle, serveIndexExecute] at effectMem
      split at effectMem
      · rcases List.mem_singleton.mp effectMem with rfl
        exact trivial
      · rcases List.mem_singleton.mp effectMem with rfl
        exact trivial
  | existsCheck checked opId reply =>
      rcases List.mem_singleton.mp effectMem with rfl
      cases reply with
      | «local» inbox => exact trivial
      | remote link correlationId => exact trivial
      | sync => exact trivial
  | existsCheckReplied opId target found =>
      simp only [handle, handleExistsCheckReplied] at effectMem
      split at effectMem
      · exact addressed_finishOpIfSettled standalone opId _ store effect effectMem
      · split at effectMem
        · exact addressed_finishOpIfSettled standalone opId _ store effect effectMem
        · simp only [Turn.andThen, List.mem_append, List.mem_map] at effectMem
          rcases effectMem with ⟨update, _, rfl⟩ | effectMem
          · exact addressed_dispatchIndexUpdate standalone thread opId update
          · exact addressed_finishOpIfSettled standalone opId _ store effect effectMem

end Env

namespace Node

variable {env : Env Resident}

/-- Every index update and check on its way is on its way to the native thread. -/
def Addressed (env : Env Resident) (node : Node Resident) : Prop :=
  ∀ packet ∈ node.inFlight, packet.message.Addressed env packet.receiver

theorem addressed_post {node : Node Resident} (addressed : node.Addressed env) {packet : Packet}
    (posted : packet.message.Addressed env packet.receiver) :
    (node.post packet).Addressed env := by
  intro other otherMem
  rcases List.mem_append.mp otherMem with otherMem | otherMem
  · exact addressed other otherMem
  · rcases List.mem_singleton.mp otherMem with rfl
    exact posted

theorem addressed_step (standalone : env.Standalone) {node next : Node Resident}
    {label : NodeLabel} (routed : node.Routed env) (addressed : node.Addressed env)
    (stepped : step env node label = some next) : next.Addressed env := by
  cases label with
  | submit thread opId opName datumIds payload =>
      simp only [step] at stepped
      split at stepped
      · cases stepped
      · cases stepped
        exact addressed_post addressed trivial
  | indexQuery target indexKind query =>
      cases stepped
      exact addressed_post addressed trivial
  | indexExecute target indexKind payload =>
      cases stepped
      exact addressed_post addressed trivial
  | existsCheck datumId =>
      cases stepped
      exact addressed_post addressed rfl
  | deliver sender receiver hint =>
      rcases step_deliver stepped with ⟨message, rest, consumed, _, rfl⟩
      have taken : (⟨sender, receiver, message⟩ : Packet) ∈ node.inFlight :=
        consumed.mem_iff.mpr List.mem_cons_self
      intro packet packetMem
      rcases List.mem_append.mp packetMem with packetMem | packetMem
      · exact addressed packet (consumed.mem_iff.mpr (List.mem_cons_of_mem _ packetMem))
      · rcases List.mem_filterMap.mp packetMem with ⟨effect, effectMem, isPacket⟩
        have sent := Env.addressed_handle standalone receiver hint
          (routed.packets _ taken).not_remote _ _ effect effectMem
        cases effect with
        | send target sentMessage =>
            cases isPacket
            exact sent
        | _ => cases isPacket

/-! ## Copies that outlive a deletion -/

/-- The native thread has a copy of a datum that is no longer stored. -/
def Stale (env : Env Resident) (node : Node Resident) (datumId : DatumId) : Prop :=
  (node.workers (env.home datumId)).cache datumId ≠ none ∧ node.store datumId = none

/-- The step commits a write of `datumId` with the given content for an op it answers with a
result. -/
def Commits (env : Env Resident) (node : Node Resident) (label : NodeLabel) (datumId : DatumId)
    (content : Option Bytes) : Prop :=
  ∃ opId datumIds writes result, .committed opId datumIds writes ∈ effects env node label ∧
    .reply opId (.ok result) ∈ effects env node label ∧
    committedContent writes datumId = some content

/-- The step commits the removal of `datumId` for an op of another thread than the native one. -/
def DeletesElsewhere (env : Env Resident) (node : Node Resident) (label : NodeLabel)
    (datumId : DatumId) : Prop :=
  ∃ sender thread hint, label = .deliver sender thread hint ∧ thread ≠ env.home datumId ∧
    Commits env node label datumId none

theorem effects_deliver {node : Node Resident} {sender : Sender} {receiver : ThreadId}
    {hint : DatumId} {message : WorkerMessage}
    (first : node.inFlight.find? (between sender receiver) = some ⟨sender, receiver, message⟩) :
    effects env node (.deliver sender receiver hint) =
      (env.handle receiver hint message (node.workers receiver) node.store).effects := by
  simp only [effects, first]

/-- The native thread is left with a copy of a removed datum only by another thread's deletion, and
only of a datum it had cached before. -/
theorem stale_step {node next : Node Resident} {label : NodeLabel}
    {datumId : DatumId} (routed : node.Routed env) (addressed : node.Addressed env)
    (stepped : step env node label = some next) (fresh : ¬node.Stale env datumId)
    (stale : next.Stale env datumId) :
    (node.workers (env.home datumId)).cache datumId ≠ none ∧
      DeletesElsewhere env node label datumId := by
  cases label with
  | submit thread opId opName datumIds payload =>
      simp only [step] at stepped
      split at stepped
      · cases stepped
      · cases stepped
        exact absurd stale fresh
  | indexQuery target indexKind query =>
      cases stepped
      exact absurd stale fresh
  | indexExecute target indexKind payload =>
      cases stepped
      exact absurd stale fresh
  | existsCheck checked =>
      cases stepped
      exact absurd stale fresh
  | deliver sender receiver hint =>
      rcases step_deliver stepped with ⟨message, rest, consumed, first, rfl⟩
      have taken : (⟨sender, receiver, message⟩ : Packet) ∈ node.inFlight :=
        consumed.mem_iff.mpr List.mem_cons_self
      rcases stale with ⟨copied, removed⟩
      by_cases atHome : receiver = env.home datumId
      · -- The native thread's own turn: whatever it removes from the store it also drops.
        subst atHome
        have backed : (node.workers (env.home datumId)).cache.Backed node.store datumId :=
          fun present absent => fresh ⟨present, absent⟩
        have after := Env.handle_backed env (env.home datumId) hint
          (routed.packets _ taken).not_remote backed
        simp only [afterTurn, Function.update_self] at copied
        exact absurd removed (after copied)
      · have elsewhere : env.home datumId ≠ receiver := fun same => atHome same.symm
        simp only [afterTurn, Function.update_of_ne elsewhere] at copied
        have was : node.store datumId ≠ none := fun absent => fresh ⟨copied, absent⟩
        refine ⟨copied, ?_⟩
        cases env.handle_stores receiver hint message (node.workers receiver) node.store
            datumId with
        | kept same => exact absurd (same.symm.trans removed) was
        | committed opId datumIds writes content result commits replies wrote stored =>
            refine ⟨sender, receiver, hint, rfl, atHome, opId, datumIds, writes, result, ?_⟩
            rw [effects_deliver first]
            refine ⟨commits, replies, ?_⟩
            rw [wrote, ← stored]
            exact congrArg some removed
        | served opId indexKind payload reply serves =>
            subst serves
            exact absurd (addressed _ taken) atHome

/-! ## What a check answers -/

/-- The step is the native thread's turn on an existence check of `datumId`, answered `found`. -/
def AnswersCheck (env : Env Resident) (node : Node Resident) (label : NodeLabel)
    (datumId : DatumId) (found : Bool) : Prop :=
  ∃ sender hint opId reply, label = .deliver sender (env.home datumId) hint ∧
    node.inFlight.find? (between sender (env.home datumId)) =
      some ⟨sender, env.home datumId, .existsCheck datumId opId reply⟩ ∧
    effects env node label = [reply.respond opId datumId found]

theorem respond_injective {reply : ExistsReply} {opId datumId : DatumId} {first second : Bool}
    (same : reply.respond opId datumId first = reply.respond opId datumId second) :
    first = second := by
  cases reply with
  | «local» inbox =>
      simp only [ExistsReply.respond, Effect.send.injEq, WorkerMessage.existsCheckReplied.injEq]
        at same
      exact same.2.2.2
  | remote link correlationId =>
      simp only [ExistsReply.respond, Effect.respond.injEq, PeerResponse.exists_.injEq] at same
      exact same.2.2
  | sync =>
      simp only [ExistsReply.respond, Effect.answerExists.injEq] at same
      exact same

/-- A check is answered from the copy of the native thread or else from the store. -/
theorem AnswersCheck.found_eq {node : Node Resident} {label : NodeLabel} {datumId : DatumId}
    {found : Bool} (answers : AnswersCheck env node label datumId found) :
    found = (((node.workers (env.home datumId)).cache datumId).or (node.store datumId)).isSome := by
  rcases answers with ⟨sender, hint, opId, reply, rfl, first, answered⟩
  have read : effects env node (.deliver sender (env.home datumId) hint) =
      [reply.respond opId datumId (((node.workers (env.home datumId)).cache.getReplicated
        node.store datumId 1).1).isSome] := effects_deliver first
  rw [read, Cache.getReplicated_fst] at answered
  exact (respond_injective (List.singleton_inj.mp answered)).symm

theorem answersCheck_of_first {node : Node Resident} {sender : Sender} {datumId : DatumId}
    {opId : DatumId} {reply : ExistsReply} (hint : DatumId)
    (first : node.inFlight.find? (between sender (env.home datumId)) =
      some ⟨sender, env.home datumId, .existsCheck datumId opId reply⟩) :
    AnswersCheck env node (.deliver sender (env.home datumId) hint) datumId
      (((node.workers (env.home datumId)).cache datumId).or (node.store datumId)).isSome := by
  refine ⟨sender, hint, opId, reply, rfl, first, ?_⟩
  rw [effects_deliver first, ← Cache.getReplicated_fst _ _ _ 1]
  rfl

/-- The answer agrees with a committed write or with what a later write of the run left: `committed`
is the state the commit leaves and `back` the steps taken since. -/
def AgreesSince (env : Env Resident) (committed : Node Resident) (back : List NodeLabel)
    (datumId : DatumId) (content : Option Bytes) (found : Bool) : Prop :=
  found = content.isSome ∨ ∃ kept dropped later, back = kept ++ dropped ∧
    (system env).exec committed kept = some later ∧ found = (later.store datumId).isSome

/-- The answer agrees with every write of the datum that an op committed and was answered for in the
run, or with a later one. -/
def SeesCommitted (env : Env Resident) (start : Node Resident) (labels : List NodeLabel)
    (datumId : DatumId) (found : Bool) : Prop :=
  ∀ front label back before committed content, labels = front ++ label :: back →
    (system env).exec start front = some before → step env before label = some committed →
    Commits env before label datumId content →
    AgreesSince env committed back datumId content found

/-- The native thread still has the copy it had of the datum when another thread's op removed it,
and nothing has stored the datum since. -/
def Overtaken (env : Env Resident) (start : Node Resident) (labels : List NodeLabel)
    (datumId : DatumId) : Prop :=
  ∃ front label back before deleted, labels = front ++ label :: back ∧
    (system env).exec start front = some before ∧ step env before label = some deleted ∧
    (before.workers (env.home datumId)).cache datumId ≠ none ∧
    DeletesElsewhere env before label datumId ∧
    ∀ kept dropped later, back = kept ++ dropped → (system env).exec deleted kept = some later →
      (later.workers (env.home datumId)).cache datumId ≠ none ∧ later.store datumId = none

theorem stale_of_overtaken {start node : Node Resident} {labels : List NodeLabel}
    {datumId : DatumId} (executed : (system env).exec start labels = some node)
    (overtaken : Overtaken env start labels datumId) : node.Stale env datumId := by
  rcases overtaken with ⟨front, label, back, before, deleted, rfl, ran, stepped, _, _, lasts⟩
  rw [System.exec_append, ran] at executed
  have whole : (system env).exec deleted back = some node := by
    simpa [System.exec, system, stepped] using executed
  exact lasts back [] node (List.append_nil _).symm whole

theorem not_seesCommitted_of_overtaken {start node : Node Resident} {labels : List NodeLabel}
    {label : NodeLabel} {datumId : DatumId} {found : Bool}
    (executed : (system env).exec start labels = some node)
    (answers : AnswersCheck env node label datumId found)
    (overtaken : Overtaken env start labels datumId) :
    ¬SeesCommitted env start labels datumId found := by
  intro sees
  have stale := stale_of_overtaken executed overtaken
  have yes : found = true := by
    rw [answers.found_eq]
    cases copy : (node.workers (env.home datumId)).cache datumId with
    | none => exact absurd copy stale.1
    | some bytes => rfl
  rcases overtaken with ⟨front, deletion, back, before, deleted, split, ran, stepped, _,
    ⟨_, _, _, _, _, commits⟩, lasts⟩
  rcases sees front deletion back before deleted none split ran stepped commits with
    agrees | ⟨kept, dropped, later, backSplit, keptRun, agrees⟩
  · rw [yes] at agrees
    cases agrees
  · rw [yes, (lasts kept dropped later backSplit keptRun).2] at agrees
    cases agrees

/-- What holds of the messages of a node along every run. -/
theorem addressed_of_exec (standalone : env.Standalone) {store : Store} {labels : List NodeLabel}
    {node : Node Resident} (executed : (system env).exec (new store) labels = some node) :
    node.Routed env ∧ node.Addressed env := by
  have run := System.run_of_exec executed
  apply run.induction
  · intro state label next holds _ stepped
    exact ⟨routed_step standalone holds.1 stepped,
      addressed_step standalone holds.1 holds.2 stepped⟩
  · refine ⟨routed_new store, ?_⟩
    intro packet packetMem
    cases packetMem

/-- A check is answered from the committed writes exactly if the native thread is not left with a
copy it cached before another thread's op removed the datum. -/
theorem existence_current_iff (standalone : env.Standalone) {store : Store}
    {labels : List NodeLabel} {node : Node Resident} {label : NodeLabel} {datumId : DatumId}
    {found : Bool} (executed : (system env).exec (new store) labels = some node)
    (answers : AnswersCheck env node label datumId found) :
    SeesCommitted env (new store) labels datumId found ↔
      ¬Overtaken env (new store) labels datumId := by
  constructor
  · intro sees overtaken
    exact not_seesCommitted_of_overtaken executed answers overtaken sees
  · intro current front deletion back before committed content split ran stepped commits
    by_contra disagrees
    -- The answer differs from what is stored now, so it came from a copy of something removed.
    have after : (system env).exec committed back = some node := by
      rw [split, System.exec_append, ran] at executed
      simpa [System.exec, system, stepped] using executed
    have differs : found ≠ (node.store datumId).isSome := fun agrees =>
      disagrees (Or.inr ⟨back, [], node, (List.append_nil _).symm, after, agrees⟩)
    have stale : node.Stale env datumId := by
      rw [answers.found_eq] at differs
      cases copy : (node.workers (env.home datumId)).cache datumId with
      | none => simp [copy] at differs
      | some bytes =>
          refine ⟨by simp [copy], ?_⟩
          cases stored : node.store datumId with
          | none => rfl
          | some content => simp [copy, stored] at differs
    have untouched : ¬(new store : Node Resident).Stale env datumId := fun stale => stale.1 rfl
    rcases @System.exec_onset _ _ _ (Stale env · datumId) _ _ _ executed untouched stale with
      ⟨front, onset, back, before, deleted, split, ran, stepped, fresh, lasts⟩
    have holds := addressed_of_exec standalone ran
    have deletes := stale_step holds.1 holds.2 stepped fresh
      (lasts [] back deleted rfl rfl)
    exact current ⟨front, onset, back, before, deleted, split, ran, stepped, deletes.1, deletes.2,
      lasts⟩

/-- An op that deletes its first datum. -/
def removerOps : OpRegistry := fun _ => some fun datumIds _ =>
  .delete (datumIds.headD 0) 1 (.done [])

/-- A store in which datum 7 exists. -/
def oneStored : Store := Function.update (fun _ => none) 7 (some [1])

/-- The native thread has answered a check of datum 7 and kept a copy; op 3 on thread 1 has been
granted the datum, and a second check waits at the native thread. -/
def checkedWhileHeld : List NodeLabel :=
  [.existsCheck 7, .deliver .client 0 0, .submit 1 3 "remove" [7] [], .deliver .client 1 0,
    .deliver (.worker 1) 0 0, .existsCheck 7]

/-- The check a packet carries. -/
def checkOf : Packet → Option (Sender × ThreadId × DatumId × DatumId × ExistsReply)
  | ⟨sender, receiver, .existsCheck datumId opId reply⟩ =>
      some (sender, receiver, datumId, opId, reply)
  | _ => none

theorem eq_of_checkOf {packet : Packet} {sender : Sender} {receiver : ThreadId}
    {datumId opId : DatumId} {reply : ExistsReply}
    (checks : checkOf packet = some (sender, receiver, datumId, opId, reply)) :
    packet = ⟨sender, receiver, .existsCheck datumId opId reply⟩ := by
  rcases packet with ⟨packetSender, packetReceiver, message⟩
  cases message with
  | existsCheck =>
      simp only [checkOf, Option.some.injEq, Prod.mk.injEq] at checks
      rcases checks with ⟨rfl, rfl, rfl, rfl, rfl⟩
      rfl
  | _ => cases checks

theorem find_of_checkOf {node : Node Resident} {between_ : Packet → Bool} {sender : Sender}
    {receiver : ThreadId} {datumId opId : DatumId} {reply : ExistsReply}
    (checks : (node.inFlight.find? between_).bind checkOf =
      some (sender, receiver, datumId, opId, reply)) :
    node.inFlight.find? between_ = some ⟨sender, receiver, .existsCheck datumId opId reply⟩ := by
  rcases Option.bind_eq_some_iff.mp checks with ⟨packet, found, isCheck⟩
  rw [found, eq_of_checkOf isCheck]

/-- Once the release has arrived the next check finds the datum gone. -/
theorem existence_current_released : ∃ node,
    (system (soleHomeEnv removerOps)).exec (new oneStored)
      (checkedWhileHeld ++ [.deliver .client 0 0, .deliver (.worker 0) 1 0,
        .deliver (.worker 1) 0 0, .existsCheck 7]) = some node ∧
    AnswersCheck (soleHomeEnv removerOps) node (.deliver .client 0 0) 7 false ∧
    SeesCommitted (soleHomeEnv removerOps) (new oneStored)
      (checkedWhileHeld ++ [.deliver .client 0 0, .deliver (.worker 0) 1 0,
        .deliver (.worker 1) 0 0, .existsCheck 7]) 7 false := by
  have observed : ((system (soleHomeEnv removerOps)).exec (new oneStored)
      (checkedWhileHeld ++ [.deliver .client 0 0, .deliver (.worker 0) 1 0,
        .deliver (.worker 1) 0 0, .existsCheck 7])).map (fun node =>
        decide ((node.inFlight.find? (between .client 0)).bind checkOf =
            some (.client, 0, 7, 0, .sync) ∧
          (node.workers 0).cache 7 = none ∧ node.store 7 = none)) = some true := by
    decide +kernel
  rcases Option.map_eq_some_iff.mp observed with ⟨node, executed, facts⟩
  rcases of_decide_eq_true facts with ⟨waits, dropped, removed⟩
  have answers : AnswersCheck (soleHomeEnv removerOps) node (.deliver .client 0 0) 7
      (((node.workers 0).cache 7).or (node.store 7)).isSome :=
    answersCheck_of_first 0 (find_of_checkOf waits)
  rw [dropped, removed] at answers
  refine ⟨node, executed, answers, ?_⟩
  apply (existence_current_iff (soleHomeEnv_standalone removerOps) executed answers).mpr
  intro overtaken
  exact (stale_of_overtaken executed overtaken).1 dropped

/-- Op 3 removes datum 7 and is answered; the check that waited is then answered from the copy. -/
theorem existence_overtaken : ∃ node,
    (system (soleHomeEnv removerOps)).exec (new oneStored)
      (checkedWhileHeld ++ [.deliver (.worker 0) 1 0]) = some node ∧
    AnswersCheck (soleHomeEnv removerOps) node (.deliver .client 0 0) 7 true ∧
    ¬SeesCommitted (soleHomeEnv removerOps) (new oneStored)
      (checkedWhileHeld ++ [.deliver (.worker 0) 1 0]) 7 true := by
  have heldObserved : ((system (soleHomeEnv removerOps)).exec (new oneStored)
      checkedWhileHeld).map (fun before =>
        decide ((before.workers 0).cache 7 = some [1] ∧
          (effects (soleHomeEnv removerOps) before (.deliver (.worker 0) 1 0)).filterMap
            Effect.toCommit = [(3, [7], [⟨7, none, 1⟩])] ∧
          ((effects (soleHomeEnv removerOps) before (.deliver (.worker 0) 1 0)).filterMap
            Effect.toReply).map (fun reply => (reply.1, reply.2.toOption)) = [(3, some [])])) =
      some true := by
    decide +kernel
  have observed : ((system (soleHomeEnv removerOps)).exec (new oneStored)
      (checkedWhileHeld ++ [.deliver (.worker 0) 1 0])).map (fun node =>
        decide ((node.inFlight.find? (between .client 0)).bind checkOf =
            some (.client, 0, 7, 0, .sync) ∧
          (node.workers 0).cache 7 = some [1] ∧ node.store 7 = none)) = some true := by
    decide +kernel
  rcases Option.map_eq_some_iff.mp heldObserved with ⟨before, ran, heldFacts⟩
  rcases of_decide_eq_true heldFacts with ⟨held, commits, replies⟩
  rcases Option.map_eq_some_iff.mp observed with ⟨node, executed, facts⟩
  rcases of_decide_eq_true facts with ⟨waits, copied, removed⟩
  have answers : AnswersCheck (soleHomeEnv removerOps) node (.deliver .client 0 0) 7
      (((node.workers 0).cache 7).or (node.store 7)).isSome :=
    answersCheck_of_first 0 (find_of_checkOf waits)
  rw [copied] at answers
  have stepped : step (soleHomeEnv removerOps) before (.deliver (.worker 0) 1 0) = some node := by
    rw [System.exec_append, ran] at executed
    simpa [System.exec, system] using executed
  have committed : Commits (soleHomeEnv removerOps) before (.deliver (.worker 0) 1 0) 7 none := by
    rcases List.map_eq_singleton_iff.mp replies with ⟨⟨opId, result⟩, replied, isOk⟩
    cases result with
    | error message => cases isOk
    | ok result =>
        rcases Prod.mk.inj isOk with ⟨rfl, _⟩
        refine ⟨3, [7], [⟨7, none, 1⟩], result, Effect.mem_of_toCommit (commits ▸ List.mem_cons_self),
          ?_, rfl⟩
        have mem : (3, Except.ok result) ∈ (effects (soleHomeEnv removerOps) before
            (.deliver (.worker 0) 1 0)).filterMap Effect.toReply := replied ▸ List.mem_cons_self
        rcases List.mem_filterMap.mp mem with ⟨effect, effectMem, isReply⟩
        cases effect with
        | reply => cases isReply; exact effectMem
        | _ => cases isReply
  have copyHeld : (before.workers 0).cache 7 ≠ none := by
    rw [held]
    exact Option.some_ne_none _
  have copyKept : (node.workers 0).cache 7 ≠ none := by
    rw [copied]
    exact Option.some_ne_none _
  refine ⟨node, executed, answers, not_seesCommitted_of_overtaken executed answers ?_⟩
  refine ⟨checkedWhileHeld, _, [], before, node, rfl, ran, stepped, copyHeld,
    ⟨.worker 0, 1, 0, rfl, by decide, committed⟩, ?_⟩
  intro kept dropped later split keptRun
  rcases List.append_eq_nil_iff.mp split.symm with ⟨rfl, rfl⟩
  rcases Option.some.inj keptRun with rfl
  exact ⟨copyKept, removed⟩

end Node

end Seisin
