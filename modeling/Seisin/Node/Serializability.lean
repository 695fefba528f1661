import Seisin.Lib.Serial
import Seisin.Node.Coherence

/-!
# The ops of a node are strictly serializable

As long as every recall finds an op that has not run yet, the results a node gives and the content
it stores are those of its ops run one after another, each alone and at once.  The order is that of
the results, so an op that is answered before another one is submitted also comes before it.  Ops
that fail, or are not finished yet, leave no trace.  Index datums are outside: updates of them are
applied before the op commits.
-/

namespace Seisin

open WoundWait Transition

variable {Resident : Type}

/-! ## Requests -/

/-- The op a label submits. -/
def NodeLabel.submits : NodeLabel → Option DatumId
  | .submit _ opId _ _ _ => some opId
  | _ => none

/-- The request was submitted for the op. -/
def Submitted (labels : List NodeLabel) (opId : DatumId) (request : OpRequest) : Prop :=
  ∃ thread, .submit thread opId request.opName request.datumIds request.payload ∈ labels

theorem Submitted.append {labels : List NodeLabel} {opId : DatumId} {request : OpRequest}
    (submitted : Submitted labels opId request) (more : List NodeLabel) :
    Submitted (labels ++ more) opId request := by
  rcases submitted with ⟨thread, labelMem⟩
  exact ⟨thread, List.mem_append_left _ labelMem⟩

theorem Submitted.mem {labels : List NodeLabel} {opId : DatumId} {request : OpRequest}
    (submitted : Submitted labels opId request) : opId ∈ labels.filterMap NodeLabel.submits := by
  rcases submitted with ⟨thread, labelMem⟩
  exact List.mem_filterMap.mpr ⟨_, labelMem, rfl⟩

namespace Node

variable {env : Env Resident} {plain : DatumId → Prop} {start : Store} {labels : List NodeLabel}
  {node next : Node Resident} {history : List (DatumId × OpRequest)}

theorem submitted_step {label : NodeLabel} (stepped : step env node label = some next) :
    next.submitted = label.submits.toList ++ node.submitted ∧
      ∀ opId, label.submits = some opId → opId ∉ node.submitted := by
  cases label with
  | submit thread opId opName datumIds payload =>
      simp only [step] at stepped
      split at stepped
      · cases stepped
      · rename_i fresh
        cases stepped
        refine ⟨rfl, ?_⟩
        rintro _ ⟨⟩
        exact fresh
  | deliver sender receiver hint =>
      rcases step_deliver stepped with ⟨message, rest, _, _, rfl⟩
      exact ⟨rfl, by simp [NodeLabel.submits]⟩
  | _ =>
      cases stepped
      exact ⟨rfl, by simp [NodeLabel.submits]⟩

/-- No op is submitted twice. -/
theorem submitted_once {allowed : Node Resident → NodeLabel → Prop}
    (trace : (system env).Trace allowed (new start) labels node) :
    (∀ opId, opId ∈ node.submitted ↔ opId ∈ labels.filterMap NodeLabel.submits) ∧
      (labels.filterMap NodeLabel.submits).Nodup := by
  induction trace with
  | refl => simp [new]
  | tail label _ meets stepped ih =>
      rcases ih with ⟨agree, once⟩
      rcases submitted_step stepped with ⟨grown, fresh⟩
      have listed : ∀ front, (front ++ [label]).filterMap NodeLabel.submits =
          front.filterMap NodeLabel.submits ++ label.submits.toList := by
        intro front
        rw [List.filterMap_append]
        cases label <;> rfl
      rw [listed, grown]
      generalize List.filterMap NodeLabel.submits _ = ops at agree once ⊢
      cases submits : label.submits with
      | none => exact ⟨by simpa using agree, by simpa using once⟩
      | some opId =>
          have absent := mt (agree opId).mpr (fresh opId submits)
          refine ⟨?_, ?_⟩
          · intro other
            simp [agree, or_comm]
          · refine List.nodup_append.mpr ⟨once, List.nodup_singleton opId, ?_⟩
            rintro other otherMem same isLast rfl
            rw [List.mem_singleton.mp isLast] at otherMem
            exact absent otherMem

/-- Every op in flight or on record was submitted as it is. -/
structure Asked (labels : List NodeLabel) (node : Node Resident) : Prop where
  records : ∀ thread opId record, node.record thread opId = some record →
    Submitted labels opId record.request
  inFlight : ∀ packet ∈ node.inFlight, ∀ opId opName datumIds payload,
    packet.message = .runOp opId opName datumIds payload →
      Submitted labels opId ⟨opName, datumIds, payload⟩

/-- The history explains what the node has answered and what it stores: the requests of the history
were submitted, each once, and served one after another they give the results the node gave, in the
same order, and leave what it stores of plain datums. -/
structure Serializes (ops : OpRegistry) (plain : DatumId → Prop) (start : Store)
    (labels : List NodeLabel) (node : Node Resident) (history : List (DatumId × OpRequest)) :
    Prop where
  submitted : ∀ entry ∈ history, Submitted labels entry.1 entry.2
  once : (history.map Prod.fst).Nodup
  results : (Serial.run ops.runAlone start history).2 =
    node.replies.filter fun reply => reply.2.isOk
  stored : ∀ id, plain id → node.store id = (Serial.run ops.runAlone start history).1 id

/-- A node after the run, with a history that explains it. -/
structure Served (env : Env Resident) (plain : DatumId → Prop) (start : Store)
    (labels : List NodeLabel) (node : Node Resident) (history : List (DatumId × OpRequest)) :
    Prop where
  invariant : CommitInvariant env node
  coherent : Coherent env plain node
  asked : node.Asked labels
  submitted : ∀ entry ∈ history, Submitted labels entry.1 entry.2
  results : (Serial.run env.ops.runAlone start history).2 =
    node.replies.filter fun reply => reply.2.isOk
  stored : ∀ id, plain id → node.store id = (Serial.run env.ops.runAlone start history).1 id

theorem served_new (start : Store) :
    Served env plain start [] (new start : Node Resident) [] where
  invariant := ⟨exclusion_new start, covered_new start⟩
  coherent := coherent_new start
  asked := ⟨by simp [new, record, Worker.record, Worker.new], by simp [new]⟩
  submitted := by simp
  results := rfl
  stored := fun _ _ => rfl

theorem results_of_effects (effects : List Effect) :
    (effects.filterMap Effect.toReply).filter (fun reply => reply.2.isOk) =
      (effects.filterMap Effect.toResult).map fun result => (result.1, .ok result.2) := by
  induction effects with
  | nil => rfl
  | cons effect effects ih =>
      cases effect with
      | reply opId outcome =>
          cases outcome with
          | error message => simpa [Effect.toReply, Effect.toResult, Except.isOk, Except.toBool]
          | ok result => simpa [Effect.toReply, Effect.toResult, Except.isOk, Except.toBool]
      | _ => simpa [Effect.toReply, Effect.toResult]

/-- Every op is answered once at most. -/
theorem Exclusion.replied_once (exclusion : Exclusion env node) :
    (node.replies.map Prod.fst).Nodup := by
  rw [List.nodup_iff_count_le_one]
  intro opId
  rcases exclusion.life.phases opId with ⟨phase, inPhase⟩
  have replied : (node.replies.map Prod.fst).count opId = phase.replies := inPhase.replied
  rw [replied]
  cases phase <;> simp [Phase.replies]

theorem Served.serializes (served : Served env plain start labels node history) :
    Serializes env.ops plain start labels node history where
  submitted := served.submitted
  once := by
    rw [← Serial.run_ops env.ops.runAlone start history, served.results]
    exact served.invariant.exclusion.replied_once.sublist (List.filter_sublist.map Prod.fst)
  results := served.results
  stored := served.stored

/-- A message that is posted, or an op that is submitted, changes nothing of what is explained. -/
theorem Served.posted (served : Served env plain start labels node history) {label : NodeLabel}
    (invariant : CommitInvariant env next) (coherent : Coherent env plain next)
    (asked : next.Asked (labels ++ [label])) (stored : next.store = node.store)
    (replies : next.replies = node.replies) :
    Served env plain start (labels ++ [label]) next history where
  invariant := invariant
  coherent := coherent
  asked := asked
  submitted := fun entry entryMem => (served.submitted entry entryMem).append [label]
  results := by rw [served.results, replies]
  stored := fun id isPlain => by rw [stored, served.stored id isPlain]

theorem Asked.append (asked : node.Asked labels) (more : List NodeLabel) :
    node.Asked (labels ++ more) where
  records := fun thread opId record found => (asked.records thread opId record found).append more
  inFlight := fun packet packetMem opId opName datumIds payload isStart =>
    (asked.inFlight packet packetMem opId opName datumIds payload isStart).append more

theorem Asked.post (asked : node.Asked labels) {packet : Packet}
    (submitted : ∀ opId opName datumIds payload,
      packet.message = .runOp opId opName datumIds payload →
        Submitted labels opId ⟨opName, datumIds, payload⟩) :
    (node.post packet).Asked labels where
  records := asked.records
  inFlight := by
    intro other otherMem
    rcases List.mem_append.mp otherMem with earlier | isPosted
    · exact asked.inFlight other earlier
    · rw [List.mem_singleton.mp isPosted]
      exact submitted

section Delivery

variable {sender : Sender} {receiver : ThreadId} {message : WorkerMessage} {rest : List Packet}
  {turn : Turn Resident}
  (consumed : node.inFlight.Perm (⟨sender, receiver, message⟩ :: rest))
  (isolates : Turn.Isolates env plain receiver message (node.workers receiver) node.store turn)
include consumed

theorem Asked.requested (asked : node.Asked labels) {opId : DatumId} {request : OpRequest}
    (requested : (node.workers receiver).Requested message opId request) :
    Submitted labels opId request := by
  rcases requested with ⟨record, found, rfl⟩ | isStart
  · exact asked.records receiver opId record found
  · exact asked.inFlight _ (consumed.mem_iff.mpr List.mem_cons_self) opId request.opName
      request.datumIds request.payload isStart

include isolates

theorem Asked.afterTurn (asked : node.Asked labels) :
    (node.afterTurn receiver rest turn).Asked labels where
  records := by
    intro thread opId record found
    by_cases same : thread = receiver
    · subst same
      rw [record_afterTurn_self] at found
      exact asked.requested consumed (isolates.records opId record found).2
    · rw [record_afterTurn_other same] at found
      exact asked.records thread opId record found
  inFlight := by
    intro packet packetMem opId opName datumIds payload isStart
    rcases List.mem_append.mp packetMem with stays | sent
    · exact asked.inFlight packet (consumed.mem_iff.mpr (List.mem_cons_of_mem _ stays)) opId
        opName datumIds payload isStart
    · -- No thread starts an op of its own.
      rcases List.mem_filterMap.mp sent with ⟨effect, effectMem, isPacket⟩
      have admissible := isolates.admissible effect effectMem
      cases effect with
      | send target message =>
          cases isPacket
          dsimp only at isStart
          subst isStart
          exact admissible.elim
      | _ => cases isPacket

/-- A turn either changes nothing that is explained, or commits one op that comes last. -/
theorem Served.afterTurn (confined : env.ops.Confined plain)
    (served : Served env plain start labels node history)
    (invariant : CommitInvariant env (node.afterTurn receiver rest turn))
    (coherent : Coherent env plain (node.afterTurn receiver rest turn)) :
    ∃ more, Served env plain start labels (node.afterTurn receiver rest turn)
      (history ++ more) := by
  have asked := served.asked.afterTurn consumed isolates
  have replies : ((node.afterTurn receiver rest turn).replies.filter fun reply => reply.2.isOk) =
      (Serial.run env.ops.runAlone start history).2 ++
        (turn.effects.filterMap Effect.toResult).map fun result => (result.1, .ok result.2) := by
    rw [served.results, ← results_of_effects]
    exact List.filter_append _ _
  rcases isolates.results with ⟨silent, stored⟩ |
    ⟨opId, request, writes, result, cache, answered, executes, stored, requested⟩
  · refine ⟨[], invariant, coherent, asked, ?_, ?_, ?_⟩
    · simpa using served.submitted
    · rw [replies, silent, List.append_nil, List.map_nil, List.append_nil]
    · intro id isPlain
      rw [List.append_nil, ← served.stored id isPlain]
      exact stored id isPlain
  · -- The op finds the store its predecessors left, as far as it can tell.
    have alone := (executes.congr confined fun id _ isPlain => served.stored id isPlain).runAlone
    refine ⟨[(opId, request)], invariant, coherent, asked, ?_, ?_, ?_⟩
    · intro entry entryMem
      rcases List.mem_append.mp entryMem with earlier | isLast
      · exact served.submitted entry earlier
      · rw [List.mem_singleton.mp isLast]
        exact served.asked.requested consumed requested
    · rw [replies, answered, Serial.run_snoc, alone]
      rfl
    · intro id isPlain
      rw [Serial.run_snoc, alone]
      dsimp only
      rw [commitWrites_content, ← served.stored id isPlain, ← commitWrites_content writes cache]
      exact congrFun stored id

end Delivery

theorem Served.step (standalone : env.Standalone) (confined : env.ops.Confined plain)
    (served : Served env plain start labels node history) {label : NodeLabel}
    (finds : node.RecallFindsCollating label) (stepped : step env node label = some next) :
    ∃ more, Served env plain start (labels ++ [label]) next (history ++ more) := by
  have invariant := commitInvariant_step standalone served.invariant finds stepped
  have coherent := coherent_step standalone confined served.coherent served.invariant finds stepped
  have asked := served.asked.append [label]
  cases label with
  | submit thread opId opName datumIds payload =>
      simp only [Node.step] at stepped
      split at stepped
      · cases stepped
      · cases stepped
        refine ⟨[], ?_⟩
        rw [List.append_nil]
        refine served.posted invariant coherent ?_ rfl rfl
        have posted : (node.post ⟨.client, thread, .runOp opId opName datumIds payload⟩).Asked
            (labels ++ [.submit thread opId opName datumIds payload]) := by
          apply asked.post
          rintro _ _ _ _ ⟨⟩
          exact ⟨thread, by simp⟩
        exact ⟨posted.records, posted.inFlight⟩
  | deliver sender receiver hint =>
      rcases deliver_isolates standalone confined served.coherent served.invariant stepped with
        ⟨message, rest, turn, consumed, rfl, isolates⟩
      rcases served.afterTurn consumed isolates confined invariant coherent with ⟨more, after⟩
      refine ⟨more, invariant, coherent, after.asked.append _, ?_, after.results, after.stored⟩
      exact fun entry entryMem => (after.submitted entry entryMem).append _
  | indexQuery target indexKind query =>
      cases stepped
      refine ⟨[], ?_⟩
      rw [List.append_nil]
      exact served.posted invariant coherent (asked.post (by simp)) rfl rfl
  | indexExecute target indexKind payload =>
      cases stepped
      refine ⟨[], ?_⟩
      rw [List.append_nil]
      exact served.posted invariant coherent (asked.post (by simp)) rfl rfl
  | existsCheck datumId =>
      cases stepped
      refine ⟨[], ?_⟩
      rw [List.append_nil]
      exact served.posted invariant coherent (asked.post (by simp)) rfl rfl

/-- An op that appends to a datum what it finds there, and has index 9 updated. -/
def appendOps : OpRegistry := fun _ => some fun datumIds _ =>
  match datumIds.find? fun id => id ≠ 9 with
  | none => .done []
  | some id => .get id 1 fun content => .put id (content.getD [] ++ [1]) 1
      (.scheduleIndexUpdate ⟨9, "kind", []⟩ (.done (content.getD [])))

theorem appendOps_confined : appendOps.Confined fun id => id ≠ 9 := by
  rintro name _ ⟨⟩ datumIds payload
  dsimp only
  split
  · exact trivial
  · rename_i id found
    have touched : id ∈ datumIds ∧ id ≠ 9 :=
      ⟨List.mem_of_find?_eq_some found, by simpa using List.find?_some found⟩
    exact ⟨touched, fun _ => ⟨touched, by simp, trivial⟩⟩

/-- Op 1 recalls datum 7 from op 3 and is answered. -/
def firstAppend : List NodeLabel :=
  [.submit 2 1 "append" [7] [], .submit 1 3 "append" [7, 8] [], .deliver .client 1 0,
    .deliver (.worker 1) 0 0, .deliver (.worker 0) 1 0, .deliver .client 2 0,
    .deliver (.worker 2) 0 0, .deliver (.worker 0) 1 0, .deliver (.worker 1) 0 0,
    .deliver (.worker 1) 0 0, .deliver (.worker 1) 0 0, .deliver (.worker 0) 1 0,
    .deliver (.worker 0) 2 0, .deliver (.worker 2) 0 0, .deliver (.worker 0) 2 0]

/-- Op 5 is submitted; op 3 gets datum 7 back and finishes before it. -/
def laterAppends : List NodeLabel :=
  [.submit 3 5 "append" [7] [], .deliver (.worker 2) 0 0, .deliver (.worker 0) 1 0,
    .deliver (.worker 1) 0 0, .deliver (.worker 0) 1 0, .deliver .client 3 0,
    .deliver (.worker 1) 0 0, .deliver (.worker 1) 0 0, .deliver (.worker 3) 0 0,
    .deliver (.worker 0) 3 0, .deliver (.worker 3) 0 0, .deliver (.worker 0) 3 0,
    .deliver (.worker 3) 0 0]

end Node

end Seisin
