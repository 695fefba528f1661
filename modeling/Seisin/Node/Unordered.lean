import Seisin.Lib.Simulation
import Seisin.Node.Progress
import Seisin.Node.Serializability

/-!
# A node whose messages overtake each other

The same node over an unordered network: before each step any message in flight may come to the
front.  Nothing that was proved of a node depends on the order of its messages, so exclusion,
progress and serializability hold of these runs as well.  Clients see a history of events: ops that
are asked for, and ops that are answered.
-/

namespace Seisin

open WoundWait Transition

variable {Resident : Type}

/-! ## What clients see -/

inductive OpEvent where
  | asked (opId : DatumId) (request : OpRequest)
  | answered (opId : DatumId) (result : Except String Bytes)

namespace OpEvent

def toReply : OpEvent → Option (DatumId × Except String Bytes)
  | .answered opId result => some (opId, result)
  | _ => none

def toAsked : OpEvent → Option DatumId
  | .asked opId _ => some opId
  | _ => none

/-- The answers among the effects of a turn. -/
def answers (effects : List Effect) : List OpEvent :=
  (effects.filterMap Effect.toReply).map fun reply => .answered reply.1 reply.2

theorem toReply_answers (effects : List Effect) :
    (answers effects).filterMap toReply = effects.filterMap Effect.toReply := by
  rw [answers, List.filterMap_map]
  exact List.filterMap_some

theorem toAsked_answers (effects : List Effect) : (answers effects).filterMap toAsked = [] := by
  simp [answers, toAsked, Function.comp_def]

end OpEvent

/-- One order of the ops of a history explains its answers and what is stored of plain datums: the
ops were asked for, each once, and served one after another they give the successful answers, in the
same order, and leave what is stored. -/
structure Linearizes (ops : OpRegistry) (plain : DatumId → Prop) (start : Store)
    (events : List OpEvent) (store : Store) (history : List (DatumId × OpRequest)) : Prop where
  asked : ∀ entry ∈ history, .asked entry.1 entry.2 ∈ events
  once : (history.map Prod.fst).Nodup
  results : (Serial.run ops.runAlone start history).2 =
    (events.filterMap OpEvent.toReply).filter fun reply => reply.2.isOk
  stored : ∀ id, plain id → store id = (Serial.run ops.runAlone start history).1 id

/-! ## Reordering -/

namespace Node

variable {env : Env Resident} {plain : DatumId → Prop} {start : Store} {labels : List NodeLabel}
  {node next : Node Resident} {history : List (DatumId × OpRequest)}

/-- The message at `index` comes to the front. -/
def front (node : Node Resident) (index : ℕ) : Node Resident :=
  match node.inFlight[index]? with
  | some packet => { node with inFlight := packet :: node.inFlight.eraseIdx index }
  | none => node

/-- The node with its messages in another order. -/
inductive Reordered (node : Node Resident) : Node Resident → Prop where
  | intro (inFlight : List Packet) (perm : node.inFlight.Perm inFlight) :
      Reordered node { node with inFlight := inFlight }

theorem reordered_front (node : Node Resident) (index : ℕ) : node.Reordered (node.front index) := by
  unfold front
  split
  · rename_i packet found
    rcases List.getElem?_eq_some_iff.mp found with ⟨inside, rfl⟩
    exact .intro _ (List.getElem_cons_eraseIdx_perm inside).symm
  · exact .intro node.inFlight (.refl _)

section Reordered

variable {other : Node Resident} (order : node.Reordered other)
include order

theorem Reordered.view : other.view env = node.view env := by
  rcases order with ⟨inFlight, perm⟩
  apply State.ext
  · rfl
  · rfl
  · exact Multiset.coe_eq_coe.mpr (perm.symm.filterMap Packet.signal)
  · rfl
  · rfl
  · rfl

theorem Reordered.frame : other.store = node.store ∧ other.submitted = node.submitted ∧
    other.replies = node.replies := by
  rcases order with ⟨inFlight, perm⟩
  exact ⟨rfl, rfl, rfl⟩

theorem Routed.reordered (routed : node.Routed env) : other.Routed env := by
  rcases order with ⟨inFlight, perm⟩
  exact ⟨fun packet packetMem => routed.packets packet (perm.mem_iff.mpr packetMem),
    routed.waiters, routed.holders, routed.locks, routed.strangers⟩

theorem CommitInvariant.reordered (invariant : CommitInvariant env node) :
    CommitInvariant env other where
  exclusion :=
    { routed := invariant.exclusion.routed.reordered order
      life := order.view ▸ invariant.exclusion.life
      exclusive := order.view ▸ invariant.exclusion.exclusive }
  covered := order.view ▸ invariant.covered

theorem ProgressInvariant.reordered (invariant : ProgressInvariant env node) :
    ProgressInvariant env other where
  routed := invariant.routed.reordered order
  life := order.view ▸ invariant.life
  progress := order.view ▸ invariant.progress

theorem Coherent.reordered (coherent : Coherent env plain node) : Coherent env plain other := by
  rcases order with ⟨inFlight, perm⟩
  refine ⟨coherent.copies, ?_, coherent.staged,
    fun packet packetMem => coherent.admissible packet (perm.mem_iff.mpr packetMem)⟩
  intro thread id isPlain
  rcases coherent.current thread id isPlain with current | ⟨atHome, away⟩
  · exact Or.inl current
  · refine Or.inr ⟨atHome, ?_⟩
    rcases away with held | ⟨back, packetMem, isRelease⟩
    · exact Or.inl held
    · exact Or.inr ⟨back, perm.mem_iff.mp packetMem, isRelease⟩

theorem Asked.reordered (asked : node.Asked labels) : other.Asked labels := by
  rcases order with ⟨inFlight, perm⟩
  exact ⟨asked.records,
    fun packet packetMem => asked.inFlight packet (perm.mem_iff.mpr packetMem)⟩

theorem Served.reordered (served : Served env plain start labels node history) :
    Served env plain start labels other history where
  invariant := served.invariant.reordered order
  coherent := served.coherent.reordered order
  asked := served.asked.reordered order
  submitted := served.submitted
  results := by rw [order.frame.2.2, served.results]
  stored := by
    rw [order.frame.1]
    exact served.stored

end Reordered

/-! ## The unordered node -/

/-- A label also says which message comes to the front before the step. -/
def unordered (env : Env Resident) : Transition.System (Node Resident) (ℕ × NodeLabel) where
  init := fun node => ∃ store, node = new store
  step := fun node move => step env (node.front move.1) move.2

/-- A recall that is taken finds an op that holds the datum and has not run yet. -/
def Finding (node : Node Resident) (move : ℕ × NodeLabel) : Prop :=
  (node.front move.1).RecallFindsCollating move.2

def events (env : Env Resident) (node : Node Resident) (move : ℕ × NodeLabel) : List OpEvent :=
  match move.2 with
  | .submit _ opId opName datumIds payload => [.asked opId ⟨opName, datumIds, payload⟩]
  | _ => OpEvent.answers ((node.front move.1).effects env move.2)

/-- A message that came to the front is taken. -/
theorem deliver_front {index : ℕ} {packet : Packet} {rest : List Packet}
    (fronted : node.front index = { node with inFlight := packet :: rest }) (hint : DatumId) :
    let turn := env.handle packet.receiver hint packet.message (node.workers packet.receiver)
      node.store
    (unordered env).step node (index, .deliver packet.sender packet.receiver hint) =
        some (node.afterTurn packet.receiver rest turn) ∧
      (node.front index).effects env (.deliver packet.sender packet.receiver hint) =
        turn.effects := by
  have first : between packet.sender packet.receiver packet = true := by simp [between]
  have found : (node.front index).inFlight.find? (between packet.sender packet.receiver) =
      some packet := by
    rw [fronted]
    exact List.find?_cons_of_pos first
  have left : (node.front index).inFlight.eraseP (between packet.sender packet.receiver) =
      rest := by
    rw [fronted]
    exact List.eraseP_cons_of_pos first
  refine ⟨?_, ?_⟩
  · simp only [unordered, step, found, left]
    rw [fronted]
    rfl
  · simp only [effects, found]
    rw [fronted]

theorem commitInvariant_of_unordered (standalone : env.Standalone)
    (reached : (unordered env).ReachableVia Finding node) : CommitInvariant env node := by
  apply reached.induction
  · rintro _ ⟨store, rfl⟩
    exact ⟨exclusion_new store, covered_new store⟩
  · intro state move next invariant finds stepped
    exact commitInvariant_step standalone (invariant.reordered (reordered_front state move.1))
      finds stepped

theorem progressInvariant_of_unordered (standalone : env.Standalone)
    (reached : (unordered env).Reachable node) : ProgressInvariant env node := by
  apply reached.induction
  · rintro _ ⟨store, rfl⟩
    exact ⟨routed_new store, lifecycle_new store, progress_new store⟩
  · intro state move next invariant _ stepped
    exact progressInvariant_step standalone (invariant.reordered (reordered_front state move.1))
      stepped

/-! ## Histories -/

section Histories

variable {allowed : Node Resident → ℕ × NodeLabel → Prop} {moves : List (ℕ × NodeLabel)}

theorem replies_step {move : ℕ × NodeLabel} (stepped : (unordered env).step node move = some next) :
    next.replies = node.replies ++ (node.events env move).filterMap OpEvent.toReply ∧
      (move.2.submits.toList = (node.events env move).filterMap OpEvent.toAsked) ∧
      next.submitted = move.2.submits.toList ++ node.submitted := by
  have submitted := (submitted_step stepped).1
  rcases move with ⟨index, label⟩
  rcases (reordered_front node index).frame with ⟨-, sameSubmitted, sameReplies⟩
  rw [sameSubmitted] at submitted
  refine ⟨?_, ?_, submitted⟩
  · rw [← sameReplies]
    cases label with
    | deliver sender receiver hint =>
        simp only [unordered, step, events, effects, OpEvent.toReply_answers] at stepped ⊢
        cases found : (node.front index).inFlight.find? (between sender receiver) with
        | none => simp [found] at stepped
        | some packet =>
            simp only [found, Option.some.injEq] at stepped
            rw [← stepped]
            rfl
    | submit thread opId opName datumIds payload =>
        simp only [unordered, step] at stepped
        split at stepped
        · cases stepped
        · cases stepped
          exact (List.append_nil _).symm
    | _ =>
        cases stepped
        exact (List.append_nil _).symm
  · cases label <;> simp [events, NodeLabel.submits, OpEvent.toAsked, OpEvent.toAsked_answers]

/-- The events of a run say what the node has answered and what it was asked for. -/
theorem observed_run (trace : (unordered env).Trace allowed (new start) moves node) :
    node.replies =
        ((unordered env).observed (events env) (new start) moves).filterMap OpEvent.toReply ∧
      (∀ opId, opId ∈ node.submitted ↔
        opId ∈ ((unordered env).observed (events env) (new start) moves).filterMap
          OpEvent.toAsked) := by
  induction trace with
  | refl => exact ⟨rfl, by simp [new, System.observed]⟩
  | tail move before _ stepped ih =>
      rcases replies_step stepped with ⟨replies, asked, submitted⟩
      rw [before.observed_snoc stepped, List.filterMap_append, List.filterMap_append]
      refine ⟨by rw [replies, ih.1], ?_⟩
      intro opId
      rw [submitted, List.mem_append, List.mem_append, ih.2, asked, or_comm]

theorem asked_of_submitted (trace : (unordered env).Trace allowed (new start) moves node)
    {opId : DatumId} {request : OpRequest}
    (submitted : Submitted (moves.map Prod.snd) opId request) :
    .asked opId request ∈ (unordered env).observed (events env) (new start) moves := by
  induction trace with
  | refl => simp [Submitted] at submitted
  | tail move before _ stepped ih =>
      rw [before.observed_snoc stepped]
      rcases submitted with ⟨thread, labelMem⟩
      rw [List.map_append] at labelMem
      rcases List.mem_append.mp labelMem with earlier | isLast
      · exact List.mem_append_left _ (ih ⟨thread, earlier⟩)
      · rw [List.map_singleton, List.mem_singleton] at isLast
        refine List.mem_append_right _ ?_
        simp only [events, ← isLast, List.mem_singleton]

/-- What is asked for was not asked for before. -/
theorem asked_once (trace : (unordered env).Trace allowed node moves next) :
    (∀ opId ∈ node.submitted, opId ∈ next.submitted) ∧
      ∀ opId request, .asked opId request ∈ (unordered env).observed (events env) node moves →
        opId ∉ node.submitted := by
  induction trace with
  | refl => exact ⟨fun _ => id, by simp [System.observed]⟩
  | @tail moves middle last move before _ stepped ih =>
      rcases submitted_step stepped with ⟨submitted, fresh⟩
      rw [(reordered_front middle move.1).frame.2.1] at submitted fresh
      refine ⟨?_, ?_⟩
      · intro opId known
        rw [submitted]
        exact List.mem_append_right _ (ih.1 opId known)
      · intro opId request asked known
        rw [before.observed_snoc stepped] at asked
        rcases List.mem_append.mp asked with earlier | isLast
        · exact ih.2 opId request earlier known
        · have submits : move.2.submits = some opId := by
            rcases move with ⟨index, label⟩
            cases label <;> simp [events, NodeLabel.submits, OpEvent.answers] at isLast ⊢
            exact isLast.1.symm
          exact fresh opId submits (ih.1 opId known)

theorem Served.linearizes (served : Served env plain start (moves.map Prod.snd) node history)
    (trace : (unordered env).Trace allowed (new start) moves node) :
    Linearizes env.ops plain start
      ((unordered env).observed (events env) (new start) moves) node.store history where
  asked := fun entry entryMem => asked_of_submitted trace (served.submitted entry entryMem)
  once := served.serializes.once
  results := by rw [← (observed_run trace).1, served.results]
  stored := served.stored

/-- The node after the moves, with a history that explains it. -/
def ServedBy (env : Env Resident) (plain : DatumId → Prop) (start : Store)
    (moves : List (ℕ × NodeLabel)) (node : Node Resident)
    (history : List (DatumId × OpRequest)) : Prop :=
  Served env plain start (moves.map Prod.snd) node history

theorem servedBy_step (standalone : env.Standalone) (confined : env.ops.Confined plain)
    (moves : List (ℕ × NodeLabel)) (node : Node Resident) (history : List (DatumId × OpRequest))
    (move : ℕ × NodeLabel) (next : Node Resident)
    (served : ServedBy env plain start moves node history) (finds : node.Finding move)
    (stepped : (unordered env).step node move = some next) :
    ∃ more, ServedBy env plain start (moves ++ [move]) next (history ++ more) := by
  unfold ServedBy
  rw [List.map_append]
  exact (Served.reordered (reordered_front node move.1) served).step standalone confined finds
    stepped

/-- In every run whose recalls all find the datum they recall with an op that has not run yet, one
order of the ops explains what clients see.  A longer run continues the order of a shorter one, and
an op that is asked for later is not in it yet. -/
theorem linearizes_unordered (standalone : env.Standalone) (confined : env.ops.Confined plain)
    {front back : List (ℕ × NodeLabel)} {middle last : Node Resident}
    (before : (unordered env).Trace Finding (new start) front middle)
    (after : (unordered env).Trace Finding middle back last) :
    ∃ history later,
      Linearizes env.ops plain start
        ((unordered env).observed (events env) (new start) front) middle.store history ∧
      Linearizes env.ops plain start
        ((unordered env).observed (events env) (new start) (front ++ back)) last.store
          (history ++ later) ∧
      ∀ opId request,
        .asked opId request ∈ (unordered env).observed (events env) middle back →
          opId ∉ history.map Prod.fst := by
  have starts : ServedBy env plain start [] (new start) [] := served_new start
  rcases before.continues (servedBy_step standalone confined) starts with ⟨history, served⟩
  rcases after.continues (servedBy_step standalone confined) served with ⟨later, final⟩
  rw [List.nil_append, List.nil_append] at served
  rw [List.nil_append, List.nil_append] at final
  refine ⟨history, later, served.linearizes before, final.linearizes (before.trans after), ?_⟩
  intro opId request asked inHistory
  rcases List.mem_map.mp inHistory with ⟨entry, entryMem, rfl⟩
  have earlier := asked_of_submitted before (served.submitted entry entryMem)
  refine (asked_once after).2 entry.1 request asked ((observed_run before).2 _ |>.mpr ?_)
  exact List.mem_filterMap.mpr ⟨_, earlier, rfl⟩

end Histories

end Node

end Seisin
