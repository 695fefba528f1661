import Seisin.Node.Transparency

/-!
# Guarantees of the whole tier

What holds of the joint node holds of the tier: two ops never have one datum, on whichever nodes
they run, ops commit under all their locks, wherever those are kept, and one order of the ops explains
what the clients of all nodes see.  The ring stays as it is, and recalls find ops that have not run
yet.
-/

namespace Seisin

open Transition

variable {Resident : Type}

namespace ComputeTier

variable {spawn : Spawn Resident} {native : DatumId → NodeId × ThreadId} {store : Store}
  {labels : List TierLabel} {tier : ComputeTier Resident} {node : Node Resident}

/-! ## Refinement -/

theorem record_of_joined (joined : Joint.Joined native tier node) (place : NodeId × ThreadId) :
    node.record (Joint.thread place) = (tier.workers place.1 place.2).record := by
  unfold Node.record
  rw [joined.workers place]
  rfl

theorem lock_of_joined (joined : Joint.Joined native tier node) (place : NodeId × ThreadId)
    (datumId : DatumId) :
    (node.workers (Joint.thread place)).lock datumId =
      Joint.lock datumId ((tier.workers place.1 place.2).lock datumId) := by
  rw [joined.workers place]
  exact Joint.lock_worker (joined.locks place) datumId

/-- While the ring stays as it is, what clients see of the tier they also see of one node that owns
all of the ring and whose messages overtake each other: it is asked for the same ops, gives the same
answers in the same order, and ends with the same store, the same records of ops and the same locks,
with the threads of the tier as their holders and waiters. -/
theorem refines_joint_node
    (trace : (system spawn).Trace (fun _ label => label.Steady) (new (fun _ => native) store)
      labels tier) :
    ∃ moves node,
      (Node.unordered (Joint.env spawn native)).Trace (fun _ _ => True) (Node.new store) moves
        node ∧
      (Node.unordered (Joint.env spawn native)).observed (Node.events (Joint.env spawn native))
        (Node.new store) moves =
        (system spawn).observed (events spawn) (new (fun _ => native) store) labels ∧
      node.store = tier.store ∧
      (∀ place : NodeId × ThreadId,
        node.record (Joint.thread place) = (tier.workers place.1 place.2).record) ∧
      ∀ (place : NodeId × ThreadId) datumId,
        (node.workers (Joint.thread place)).lock datumId =
          Joint.lock datumId ((tier.workers place.1 place.2).lock datumId) := by
  rcases (Joint.follows_steady spawn native).trace trace (Joint.joined_new native store) with
    ⟨moves, node, matched, joined, shown⟩
  exact ⟨moves, node, matched, shown, joined.store, record_of_joined joined, lock_of_joined joined⟩

/-! ## Exclusion -/

/-- No datum is acquired by two ops. -/
def AcquiredExclusively (tier : ComputeTier Resident) : Prop :=
  ∀ (place other : NodeId × ThreadId) opId otherOp record otherRecord datumId,
    (tier.workers place.1 place.2).record opId = some record →
    (tier.workers other.1 other.2).record otherOp = some otherRecord →
    datumId ∈ record.acquired → datumId ∈ otherRecord.acquired → place = other ∧ opId = otherOp

/-- A turn that commits an op's staged writes finds the op as holder of all its datums' locks, each on
the thread that is the native home of the datum. -/
def CommitsLocked (spawn : Spawn Resident) (native : DatumId → NodeId × ThreadId)
    (tier : ComputeTier Resident) : Prop :=
  ∀ (index : ℕ) hint receiver body origin,
    tier.inFlight[index]? = some (.message receiver body origin) →
    ∀ opId datumIds writes,
      .committed opId datumIds writes ∈ (tier.turn spawn receiver hint body).effects →
        ∀ datumId ∈ datumIds, ∃ holder,
          ((tier.workers (native datumId).1 (native datumId).2).lock datumId).currentHolder =
            some holder ∧ holder.opId = opId

theorem acquiredExclusively_of_joined (joined : Joint.Joined native tier node)
    (exclusive : node.AcquiredExclusively) : tier.AcquiredExclusively := by
  intro place other opId otherOp record otherRecord datumId found otherFound holds otherHolds
  rw [← record_of_joined joined] at found otherFound
  rcases exclusive _ _ _ _ _ _ datumId found otherFound holds otherHolds with ⟨samePlace, sameOp⟩
  exact ⟨Joint.thread_inj.mp samePlace, sameOp⟩

theorem holder_of_joined (joined : Joint.Joined native tier node) {datumId : DatumId}
    {jointHolder : Holder}
    (held : (node.lock (Joint.env spawn native) datumId).currentHolder = some jointHolder) :
    ∃ holder,
      ((tier.workers (native datumId).1 (native datumId).2).lock datumId).currentHolder =
        some holder ∧ holder.opId = jointHolder.opId := by
  have atHome : node.lock (Joint.env spawn native) datumId =
      Joint.lock datumId ((tier.workers (native datumId).1 (native datumId).2).lock datumId) := by
    exact lock_of_joined joined (native datumId) datumId
  rw [atHome] at held
  rcases Option.map_eq_some_iff.mp held with ⟨holder, isHolder, rfl⟩
  exact ⟨holder, isHolder, rfl⟩

theorem commitsLocked_of_joined (joined : Joint.Joined native tier node)
    (invariant : Node.CommitInvariant (Joint.env spawn native) node) :
    tier.CommitsLocked spawn native := by
  intro index hint receiver body origin found opId datumIds writes commits datumId wanted
  have filed : body.Filed tier.calls receiver.1 :=
    joined.filed _ (List.mem_of_getElem? found)
  rcases joined.fronts found with ⟨position, packet, rest, isContent, fronted, -⟩
  rcases Joint.deliver_content spawn native fronted isContent hint with ⟨-, did⟩
  have jointCommits : .committed opId datumIds writes ∈
      (node.front position).effects (Joint.env spawn native)
        (.deliver packet.sender (Joint.thread receiver) hint) := by
    rw [did, (joined.turns spawn hint filed).effects]
    exact List.mem_filterMap.mpr ⟨_, commits, rfl⟩
  have locked := (invariant.reordered (Node.reordered_front node position)).commitsLocked
    (Joint.env_standalone spawn native) _ opId datumIds writes jointCommits datumId wanted
  rcases locked with ⟨jointHolder, held, rfl⟩
  have sameLock : (node.front position).lock (Joint.env spawn native) datumId =
      node.lock (Joint.env spawn native) datumId := by
    rw [fronted]
    rfl
  rw [sameLock] at held
  exact holder_of_joined joined held

/-- While the ring stays as it is and recalls find ops that have not run yet: whatever the
interleaving of clients, threads and peer links, no datum is acquired by two ops of the tier, and an
op commits only while the native homes of its datums have it as the holder of all of them. -/
theorem excludes_across_nodes
    (trace : (system spawn).Trace Orderly (new (fun _ => native) store) labels tier) :
    tier.AcquiredExclusively ∧ tier.CommitsLocked spawn native := by
  rcases (Joint.follows_orderly spawn native).trace trace (Joint.joined_new native store) with
    ⟨moves, node, matched, joined, -⟩
  have invariant := Node.commitInvariant_of_unordered (Joint.env_standalone spawn native)
    (matched.reachableVia ⟨store, rfl⟩)
  exact ⟨acquiredExclusively_of_joined joined invariant.exclusion.unique,
    commitsLocked_of_joined joined invariant⟩

/-! ## Two nodes -/

instance : DecidablePred TierLabel.Steady := fun label => by
  cases label <;> unfold TierLabel.Steady <;> infer_instance

/-- Whether the recall that `label` delivers, if it delivers one, finds a record of its thread that
holds the datum and has not run yet. -/
def recallFinds (tier : ComputeTier Resident) : TierLabel → Bool
  | .deliver index _ =>
      match tier.inFlight[index]? with
      | some (.message receiver (.recall datumId _) _) =>
          (tier.workers receiver.1 receiver.2).opRecords.entries.any fun entry =>
            decide (datumId ∈ entry.2.acquired) && entry.2.indexUpdateState.isNone
      | _ => true
  | _ => true

def isOrderly (tier : ComputeTier Resident) (label : TierLabel) : Bool :=
  decide label.Steady && recallFinds tier label

theorem isOrderly_sound (tier : ComputeTier Resident) (label : TierLabel)
    (orderly : isOrderly tier label = true) : tier.Orderly label := by
  rw [isOrderly, Bool.and_eq_true, decide_eq_true_eq] at orderly
  refine ⟨orderly.1, ?_⟩
  rintro index hint receiver datumId reply origin rfl found
  have finds := orderly.2
  simp only [recallFinds, found, List.any_eq_true, Bool.and_eq_true, decide_eq_true_eq,
    Option.isNone_iff_eq_none] at finds
  rcases finds with ⟨⟨opId, record⟩, entryMem, holds, fresh⟩
  exact ⟨opId, record, AList.mem_lookup_iff.mpr entryMem, holds, fresh⟩

/-- Two nodes whose ops append to a datum what they find there. -/
def pairAppends : Spawn Unit where
  members := [0, 1]
  ops := Node.appendOps
  indexKinds := (Node.soleHomeEnv Node.appendOps).indexKinds

/-- Datum 8 is native to node 1. -/
def pairHomes (datumId : DatumId) : NodeId × ThreadId :=
  if datumId = 8 then (1, 0) else (0, 0)

/-- A client has an op run. -/
def clientRuns (node : NodeId) (handler : ℕ) (thread : ThreadId) (opId : DatumId)
    (datumIds : List DatumId) : List TierLabel :=
  [.act node handler (.guard (.op opId "append" datumIds [])), .act node handler .loadHalted,
    .act node handler .loadPaused, .dispatch node handler thread]

def deliveries (indexes : List ℕ) : List TierLabel :=
  indexes.map fun index => .deliver index 0

/-- Op 3 of node 1 has datum 7 of node 0 and gives it back to op 1, which has run and waits for its
index update. -/
def pairRecall : List TierLabel :=
  clientRuns 1 0 0 3 [7, 8] ++ deliveries [0, 0, 1, 1, 1] ++ clientRuns 0 0 1 1 [7] ++
    deliveries [1, 1, 1, 1, 1, 1, 1, 2, 1, 1]

theorem refines_joint_pair : ∃ moves tier node,
    (system pairAppends).exec (new (fun _ => pairHomes) fun _ => none) pairRecall = some tier ∧
    ((tier.workers 1 0).record 3).isSome ∧
    (Node.unordered (Joint.env pairAppends pairHomes)).exec (Node.new fun _ => none) moves =
      some node ∧
    node.record (Joint.thread (1, 0)) = (tier.workers 1 0).record := by
  have observed : ((system pairAppends).execVia (fun _ label => decide label.Steady)
      (new (fun _ => pairHomes) fun _ => none) pairRecall).map
        (fun tier => ((tier.workers 1 0).record 3).isSome) = some true := by
    decide +kernel
  rcases Option.map_eq_some_iff.mp observed with ⟨tier, executed, recorded⟩
  have trace := System.trace_of_execVia (fun _ _ steady => of_decide_eq_true steady) executed
  rcases refines_joint_node trace with ⟨moves, node, matched, -, -, records, -⟩
  exact ⟨moves, tier, node, System.exec_of_execVia executed, recorded, matched.exec,
    records (1, 0)⟩

theorem excludes_across_pair : ∃ tier,
    (system pairAppends).exec (new (fun _ => pairHomes) fun _ => none) pairRecall = some tier ∧
    (tier.turn pairAppends (0, 1) 0 (.indexUpdateReplied 1 9 none)).effects.filterMap Effect.toCommit =
      [(1, [7], [⟨7, some [1], 1⟩])] ∧
    tier.AcquiredExclusively ∧ tier.CommitsLocked pairAppends pairHomes := by
  have observed : ((system pairAppends).execVia isOrderly (new (fun _ => pairHomes) fun _ => none)
      pairRecall).map (fun tier =>
        (tier.turn pairAppends (0, 1) 0
          (.indexUpdateReplied 1 9 none)).effects.filterMap Effect.toCommit) =
      some [(1, [7], [⟨7, some [1], 1⟩])] := by
    decide +kernel
  rcases Option.map_eq_some_iff.mp observed with ⟨tier, executed, commits⟩
  exact ⟨tier, System.exec_of_execVia executed, commits,
    excludes_across_nodes (System.trace_of_execVia isOrderly_sound executed)⟩

/-! ## Serializability -/

section Serializability

variable {plain : DatumId → Prop} {start : Store} {front back : List TierLabel}
  {middle last : ComputeTier Resident}

end Serializability

/-- Op 1 is answered. -/
def pairFirst : List TierLabel :=
  pairRecall ++ deliveries [1]

/-- Op 5 of node 1 is asked for; op 3 gets datum 7 back and finishes before it. -/
def pairLater : List TierLabel :=
  clientRuns 1 1 1 5 [7] ++ deliveries (List.replicate 25 0)

end ComputeTier

end Seisin
