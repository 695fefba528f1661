import Seisin.Gossip.Loop

/-!
# Concurrent application of ring mutations

The gossip loop and the handler of every connection apply the mutations that are ready.  A call
takes them from the log under the log's lock, and brings them to the rings one by one under the
rings' own locks, so that the updates of several calls interleave.  Mutations leave the log in the
order of their epochs; they reach the rings in that order as long as no call overtakes an earlier
one.
-/

namespace Seisin

/-- A mutation that reached the rings, with the members known at that moment. -/
structure Application where
  epoch : ℕ
  mutation : RingMutation
  members : NodeId → Option MemberUpdate

/-- A node on which calls of `applyReadyMutations` are running, each with the mutations it has
still to apply.  `drained` keeps all that left the log and `applied` all that reached the rings. -/
structure ApplyingNode where
  memberTable : MemberTable
  mutationLog : MutationLog
  rings : Rings
  calls : List (List (ℕ × RingMutation))
  drained : List (ℕ × RingMutation)
  applied : List Application

inductive ApplyingStep where
  | learn (updates : List (NodeId × MemberRecord))
  | record (epoch : ℕ) (mutation : RingMutation)
  | drain
  | update (call : ℕ)

namespace MutationLog

/-- The mutations that are ready, with their epochs. -/
def ready (log : MutationLog) : List (ℕ × RingMutation) :=
  (List.range' (log.appliedEpoch + 1) log.drainApplicable.1.length).zip log.drainApplicable.1

end MutationLog

namespace Application

def entry (application : Application) : ℕ × RingMutation :=
  (application.epoch, application.mutation)

def apply (rings : Rings) (application : Application) : Rings :=
  rings.applyMutation application.members application.mutation

end Application

namespace ApplyingNode

def members (node : ApplyingNode) (nodeId : NodeId) : Option MemberUpdate :=
  (node.memberTable.lookup nodeId).map MemberRecord.update

/-- The first half of a call. -/
def drain (node : ApplyingNode) : ApplyingNode :=
  { node with
    mutationLog := node.mutationLog.drainApplicable.2
    calls := node.calls ++ [node.mutationLog.ready]
    drained := node.drained ++ node.mutationLog.ready }

/-- A call brings its next mutation to the rings. -/
def update (node : ApplyingNode) (call : ℕ) : Option ApplyingNode :=
  match node.calls[call]? with
  | some ((epoch, mutation) :: later) =>
      some { node with
        rings := node.rings.applyMutation node.members mutation
        calls := node.calls.set call later
        applied := node.applied ++ [⟨epoch, mutation, node.members⟩] }
  | _ => none

def step (node : ApplyingNode) : ApplyingStep → Option ApplyingNode
  | .learn updates => some { node with memberTable := node.memberTable.mergeAll updates }
  | .record epoch mutation =>
      some { node with mutationLog := node.mutationLog.record epoch mutation }
  | .drain => some node.drain
  | .update call => node.update call

/-- No call is running yet. -/
structure Starts (node : ApplyingNode) : Prop where
  calls : node.calls = []
  drained : node.drained = []
  applied : node.applied = []

def system : Transition.System ApplyingNode ApplyingStep where
  init := Starts
  step := step

/-- A call updates the rings only when every earlier call is done. -/
def InTurn (node : ApplyingNode) : ApplyingStep → Prop
  | .update call => ∀ earlier < call, node.calls[earlier]? = some []
  | _ => True

instance (node : ApplyingNode) (label : ApplyingStep) : Decidable (node.InTurn label) := by
  cases label <;> unfold InTurn <;> infer_instance

end ApplyingNode

/-! ## What a call takes from the log -/

namespace MutationLog

theorem map_fst_ready (log : MutationLog) :
    log.ready.map Prod.fst = List.range' (log.appliedEpoch + 1) log.ready.length := by
  rw [ready, List.map_fst_zip (by rw [List.length_range']), List.length_zip, List.length_range',
    Nat.min_self]

theorem map_snd_ready (log : MutationLog) :
    log.ready.map Prod.snd = log.drainApplicable.1 := by
  rw [ready, List.map_snd_zip (by rw [List.length_range'])]

theorem length_ready (log : MutationLog) :
    log.ready.length = log.drainApplicable.1.length := by
  rw [← map_snd_ready, List.length_map]

end MutationLog

/-! ## Calls that do not overtake -/

/-- The first call with mutations left has the next one. -/
theorem flatten_set_of_earliest {α : Type*} {lists : List (List α)} {index : ℕ} {first : α}
    {later : List α} (found : lists[index]? = some (first :: later))
    (earlierDone : ∀ earlier < index, lists[earlier]? = some []) :
    lists.flatten = first :: (lists.set index later).flatten := by
  induction lists generalizing index with
  | nil => cases found
  | cons list lists ih =>
      cases index with
      | zero =>
          rw [List.getElem?_cons_zero] at found
          cases found
          rfl
      | succ index =>
          have isDone := earlierDone 0 (Nat.succ_pos index)
          rw [List.getElem?_cons_zero] at isDone
          cases isDone
          rw [List.getElem?_cons_succ] at found
          have rest := ih found fun earlier before =>
            earlierDone (earlier + 1) (Nat.succ_lt_succ before)
          rw [List.set_cons_succ, List.flatten_cons, List.flatten_cons, List.nil_append,
            List.nil_append, rest]

namespace ApplyingNode

variable {start node next : ApplyingNode}

theorem update_cases {call : ℕ} (updated : node.update call = some next) :
    ∃ epoch mutation later, node.calls[call]? = some ((epoch, mutation) :: later) ∧
      next = { node with
        rings := node.rings.applyMutation node.members mutation
        calls := node.calls.set call later
        applied := node.applied ++ [⟨epoch, mutation, node.members⟩] } := by
  unfold update at updated
  split at updated
  · rename_i epoch mutation later found
    cases updated
    exact ⟨epoch, mutation, later, found, rfl⟩
  · cases updated

/-- What left the log has the epochs that follow each other, and what reached the rings comes
before what the calls have left. -/
structure Ordered (start node : ApplyingNode) : Prop where
  epochs : node.drained.map Prod.fst =
    List.range' (start.mutationLog.appliedEpoch + 1) node.drained.length
  appliedEpoch : node.mutationLog.appliedEpoch =
    start.mutationLog.appliedEpoch + node.drained.length
  split : node.applied.map Application.entry ++ node.calls.flatten = node.drained
  rings : node.rings = node.applied.foldl Application.apply start.rings

theorem Starts.ordered (starts : start.Starts) : Ordered start start where
  epochs := by rw [starts.drained]; rfl
  appliedEpoch := by rw [starts.drained]; rfl
  split := by rw [starts.applied, starts.calls, starts.drained]; rfl
  rings := by rw [starts.applied]; rfl

theorem Ordered.drain (ordered : Ordered start node) : Ordered start node.drain where
  epochs := by
    simp only [ApplyingNode.drain]
    rw [List.map_append, ordered.epochs, node.mutationLog.map_fst_ready, ordered.appliedEpoch,
      List.length_append, Nat.add_right_comm, ← List.range'_append_1]
  appliedEpoch := by
    simp only [ApplyingNode.drain]
    rw [node.mutationLog.drainApplicable_spec.2.1, ordered.appliedEpoch, List.length_append,
      MutationLog.length_ready, Nat.add_assoc]
  split := by
    simp only [ApplyingNode.drain]
    rw [List.flatten_append, List.flatten_singleton, ← List.append_assoc, ordered.split]
  rings := ordered.rings

theorem Ordered.update (ordered : Ordered start node) {call : ℕ}
    (inTurn : ∀ earlier < call, node.calls[earlier]? = some [])
    (updated : node.update call = some next) : Ordered start next := by
  rcases update_cases updated with ⟨epoch, mutation, later, found, rfl⟩
  refine ⟨ordered.epochs, ordered.appliedEpoch, ?_, ?_⟩
  · have split := ordered.split
    rw [flatten_set_of_earliest found inTurn] at split
    simpa [Application.entry] using split
  · simp only [List.foldl_append, List.foldl_cons, List.foldl_nil, ← ordered.rings]
    rfl

theorem Ordered.step (ordered : Ordered start node) {label : ApplyingStep}
    (inTurn : node.InTurn label) (stepped : node.step label = some next) :
    Ordered start next := by
  cases label with
  | learn updates =>
      cases stepped
      exact ⟨ordered.epochs, ordered.appliedEpoch, ordered.split, ordered.rings⟩
  | record epoch mutation =>
      cases stepped
      refine ⟨ordered.epochs, ?_, ordered.split, ordered.rings⟩
      exact (MutationLog.appliedEpoch_record epoch mutation).trans ordered.appliedEpoch
  | drain =>
      cases stepped
      exact ordered.drain
  | update call => exact ordered.update inTurn stepped

/-! ## A call on its own -/

theorem exec_updates (node : ApplyingNode) (call : ℕ) {batch : List (ℕ × RingMutation)}
    (found : node.calls[call]? = some batch) :
    system.exec node (List.replicate batch.length (.update call)) =
      some { node with
        rings := (batch.map Prod.snd).foldl (Rings.applyMutation node.members) node.rings
        calls := node.calls.set call []
        applied := node.applied ++ batch.map fun entry => ⟨entry.1, entry.2, node.members⟩ } := by
  induction batch generalizing node with
  | nil =>
      have same : node.calls.set call [] = node.calls := by
        rcases List.getElem?_eq_some_iff.mp found with ⟨inside, isEmpty⟩
        rw [← isEmpty, List.set_getElem_self]
      simp [Transition.System.exec, same]
  | cons entry batch ih =>
      let updated : ApplyingNode := { node with
        rings := node.rings.applyMutation node.members entry.2
        calls := node.calls.set call batch
        applied := node.applied ++ [⟨entry.1, entry.2, node.members⟩] }
      have stepped : node.update call = some updated := by
        simp only [update, found]
        rfl
      have inside : call < node.calls.length := (List.getElem?_eq_some_iff.mp found).1
      have rest := ih updated (List.getElem?_set_self inside)
      simp only [List.length_cons, List.replicate_succ, Transition.System.exec]
      change (node.update call).bind _ = _
      have sameMembers : updated.members = node.members := rfl
      rw [stepped, Option.bind_some, rest, sameMembers]
      simp [updated]

/-- A call that no other interrupts does what `applyReadyMutations` does as one step. -/
theorem exec_call (node : ApplyingNode) (whole : GossipNode)
    (sameMembers : whole.gossip.memberTable = node.members)
    (sameLog : whole.gossip.mutationLog = node.mutationLog) (sameRings : whole.rings = node.rings) :
    ∃ last, system.exec node
        (.drain :: List.replicate node.mutationLog.ready.length (.update node.calls.length)) =
          some last ∧
      last.mutationLog = whole.applyReadyMutations.gossip.mutationLog ∧
      last.rings = whole.applyReadyMutations.rings ∧
      whole.applyReadyMutations.applied =
        whole.applied ++ (last.applied.drop node.applied.length).map Application.mutation := by
  have found : node.drain.calls[node.calls.length]? = some node.mutationLog.ready :=
    List.getElem?_concat_length
  refine ⟨_, exec_updates node.drain node.calls.length found, ?_, ?_, ?_⟩
  · rw [GossipNode.applyReadyMutations, sameLog]
    rfl
  · simp only [GossipNode.applyReadyMutations, sameLog, sameMembers, sameRings,
      MutationLog.map_snd_ready]
    rfl
  · have mutations : (node.mutationLog.ready.map fun entry =>
        (⟨entry.1, entry.2, node.members⟩ : Application)).map Application.mutation =
        node.mutationLog.drainApplicable.1 := by
      rw [List.map_map, ← MutationLog.map_snd_ready]
      rfl
    simp only [GossipNode.applyReadyMutations, sameLog, drain, List.drop_left]
    exact congrArg (whole.applied ++ ·) mutations.symm

/-! ## The order of the epochs -/

/-- As long as no call overtakes an earlier one, mutations reach the rings in the order of their
epochs: those applied are the first that left the log, and all of them once the calls are done. -/
theorem applied_in_order (starts : start.Starts) (run : system.Run InTurn start node) :
    (node.applied.map Application.epoch).Pairwise (· < ·) ∧
      node.applied.map Application.entry <+: node.drained ∧
      node.drained.map Prod.fst =
        List.range' (start.mutationLog.appliedEpoch + 1) node.drained.length ∧
      node.rings = node.applied.foldl Application.apply start.rings ∧
      ((∀ call ∈ node.calls, call = []) → node.applied.map Application.entry = node.drained) := by
  have ordered : Ordered start node := by
    refine run.induction ?_ starts.ordered
    intro state label next holds inTurn stepped
    exact holds.step inTurn stepped
  have isPrefix : node.applied.map Application.entry <+: node.drained :=
    ⟨_, ordered.split⟩
  refine ⟨?_, isPrefix, ordered.epochs, ordered.rings, ?_⟩
  · have increasing : (node.drained.map Prod.fst).Pairwise (· < ·) := by
      rw [ordered.epochs]
      exact List.pairwise_lt_range'
    have epochs : node.applied.map Application.epoch =
        (node.applied.map Application.entry).map Prod.fst := by
      rw [List.map_map]
      rfl
    rw [epochs]
    exact increasing.sublist (isPrefix.map Prod.fst).sublist
  · intro done
    have nothing : node.calls.flatten = [] := List.flatten_eq_nil_iff.mpr done
    have split := ordered.split
    rwa [nothing, List.append_nil] at split

/-- A node of a compute ring of four, with nothing recorded. -/
def ofFour : ApplyingNode where
  memberTable := ∅
  mutationLog := ⟨0, ∅⟩
  rings := ⟨Ring.fromMembers [(1, 1), (2, 1), (3, 1), (4, 1)], ClusterState.fromConfig []⟩
  calls := []
  drained := []
  applied := []

theorem ofFour_starts : ofFour.Starts := ⟨rfl, rfl, rfl⟩

/-- Two departures that arrive one after the other, each taken from the log by a call of its own. -/
def departures : List ApplyingStep :=
  [.record 1 (.leave 1), .drain, .record 2 (.leave 2), .drain]

/-- The second call waits for the first. -/
theorem applied_in_order_departures :
    ∃ node, system.Run InTurn ofFour node ∧ node.rings.computeRing.slots = [(4, 0), (3, 0)] ∧
      node.applied.map Application.entry = node.drained ∧
      (node.applied.map Application.epoch).Pairwise (· < ·) := by
  have executed : (system.execVia (fun node label => decide (node.InTurn label)) ofFour
      (departures ++ [.update 0, .update 1])).map
        (fun node => (node.calls, node.rings.computeRing.slots)) =
      some ([[], []], [(4, 0), (3, 0)]) := by decide
  rcases Option.map_eq_some_iff.mp executed with ⟨node, reached, shown⟩
  rcases Prod.mk.inj shown with ⟨calls, slots⟩
  have run : system.Run InTurn ofFour node :=
    Transition.System.runVia_of_execVia (fun _ _ => of_decide_eq_true) reached
  have inOrder := applied_in_order ofFour_starts run
  refine ⟨node, run, slots, inOrder.2.2.2.2 ?_, inOrder.1⟩
  rw [calls]
  decide

/-- The second call overtakes the first between their halves, and the ring differs from that of
the epochs in order. -/
theorem overtaken :
    ∃ node, system.Run (fun _ _ => True) ofFour node ∧ (∀ call ∈ node.calls, call = []) ∧
      node.drained = [(1, .leave 1), (2, .leave 2)] ∧
      ¬ (node.applied.map Application.epoch).Pairwise (· < ·) ∧
      node.rings.computeRing ≠ ((node.drained.map Prod.snd).foldl
        (Rings.applyMutation ofFour.members) ofFour.rings).computeRing := by
  have executed : (system.exec ofFour (departures ++ [.update 1, .update 0])).map
        (fun node => (node.calls, node.drained, node.applied.map Application.epoch,
          node.rings.computeRing)) =
      some ([[], []], [(1, .leave 1), (2, .leave 2)], [2, 1], ⟨[(3, 0), (4, 0)]⟩) := by decide
  rcases Option.map_eq_some_iff.mp executed with ⟨node, reached, shown⟩
  simp only [Prod.mk.injEq] at shown
  rcases shown with ⟨calls, drained, epochs, ring⟩
  refine ⟨node, Transition.System.run_of_exec reached, ?_, drained, ?_, ?_⟩
  · rw [calls]
    decide
  · rw [epochs]
    decide
  · rw [ring, drained]
    decide

end ApplyingNode

end Seisin
