import Mathlib
import Seisin.Ring.Placement

/-!
# The thread that runs an operation

A node runs an operation itself if its datums are not all native to one other node, and picks the
thread number that is native to the most of them.  It counts the thread numbers of datums that are
native to other nodes with those of its own, and a node with more threads has numbers that it has
not.
-/

namespace Seisin

/-! ## Counting and picking -/

def countThreads (threads : List ThreadId) : AList (fun _ : ThreadId => ℕ) :=
  threads.foldl (fun counts thread => counts.insert thread ((counts.lookup thread).getD 0 + 1)) ∅

section

variable (hash : ℕ → ℕ → ℕ) (ring : Ring)

/-- The thread numbers the datums are native to, whichever nodes these are threads of. -/
def nativeThreads (datumIds : List DatumId) : List ThreadId :=
  datumIds.map fun id => (ring.native hash id).2

/-- The thread number with the highest count, and the lowest of these. -/
def pickDestinationThread (datumIds : List DatumId) : ThreadId :=
  (((countThreads (nativeThreads hash ring datumIds)).entries.argmax
    fun entry => toLex (entry.2, OrderDual.toDual entry.1)).map Sigma.fst).getD 0

/-- What becomes of a request for an operation; a thread runs it if the node has that thread. -/
inductive OpDispatch where
  | redirect (address : String)
  | opError (message : String)
  | runOp (destination : ThreadId)
  deriving DecidableEq

/-- The distinct nodes that the datums are native to. -/
def nativeNodes (datumIds : List DatumId) : List NodeId :=
  (datumIds.map fun id => (ring.native hash id).1).dedup

def handleOpRequest (selfNodeId : NodeId) (addressBook : NodeId → Option String)
    (datumIds : List DatumId) : OpDispatch :=
  match nativeNodes hash ring datumIds with
  | [onlyNode] =>
      if onlyNode ≠ selfNodeId then
        match addressBook onlyNode with
        | some address => .redirect address
        | none => .opError ("no known address for node NodeId(" ++ toString onlyNode ++ ")")
      else .runOp (pickDestinationThread hash ring datumIds)
  | _ => .runOp (pickDestinationThread hash ring datumIds)

end

/-! ## What is picked -/

theorem lookup_countThreads (threads : List ThreadId) (thread : ThreadId) :
    (countThreads threads).lookup thread =
      if thread ∈ threads then some (threads.count thread) else none := by
  have counted : ∀ (counts : AList fun _ : ThreadId => ℕ),
      ((threads.foldl (fun counts thread =>
          counts.insert thread ((counts.lookup thread).getD 0 + 1)) counts).lookup thread) =
        if thread ∈ threads then some ((counts.lookup thread).getD 0 + threads.count thread)
        else counts.lookup thread := by
    induction threads with
    | nil => simp
    | cons first threads ih =>
        intro counts
        rw [List.foldl_cons, ih]
        by_cases same : thread = first
        · subst same
          by_cases again : thread ∈ threads
          · simp [again, AList.lookup_insert, Nat.add_assoc, Nat.add_comm]
          · simp [again, AList.lookup_insert, List.count_eq_zero_of_not_mem again]
        · rw [AList.lookup_insert_ne same, List.count_cons_of_ne (Ne.symm same)]
          simp [same]
  rw [countThreads, counted]
  simp

variable {hash : ℕ → ℕ → ℕ} {ring : Ring} {datumIds : List DatumId}

theorem mem_entries_countThreads {threads : List ThreadId} {entry : Σ _ : ThreadId, ℕ} :
    entry ∈ (countThreads threads).entries ↔
      entry.1 ∈ threads ∧ entry.2 = threads.count entry.1 := by
  rcases entry with ⟨thread, count⟩
  rw [← AList.mem_lookup_iff, Option.mem_def, lookup_countThreads]
  split
  · rename_i present
    simp [present, eq_comm]
  · rename_i absent
    simp [absent]

/-- The thread number picked is one of a datum, and no other is one of more, or of as many and lower;
without datums it is 0. -/
theorem pickDestinationThread_spec (hash : ℕ → ℕ → ℕ) (ring : Ring) (datumIds : List DatumId) :
    nativeThreads hash ring datumIds = [] ∧ pickDestinationThread hash ring datumIds = 0 ∨
    pickDestinationThread hash ring datumIds ∈ nativeThreads hash ring datumIds ∧
      ∀ thread ∈ nativeThreads hash ring datumIds,
        (nativeThreads hash ring datumIds).count thread <
            (nativeThreads hash ring datumIds).count (pickDestinationThread hash ring datumIds) ∨
          (nativeThreads hash ring datumIds).count thread =
              (nativeThreads hash ring datumIds).count
                (pickDestinationThread hash ring datumIds) ∧
            pickDestinationThread hash ring datumIds ≤ thread := by
  unfold pickDestinationThread
  generalize nativeThreads hash ring datumIds = threads
  cases picked : (countThreads threads).entries.argmax
      fun entry => toLex (entry.2, OrderDual.toDual entry.1) with
  | none =>
      left
      rw [List.argmax_eq_none] at picked
      refine ⟨?_, rfl⟩
      rw [List.eq_nil_iff_forall_not_mem]
      intro thread threadMem
      have counted : (⟨thread, threads.count thread⟩ : Σ _ : ThreadId, ℕ) ∈
          (countThreads threads).entries :=
        mem_entries_countThreads.mpr ⟨threadMem, rfl⟩
      rw [picked] at counted
      cases counted
  | some best =>
      right
      have bestMem := mem_entries_countThreads.mp (List.argmax_mem picked)
      refine ⟨bestMem.1, ?_⟩
      intro thread threadMem
      have counted : (⟨thread, threads.count thread⟩ : Σ _ : ThreadId, ℕ) ∈
          (countThreads threads).entries :=
        mem_entries_countThreads.mpr ⟨threadMem, rfl⟩
      have least := List.le_of_mem_argmax counted picked
      rw [Prod.Lex.toLex_le_toLex, bestMem.2] at least
      exact least

theorem handleOpRequest_eq_runOp {selfNodeId : NodeId} {addressBook : NodeId → Option String}
    {destination : ThreadId}
    (dispatched : handleOpRequest hash ring selfNodeId addressBook datumIds =
      .runOp destination) : destination = pickDestinationThread hash ring datumIds := by
  unfold handleOpRequest at dispatched
  split at dispatched
  · split at dispatched
    · split at dispatched
      · cases dispatched
      · cases dispatched
    · cases dispatched
      rfl
  · cases dispatched
    rfl

/-- A number that the node has is picked unless it is outnumbered by one that the node has not. -/
theorem pickDestinationThread_lt_iff {threadCount : ℕ} (positive : 0 < threadCount) :
    pickDestinationThread hash ring datumIds < threadCount ↔
      ∀ thread ∈ nativeThreads hash ring datumIds, threadCount ≤ thread →
        ∃ own < threadCount, (nativeThreads hash ring datumIds).count thread ≤
          (nativeThreads hash ring datumIds).count own := by
  rcases pickDestinationThread_spec hash ring datumIds with ⟨none, first⟩ | ⟨pickedMem, best⟩
  · rw [none, first]
    simp [positive]
  · constructor
    · intro isLocal thread threadMem _
      rcases best thread threadMem with fewer | ⟨same, _⟩
      · exact ⟨_, isLocal, fewer.le⟩
      · exact ⟨_, isLocal, same.le⟩
    · intro outnumbered
      by_contra remote
      rw [not_lt] at remote
      rcases outnumbered _ pickedMem remote with ⟨own, ownLocal, atLeast⟩
      have ownMem : own ∈ nativeThreads hash ring datumIds :=
        List.count_pos_iff.mp ((List.count_pos_iff.mpr pickedMem).trans_le atLeast)
      rcases best own ownMem with fewer | ⟨_, lower⟩
      · exact absurd fewer (not_lt.mpr atLeast)
      · exact absurd (remote.trans lower) (not_le.mpr ownLocal)

/-- An operation that a node runs itself is assigned to one of its threads exactly if every thread
number that it has not is that of no more datums than some number that it has. -/
theorem destination_local_iff {selfNodeId : NodeId} {addressBook : NodeId → Option String}
    {destination : ThreadId} {threadCount : ℕ} (positive : 0 < threadCount)
    (dispatched : handleOpRequest hash ring selfNodeId addressBook datumIds =
      .runOp destination) :
    destination < threadCount ↔
      ∀ thread ∈ nativeThreads hash ring datumIds, threadCount ≤ thread →
        ∃ own < threadCount, (nativeThreads hash ring datumIds).count thread ≤
          (nativeThreads hash ring datumIds).count own := by
  rw [handleOpRequest_eq_runOp dispatched]
  exact pickDestinationThread_lt_iff positive

/-- One datum of the node's own thread and two of the second thread of the other node. -/
theorem destination_not_local :
    ∃ destination, handleOpRequest JumpBackHasher.hash (Ring.fromMembers [(1, 1), (2, 2)]) 1
        (fun _ => none) [0, 3, 4] = .runOp destination ∧ ¬destination < 1 := by
  refine ⟨1, ?_, by decide⟩
  decide +kernel

theorem destination_local_iff_sample :
    (0 : ThreadId) < 1 ↔ ∀ thread ∈ nativeThreads JumpBackHasher.hash
        (Ring.fromMembers [(1, 1), (2, 2)]) [0, 2, 3], 1 ≤ thread →
      ∃ own < 1, (nativeThreads JumpBackHasher.hash
          (Ring.fromMembers [(1, 1), (2, 2)]) [0, 2, 3]).count thread ≤
        (nativeThreads JumpBackHasher.hash
          (Ring.fromMembers [(1, 1), (2, 2)]) [0, 2, 3]).count own := by
  have dispatched : handleOpRequest JumpBackHasher.hash (Ring.fromMembers [(1, 1), (2, 2)]) 1
      (fun _ => none) [0, 2, 3] = .runOp 0 := by
    decide +kernel
  exact destination_local_iff Nat.one_pos dispatched

/-! ## Operations on data of the node's own -/

theorem native_mem_slots {members : List (NodeId × ℕ)}
    (inRange : ∀ key slots, 0 < slots → hash key slots < slots)
    (nonempty : (Ring.fromMembers members).slots ≠ []) (id : DatumId) :
    (Ring.fromMembers members).native hash id ∈ (Ring.fromMembers members).slots := by
  have inside := inRange (hashKey id) _ (List.length_pos_iff.mpr nonempty)
  rw [Ring.native, List.getD_eq_getElem _ _ inside]
  exact List.getElem_mem inside

theorem mem_slots_fromMembers {members : List (NodeId × ℕ)} {slot : NodeId × ThreadId} :
    slot ∈ (Ring.fromMembers members).slots ↔
      ∃ threadCount, (slot.1, threadCount) ∈ members ∧ slot.2 < threadCount := by
  rw [Ring.slots_fromMembers, List.mem_flatMap]
  constructor
  · rintro ⟨member, memberMem, slotMem⟩
    rcases List.mem_map.mp slotMem with ⟨thread, threadMem, rfl⟩
    exact ⟨member.2, memberMem, List.mem_range.mp threadMem⟩
  · rintro ⟨threadCount, memberMem, below⟩
    exact ⟨(slot.1, threadCount), memberMem,
      List.mem_map.mpr ⟨slot.2, List.mem_range.mpr below, rfl⟩⟩

/-- Where every datum is native to the node itself, or to nodes with no more threads than it has, an
operation is assigned to one of its threads. -/
theorem destination_local_of_no_larger {members : List (NodeId × ℕ)}
    (inRange : ∀ key slots, 0 < slots → hash key slots < slots) {selfNodeId : NodeId}
    {addressBook : NodeId → Option String} {threadCount : ℕ} (positive : 0 < threadCount)
    (member : (selfNodeId, threadCount) ∈ members)
    (noLarger : ∀ id ∈ datumIds, ∀ others,
      (((Ring.fromMembers members).native hash id).1, others) ∈ members → others ≤ threadCount)
    {destination : ThreadId}
    (dispatched : handleOpRequest hash (Ring.fromMembers members) selfNodeId addressBook datumIds =
      .runOp destination) : destination < threadCount := by
  have ownSlot : ((selfNodeId, 0) : NodeId × ThreadId) ∈ (Ring.fromMembers members).slots :=
    mem_slots_fromMembers.mpr ⟨threadCount, member, positive⟩
  rw [handleOpRequest_eq_runOp dispatched, pickDestinationThread_lt_iff positive]
  intro thread threadMem beyond
  rcases List.mem_map.mp threadMem with ⟨id, idMem, rfl⟩
  rcases mem_slots_fromMembers.mp (native_mem_slots inRange (List.ne_nil_of_mem ownSlot) id) with
    ⟨others, otherMem, below⟩
  exact absurd (below.trans_le (noLarger id idMem others otherMem)) (not_lt.mpr beyond)

end Seisin
