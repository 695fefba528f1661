import Mathlib
import Seisin.Lib.Gapless
import Seisin.Storage.RemoteStore

/-!
# Ring mutations by gossip

The sequencer numbers the mutations of the rings, and gossip brings them to the nodes in any order
and any number of times.  A node buffers them and releases them for application in the order of
their epochs, without a gap.  The rings are sensitive to that order, since a node that leaves swaps
slots; nodes that apply the same sequence have the same rings.
-/

namespace Seisin

inductive MemberRole where
  | compute
  | storage
  deriving DecidableEq

/-- What the member table has of a node, as far as ring mutations read it. -/
structure MemberUpdate where
  role : MemberRole
  storeAddress : String
  logId : DatumId

inductive RingMutation where
  | join (nodeId : NodeId) (threadCount : ℕ)
  | leave (nodeId : NodeId)
  deriving DecidableEq

def RingMutation.nodeId : RingMutation → NodeId
  | .join nodeId _ => nodeId
  | .leave nodeId => nodeId

/-! ## The mutation log -/

structure MutationLog where
  appliedEpoch : ℕ
  pending : AList (fun _ : ℕ => RingMutation)

namespace MutationLog

/-- Buffers a mutation, unless its epoch is applied already. -/
def record (log : MutationLog) (epoch : ℕ) (mutation : RingMutation) : MutationLog :=
  if log.appliedEpoch < epoch then { log with pending := log.pending.insert epoch mutation }
  else log

/-- Releases mutations up to the first gap, at most `fuel` of them. -/
def drainFrom : ℕ → MutationLog → List RingMutation × MutationLog
  | 0, log => ([], log)
  | fuel + 1, log =>
      match log.pending.lookup (log.appliedEpoch + 1) with
      | none => ([], log)
      | some mutation =>
          let (ready, rest) := drainFrom fuel
            ⟨log.appliedEpoch + 1, log.pending.erase (log.appliedEpoch + 1)⟩
          (mutation :: ready, rest)

def drainApplicable (log : MutationLog) : List RingMutation × MutationLog :=
  drainFrom (log.pending.keys.length + 1) log

end MutationLog

/-! ## Gossip state and the rings -/

def recentMutationsCap : ℕ := 16

structure GossipState where
  memberTable : NodeId → Option MemberUpdate
  mutationLog : MutationLog
  recentMutations : List (ℕ × RingMutation)

/-- The rings a mutation can touch. -/
structure Rings where
  computeRing : Ring
  storage : ClusterState

namespace GossipState

def recordMutation (gossip : GossipState) (epoch : ℕ) (mutation : RingMutation) : GossipState :=
  let recent := gossip.recentMutations ++ [(epoch, mutation)]
  { gossip with
    mutationLog := gossip.mutationLog.record epoch mutation
    recentMutations := recent.drop (recent.length - recentMutationsCap) }

/-- Records the mutations of an incoming message. -/
def mergeIncoming (gossip : GossipState) (mutations : List (ℕ × RingMutation)) : GossipState :=
  mutations.foldl (fun gossip entry => gossip.recordMutation entry.1 entry.2) gossip

/-- Unknown members count as compute nodes. -/
def role (memberTable : NodeId → Option MemberUpdate) (node : NodeId) : MemberRole :=
  ((memberTable node).map MemberUpdate.role).getD .compute

end GossipState

namespace Rings

/-- Applies a mutation to the ring of the node's role. -/
def applyMutation (memberTable : NodeId → Option MemberUpdate) (rings : Rings)
    (mutation : RingMutation) : Rings :=
  match GossipState.role memberTable mutation.nodeId, mutation with
  | .compute, .join node threadCount =>
      { rings with computeRing := rings.computeRing.applyJoin node threadCount }
  | .compute, .leave node => { rings with computeRing := rings.computeRing.applyLeave node }
  | .storage, .join node _ =>
      { rings with
        storage := match memberTable node with
          | some update => rings.storage.applyJoin node update.storeAddress update.logId
          | none => rings.storage.applyJoin node "" 0 }
  | .storage, .leave node => { rings with storage := rings.storage.applyLeave node }

end Rings

/-- A node's gossip state and rings, with the mutations it has applied. -/
structure GossipNode where
  gossip : GossipState
  rings : Rings
  applied : List RingMutation

inductive GossipStep where
  | merge (mutations : List (ℕ × RingMutation))
  | apply
  deriving DecidableEq

namespace GossipNode

/-- Applies every mutation that is ready. -/
def applyReadyMutations (node : GossipNode) : GossipNode :=
  let (ready, log) := node.gossip.mutationLog.drainApplicable
  { gossip := { node.gossip with mutationLog := log }
    rings := ready.foldl (Rings.applyMutation node.gossip.memberTable) node.rings
    applied := node.applied ++ ready }

def step (node : GossipNode) : GossipStep → GossipNode
  | .merge mutations => { node with gossip := node.gossip.mergeIncoming mutations }
  | .apply => node.applyReadyMutations

def run (node : GossipNode) (steps : List GossipStep) : GossipNode := steps.foldl step node

end GossipNode

/-! ## What the log releases -/

namespace MutationLog

variable {log : MutationLog}

theorem lookup_record (epoch : ℕ) (mutation : RingMutation) (other : ℕ) :
    (log.record epoch mutation).pending.lookup other =
      if other = epoch ∧ log.appliedEpoch < epoch then some mutation
      else log.pending.lookup other := by
  unfold record
  split
  · rename_i fresh
    by_cases same : other = epoch
    · subst same
      rw [AList.lookup_insert, if_pos ⟨rfl, fresh⟩]
    · rw [AList.lookup_insert_ne same, if_neg (fun both => same both.1)]
  · rename_i stale
    rw [if_neg (fun both => stale both.2)]

theorem appliedEpoch_record (epoch : ℕ) (mutation : RingMutation) :
    (log.record epoch mutation).appliedEpoch = log.appliedEpoch := by
  unfold record
  split <;> rfl

/-- The log releases the gapless run of what is pending, and keeps the rest. -/
theorem drainFrom_spec {fuel : ℕ} (enough : log.pending.keys.length < fuel) :
    Gapless.IsRun (fun epoch => log.pending.lookup epoch) log.appliedEpoch (drainFrom fuel log).1 ∧
      (drainFrom fuel log).2.appliedEpoch = log.appliedEpoch + (drainFrom fuel log).1.length ∧
      ∀ epoch, (drainFrom fuel log).2.appliedEpoch < epoch →
        (drainFrom fuel log).2.pending.lookup epoch = log.pending.lookup epoch := by
  induction fuel generalizing log with
  | zero => exact absurd enough (Nat.not_lt_zero _)
  | succ fuel ih =>
      unfold drainFrom
      split
      · rename_i gap
        refine ⟨⟨.nil, by simpa using gap⟩, rfl, fun _ _ => rfl⟩
      · rename_i mutation next
        have inside : log.appliedEpoch + 1 ∈ log.pending.keys := by
          rw [← AList.mem_keys, ← AList.lookup_isSome, next]
          rfl
        let rest : MutationLog :=
          ⟨log.appliedEpoch + 1, log.pending.erase (log.appliedEpoch + 1)⟩
        have others : ∀ epoch, log.appliedEpoch + 1 < epoch →
            rest.pending.lookup epoch = log.pending.lookup epoch :=
          fun epoch beyond => AList.lookup_erase_ne (by omega)
        have smaller : rest.pending.keys.length < fuel := by
          have shrinks := List.length_erase_of_mem inside
          have positive := List.length_pos_of_mem inside
          simp only [rest, AList.keys_erase]
          omega
        rcases ih smaller with ⟨run, epochs, kept⟩
        refine ⟨.cons next (run.congr fun epoch beyond => (others epoch beyond).symm), ?_, ?_⟩
        · change (drainFrom fuel rest).2.appliedEpoch = _
          rw [epochs, List.length_cons]
          simp only [rest]
          omega
        · intro epoch beyond
          have reached : log.appliedEpoch + 1 < epoch := by
            change (drainFrom fuel rest).2.appliedEpoch < epoch at beyond
            rw [epochs] at beyond
            simp only [rest] at beyond
            omega
          exact (kept epoch beyond).trans (others epoch reached)

theorem drainApplicable_spec (log : MutationLog) :
    Gapless.IsRun (fun epoch => log.pending.lookup epoch) log.appliedEpoch log.drainApplicable.1 ∧
      log.drainApplicable.2.appliedEpoch = log.appliedEpoch + log.drainApplicable.1.length ∧
      ∀ epoch, log.drainApplicable.2.appliedEpoch < epoch →
        log.drainApplicable.2.pending.lookup epoch = log.pending.lookup epoch :=
  drainFrom_spec (Nat.lt_succ_self _)

theorem lookup_of_drainFrom {fuel epoch : ℕ} {mutation : RingMutation}
    (found : (drainFrom fuel log).2.pending.lookup epoch = some mutation) :
    log.pending.lookup epoch = some mutation := by
  induction fuel generalizing log with
  | zero => exact found
  | succ fuel ih =>
      unfold drainFrom at found
      split at found
      · exact found
      · have rest := ih found
        rcases eq_or_ne epoch (log.appliedEpoch + 1) with rfl | differ
        · simp at rest
        · rwa [AList.lookup_erase_ne differ] at rest

/-- What is still pending after a release was pending before. -/
theorem lookup_of_drainApplicable (log : MutationLog) {epoch : ℕ} {mutation : RingMutation}
    (found : log.drainApplicable.2.pending.lookup epoch = some mutation) :
    log.pending.lookup epoch = some mutation :=
  lookup_of_drainFrom found

end MutationLog

/-! ## What a node has received -/

def GossipStep.delivered : GossipStep → List (ℕ × RingMutation)
  | .merge mutations => mutations
  | .apply => []

def deliveries (steps : List GossipStep) : List (ℕ × RingMutation) :=
  steps.flatMap GossipStep.delivered

/-- What was received when mutations were applied for the last time. -/
def settled (steps : List GossipStep) : List (ℕ × RingMutation) :=
  deliveries (steps.rdropWhile fun step => step ≠ .apply)

theorem deliveries_snoc (steps : List GossipStep) (step : GossipStep) :
    deliveries (steps ++ [step]) = deliveries steps ++ step.delivered := by
  simp [deliveries]

theorem settled_snoc_merge (steps : List GossipStep) (mutations : List (ℕ × RingMutation)) :
    settled (steps ++ [.merge mutations]) = settled steps := by
  rw [settled, List.rdropWhile_concat_pos _ _ _ (by simp)]
  rfl

theorem settled_snoc_apply (steps : List GossipStep) :
    settled (steps ++ [.apply]) = deliveries steps := by
  rw [settled, List.rdropWhile_concat_neg _ _ _ (by simp), deliveries_snoc]
  exact List.append_nil _

theorem settled_subset (steps : List GossipStep) : settled steps ⊆ deliveries steps := by
  intro entry entryMem
  rcases List.mem_flatMap.mp entryMem with ⟨step, stepMem, delivered⟩
  exact List.mem_flatMap.mpr ⟨step, (List.rdropWhile_prefix _ _).subset stepMem, delivered⟩

/-- Every epoch has one mutation, the one `mutationAt` has. -/
def Numbered (mutationAt : ℕ → Option RingMutation) (received : List (ℕ × RingMutation)) : Prop :=
  ∀ entry ∈ received, mutationAt entry.1 = some entry.2

theorem Numbered.lookup_iff {mutationAt : ℕ → Option RingMutation}
    {received : List (ℕ × RingMutation)} (numbered : Numbered mutationAt received) {epoch : ℕ}
    {mutation : RingMutation} :
    received.lookup epoch = some mutation ↔ (epoch, mutation) ∈ received := by
  induction received with
  | nil => simp
  | cons entry received ih =>
      have rest : Numbered mutationAt received :=
        fun other otherMem => numbered other (List.mem_cons_of_mem _ otherMem)
      rcases entry with ⟨first, firstMutation⟩
      rw [List.lookup_cons, List.mem_cons]
      by_cases same : epoch = first
      · subst same
        rw [beq_self_eq_true]
        constructor
        · intro found
          cases found
          exact Or.inl rfl
        · rintro (here | later)
          · cases here
            rfl
          · have first := numbered _ List.mem_cons_self
            have again := numbered _ (List.mem_cons_of_mem _ later)
            rw [again] at first
            exact first.symm
      · rw [beq_false_of_ne same, ih rest]
        constructor
        · exact Or.inr
        · rintro (here | later)
          · exact absurd (congrArg Prod.fst here) same
          · exact later

namespace GossipNode

/-- Nothing is buffered or applied yet. -/
structure Fresh (node : GossipNode) : Prop where
  pending : node.gossip.mutationLog.pending = ∅
  applied : node.applied = []

/-- Where a node is after some steps: it has applied the gapless run of what was received at the
last apply, and buffers what was received beyond. -/
structure Follows (start : GossipNode) (steps : List GossipStep) (node : GossipNode) : Prop where
  table : node.gossip.memberTable = start.gossip.memberTable
  epochs : node.gossip.mutationLog.appliedEpoch =
    start.gossip.mutationLog.appliedEpoch + node.applied.length
  run : Gapless.IsRun (fun epoch => (settled steps).lookup epoch)
    start.gossip.mutationLog.appliedEpoch node.applied
  pending : ∀ epoch mutation, node.gossip.mutationLog.appliedEpoch < epoch →
    (node.gossip.mutationLog.pending.lookup epoch = some mutation ↔
      (epoch, mutation) ∈ deliveries steps)
  rings : node.rings = node.applied.foldl (Rings.applyMutation start.gossip.memberTable) start.rings

variable {start node : GossipNode} {steps : List GossipStep}
  {mutationAt : ℕ → Option RingMutation}

theorem Fresh.follows (fresh : start.Fresh) : start.Follows [] start where
  table := rfl
  epochs := by rw [fresh.applied, List.length_nil, Nat.add_zero]
  run := by
    rw [fresh.applied]
    exact ⟨.nil, rfl⟩
  pending := by
    intro epoch mutation _
    rw [fresh.pending]
    simp [deliveries]
  rings := by rw [fresh.applied, List.foldl_nil]

/-- Recording mutations buffers those beyond the applied ones. -/
theorem mergeIncoming_spec {gossip : GossipState} {mutations received : List (ℕ × RingMutation)}
    (numbered : Numbered mutationAt (received ++ mutations))
    (pending : ∀ epoch mutation, gossip.mutationLog.appliedEpoch < epoch →
      (gossip.mutationLog.pending.lookup epoch = some mutation ↔ (epoch, mutation) ∈ received)) :
    (gossip.mergeIncoming mutations).memberTable = gossip.memberTable ∧
      (gossip.mergeIncoming mutations).mutationLog.appliedEpoch =
        gossip.mutationLog.appliedEpoch ∧
      ∀ epoch mutation, gossip.mutationLog.appliedEpoch < epoch →
        ((gossip.mergeIncoming mutations).mutationLog.pending.lookup epoch = some mutation ↔
          (epoch, mutation) ∈ received ++ mutations) := by
  induction mutations generalizing gossip received with
  | nil =>
      refine ⟨rfl, rfl, ?_⟩
      rw [List.append_nil]
      exact pending
  | cons entry mutations ih =>
      rcases entry with ⟨newEpoch, newMutation⟩
      rw [List.append_cons] at numbered ⊢
      have appliedEpoch : (gossip.recordMutation newEpoch newMutation).mutationLog.appliedEpoch =
          gossip.mutationLog.appliedEpoch := MutationLog.appliedEpoch_record newEpoch newMutation
      have buffered : ∀ epoch mutation, gossip.mutationLog.appliedEpoch < epoch →
          ((gossip.recordMutation newEpoch newMutation).mutationLog.pending.lookup epoch =
            some mutation ↔ (epoch, mutation) ∈ received ++ [(newEpoch, newMutation)]) := by
        intro epoch mutation beyond
        change (gossip.mutationLog.record newEpoch newMutation).pending.lookup epoch = _ ↔ _
        rw [MutationLog.lookup_record, List.mem_append, List.mem_singleton]
        by_cases same : epoch = newEpoch
        · subst same
          rw [if_pos ⟨rfl, beyond⟩]
          constructor
          · intro found
            cases found
            exact Or.inr rfl
          · rintro (before | here)
            · have first := numbered (epoch, mutation) (by simp [before])
              have second := numbered (epoch, newMutation) (by simp)
              rw [first] at second
              exact second.symm
            · cases here
              rfl
        · rw [if_neg (fun both => same both.1), pending epoch mutation beyond]
          constructor
          · exact Or.inl
          · rintro (before | here)
            · exact before
            · exact absurd (congrArg Prod.fst here) same
      rw [← appliedEpoch] at buffered
      have recorded := ih numbered buffered
      rw [appliedEpoch] at recorded
      exact recorded

theorem Follows.merge (follows : start.Follows steps node) {mutations : List (ℕ × RingMutation)}
    (numbered : Numbered mutationAt (deliveries (steps ++ [.merge mutations]))) :
    start.Follows (steps ++ [.merge mutations]) (node.step (.merge mutations)) := by
  have merged : deliveries (steps ++ [.merge mutations]) = deliveries steps ++ mutations :=
    deliveries_snoc steps (.merge mutations)
  rw [merged] at numbered
  rcases mergeIncoming_spec numbered follows.pending with ⟨table, appliedEpoch, pending⟩
  constructor
  · exact table.trans follows.table
  · exact appliedEpoch.trans follows.epochs
  · rw [settled_snoc_merge]
    exact follows.run
  · intro epoch mutation beyond
    rw [merged]
    exact pending epoch mutation (appliedEpoch ▸ beyond)
  · exact follows.rings

theorem mutationLog_apply (node : GossipNode) :
    (node.step .apply).gossip.mutationLog = node.gossip.mutationLog.drainApplicable.2 := rfl

theorem applied_apply (node : GossipNode) :
    (node.step .apply).applied =
      node.applied ++ node.gossip.mutationLog.drainApplicable.1 := rfl

theorem rings_apply (node : GossipNode) :
    (node.step .apply).rings = node.gossip.mutationLog.drainApplicable.1.foldl
      (Rings.applyMutation node.gossip.memberTable) node.rings := rfl

theorem Follows.apply (follows : start.Follows steps node)
    (numbered : Numbered mutationAt (deliveries steps)) :
    start.Follows (steps ++ [.apply]) (node.step .apply) := by
  have earlier : Numbered mutationAt (settled steps) :=
    fun entry entryMem => numbered entry (settled_subset steps entryMem)
  rcases node.gossip.mutationLog.drainApplicable_spec with ⟨run, epochs, kept⟩
  constructor
  · exact follows.table
  · rw [mutationLog_apply, applied_apply, epochs, follows.epochs, List.length_append,
      Nat.add_assoc]
  · rw [settled_snoc_apply, applied_apply]
    have segment : Gapless.Segment (fun epoch => (deliveries steps).lookup epoch)
        start.gossip.mutationLog.appliedEpoch node.applied := by
      apply follows.run.segment.mono
      intro epoch mutation found
      rw [earlier.lookup_iff] at found
      rw [numbered.lookup_iff]
      exact settled_subset steps found
    apply Gapless.IsRun.append segment
    rw [← follows.epochs]
    apply run.congr
    intro epoch beyond
    ext mutation
    rw [follows.pending epoch mutation beyond, numbered.lookup_iff]
  · intro epoch mutation beyond
    rw [mutationLog_apply] at beyond ⊢
    have reached : node.gossip.mutationLog.appliedEpoch < epoch := by
      rw [epochs] at beyond
      omega
    rw [kept epoch beyond, follows.pending epoch mutation reached, deliveries_snoc]
    exact (List.append_nil (deliveries steps)).symm ▸ Iff.rfl
  · rw [rings_apply, applied_apply, List.foldl_append, ← follows.rings, ← follows.table]

theorem run_snoc (node : GossipNode) (steps : List GossipStep) (step : GossipStep) :
    node.run (steps ++ [step]) = (node.run steps).step step := by
  simp only [run, List.foldl_append, List.foldl_cons, List.foldl_nil]

theorem Fresh.run_follows (fresh : start.Fresh) (numbered : Numbered mutationAt (deliveries steps)) :
    start.Follows steps (start.run steps) := by
  induction steps using List.reverseRecOn with
  | nil => exact fresh.follows
  | append_singleton steps step ih =>
      have before : Numbered mutationAt (deliveries steps) := by
        intro entry entryMem
        apply numbered
        rw [deliveries_snoc]
        exact List.mem_append_left _ entryMem
      rw [run_snoc]
      cases step with
      | merge mutations => exact (ih before).merge numbered
      | apply => exact (ih before).apply before

end GossipNode

/-- What a sequence of mutations makes of the compute ring depends on the roles alone. -/
theorem Rings.computeRing_foldl {firstTable secondTable : NodeId → Option MemberUpdate}
    (sameRoles : ∀ node, GossipState.role secondTable node = GossipState.role firstTable node)
    (mutations : List RingMutation) {first second : Rings}
    (sameRing : second.computeRing = first.computeRing) :
    (mutations.foldl (Rings.applyMutation secondTable) second).computeRing =
      (mutations.foldl (Rings.applyMutation firstTable) first).computeRing := by
  induction mutations generalizing first second with
  | nil => exact sameRing
  | cons mutation mutations ih =>
      apply ih
      unfold Rings.applyMutation
      rw [sameRoles]
      cases GossipState.role firstTable mutation.nodeId <;> cases mutation <;> simp [sameRing]

namespace GossipNode

/-- Two nodes that start alike have each applied the gapless run of the mutations received, in the
order of the epochs.  If they received the same they have the same compute ring, slot by slot, and
otherwise one has applied a prefix of what the other has. -/
theorem rings_converge {first second : GossipNode} (firstFresh : first.Fresh)
    (secondFresh : second.Fresh)
    (sameRing : second.rings.computeRing = first.rings.computeRing)
    (sameEpoch : second.gossip.mutationLog.appliedEpoch = first.gossip.mutationLog.appliedEpoch)
    (sameRoles : ∀ node, GossipState.role second.gossip.memberTable node =
      GossipState.role first.gossip.memberTable node)
    (mutationAt : ℕ → Option RingMutation) {firstSteps secondSteps : List GossipStep}
    (firstNumbered : Numbered mutationAt (deliveries firstSteps))
    (secondNumbered : Numbered mutationAt (deliveries secondSteps)) :
    Gapless.IsRun (fun epoch => (settled firstSteps).lookup epoch)
        first.gossip.mutationLog.appliedEpoch (first.run firstSteps).applied ∧
      (first.run firstSteps).rings = (first.run firstSteps).applied.foldl
        (Rings.applyMutation first.gossip.memberTable) first.rings ∧
      ((∀ entry, entry ∈ settled firstSteps ↔ entry ∈ settled secondSteps) →
        (second.run secondSteps).applied = (first.run firstSteps).applied ∧
        (second.run secondSteps).rings.computeRing = (first.run firstSteps).rings.computeRing) ∧
      ((first.run firstSteps).applied <+: (second.run secondSteps).applied ∨
        (second.run secondSteps).applied <+: (first.run firstSteps).applied) := by
  have firstFollows := firstFresh.run_follows firstNumbered
  have secondFollows := secondFresh.run_follows secondNumbered
  have firstSettled : Numbered mutationAt (settled firstSteps) :=
    fun entry entryMem => firstNumbered entry (settled_subset firstSteps entryMem)
  have secondSettled : Numbered mutationAt (settled secondSteps) :=
    fun entry entryMem => secondNumbered entry (settled_subset secondSteps entryMem)
  have secondRun := secondFollows.run
  rw [sameEpoch] at secondRun
  refine ⟨firstFollows.run, firstFollows.rings, ?_, ?_⟩
  · intro same
    have applied : (second.run secondSteps).applied = (first.run firstSteps).applied := by
      apply secondRun.unique
      apply firstFollows.run.congr
      intro epoch _
      ext mutation
      rw [firstSettled.lookup_iff, secondSettled.lookup_iff, same]
    refine ⟨applied, ?_⟩
    rw [firstFollows.rings, secondFollows.rings, applied]
    exact Rings.computeRing_foldl sameRoles _ sameRing
  · have firstSegment : Gapless.Segment mutationAt first.gossip.mutationLog.appliedEpoch
        (first.run firstSteps).applied :=
      firstFollows.run.segment.mono fun _ _ found =>
        firstSettled _ (firstSettled.lookup_iff.mp found)
    have secondSegment : Gapless.Segment mutationAt first.gossip.mutationLog.appliedEpoch
        (second.run secondSteps).applied :=
      secondRun.segment.mono fun _ _ found => secondSettled _ (secondSettled.lookup_iff.mp found)
    rcases Nat.le_total (first.run firstSteps).applied.length
      (second.run secondSteps).applied.length with shorter | longer
    · exact Or.inl (firstSegment.isPrefix secondSegment shorter)
    · exact Or.inr (secondSegment.isPrefix firstSegment longer)

/-- A node of a compute ring of one, before any mutation. -/
def alone : GossipNode where
  gossip := ⟨fun _ => none, ⟨0, ∅⟩, []⟩
  rings := ⟨Ring.fromMembers [(1, 1)], ClusterState.fromConfig []⟩
  applied := []

/-- The mutations arrive in order at one node, and the other way round and twice at another. -/
theorem rings_converge_reordered :
    (alone.run [.merge [(2, .leave 1)], .apply, .merge [(1, .join 2 2), (2, .leave 1)],
        .apply]).rings.computeRing =
      (alone.run [.merge [(1, .join 2 2), (2, .leave 1)], .apply]).rings.computeRing ∧
    (alone.run [.merge [(1, .join 2 2), (2, .leave 1)], .apply]).rings.computeRing =
      ⟨[(2, 1), (2, 0)]⟩ := by
  refine ⟨((rings_converge ⟨rfl, rfl⟩ ⟨rfl, rfl⟩ rfl rfl (fun _ => rfl)
    (fun epoch => if epoch = 1 then some (.join 2 2) else if epoch = 2 then some (.leave 1)
      else none) (by unfold Numbered; decide) (by unfold Numbered; decide)).2.2.1 ?_).2, by decide⟩
  have first : settled [.merge [(1, .join 2 2), (2, .leave 1)], .apply] =
      [(1, .join 2 2), (2, .leave 1)] := by decide
  have second : settled [.merge [(2, .leave 1)], .apply, .merge [(1, .join 2 2), (2, .leave 1)],
      .apply] = [(2, .leave 1), (1, .join 2 2), (2, .leave 1)] := by decide
  rw [first, second]
  intro entry
  simp only [List.mem_cons, List.not_mem_nil, or_false]
  grind

end GossipNode

end Seisin
