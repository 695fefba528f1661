import Seisin.Lib.Transition
import Seisin.Storage.RemoteStore
import Mathlib

/-!
# When a worker halts the cluster

Every access a worker makes to a datum goes through its cache to the networked store and carries a
replication factor: op reads and commits the one the op names, existence checks, the cold opening of
an index and the write-through of an index the factor 1 of the cache's plain operations.  The store
looks for the datum only at the replicas of that factor; when none of them answers, it engages the
halt and the worker fails.  So an access halts without a total loss exactly if it looks at fewer
replicas than the datum was written to and those it does not look at include one that serves.

`factor` is the replication factor of each datum's last acknowledged write; `halts` records, for
every time the halt was engaged, the replicas at that factor that served the datum at that moment.
-/

namespace Seisin

open Transition

variable {Compute Log Value Patch : Type}

/-- What a worker does to a datum. -/
inductive Access (Value : Type) where
  | opRead (n : ℕ)
  | opCommit (content : Option Value) (n : ℕ)
  | existsCheck
  | openIndex
  | writeThrough (content : Option Value)

/-- The halt, engaged by an access to `id`, with the replicas that served it all the same. -/
structure Halt where
  id : DatumId
  survivors : List NodeId

/-- Compute nodes with their views, the caches of their worker threads, and the storage tier. -/
structure Fleet (Compute Log Value : Type) where
  views : Compute → ClusterState
  caches : Compute → ThreadId → DatumId → Option Value
  failed : Compute → ThreadId → Bool
  logs : NodeId → Log
  factor : DatumId → ℕ
  halts : List Halt

/-- What happens next: a worker accesses a datum or evicts its copy, gossip or an admin changes the
view of a compute node, or the storage nodes change among themselves. -/
inductive FleetLabel (Compute Log Value : Type) where
  | access (compute : Compute) (thread : ThreadId) (id : DatumId) (access : Access Value)
      (fates : NodeId → ℕ → Fate)
  | invalidate (compute : Compute) (thread : ThreadId) (id : DatumId)
  | join (compute : Compute) (node : NodeId) (storeAddress : String) (logId : DatumId)
  | leave (compute : Compute) (node : NodeId)
  | markStale (compute : Compute) (node : NodeId)
  | installStorageRing (compute : Compute) (members : List StorageMember)
  | clearHalt (compute : Compute)
  | restart (compute : Compute) (members : List StorageMember)
  | storage (logs : NodeId → Log)

namespace Fleet

variable [DecidableEq Compute]

def setView (fleet : Fleet Compute Log Value) (compute : Compute) (view : ClusterState) :
    Fleet Compute Log Value :=
  { fleet with views := Function.update fleet.views compute view }

def setCache (fleet : Fleet Compute Log Value) (compute : Compute) (thread : ThreadId)
    (id : DatumId) (copy : Option Value) : Fleet Compute Log Value :=
  { fleet with
    caches := Function.update fleet.caches compute (Function.update (fleet.caches compute) thread
      (Function.update (fleet.caches compute thread) id copy)) }

variable (hash : ℕ → ℕ → ℕ) (tier : Tier Log Value Patch)

/-- The replicas of a datum at the factor it was written with that serve it: in the ring, alive, not
stale, and answering. -/
def survivors (fleet : Fleet Compute Log Value) (compute : Compute) (id : DatumId)
    (answers : NodeId → Bool) : List NodeId :=
  ((fleet.views compute).servingReplicas hash id (fleet.factor id)).filter answers

/-- The worker has halted the cluster and is gone. -/
def failStop (fleet : Fleet Compute Log Value) (compute : Compute) (thread : ThreadId)
    (id : DatumId) (answers : NodeId → Bool) : Fleet Compute Log Value :=
  { fleet with
    failed := Function.update fleet.failed compute
      (Function.update (fleet.failed compute) thread true)
    halts := ⟨id, fleet.survivors hash compute id answers⟩ :: fleet.halts }

/-- The node answers a read of the datum. -/
def answersRead (fleet : Fleet Compute Log Value) (compute : Compute) (id : DatumId)
    (fates : NodeId → ℕ → Fate) (node : NodeId) : Bool :=
  match (tier.tryCall ((fleet.views compute).addressed node) (fates node 0) (fates node 1)
    (.get id) (fleet.logs node)).2 with
  | some (.value _) => true
  | _ => false

/-- The node acknowledges a write of the datum. -/
def answersPut (fleet : Fleet Compute Log Value) (compute : Compute) (thread : ThreadId)
    (id : DatumId) (content : Value) (n : ℕ) (fates : NodeId → ℕ → Fate) (node : NodeId) : Bool :=
  (tier.writeOne ((fleet.views compute).addressed node) (fates node) id content
    ((fleet.caches compute thread id).bind fun old => tier.worthwhile old content) n
    (fleet.logs node)).2

/-- The node acknowledges a deletion of the datum. -/
def answersDelete (fleet : Fleet Compute Log Value) (compute : Compute) (id : DatumId)
    (fates : NodeId → ℕ → Fate) (node : NodeId) : Bool :=
  (tier.deleteOne ((fleet.views compute).addressed node) (fates node) id (fleet.logs node)).2

/-! ## The cache over the networked store -/

def getReplicated (fleet : Fleet Compute Log Value) (compute : Compute) (thread : ThreadId)
    (id : DatumId) (n : ℕ) (fates : NodeId → ℕ → Fate) : Fleet Compute Log Value :=
  match fleet.caches compute thread id with
  | some _ => fleet
  | none =>
      match (fleet.views compute).getReplicated hash tier fleet.logs fates id n with
      | (.found (some loaded), view) =>
          (fleet.setView compute view).setCache compute thread id (some loaded)
      | (.found none, view) => fleet.setView compute view
      | (.lost, view) =>
          (fleet.failStop hash compute thread id (fleet.answersRead tier compute id fates)).setView
            compute view

def putReplicated (fleet : Fleet Compute Log Value) (compute : Compute) (thread : ThreadId)
    (id : DatumId) (content : Value) (n : ℕ) (fates : NodeId → ℕ → Fate) :
    Fleet Compute Log Value :=
  let round := (fleet.views compute).writeAll hash tier fleet.logs fates id content
    (fleet.caches compute thread id) n
  if round.acked = [] then
    { (fleet.failStop hash compute thread id
        (fleet.answersPut tier compute thread id content n fates)).setView compute round.state with
      logs := round.logs }
  else
    { (fleet.setView compute round.state).setCache compute thread id (some content) with
      logs := round.logs
      factor := Function.update fleet.factor id n }

def deleteReplicated (fleet : Fleet Compute Log Value) (compute : Compute) (thread : ThreadId)
    (id : DatumId) (n : ℕ) (fates : NodeId → ℕ → Fate) : Fleet Compute Log Value :=
  let round := (fleet.views compute).deleteReplicated hash tier fleet.logs fates id n
  if round.acked = [] then
    { (fleet.failStop hash compute thread id
        (fleet.answersDelete tier compute id fates)).setView compute round.state with
      logs := round.logs }
  else
    { (fleet.setView compute round.state).setCache compute thread id none with
      logs := round.logs
      factor := Function.update fleet.factor id n }

def get (fleet : Fleet Compute Log Value) (compute : Compute) (thread : ThreadId) (id : DatumId)
    (fates : NodeId → ℕ → Fate) : Fleet Compute Log Value :=
  fleet.getReplicated hash tier compute thread id 1 fates

/-- Writes content at a factor, or deletes it. -/
def store (fleet : Fleet Compute Log Value) (compute : Compute) (thread : ThreadId) (id : DatumId)
    (content : Option Value) (n : ℕ) (fates : NodeId → ℕ → Fate) : Fleet Compute Log Value :=
  match content with
  | some bytes => fleet.putReplicated hash tier compute thread id bytes n fates
  | none => fleet.deleteReplicated hash tier compute thread id n fates

/-- The cache operation behind each access of a worker. -/
def perform (fleet : Fleet Compute Log Value) (compute : Compute) (thread : ThreadId)
    (id : DatumId) (fates : NodeId → ℕ → Fate) : Access Value → Fleet Compute Log Value
  | .opRead n => fleet.getReplicated hash tier compute thread id n fates
  | .opCommit content n => fleet.store hash tier compute thread id content n fates
  | .existsCheck => fleet.get hash tier compute thread id fates
  | .openIndex => fleet.get hash tier compute thread id fates
  | .writeThrough content => fleet.store hash tier compute thread id content 1 fates

def step (fleet : Fleet Compute Log Value) :
    FleetLabel Compute Log Value → Option (Fleet Compute Log Value)
  | .access compute thread id access fates =>
      if fleet.failed compute thread then none
      else some (fleet.perform hash tier compute thread id fates access)
  | .invalidate compute thread id => some (fleet.setCache compute thread id none)
  | .join compute node storeAddress logId =>
      some (fleet.setView compute ((fleet.views compute).applyJoin node storeAddress logId))
  | .leave compute node => some (fleet.setView compute ((fleet.views compute).applyLeave node))
  | .markStale compute node =>
      some (fleet.setView compute ((fleet.views compute).markStale node))
  | .installStorageRing compute members =>
      some (fleet.setView compute ((fleet.views compute).installStorageRing members))
  | .clearHalt compute => some (fleet.setView compute (fleet.views compute).clearHalt)
  | .restart compute members =>
      some { fleet.setView compute (.fromConfig members) with
        caches := Function.update fleet.caches compute fun _ _ => none
        failed := Function.update fleet.failed compute fun _ => false }
  | .storage logs => some { fleet with logs := logs }

/-- Compute nodes started from one configuration over storage nodes that hold nothing yet. -/
def start (members : List StorageMember) (empty : Log) : Fleet Compute Log Value where
  views := fun _ => .fromConfig members
  caches := fun _ _ _ => none
  failed := fun _ _ => false
  logs := fun _ => empty
  factor := fun _ => 1
  halts := []

def system : System (Fleet Compute Log Value) (FleetLabel Compute Log Value) where
  init := fun fleet => ∃ members empty, fleet = start members empty
  step := step hash tier

end Fleet

/-! ## When an access engages the halt -/

/-- The replication factor an access passes to the store. -/
def Access.n : Access Value → ℕ
  | .opRead n => n
  | .opCommit _ n => n
  | .existsCheck | .openIndex | .writeThrough _ => 1

/-- Reads are served from the cache when it has a copy. -/
def Access.Reads : Access Value → Prop
  | .opRead _ | .existsCheck | .openIndex => True
  | .opCommit _ _ | .writeThrough _ => False

namespace ClusterState

/-- A read is lost exactly if no target answers it. -/
theorem readEach_lost_iff (tier : Tier Log Value Patch) (logs : NodeId → Log)
    (fates : NodeId → ℕ → Fate) (id : DatumId) (targets : List NodeId) (reachedAny : Bool)
    (state : ClusterState) :
    (readEach tier logs fates id targets reachedAny state).1 = .lost ↔
      reachedAny = false ∧ ∀ node ∈ targets, ∀ bytes,
        (tier.tryCall (state.addressed node) (fates node 0) (fates node 1) (.get id)
          (logs node)).2 ≠ some (.value bytes) := by
  induction targets generalizing reachedAny state with
  | nil => cases reachedAny <;> simp [readEach]
  | cons node nodes ih =>
      unfold readEach
      split
      · rename_i value answered
        simp only [reduceCtorEq, List.mem_cons, forall_eq_or_imp, false_iff, not_and, not_forall]
        intro _ silent
        exact absurd answered (silent _)
      · rename_i answered
        rw [ih]
        simp only [Bool.true_eq_false, false_and, List.mem_cons, forall_eq_or_imp, false_iff,
          not_and]
        intro _ silent
        exact absurd answered (silent _)
      · rename_i notFound notAbsent
        have silent : ∀ bytes, (tier.tryCall (state.addressed node) (fates node 0) (fates node 1)
            (.get id) (logs node)).2 ≠ some (.value bytes) := by
          intro bytes answered
          cases bytes with
          | none => exact notAbsent answered
          | some value => exact notFound value answered
        rw [ih]
        simp only [List.mem_cons, forall_eq_or_imp]
        exact ⟨fun lost => ⟨lost.1, silent, lost.2⟩, fun lost => ⟨lost.1, lost.2.2⟩⟩

end ClusterState

namespace Fleet

theorem answersRead_eq_false {tier : Tier Log Value Patch} {fleet : Fleet Compute Log Value}
    {compute : Compute} {id : DatumId} {fates : NodeId → ℕ → Fate} {node : NodeId} :
    fleet.answersRead tier compute id fates node = false ↔ ∀ bytes,
      (tier.tryCall ((fleet.views compute).addressed node) (fates node 0) (fates node 1) (.get id)
        (fleet.logs node)).2 ≠ some (.value bytes) := by
  unfold answersRead
  split
  · rename_i bytes answered
    simp [answered]
  · rename_i silent
    simp only [true_iff]
    exact silent

/-- A round of calls is unanswered exactly if nobody acknowledges. -/
theorem acked_orHalt_eq_nil {call : NodeId → Log → Log × Bool} {logs : NodeId → Log}
    {state : ClusterState} {targets : List NodeId} (nodup : targets.Nodup) :
    (ClusterState.orHalt (callEach call targets logs state)).acked = [] ↔
      ∀ node ∈ targets, (call node (logs node)).2 = false := by
  have same : (ClusterState.orHalt (callEach call targets logs state)).acked =
      (callEach call targets logs state).acked := by
    unfold ClusterState.orHalt
    split
    · rfl
    · rfl
  rw [same, callEach_acked nodup]
  simp [List.filter_eq_nil_iff]

theorem exists_answers {targets : List NodeId} {answers : NodeId → Bool}
    (some_ : ¬∀ node ∈ targets, answers node = false) : ∃ node ∈ targets, answers node = true := by
  by_contra silent
  apply some_
  intro node nodeMem
  by_contra answered
  exact silent ⟨node, nodeMem, by simpa using answered⟩

variable (hash : ℕ → ℕ → ℕ) (tier : Tier Log Value Patch)

/-- The node answers the access. -/
def answers (fleet : Fleet Compute Log Value) (compute : Compute) (thread : ThreadId)
    (id : DatumId) (fates : NodeId → ℕ → Fate) : Access Value → NodeId → Bool
  | .opRead _ | .existsCheck | .openIndex => fleet.answersRead tier compute id fates
  | .opCommit (some content) n => fleet.answersPut tier compute thread id content n fates
  | .writeThrough (some content) => fleet.answersPut tier compute thread id content 1 fates
  | .opCommit none _ | .writeThrough none => fleet.answersDelete tier compute id fates

/-- The access is a read of a datum the worker has a copy of. -/
def Hits (fleet : Fleet Compute Log Value) (compute : Compute) (thread : ThreadId) (id : DatumId)
    (access : Access Value) : Prop :=
  access.Reads ∧ fleet.caches compute thread id ≠ none

/-- Every replica the datum was written to that serves it and can answer is one the access looks
at, unless the access is served from the cache. -/
def Meets (fleet : Fleet Compute Log Value) (compute : Compute) (thread : ThreadId)
    (id : DatumId) (access : Access Value) : Prop :=
  fleet.Hits compute thread id access ∨
    ∀ node ∈ (fleet.views compute).servingReplicas hash id (fleet.factor id),
      (∃ fates, fleet.answers tier compute thread id fates access node = true) →
        node ∈ (fleet.views compute).storageRing.replicas hash id access.n

variable {hash} {tier} {fleet : Fleet Compute Log Value} {compute : Compute} {thread : ThreadId}
  {id : DatumId} {fates : NodeId → ℕ → Fate}

/-- An access engages the halt if it reaches the store and no replica at its factor answers. -/
inductive Engagement (hash : ℕ → ℕ → ℕ) (fleet : Fleet Compute Log Value) (compute : Compute)
    (id : DatumId) (answers : NodeId → Bool) (n : ℕ) (reaches : Prop)
    (next : Fleet Compute Log Value) : Prop where
  | engaged (reached : reaches)
      (unanswered : ∀ node ∈ (fleet.views compute).servingReplicas hash id n, answers node = false)
      (recorded : next.halts = ⟨id, fleet.survivors hash compute id answers⟩ :: fleet.halts)
  | spared (answered : reaches → ∃ node ∈ (fleet.views compute).servingReplicas hash id n,
      answers node = true) (same : next.halts = fleet.halts)

theorem Engagement.congr {answers : NodeId → Bool} {n : ℕ} {reaches other : Prop}
    {next : Fleet Compute Log Value}
    (engagement : Engagement hash fleet compute id answers n reaches next)
    (same : reaches ↔ other) : Engagement hash fleet compute id answers n other next := by
  cases engagement with
  | engaged reached unanswered recorded => exact .engaged (same.mp reached) unanswered recorded
  | spared answered kept => exact .spared (fun reached => answered (same.mpr reached)) kept

/-- An access that meets the condition halts only on a total loss. -/
theorem survivors_eq_nil_of_meets {access : Access Value}
    (meets : fleet.Meets hash tier compute thread id access)
    (missed : ¬fleet.Hits compute thread id access)
    (unanswered : ∀ node ∈ (fleet.views compute).servingReplicas hash id access.n,
      fleet.answers tier compute thread id fates access node = false) :
    fleet.survivors hash compute id (fleet.answers tier compute thread id fates access) = [] := by
  have looks := meets.resolve_left missed
  rw [survivors, List.filter_eq_nil_iff]
  intro node serves answers
  rcases List.mem_filter.mp serves with ⟨_, current⟩
  have target : node ∈ (fleet.views compute).servingReplicas hash id access.n :=
    List.mem_filter.mpr ⟨looks node serves ⟨fates, answers⟩, current⟩
  rw [unanswered node target] at answers
  cases answers

/-- An access at the factor the datum was written with, or a larger one, looks at every replica the
datum was written to. -/
theorem meets_of_factor_le {access : Access Value} (enough : fleet.factor id ≤ access.n) :
    fleet.Meets hash tier compute thread id access := by
  right
  intro node serves _
  exact ((fleet.views compute).storageRing.replicas_prefix hash id enough).subset
    (List.mem_of_mem_filter serves)

/-- Calls that all fail before they reach their node. -/
def unreachable : ℕ → Fate := fun _ => .lostBefore

theorem tryCall_unreachable (addressed : Bool) (request : StoreRequest Value Patch) (log : Log) :
    tier.tryCall addressed .lostBefore .lostBefore request log = (log, none) := by
  unfold Tier.tryCall
  split
  · rfl
  · rfl

/-- A node that no call reaches does not answer. -/
theorem answers_unreachable {access : Access Value} {node : NodeId}
    (lost : fates node = unreachable) :
    fleet.answers tier compute thread id fates access node = false := by
  have read : fleet.answersRead tier compute id fates node = false := by
    unfold answersRead
    rw [lost]
    simp only [unreachable, tryCall_unreachable]
  have put : ∀ content n, fleet.answersPut tier compute thread id content n fates node = false := by
    intro content n
    unfold answersPut Tier.writeOne
    rw [lost]
    simp only [unreachable, tryCall_unreachable]
    split
    · rfl
    · rfl
  have deleted : fleet.answersDelete tier compute id fates node = false := by
    unfold answersDelete Tier.deleteOne
    rw [lost]
    simp only [unreachable, tryCall_unreachable]
  cases access with
  | opRead n => exact read
  | opCommit content n =>
      cases content with
      | some bytes => exact put bytes n
      | none => exact deleted
  | existsCheck => exact read
  | openIndex => exact read
  | writeThrough content =>
      cases content with
      | some bytes => exact put bytes 1
      | none => exact deleted

/-- What a node answers depends only on what becomes of the calls to it. -/
theorem answers_congr {access : Access Value} {node : NodeId} {others : NodeId → ℕ → Fate}
    (same : fates node = others node) :
    fleet.answers tier compute thread id fates access node =
      fleet.answers tier compute thread id others access node := by
  have read : fleet.answersRead tier compute id fates node =
      fleet.answersRead tier compute id others node := by
    unfold answersRead
    rw [same]
  have put : ∀ content n, fleet.answersPut tier compute thread id content n fates node =
      fleet.answersPut tier compute thread id content n others node := by
    intro content n
    unfold answersPut
    rw [same]
  have deleted : fleet.answersDelete tier compute id fates node =
      fleet.answersDelete tier compute id others node := by
    unfold answersDelete
    rw [same]
  cases access with
  | opRead n => exact read
  | opCommit content n =>
      cases content with
      | some bytes => exact put bytes n
      | none => exact deleted
  | existsCheck => exact read
  | openIndex => exact read
  | writeThrough content =>
      cases content with
      | some bytes => exact put bytes 1
      | none => exact deleted

variable [DecidableEq Compute]

theorem getReplicated_engagement (n : ℕ) :
    Engagement hash fleet compute id (fleet.answersRead tier compute id fates) n
      (fleet.caches compute thread id = none)
      (fleet.getReplicated hash tier compute thread id n fates) := by
  unfold getReplicated
  cases cached : fleet.caches compute thread id with
  | some copy => exact .spared (fun missed => by cases missed) rfl
  | none =>
      have lost := ClusterState.readEach_lost_iff tier fleet.logs fates id
        ((fleet.views compute).servingReplicas hash id n) false (fleet.views compute)
      simp only [true_and, ← answersRead_eq_false] at lost
      rcases read : (fleet.views compute).getReplicated hash tier fleet.logs fates id n with
        ⟨outcome, view⟩
      rw [ClusterState.getReplicated] at read
      rw [read] at lost
      have answered : outcome ≠ .lost → ∃ node ∈ (fleet.views compute).servingReplicas hash id n,
          fleet.answersRead tier compute id fates node = true := by
        intro found
        by_contra silent
        apply found
        rw [lost]
        intro node nodeMem
        by_contra answers
        exact silent ⟨node, nodeMem, by simpa using answers⟩
      cases outcome with
      | found value =>
          cases value with
          | some loaded => exact .spared (fun _ => answered (by simp)) rfl
          | none => exact .spared (fun _ => answered (by simp)) rfl
      | lost => exact .engaged rfl (lost.mp rfl) rfl

theorem putReplicated_engagement (content : Value) (n : ℕ) :
    Engagement hash fleet compute id (fleet.answersPut tier compute thread id content n fates) n
      True (fleet.putReplicated hash tier compute thread id content n fates) := by
  have unanswered : ((fleet.views compute).writeAll hash tier fleet.logs fates id content
      (fleet.caches compute thread id) n).acked = [] ↔ _ :=
    acked_orHalt_eq_nil (ClusterState.servingReplicas_nodup hash (fleet.views compute) id n)
  unfold putReplicated
  dsimp only
  split
  · rename_i nobody
    exact .engaged trivial (unanswered.mp nobody) rfl
  · rename_i somebody
    exact .spared (fun _ => exists_answers fun silent => somebody (unanswered.mpr silent)) rfl

theorem deleteReplicated_engagement (n : ℕ) :
    Engagement hash fleet compute id (fleet.answersDelete tier compute id fates) n True
      (fleet.deleteReplicated hash tier compute thread id n fates) := by
  have unanswered : ((fleet.views compute).deleteReplicated hash tier fleet.logs fates id
      n).acked = [] ↔ _ :=
    acked_orHalt_eq_nil (ClusterState.servingReplicas_nodup hash (fleet.views compute) id n)
  unfold deleteReplicated
  dsimp only
  split
  · rename_i nobody
    exact .engaged trivial (unanswered.mp nobody) rfl
  · rename_i somebody
    exact .spared (fun _ => exists_answers fun silent => somebody (unanswered.mpr silent)) rfl

/-- What decides whether an access of a worker engages the halt. -/
theorem perform_engagement (access : Access Value) :
    Engagement hash fleet compute id (fleet.answers tier compute thread id fates access) access.n
      (¬fleet.Hits compute thread id access)
      (fleet.perform hash tier compute thread id fates access) := by
  cases access with
  | opRead n => exact (getReplicated_engagement n).congr (by simp [Hits, Access.Reads])
  | opCommit content n =>
      cases content with
      | some bytes =>
          exact (putReplicated_engagement bytes n).congr (by simp [Hits, Access.Reads])
      | none => exact (deleteReplicated_engagement n).congr (by simp [Hits, Access.Reads])
  | existsCheck => exact (getReplicated_engagement 1).congr (by simp [Hits, Access.Reads])
  | openIndex => exact (getReplicated_engagement 1).congr (by simp [Hits, Access.Reads])
  | writeThrough content =>
      cases content with
      | some bytes =>
          exact (putReplicated_engagement bytes 1).congr (by simp [Hits, Access.Reads])
      | none => exact (deleteReplicated_engagement 1).congr (by simp [Hits, Access.Reads])

/-- Whatever becomes of its calls, the access engages the halt only on a total loss. -/
def HaltsOnLoss (hash : ℕ → ℕ → ℕ) (tier : Tier Log Value Patch)
    (fleet : Fleet Compute Log Value) (compute : Compute) (thread : ThreadId) (id : DatumId)
    (access : Access Value) : Prop :=
  ∀ fates halt, (fleet.perform hash tier compute thread id fates access).halts =
    halt :: fleet.halts → halt.survivors = []

theorem haltsOnLoss_iff {access : Access Value} :
    fleet.HaltsOnLoss hash tier compute thread id access ↔
      fleet.Meets hash tier compute thread id access := by
  constructor
  · intro onLoss
    by_contra misses
    rw [Meets, not_or] at misses
    rcases misses with ⟨missed, unlooked⟩
    simp only [not_forall] at unlooked
    rcases unlooked with ⟨survivor, serves, ⟨reaching, answered⟩, overlooked⟩
    -- Let exactly the calls to the overlooked replica go through.
    let fates : NodeId → ℕ → Fate := fun node =>
      if node = survivor then reaching node else unreachable
    have survives : fleet.answers tier compute thread id fates access survivor = true := by
      rw [← answered]
      exact answers_congr (by simp [fates])
    have engagement : Engagement hash fleet compute id
        (fleet.answers tier compute thread id fates access) access.n _ _ :=
      perform_engagement access
    cases engagement with
    | engaged reached unanswered recorded =>
        have none_ := onLoss fates _ recorded
        rw [survivors, List.filter_eq_nil_iff] at none_
        exact none_ survivor serves survives
    | spared answers kept =>
        rcases answers missed with ⟨node, target, nodeAnswers⟩
        have other : node ≠ survivor := by
          rintro rfl
          exact overlooked (List.mem_of_mem_filter target)
        rw [answers_unreachable (by simp [fates, other])] at nodeAnswers
        cases nodeAnswers
  · intro meets fates halt recorded
    have engagement : Engagement hash fleet compute id
        (fleet.answers tier compute thread id fates access) access.n _ _ :=
      perform_engagement access
    cases engagement with
    | engaged missed unanswered exact_ =>
        rw [exact_] at recorded
        rw [← (List.cons.inj recorded).1]
        exact survivors_eq_nil_of_meets meets missed unanswered
    | spared answers kept =>
        rw [kept] at recorded
        exact absurd recorded (List.cons_ne_self _ _).symm

/-! ## Whole runs -/

/-- Every halt there was came with a total loss. -/
def OnlyLosses (fleet : Fleet Compute Log Value) : Prop :=
  ∀ halt ∈ fleet.halts, halt.survivors = []

/-- The condition on the accesses of a run. -/
def AccessesMeet (hash : ℕ → ℕ → ℕ) (tier : Tier Log Value Patch)
    (fleet : Fleet Compute Log Value) : FleetLabel Compute Log Value → Prop
  | .access compute thread id access _ => fleet.Meets hash tier compute thread id access
  | _ => True

/-- Only accesses engage the halt. -/
theorem step_halts {next : Fleet Compute Log Value} {label : FleetLabel Compute Log Value}
    (stepped : fleet.step hash tier label = some next) :
    next.halts = fleet.halts ∨ ∃ compute thread id access fates,
      label = .access compute thread id access fates ∧
        next = fleet.perform hash tier compute thread id fates access := by
  cases label with
  | access compute thread id access fates =>
      simp only [step, Option.ite_none_left_eq_some, Option.some.injEq] at stepped
      exact Or.inr ⟨compute, thread, id, access, fates, rfl, stepped.2.symm⟩
  | invalidate compute thread id =>
      cases stepped
      exact Or.inl rfl
  | join compute node storeAddress logId =>
      cases stepped
      exact Or.inl rfl
  | leave compute node =>
      cases stepped
      exact Or.inl rfl
  | markStale compute node =>
      cases stepped
      exact Or.inl rfl
  | installStorageRing compute members =>
      cases stepped
      exact Or.inl rfl
  | clearHalt compute =>
      cases stepped
      exact Or.inl rfl
  | restart compute members =>
      cases stepped
      exact Or.inl rfl
  | storage logs =>
      cases stepped
      exact Or.inl rfl

/-- A step whose access meets the condition records a halt only on a total loss. -/
theorem step_survivors {next : Fleet Compute Log Value} {label : FleetLabel Compute Log Value}
    (meets : fleet.AccessesMeet hash tier label)
    (stepped : fleet.step hash tier label = some next)
    (onlyLosses : fleet.OnlyLosses) : next.OnlyLosses := by
  rcases step_halts stepped with same | ⟨compute, thread, id, access, fates, rfl, rfl⟩
  · rw [OnlyLosses, same]
    exact onlyLosses
  · have engagement : Engagement hash fleet compute id
        (fleet.answers tier compute thread id fates access) access.n _ _ :=
      perform_engagement access
    cases engagement with
    | engaged missed unanswered recorded =>
        rw [OnlyLosses, recorded, List.forall_mem_cons]
        exact ⟨survivors_eq_nil_of_meets meets missed unanswered, onlyLosses⟩
    | spared answers kept =>
        rw [OnlyLosses, kept]
        exact onlyLosses

variable (Compute) in
/-- An access halts the cluster only on a total loss exactly if it is served from the cache or looks
at every replica at the factor the datum was written with that can answer; so a run of such accesses
halts only on total losses. -/
theorem halts_only_on_total_loss_iff (hash : ℕ → ℕ → ℕ) (tier : Tier Log Value Patch) :
    (∀ (fleet : Fleet Compute Log Value) compute thread id access,
      fleet.HaltsOnLoss hash tier compute thread id access ↔
        fleet.Meets hash tier compute thread id access) ∧
    ∀ fleet : Fleet Compute Log Value,
      (system hash tier).ReachableVia (AccessesMeet hash tier) fleet → fleet.OnlyLosses := by
  refine ⟨fun _ _ _ _ _ => haltsOnLoss_iff, ?_⟩
  intro fleet reached
  refine reached.induction ?_ ?_
  · rintro _ ⟨members, empty, rfl⟩ halt none_
    cases none_
  · intro state label next onlyLosses meets stepped
    exact step_survivors meets stepped onlyLosses

/-- The accesses of a run look at no fewer replicas than their datums were written to. -/
def looksFarEnough (fleet : Fleet Compute Log Value) : FleetLabel Compute Log Value → Bool
  | .access _ _ id access _ => fleet.factor id ≤ access.n
  | _ => true

omit [DecidableEq Compute] in
theorem accessesMeet_of_looksFarEnough {label : FleetLabel Compute Log Value}
    (enough : fleet.looksFarEnough label = true) : fleet.AccessesMeet hash tier label := by
  cases label with
  | access compute thread id access fates => exact meets_of_factor_le (of_decide_eq_true enough)
  | invalidate | join | leave | markStale | installStorageRing | clearHalt | restart | storage =>
      trivial

/-- A datum written at factor 2 loses both its replicas and is read at that factor. -/
def readAfterTotalLoss : List (FleetLabel Unit Content Bytes) :=
  [.access () 0 5 (.opCommit (some [1]) 2) allServed, .leave () 1, .leave () 2,
    .access () 1 5 (.opRead 2) allServed]

theorem halts_only_on_total_loss_both_down :
    ∃ fleet : Fleet Unit Content Bytes, (system JumpBackHasher.hash contentTier).ReachableVia
      (AccessesMeet JumpBackHasher.hash contentTier) fleet ∧ fleet.halts.length = 1 ∧
        fleet.OnlyLosses := by
  have observed : ((system JumpBackHasher.hash contentTier).execVia looksFarEnough
      (start twoMembers ∅) readAfterTotalLoss).map (fun fleet => fleet.halts.length) = some 1 := by
    decide +kernel
  rcases Option.map_eq_some_iff.mp observed with ⟨fleet, executed, halted⟩
  have reached : (system JumpBackHasher.hash contentTier).ReachableVia
      (AccessesMeet JumpBackHasher.hash contentTier) fleet :=
    System.reachableVia_of_execVia (fun _ _ => accessesMeet_of_looksFarEnough) ⟨twoMembers, ∅, rfl⟩
      executed
  exact ⟨fleet, reached, halted, (halts_only_on_total_loss_iff Unit _ _).2 fleet reached⟩

/-- A datum written at factor 2 loses its primary; another worker checks its existence, which looks
at the primary only. -/
def existsCheckAfterLoss : List (FleetLabel Unit Content Bytes) :=
  [.access () 0 5 (.opCommit (some [1]) 2) allServed, .leave () 1,
    .access () 1 5 .existsCheck allServed]

theorem halts_with_a_survivor :
    ¬∀ fleet : Fleet Unit Content Bytes,
      (system JumpBackHasher.hash contentTier).Reachable fleet → fleet.OnlyLosses := by
  intro onlyLosses
  have observed : ((system JumpBackHasher.hash contentTier).exec
      (start twoMembers ∅) existsCheckAfterLoss).map (fun fleet => fleet.halts.map Halt.survivors) =
        some [[2]] := by
    decide +kernel
  rcases Option.map_eq_some_iff.mp observed with ⟨fleet, executed, survived⟩
  have lost := onlyLosses fleet (System.reachable_of_exec ⟨twoMembers, ∅, rfl⟩ executed)
  rcases List.map_eq_cons_iff.mp survived with ⟨halt, others, recorded, survivor, _⟩
  rw [lost halt (recorded ▸ List.mem_cons_self)] at survivor
  cases survivor

end Fleet

end Seisin
