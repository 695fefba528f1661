import Seisin.Ring
import Seisin.Storage.Server

/-!
# The networked store of a compute node

A compute node resolves a datum's replicas from its storage ring, writes to every one that is alive
and not stale, and reads the first with failover to the next.  A replica that fails a call is marked
stale; when no replica is left, the node halts.  The store address of a node leads to that node.
-/

namespace Seisin

structure StorageMember where
  nodeId : NodeId
  weight : ℕ
  storeAddress : String
  logId : DatumId

/-- Storage nodes 1 and 2. -/
def twoMembers : List StorageMember := [⟨1, 1, "store-1", 11⟩, ⟨2, 1, "store-2", 12⟩]

/-- What a compute node knows of the storage tier. -/
structure ClusterState where
  storageRing : Ring
  storeAddresses : NodeId → Option String
  identityBook : NodeId → Option DatumId
  storageAlive : NodeId → Bool
  storageStale : NodeId → Bool
  halted : Bool

namespace ClusterState

variable (hash : ℕ → ℕ → ℕ)

/-- The replicas of a datum that can serve it right now, in rank order. -/
def servingReplicas (state : ClusterState) (id : DatumId) (n : ℕ) : List NodeId :=
  (state.storageRing.replicas hash id n).filter fun node =>
    state.storageAlive node && !state.storageStale node

def addressed (state : ClusterState) (node : NodeId) : Bool := (state.storeAddresses node).isSome

def markStale (state : ClusterState) (node : NodeId) : ClusterState :=
  { state with storageStale := Function.update state.storageStale node true }

def haltTotalLoss (state : ClusterState) : ClusterState := { state with halted := true }

/-! ## Gossip and the control plane -/

/-- A storage node joined: it is alive, and what the member table knows of it is recorded. -/
def applyJoin (state : ClusterState) (node : NodeId) (storeAddress : String) (logId : DatumId) :
    ClusterState :=
  { state with
    storageAlive := Function.update state.storageAlive node true
    storeAddresses := if storeAddress.isEmpty then state.storeAddresses
      else Function.update state.storeAddresses node (some storeAddress)
    identityBook := if logId = 0 then state.identityBook
      else Function.update state.identityBook node (some logId) }

/-- A storage node was confirmed dead. -/
def applyLeave (state : ClusterState) (node : NodeId) : ClusterState :=
  { state with
    storageAlive := Function.update state.storageAlive node false
    storageStale := Function.update state.storageStale node true }

def clearHalt (state : ClusterState) : ClusterState :=
  { state with
    halted := false
    storageAlive := fun node => node ∈ state.storageRing.nodeIds
    storageStale := fun _ => false }

/-- The ring of a member list. -/
def ringOf (members : List StorageMember) : Ring :=
  Ring.fromMembers (members.map fun member => (member.nodeId, member.weight))

def installStorageRing (state : ClusterState) (members : List StorageMember) : ClusterState :=
  { state with
    storageRing := ringOf members
    storeAddresses := members.foldl
      (fun book member => if member.storeAddress.isEmpty then book
        else Function.update book member.nodeId (some member.storeAddress)) (fun _ => none)
    identityBook := members.foldl
      (fun book member => Function.update book member.nodeId (some member.logId)) (fun _ => none)
    storageStale := members.foldl
      (fun stale member => Function.update stale member.nodeId false) state.storageStale }

/-- The state a compute node starts with: the configured members, all taken to be alive. -/
def fromConfig (members : List StorageMember) : ClusterState where
  storageRing := ringOf members
  storeAddresses := fun node =>
    (members.find? fun member => member.nodeId = node).map StorageMember.storeAddress
  identityBook := fun _ => none
  storageAlive := fun node => members.any fun member => member.nodeId = node
  storageStale := fun _ => false
  halted := false

end ClusterState

/-! ## Writing to every serving replica -/

variable {Log Value Patch : Type}

/-- The logs and the cluster state after a round of calls, with the nodes that acknowledged. -/
structure Round (Log : Type) where
  logs : NodeId → Log
  state : ClusterState
  acked : List NodeId

/-- Calls the targets one after another, marking every one that fails stale. -/
def callEach (call : NodeId → Log → Log × Bool) :
    List NodeId → (NodeId → Log) → ClusterState → Round Log
  | [], logs, state => ⟨logs, state, []⟩
  | node :: nodes, logs, state =>
      match call node (logs node) with
      | (log, true) =>
          let round := callEach call nodes (Function.update logs node log) state
          { round with acked := node :: round.acked }
      | (log, false) =>
          callEach call nodes (Function.update logs node log) (state.markStale node)

namespace ClusterState

variable (hash : ℕ → ℕ → ℕ) (tier : Tier Log Value Patch)

/-- Without a single acknowledgement every replica is gone. -/
def orHalt (round : Round Log) : Round Log :=
  if round.acked = [] then { round with state := round.state.haltTotalLoss } else round

def writeAll (state : ClusterState) (logs : NodeId → Log) (fates : NodeId → ℕ → Fate)
    (id : DatumId) (content : Value) (previous : Option Value) (n : ℕ) : Round Log :=
  orHalt (callEach
    (fun node => tier.writeOne (state.addressed node) (fates node) id content
      (previous.bind fun old => tier.worthwhile old content) n)
    (state.servingReplicas hash id n) logs state)

def deleteReplicated (state : ClusterState) (logs : NodeId → Log) (fates : NodeId → ℕ → Fate)
    (id : DatumId) (n : ℕ) : Round Log :=
  orHalt (callEach
    (fun node => tier.deleteOne (state.addressed node) (fates node) id)
    (state.servingReplicas hash id n) logs state)

/-! ## Reading the first serving replica -/

/-- What a read finds: content or its absence, or no replica to ask. -/
inductive ReadOutcome (Value : Type) where
  | found (value : Option Value)
  | lost
  deriving DecidableEq

/-- What a replica answers a read, if it answers with a value or its absence. -/
def readReply (addressed : NodeId → Bool) (logs : NodeId → Log) (fates : NodeId → ℕ → Fate)
    (id : DatumId) (node : NodeId) : Option (Option Value) :=
  match (tier.tryCall (addressed node) (fates node 0) (fates node 1) (.get id) (logs node)).2 with
  | some (.value value) => some value
  | _ => none

/-- Asks the targets one after another; `reachedAny` tells whether one has reported absence. -/
def readEach (logs : NodeId → Log) (fates : NodeId → ℕ → Fate) (id : DatumId) :
    List NodeId → Bool → ClusterState → ReadOutcome Value × ClusterState
  | [], true, state => (.found none, state)
  | [], false, state => (.lost, state.haltTotalLoss)
  | node :: nodes, reachedAny, state =>
      match (tier.tryCall (state.addressed node) (fates node 0) (fates node 1) (.get id)
        (logs node)).2 with
      | some (.value (some value)) => (.found (some value), state)
      | some (.value none) => readEach logs fates id nodes true state
      | _ => readEach logs fates id nodes reachedAny (state.markStale node)

def getReplicated (state : ClusterState) (logs : NodeId → Log) (fates : NodeId → ℕ → Fate)
    (id : DatumId) (n : ℕ) : ReadOutcome Value × ClusterState :=
  readEach tier logs fates id (state.servingReplicas hash id n) false state

end ClusterState

/-! ## What a round of calls does -/

section Round

variable {call : NodeId → Log → Log × Bool} {targets : List NodeId} {logs : NodeId → Log}
  {state : ClusterState}

theorem callEach_logs (nodup : targets.Nodup) (node : NodeId) :
    (callEach call targets logs state).logs node =
      if node ∈ targets then (call node (logs node)).1 else logs node := by
  induction targets generalizing logs state with
  | nil => rfl
  | cons first rest ih =>
      rcases List.nodup_cons.mp nodup with ⟨fresh, restNodup⟩
      have called : ∀ log state', (callEach call rest (Function.update logs first log) state').logs
          node = if node ∈ rest then (call node (logs node)).1
            else if node = first then log else logs node := by
        intro log state'
        rw [ih restNodup]
        by_cases same : node = first
        · subst same
          simp [fresh]
        · simp [same]
      unfold callEach
      rcases answered : call first (logs first) with ⟨log, _ | _⟩
      all_goals
        simp only [called, List.mem_cons]
        by_cases same : node = first
        · subst same
          simp [fresh, answered]
        · simp [same]

theorem callEach_acked (nodup : targets.Nodup) :
    (callEach call targets logs state).acked =
      targets.filter fun node => (call node (logs node)).2 := by
  induction targets generalizing logs state with
  | nil => rfl
  | cons first rest ih =>
      rcases List.nodup_cons.mp nodup with ⟨fresh, restNodup⟩
      have unaffected : ∀ log, (rest.filter fun node =>
          (call node (Function.update logs first log node)).2) =
          rest.filter fun node => (call node (logs node)).2 := by
        intro log
        apply List.filter_congr
        intro node nodeMem
        have differ : node ≠ first := by
          rintro rfl
          exact fresh nodeMem
        rw [Function.update_of_ne differ]
      unfold callEach
      rcases answered : call first (logs first) with ⟨log, _ | _⟩
      · simp only [ih restNodup, unaffected, List.filter_cons, answered, if_false,
          Bool.false_eq_true]
      · simp only [ih restNodup, unaffected, List.filter_cons, answered, if_true]

/-- A round changes nothing of the cluster state but the stale marks of the nodes that failed. -/
theorem callEach_state (nodup : targets.Nodup) :
    (callEach call targets logs state).state =
      { state with storageStale := fun node => state.storageStale node ||
          (decide (node ∈ targets) && !(call node (logs node)).2) } := by
  induction targets generalizing logs state with
  | nil => simp [callEach]
  | cons first rest ih =>
      rcases List.nodup_cons.mp nodup with ⟨fresh, restNodup⟩
      unfold callEach
      rcases answered : call first (logs first) with ⟨log, _ | _⟩
      all_goals
        simp only [ih restNodup, ClusterState.markStale]
        congr 1
        funext node
        by_cases same : node = first
        · subst same
          simp [fresh, answered]
        · simp [same]

end Round

/-! ## What a read does -/

namespace ClusterState

/-- The same cluster, with more nodes marked stale at most. -/
structure Shrinks (before after : ClusterState) : Prop where
  storageRing : after.storageRing = before.storageRing
  storeAddresses : after.storeAddresses = before.storeAddresses
  storageAlive : after.storageAlive = before.storageAlive
  storageStale : ∀ node, before.storageStale node = true → after.storageStale node = true

theorem Shrinks.refl (state : ClusterState) : Shrinks state state := ⟨rfl, rfl, rfl, fun _ => id⟩

theorem Shrinks.trans {first second third : ClusterState} (left : Shrinks first second)
    (right : Shrinks second third) : Shrinks first third :=
  ⟨right.storageRing.trans left.storageRing, right.storeAddresses.trans left.storeAddresses,
    right.storageAlive.trans left.storageAlive,
    fun node stale => right.storageStale node (left.storageStale node stale)⟩

theorem shrinks_markStale (state : ClusterState) (node : NodeId) :
    Shrinks state (state.markStale node) := by
  refine ⟨rfl, rfl, rfl, ?_⟩
  intro other stale
  by_cases same : other = node
  · simp [markStale, same]
  · simpa [markStale, same] using stale

/-- Replicas that serve after more marks served before. -/
theorem Shrinks.serving {before after : ClusterState} (shrinks : Shrinks before after)
    {hash : ℕ → ℕ → ℕ} {id : DatumId} {n : ℕ} {node : NodeId}
    (serves : node ∈ after.servingReplicas hash id n) :
    node ∈ before.servingReplicas hash id n := by
  simp only [servingReplicas, List.mem_filter, Bool.and_eq_true, Bool.not_eq_true',
    shrinks.storageRing, shrinks.storageAlive] at serves ⊢
  rcases serves with ⟨replica, alive, current⟩
  refine ⟨replica, alive, ?_⟩
  cases stale : before.storageStale node with
  | false => rfl
  | true =>
      rw [shrinks.storageStale node stale] at current
      cases current

variable {hash : ℕ → ℕ → ℕ} {tier : Tier Log Value Patch} {logs : NodeId → Log}
  {fates : NodeId → ℕ → Fate} {id : DatumId}

theorem readEach_shrinks (targets : List NodeId) (reachedAny : Bool) (state : ClusterState) :
    Shrinks state (readEach tier logs fates id targets reachedAny state).2 := by
  induction targets generalizing reachedAny state with
  | nil => cases reachedAny <;> exact ⟨rfl, rfl, rfl, fun _ stale => stale⟩
  | cons node nodes ih =>
      unfold readEach
      split
      · exact .refl state
      · exact ih true state
      · exact (shrinks_markStale state node).trans (ih reachedAny _)

/-- A read returns the first value that a replica answers with; without one, absence if any
answers. -/
theorem readEach_eq (targets : List NodeId) (reachedAny : Bool) (state : ClusterState) :
    (readEach tier logs fates id targets reachedAny state).1 =
      match targets.find? fun node =>
        (readReply tier state.addressed logs fates id node).join.isSome with
      | some node => .found (readReply tier state.addressed logs fates id node).join
      | none =>
          if reachedAny || targets.any fun node =>
            (readReply tier state.addressed logs fates id node).isSome then .found none
          else .lost := by
  induction targets generalizing reachedAny state with
  | nil => cases reachedAny <;> rfl
  | cons node nodes ih =>
      unfold readEach
      split
      · rename_i value called
        have reply : readReply tier state.addressed logs fates id node = some (some value) := by
          rw [readReply, called]
        simp only [List.find?_cons, reply, Option.join_some, Option.isSome_some]
      · rename_i called
        have reply : readReply tier state.addressed logs fates id node = some none := by
          rw [readReply, called]
        rw [ih]
        simp only [List.find?_cons, reply, Option.join_some, Option.isSome_none, List.any_cons,
          Option.isSome_some, Bool.true_or, Bool.or_true]
      · rename_i noValue noAbsence
        have reply : readReply tier state.addressed logs fates id node = none := by
          unfold readReply
          split
          · rename_i value called
            cases value with
            | none => exact absurd called noAbsence
            | some value => exact absurd called (noValue value)
          · rfl
        rw [ih]
        simp only [List.find?_cons, reply, Option.join_none, Option.isSome_none, List.any_cons,
          Bool.false_or]
        rfl

section Lawful

variable {Sound : Log → Prop} {Fits : Value → Prop}
  {Holds : Log → DatumId → Option (Value × ℕ) → Prop} (lawful : tier.Lawful Sound Fits Holds)
include lawful

/-- A replica answers a read with what it holds, if it answers. -/
theorem readReply_of_holds {held : Option (Value × ℕ)} {node : NodeId}
    (holds : Holds (logs node) id held) {addressed : NodeId → Bool} {value : Option Value}
    (reply : readReply tier addressed logs fates id node = some value) :
    value = held.map Prod.fst := by
  have served : tier.serve (logs node) (.get id) =
      (logs node, some (.value (held.map Prod.fst))) := by
    simp only [Tier.serve, lawful.get holds]
  unfold readReply at reply
  split at reply
  · rename_i answer called
    cases reply
    rcases both : tier.tryCall (addressed node) (fates node 0) (fates node 1) (.get id) (logs node)
      with ⟨next, response⟩
    rw [both] at called
    simp only at called
    subst called
    rcases Tier.Lawful.tryCall_answered both with ⟨_, impossible⟩ | once | twice
    · cases impossible
    · rw [served] at once
      cases once
      rfl
    · rw [served] at twice
      simp only [served] at twice
      cases twice
      rfl
  · cases reply

/-- A read of replicas that all hold the same finds it, if it finds anything. -/
theorem readEach_found {held : Option (Value × ℕ)} {targets : List NodeId}
    (agree : ∀ node ∈ targets, Holds (logs node) id held) (state : ClusterState) :
    (readEach tier logs fates id targets false state).1 = .found (held.map Prod.fst) ∨
      (readEach tier logs fates id targets false state).1 = .lost := by
  rw [readEach_eq]
  split
  · rename_i node found
    have value := List.find?_some found
    rcases Option.isSome_iff_exists.mp value with ⟨bytes, carried⟩
    have reply := Option.join_eq_some_iff.mp carried
    rw [carried, readReply_of_holds lawful (agree node (List.mem_of_find?_eq_some found)) reply]
    exact Or.inl rfl
  · rename_i missing
    split
    · rename_i answers
      rcases List.any_eq_true.mp answers with ⟨node, nodeMem, some_⟩
      rcases Option.isSome_iff_exists.mp some_ with ⟨value, reply⟩
      have absent : value = none := by
        have valueless := List.find?_eq_none.mp missing node nodeMem
        rw [reply, Option.join_some, Option.not_isSome_iff_eq_none] at valueless
        exact valueless
      rw [← readReply_of_holds lawful (agree node nodeMem) reply, absent]
      exact Or.inl rfl
    · exact Or.inr rfl

end Lawful

/-! ## What an operation does to the cluster state -/

theorem servingReplicas_nodup (hash : ℕ → ℕ → ℕ) (state : ClusterState) (id : DatumId) (n : ℕ) :
    (state.servingReplicas hash id n).Nodup :=
  (state.storageRing.replicas_nodup hash id n).filter _

/-- A round of calls marks nodes stale and may halt, nothing else. -/
theorem orHalt_shrinks {call : NodeId → Log → Log × Bool} {targets : List NodeId}
    (nodup : targets.Nodup) (logs : NodeId → Log) (state : ClusterState) :
    Shrinks state (orHalt (callEach call targets logs state)).state := by
  unfold orHalt
  split
  all_goals
    simp only [callEach_state nodup, haltTotalLoss]
    refine ⟨rfl, rfl, rfl, ?_⟩
    intro node stale
    simp only [stale, Bool.true_or]

/-- A node that a round lists acknowledged its call. -/
theorem acked_target {call : NodeId → Log → Log × Bool} {logs : NodeId → Log}
    {state : ClusterState} {n : ℕ} {node : NodeId}
    (acked : node ∈ (orHalt (callEach call (state.servingReplicas hash id n) logs state)).acked) :
    node ∈ state.servingReplicas hash id n ∧ (call node (logs node)).2 = true := by
  have listed : node ∈ (callEach call (state.servingReplicas hash id n) logs state).acked := by
    unfold orHalt at acked
    split at acked
    · exact acked
    · exact acked
  rw [callEach_acked (servingReplicas_nodup hash state id n)] at listed
  exact List.mem_filter.mp listed

/-- A replica that still serves after a round acknowledged its call. -/
theorem acked_of_serving {call : NodeId → Log → Log × Bool} {logs : NodeId → Log}
    {state : ClusterState} {n : ℕ} {node : NodeId}
    (serves : node ∈ (orHalt (callEach call (state.servingReplicas hash id n) logs
      state)).state.servingReplicas hash id n) :
    node ∈ (orHalt (callEach call (state.servingReplicas hash id n) logs state)).acked := by
  have nodup := servingReplicas_nodup hash state id n
  have target := (orHalt_shrinks nodup logs state).serving serves
  have current : (callEach call (state.servingReplicas hash id n) logs state).state.storageStale
      node = false := by
    have still := (List.mem_filter.mp serves).2
    simp only [Bool.and_eq_true, Bool.not_eq_true'] at still
    unfold orHalt at still
    split at still
    · exact still.2
    · exact still.2
  have acked : node ∈ (callEach call (state.servingReplicas hash id n) logs state).acked := by
    rw [callEach_acked nodup, List.mem_filter]
    simp only [callEach_state nodup, target, decide_true, Bool.true_and, Bool.or_eq_false_iff,
      Bool.not_eq_false'] at current
    exact ⟨target, current.2⟩
  unfold orHalt
  split
  · exact acked
  · exact acked

theorem writeAll_shrinks (state : ClusterState) (content : Value) (previous : Option Value)
    (n : ℕ) : Shrinks state (state.writeAll hash tier logs fates id content previous n).state :=
  orHalt_shrinks (servingReplicas_nodup hash state id n) logs state

theorem deleteReplicated_shrinks (state : ClusterState) (n : ℕ) :
    Shrinks state (state.deleteReplicated hash tier logs fates id n).state :=
  orHalt_shrinks (servingReplicas_nodup hash state id n) logs state

theorem getReplicated_shrinks (state : ClusterState) (n : ℕ) :
    Shrinks state (state.getReplicated hash tier logs fates id n).2 :=
  readEach_shrinks _ _ _

end ClusterState

end Seisin
