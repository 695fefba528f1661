import Seisin.Storage.Agreement

/-!
# The replicas of one compute node

A compute node that writes alone marks a replica stale in the same operation in which that replica
may have missed something, and gossip never takes such a mark back.  So every replica it takes to be
serving holds the last written state of its datums, as long as the values fit the 32-bit lengths of
deltas and log records.
-/

namespace Seisin

open Transition ClusterState

namespace Cluster

variable {hash : ℕ → ℕ → ℕ} {cluster next : Cluster Unit DatumLog Bytes}

/-- What one compute node does with its storage tier while its ring stays the same: operations with
the fixed replication factor of their datum, and gossip. -/
def OnFixedRing (cluster : Cluster Unit DatumLog Bytes) : ClusterLabel Unit Bytes → Prop
  | .put _ id _ _ n _ | .delete _ id n _ | .get _ id n _ => n = cluster.factor id
  | .markStale _ _ | .join _ _ _ _ | .leave _ _ => True
  | _ => False

/-- All members of the ring are alive, none is stale, and replicas hold the state of their
datums. -/
structure AllServing (hash : ℕ → ℕ → ℕ) (cluster : Cluster Unit DatumLog Bytes) : Prop where
  coherent : cluster.Coherent DatumLog.Closed DatumLog.Fits DatumLog.Holds
  alive : ∀ node ∈ (cluster.views ()).storageRing.nodeIds,
    (cluster.views ()).storageAlive node = true
  current : ∀ node, (cluster.views ()).storageStale node = false
  reached : ∀ id, ∀ node ∈ (cluster.views ()).storageRing.replicas hash id (cluster.factor id),
    cluster.behind node id = false

/-- Every serving replica holds the last written state of its datum, and a read finds that state or
halts. -/
structure ReplicasCurrent (hash : ℕ → ℕ → ℕ) (cluster : Cluster Unit DatumLog Bytes) : Prop where
  held : ∀ id, ∀ node ∈ (cluster.views ()).servingReplicas hash id (cluster.factor id),
    (cluster.logs node).get id = .ok ((cluster.latest id).map Prod.fst)
  read : ∀ id fates, let read := cluster.get hash logTier () id (cluster.factor id) fates
    read.1 = .found ((cluster.latest id).map Prod.fst) ∨
      (read.1 = .lost ∧ (read.2.views ()).halted = true)

/-- What holds along a run on a fixed ring. -/
structure FixedRingInvariant (hash : ℕ → ℕ → ℕ) (cluster : Cluster Unit DatumLog Bytes) :
    Prop where
  coherent : cluster.Coherent DatumLog.Closed DatumLog.Fits DatumLog.Holds
  deadStale : ∀ id n, ∀ node ∈ (cluster.views ()).storageRing.replicas hash id n,
    (cluster.views ()).storageAlive node = false → (cluster.views ()).storageStale node = true
  reached : ∀ id, ∀ node ∈ (cluster.views ()).servingReplicas hash id (cluster.factor id),
    cluster.behind node id = false

theorem AllServing.invariant (inRange : ∀ key slots, 0 < slots → hash key slots < slots)
    (serving : cluster.AllServing hash) : cluster.FixedRingInvariant hash where
  coherent := serving.coherent
  deadStale := by
    intro id n node replica dead
    rw [serving.alive node (Ring.mem_nodeIds_of_mem_replicas inRange replica)] at dead
    cases dead
  reached := fun id node serves => serving.reached id node (List.mem_filter.mp serves).1

theorem readEach_lost {Log Value Patch : Type} {tier : Tier Log Value Patch}
    {logs : NodeId → Log} {fates : NodeId → ℕ → Fate} {id : DatumId} {targets : List NodeId}
    {reachedAny : Bool} {state : ClusterState}
    (lost : (readEach tier logs fates id targets reachedAny state).1 = .lost) :
    (readEach tier logs fates id targets reachedAny state).2.halted = true := by
  induction targets generalizing reachedAny state with
  | nil =>
      cases reachedAny with
      | false => rfl
      | true => cases lost
  | cons node nodes ih =>
      unfold readEach at lost ⊢
      split at lost
      · cases lost
      · exact ih lost
      · exact ih lost

theorem FixedRingInvariant.replicasCurrent (invariant : cluster.FixedRingInvariant hash) :
    cluster.ReplicasCurrent hash where
  held := fun id node serves =>
    (invariant.coherent.holds node id (invariant.reached id node serves)).get
  read := by
    intro id fates
    have agree : ∀ node ∈ (cluster.views ()).servingReplicas hash id (cluster.factor id),
        DatumLog.Holds (cluster.logs node) id (cluster.latest id) :=
      fun node serves => invariant.coherent.holds node id (invariant.reached id node serves)
    have result : (cluster.get hash logTier () id (cluster.factor id) fates).1 =
        .found ((cluster.latest id).map Prod.fst) ∨
        (cluster.get hash logTier () id (cluster.factor id) fates).1 = .lost :=
      readEach_found logTier_lawful agree (cluster.views ())
    rcases result with found | lost
    · exact Or.inl found
    · refine Or.inr ⟨lost, ?_⟩
      exact readEach_lost lost

/-- A step that only adds stale marks keeps the invariant where it leaves nobody behind. -/
theorem FixedRingInvariant.shrink (invariant : cluster.FixedRingInvariant hash)
    (coherent : next.Coherent DatumLog.Closed DatumLog.Fits DatumLog.Holds)
    (shrinks : Shrinks (cluster.views ()) (next.views ()))
    (factor : next.factor = cluster.factor)
    (reached : ∀ id, ∀ node ∈ (next.views ()).servingReplicas hash id (cluster.factor id),
      cluster.behind node id = false → next.behind node id = false) :
    next.FixedRingInvariant hash where
  coherent := coherent
  deadStale := by
    intro id n node replica dead
    rw [shrinks.storageRing] at replica
    rw [shrinks.storageAlive] at dead
    exact shrinks.storageStale node (invariant.deadStale id n node replica dead)
  reached := by
    intro id node serves
    rw [factor] at serves
    exact reached id node serves (invariant.reached id node (shrinks.serving serves))

section Put

variable (id : DatumId) (content : Bytes) (withPrevious : Bool) (fates : NodeId → ℕ → Fate)

theorem put_factor :
    (cluster.put hash logTier () id content withPrevious (cluster.factor id) fates).factor =
      cluster.factor := by
  simp only [Cluster.put]
  split
  · rfl
  · simp only [Cluster.acknowledge, Cluster.setView, Function.update_eq_self]

/-- A write reaches every replica that still serves after it and was not behind. -/
theorem put_reaches {node : NodeId} (before : cluster.behind node id = false)
    (serves : node ∈ ((cluster.put hash logTier () id content withPrevious (cluster.factor id)
      fates).views ()).servingReplicas hash id (cluster.factor id)) :
    (cluster.put hash logTier () id content withPrevious (cluster.factor id) fates).behind node
      id = false := by
  rw [put_views, Function.update_self] at serves
  have acked : node ∈ ((cluster.views ()).writeAll hash logTier cluster.logs fates id content
      (cluster.previous id withPrevious) (cluster.factor id)).acked := acked_of_serving serves
  simp only [Cluster.put, if_neg (List.ne_nil_of_mem acked), Cluster.acknowledge, Cluster.setView,
    if_true, before, Bool.not_false, Bool.not_eq_false', Bool.and_eq_true, decide_eq_true_eq]
  rcases acked_target acked with ⟨target, written⟩
  exact ⟨target, Tier.Lawful.writeReaches_of_acked written⟩

theorem FixedRingInvariant.put (invariant : cluster.FixedRingInvariant hash)
    (fits : DatumLog.Fits content) :
    (cluster.put hash logTier () id content withPrevious (cluster.factor id)
      fates).FixedRingInvariant hash := by
  refine invariant.shrink (coherent_put logTier_lawful invariant.coherent () id fits withPrevious
    _ fates) ?_ (put_factor id content withPrevious fates) ?_
  · rw [put_views, Function.update_self]
    exact writeAll_shrinks _ _ _ _
  · intro other node serves before
    by_cases same : other = id
    · subst same
      exact put_reaches other content withPrevious fates before serves
    · rwa [put_behind_other () same]

end Put

section Delete

variable (id : DatumId) (fates : NodeId → ℕ → Fate)

theorem delete_factor :
    (cluster.delete hash logTier () id (cluster.factor id) fates).factor = cluster.factor := by
  simp only [Cluster.delete]
  split
  · rfl
  · simp only [Cluster.acknowledge, Cluster.setView, Function.update_eq_self]

theorem delete_reaches {node : NodeId}
    (serves : node ∈ ((cluster.delete hash logTier () id (cluster.factor id)
      fates).views ()).servingReplicas hash id (cluster.factor id)) :
    (cluster.delete hash logTier () id (cluster.factor id) fates).behind node id = false := by
  rw [delete_views, Function.update_self] at serves
  have acked : node ∈ ((cluster.views ()).deleteReplicated hash logTier cluster.logs fates id
      (cluster.factor id)).acked := acked_of_serving serves
  simp only [Cluster.delete, if_neg (List.ne_nil_of_mem acked), Cluster.acknowledge,
    Cluster.setView, if_true, Bool.not_eq_false', arrivals, Bool.and_eq_true, decide_eq_true_eq]
  rcases acked_target acked with ⟨target, deleted⟩
  exact ⟨target, Tier.Lawful.arrives_of_deleted deleted⟩

theorem FixedRingInvariant.delete (invariant : cluster.FixedRingInvariant hash) :
    (cluster.delete hash logTier () id (cluster.factor id) fates).FixedRingInvariant hash := by
  refine invariant.shrink (coherent_delete logTier_lawful invariant.coherent () id _ fates) ?_
    (delete_factor id fates) ?_
  · rw [delete_views, Function.update_self]
    exact deleteReplicated_shrinks _ _
  · intro other node serves before
    by_cases same : other = id
    · subst same
      exact delete_reaches other fates serves
    · rwa [delete_behind_other () same]

end Delete

/-- Gossip that a node joined brings back no replica it had taken to be dead: that one is stale. -/
theorem FixedRingInvariant.join (invariant : cluster.FixedRingInvariant hash) (joined : NodeId)
    (storeAddress : String) (logId : DatumId) :
    (cluster.setView () ((cluster.views ()).applyJoin joined storeAddress
      logId)).FixedRingInvariant hash where
  coherent := invariant.coherent.setView () _
  deadStale := by
    intro id n node replica dead
    simp only [Cluster.setView, Function.update_self, applyJoin] at replica dead ⊢
    by_cases same : node = joined
    · rw [same, Function.update_self] at dead
      cases dead
    · rw [Function.update_of_ne same] at dead
      exact invariant.deadStale id n node replica dead
  reached := by
    intro id node serves
    apply invariant.reached id node
    simp only [Cluster.setView, Function.update_self, applyJoin, servingReplicas, List.mem_filter,
      Bool.and_eq_true, Bool.not_eq_true'] at serves ⊢
    rcases serves with ⟨replica, _, current⟩
    refine ⟨replica, ?_, current⟩
    cases alive : (cluster.views ()).storageAlive node with
    | true => rfl
    | false =>
        rw [invariant.deadStale id _ node replica alive] at current
        cases current

theorem FixedRingInvariant.leave (invariant : cluster.FixedRingInvariant hash) (left : NodeId) :
    (cluster.setView () ((cluster.views ()).applyLeave left)).FixedRingInvariant hash where
  coherent := invariant.coherent.setView () _
  deadStale := by
    intro id n node replica dead
    simp only [Cluster.setView, Function.update_self, applyLeave] at replica dead ⊢
    by_cases same : node = left
    · rw [same, Function.update_self]
    · rw [Function.update_of_ne same] at dead ⊢
      exact invariant.deadStale id n node replica dead
  reached := by
    intro id node serves
    apply invariant.reached id node
    simp only [Cluster.setView, Function.update_self, applyLeave, servingReplicas, List.mem_filter,
      Bool.and_eq_true, Bool.not_eq_true'] at serves ⊢
    rcases serves with ⟨replica, alive, current⟩
    by_cases same : node = left
    · rw [same, Function.update_self] at alive
      cases alive
    · rw [Function.update_of_ne same] at alive current
      exact ⟨replica, alive, current⟩

theorem fixedRingInvariant_step (invariant : cluster.FixedRingInvariant hash)
    {label : ClusterLabel Unit Bytes} (onRing : cluster.OnFixedRing label)
    (fits : label.WritesFit DatumLog.Fits) (stepped : cluster.step hash logTier label = some next) :
    next.FixedRingInvariant hash := by
  cases label with
  | put _ id content withPrevious n fates =>
      cases stepped
      simp only [OnFixedRing] at onRing
      subst onRing
      exact invariant.put id content withPrevious fates fits
  | delete _ id n fates =>
      cases stepped
      simp only [OnFixedRing] at onRing
      subst onRing
      exact invariant.delete id fates
  | get _ id n fates =>
      cases stepped
      refine invariant.shrink (invariant.coherent.setView () _) ?_ rfl ?_
      · exact getReplicated_shrinks _ _
      · exact fun _ _ _ before => before
  | markStale _ node =>
      cases stepped
      refine invariant.shrink (invariant.coherent.setView () _) ?_ rfl ?_
      · exact shrinks_markStale _ _
      · exact fun _ _ _ before => before
  | join _ node storeAddress logId =>
      cases stepped
      exact invariant.join node storeAddress logId
  | leave _ node =>
      cases stepped
      exact invariant.leave node
  | installStorageRing _ members => cases onRing
  | clearHalt _ => cases onRing
  | restart _ members => cases onRing
  | copyRead source dest id tail => cases onRing
  | copySend position applied => cases onRing
  | drop node id => cases onRing

/-- Along every run on a fixed ring whose values fit the length fields, every serving replica holds
the last written state, and a read finds it or halts. -/
theorem replicas_current (inRange : ∀ key slots, 0 < slots → hash key slots < slots)
    (reached : (system hash logTier (AllServing hash)).ReachableVia
      (fun cluster label => cluster.OnFixedRing label ∧ label.WritesFit DatumLog.Fits) cluster) :
    cluster.ReplicasCurrent hash := by
  apply FixedRingInvariant.replicasCurrent
  apply reached.induction
  · exact fun _ serving => serving.invariant inRange
  · intro state label next invariant allowed stepped
    exact fixedRingInvariant_step invariant allowed.1 allowed.2 stepped

/-! ## Storage nodes that hold one datum -/

/-- A compute node over storage nodes whose logs have datum 0 written out in full. -/
def holding (members : List StorageMember) (value : Bytes) (n : ℕ) :
    Cluster Unit DatumLog Bytes where
  views := fun _ => .fromConfig members
  logs := fun _ => (DatumLog.create (DatumId.asBytes 11)).putFull 0 value n
  copies := []
  latest := Function.update (fun _ => none) 0 (some (value, n))
  factor := fun _ => n
  behind := fun _ _ => false

theorem closed_create : (DatumLog.create (DatumId.asBytes 11)).Closed := by
  have length : (DatumLog.create (DatumId.asBytes 11)).file.length = headerLen := by
    decide +kernel
  exact length

theorem allServing_holding {members : List StorageMember}
    (alive : ∀ node ∈ (ringOf members).nodeIds, (fromConfig members).storageAlive node = true)
    {value : Bytes} (fits : DatumLog.Fits value) (n : ℕ) :
    (holding members value n).AllServing hash where
  coherent := by
    have empty : ∀ id, (DatumLog.create (DatumId.asBytes 11)).Holds id none :=
      fun id => ⟨fun _ => rfl, nofun⟩
    refine ⟨fun _ => closed_create.append .full 0 n value, ?_, ?_, by simp [holding]⟩
    · intro id other factor latest
      by_cases same : id = 0
      · subst same
        simp only [holding, Function.update_self, Option.some.injEq, Prod.mk.injEq] at latest
        rw [← latest.1]
        exact fits
      · simp [holding, Function.update_of_ne same] at latest
    · intro node id _
      by_cases same : id = 0
      · subst same
        simp only [holding, Function.update_self]
        exact .putFull closed_create 0 fits n
      · simp only [holding, Function.update_of_ne same]
        exact (empty id).putFull_other closed_create same value n
  alive := alive
  current := fun _ => rfl
  reached := fun _ _ _ => rfl

/-- A write of datum 0 does not reach node 1; gossip then reports node 1 alive. -/
theorem replicas_current_missed : ∃ cluster,
    (system JumpBackHasher.hash logTier (AllServing JumpBackHasher.hash)).ReachableVia
      (fun cluster label => cluster.OnFixedRing label ∧ label.WritesFit DatumLog.Fits) cluster ∧
    cluster.latest 0 = some ([2], 2) ∧ (cluster.views ()).storageAlive 1 = true ∧
    (cluster.views ()).storageStale 1 = true ∧ cluster.ReplicasCurrent JumpBackHasher.hash := by
  have serving : (holding twoMembers [1] 2).AllServing JumpBackHasher.hash :=
    allServing_holding (by decide +kernel) (by decide +kernel) 2
  have fits : DatumLog.Fits [2] := by decide +kernel
  let written := (holding twoMembers [1] 2).put JumpBackHasher.hash logTier () 0 [2] true 2
    (unreachable 1)
  let joined := written.setView () ((written.views ()).applyJoin 1 "store-1" 11)
  have reached : (system JumpBackHasher.hash logTier (AllServing JumpBackHasher.hash)).ReachableVia
      (fun cluster label => cluster.OnFixedRing label ∧ label.WritesFit DatumLog.Fits) joined :=
    ⟨holding twoMembers [1] 2, serving,
      .tail (.join () 1 "store-1" 11)
        (.tail (.put () 0 [2] true 2 (unreachable 1)) (.refl _) ⟨rfl, fits⟩ rfl)
        ⟨trivial, trivial⟩ rfl⟩
  exact ⟨joined, reached, by decide +kernel, by decide +kernel, by decide +kernel,
    replicas_current (fun key _ nonempty => JumpBackHasher.hash_lt key nonempty) reached⟩

/-! ## A value that outgrows 32 bits -/

def oneMember : List StorageMember := [⟨1, 1, "store-1", 11⟩]

theorem servingReplicas_oneMember :
    (fromConfig oneMember).servingReplicas JumpBackHasher.hash 0 1 = [1] := by
  decide +kernel

/-- The one replica takes the delta of a value that outgrows 32 bits and cannot read the datum
afterwards. -/
theorem writeOne_outgrown {log : DatumLog} {old added : Bytes} (closed : log.Closed)
    (fits : DatumLog.Fits old) (outgrown : 2 ^ 32 ≤ old.length + added.length)
    (few : 16 + added.length < old.length / 2) :
    ∃ next message, logTier.writeOne true (allServed 1) 0 (old ++ added)
        (some (Delta.diff old (old ++ added))) 1 (log.putFull 0 old 1) = (next, true) ∧
      next.get 0 = .error message := by
  have held := DatumLog.Holds.putFull closed 0 fits 1
  unfold DatumLog.Fits at fits
  rcases Delta.apply_diff_outgrown (by omega) outgrown with ⟨message, refused⟩
  have shape := Delta.diff_append (show old.length < 2 ^ 32 by omega) added
  have encoded : (Delta.diff old (old ++ added)).encode.length = 16 + added.length := by
    simp only [shape, Delta.encode, List.length_append, ByteString.length_leBytes]
  have decodes : Delta.decode (Delta.diff old (old ++ added)).encode =
      .ok (Delta.diff old (old ++ added)) := by
    apply Delta.decode_encode
    all_goals
      simp only [shape]
      omega
  have short : DatumLog.rebases ⟨log.endOffset, [], old.length % 2 ^ 32, 0, 1⟩
      (Delta.diff old (old ++ added)).encode.length = false := by
    rw [encoded, Nat.mod_eq_of_lt (by omega)]
    simp only [DatumLog.rebases, maxDeltaChain, List.length_nil, Bool.or_eq_false_iff,
      decide_eq_false_iff_not]
    exact ⟨rfl, by omega⟩
  rcases held.putDelta_unreadable (closed.append .full 0 1 old) (AList.lookup_insert _) short
    decodes (by unfold DatumLog.Fits; omega) refused 1 with ⟨next, patched, unreadable⟩
  refine ⟨next, message, ?_, unreadable⟩
  have applied : logTier.putDelta (log.putFull 0 old 1) 0 (Delta.diff old (old ++ added)) 1 =
      .ok (.applied, next) := patched
  simp only [Tier.writeOne, Tier.tryCall, Tier.attempt, Tier.serve, allServed, applied, if_true]

/-- The write is acknowledged, and the replica that serves the datum does not hold its value. -/
theorem not_replicasCurrent_outgrown {old added : Bytes} (fits : DatumLog.Fits old)
    (outgrown : 2 ^ 32 ≤ old.length + added.length) (few : 16 + added.length < old.length / 2) :
    ¬((holding oneMember old 1).put JumpBackHasher.hash logTier () 0 (old ++ added) true 1
      allServed).ReplicasCurrent JumpBackHasher.hash := by
  rcases writeOne_outgrown closed_create fits outgrown few with ⟨next, message, called, unreadable⟩
  have fitsOld : old.length < 2 ^ 32 := by
    unfold DatumLog.Fits at fits
    omega
  have previous : (holding oneMember old 1).previous 0 true = some old := by
    simp [Cluster.previous, holding]
  have worthwhile : logTier.worthwhile old (old ++ added) =
      some (Delta.diff old (old ++ added)) := by
    simp only [logTier, Option.ite_none_right_eq_some, and_true]
    rw [Delta.diff_append fitsOld, Delta.encodedLen, List.length_append]
    dsimp only
    omega
  have round : (fromConfig oneMember).writeAll JumpBackHasher.hash logTier
      (holding oneMember old 1).logs allServed 0 (old ++ added) (some old) 1 =
      ⟨Function.update (holding oneMember old 1).logs 1 next, fromConfig oneMember, [1]⟩ := by
    have addressed : (fromConfig oneMember).addressed 1 = true := by
      decide +kernel
    have written : logTier.writeOne ((fromConfig oneMember).addressed 1) (allServed 1) 0
        (old ++ added) (some (Delta.diff old (old ++ added))) 1 ((holding oneMember old 1).logs 1) =
        (next, true) := by
      rw [addressed]
      exact called
    simp only [ClusterState.writeAll, Option.bind_some, worthwhile]
    rw [servingReplicas_oneMember]
    simp only [callEach, written, orHalt, List.cons_ne_nil, if_false]
  intro current
  have held := current.held 0 1
  have view : (holding oneMember old 1).views () = fromConfig oneMember := rfl
  simp only [view, Cluster.put, previous, round, List.cons_ne_nil, if_false, Cluster.acknowledge,
    Cluster.setView, Function.update_self, servingReplicas_oneMember, List.mem_singleton,
    forall_const, unreadable] at held
  cases held

/-- A datum of 2^32 - 2^25 bytes gets 2^25 bytes longer. -/
theorem replicas_outgrown : ∃ cluster next : Cluster Unit DatumLog Bytes, ∃ label,
    cluster.AllServing JumpBackHasher.hash ∧ cluster.OnFixedRing label ∧
    cluster.step JumpBackHasher.hash logTier label = some next ∧
    (system JumpBackHasher.hash logTier (AllServing JumpBackHasher.hash)).ReachableVia OnFixedRing
      next ∧
    ¬next.ReplicasCurrent JumpBackHasher.hash := by
  let old : Bytes := List.replicate (2 ^ 32 - 2 ^ 25) 0
  let added : Bytes := List.replicate (2 ^ 25) 0
  have oldLength : old.length = 2 ^ 32 - 2 ^ 25 := List.length_replicate
  have addedLength : added.length = 2 ^ 25 := List.length_replicate
  have fits : DatumLog.Fits old := by
    unfold DatumLog.Fits
    omega
  let label : ClusterLabel Unit Bytes := .put () 0 (old ++ added) true 1 allServed
  have serving : (holding oneMember old 1).AllServing JumpBackHasher.hash :=
    allServing_holding (by decide +kernel) fits 1
  have onRing : (holding oneMember old 1).OnFixedRing label := rfl
  exact ⟨holding oneMember old 1, _, label, serving, onRing, rfl,
    ⟨holding oneMember old 1, serving, .tail label (.refl _) onRing rfl⟩,
    not_replicasCurrent_outgrown fits (by omega) (by omega)⟩

end Cluster

end Seisin
