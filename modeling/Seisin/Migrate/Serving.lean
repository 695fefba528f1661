import Seisin.Migrate.Live

/-!
# Replicas under operations

As long as operations go to the replicas of one ring, every replica that is not excused holds the last
acknowledged state of its datums, or that of the operation under way if it has reached the replica.
A replica that an operation has missed is excused once the operation is acknowledged, and one that an
operation has reached is once that operation is given up.
-/

namespace Seisin

namespace Live

variable {Compute : Type} {replicas : DatumId → List NodeId} {excused : NodeId → DatumId → Prop}
  {live next : Live Compute} {id : DatumId}

/-! ## What clients' steps do -/

/-- An operation starts with calls of replicas, or the compute node halts. -/
theorem begin_cases [DecidableEq Compute] {hash : ℕ → ℕ → ℕ} {compute : Compute}
    {content : Option Bytes} {n : ℕ}
    (stepped : live.begin hash compute id content n = some next) :
    live.paused compute = false ∧ live.ops.lookup id = none ∧
      (((live.rings compute).replicas hash id n).filter (live.serves compute) = [] ∧
          next = { live with halted := Function.update live.halted compute true } ∨
        ((live.rings compute).replicas hash id n).filter (live.serves compute) ≠ [] ∧
          next = { live with
            ops := live.ops.insert id ⟨compute, content.map fun bytes => (bytes, n),
              ((live.rings compute).replicas hash id n).filter (live.serves compute),
              [], false⟩ }) := by
  unfold Live.begin at stepped
  split at stepped
  · cases stepped
  · rename_i admitted
    simp only [Bool.or_eq_true, Option.isSome_iff_ne_none, ne_eq, not_or, not_not,
      Bool.not_eq_true] at admitted
    refine ⟨admitted.1.1, admitted.2, ?_⟩
    split at stepped
    · rename_i empty
      cases stepped
      exact Or.inl ⟨empty, rfl⟩
    · rename_i node nodes targets
      cases stepped
      rw [targets]
      exact Or.inr ⟨nofun, rfl⟩

/-- What a call of an operation does. -/
theorem reach_cases [DecidableEq Compute] {outcome : CallOutcome}
    (stepped : live.reach id outcome = some next) :
    ∃ op node rest, live.ops.lookup id = some op ∧ op.remaining = node :: rest ∧
      next = { live with
        nodes := live.nodes.send node id op.state outcome.arrives
        stale := if outcome.isAnswered then live.stale else live.markStale op.compute node
        ops := live.ops.insert id { op with
          remaining := rest
          reached := if outcome.arrives then node :: op.reached else op.reached
          acked := op.acked || outcome.isAnswered } } := by
  unfold Live.reach at stepped
  split at stepped
  · cases stepped
  · rename_i op found
    split at stepped
    · cases stepped
    · rename_i node rest remaining
      cases stepped
      exact ⟨op, node, rest, found, remaining, rfl⟩

/-- What the acknowledgement of an operation does. -/
theorem acknowledge_cases (stepped : live.acknowledge id = some next) :
    ∃ op, live.ops.lookup id = some op ∧ op.remaining = [] ∧ next = { live with
      ops := live.ops.erase id
      latest := Function.update live.latest id op.state
      behind := fun node other =>
        if other = id then node ∉ op.reached else live.behind node other } := by
  unfold Live.acknowledge at stepped
  split at stepped
  · cases stepped
  · rename_i op found
    split at stepped
    · rename_i ended
      cases stepped
      exact ⟨op, found, ended.1, rfl⟩
    · cases stepped

/-- What giving an operation up does. -/
theorem abandon_cases [DecidableEq Compute] (stepped : live.abandon id = some next) :
    ∃ op, live.ops.lookup id = some op ∧ op.remaining = [] ∧ op.acked = false ∧
      next = { live with
        ops := live.ops.erase id
        halted := Function.update live.halted op.compute true
        behind := fun node other =>
          live.behind node other || decide (other = id ∧ node ∈ op.reached) } := by
  unfold Live.abandon at stepped
  split at stepped
  · cases stepped
  · rename_i op found
    split at stepped
    · rename_i ended
      cases stepped
      exact ⟨op, found, ended.1, ended.2, rfl⟩
    · cases stepped

theorem lookup_erase_some {other : DatumId} {op : ClientOp Compute}
    (found : (live.ops.erase id).lookup other = some op) :
    other ≠ id ∧ live.ops.lookup other = some op := by
  have differ : other ≠ id := by
    rintro rfl
    rw [AList.lookup_erase] at found
    cases found
  exact ⟨differ, (AList.lookup_erase_ne differ).symm.trans found⟩

/-! ## Serving replicas -/

/-- The replicas hold what was acknowledged or is about to be, but for those that are excused. -/
structure Serving (replicas : DatumId → List NodeId) (excused : NodeId → DatumId → Prop)
    (live : Live Compute) : Prop where
  present : ∀ id, live.latest id ≠ none → replicas id ≠ []
  opPresent : ∀ id op, live.ops.lookup id = some op → replicas id ≠ []
  targets : ∀ id op, live.ops.lookup id = some op → ∀ node ∈ op.remaining, node ∈ replicas id
  idle : ∀ id, live.ops.lookup id = none → ∀ node ∈ replicas id, ¬excused node id →
    live.nodes.contents node id = live.latest id
  reached : ∀ id op, live.ops.lookup id = some op → ∀ node ∈ replicas id, node ∈ op.reached →
    live.nodes.contents node id = op.state
  unreached : ∀ id op, live.ops.lookup id = some op → ∀ node ∈ replicas id, node ∉ op.reached →
    ¬excused node id → live.nodes.contents node id = live.latest id

namespace Serving

/-- A change that leaves the replicas' content, the operations and what was acknowledged alone. -/
theorem frame (serving : live.Serving replicas excused)
    (contents : ∀ id, ∀ node ∈ replicas id,
      next.nodes.contents node id = live.nodes.contents node id)
    (ops : next.ops = live.ops) (latest : next.latest = live.latest) :
    next.Serving replicas excused where
  present := by
    rw [latest]
    exact serving.present
  opPresent := by
    rw [ops]
    exact serving.opPresent
  targets := by
    rw [ops]
    exact serving.targets
  idle := by
    rw [ops, latest]
    intro id none_ node replica
    rw [contents id node replica]
    exact serving.idle id none_ node replica
  reached := by
    rw [ops]
    intro id op found node replica
    rw [contents id node replica]
    exact serving.reached id op found node replica
  unreached := by
    rw [ops, latest]
    intro id op found node replica
    rw [contents id node replica]
    exact serving.unreached id op found node replica

/-- The replicas of another ring serve as well if they all hold the latest state and no operation is
under way. -/
theorem switch {others : DatumId → List NodeId} (none_ : ∀ id, live.ops.lookup id = none)
    (present : ∀ id, live.latest id ≠ none → others id ≠ [])
    (current : ∀ id, ∀ node ∈ others id, ¬excused node id →
      live.nodes.contents node id = live.latest id) : live.Serving others excused where
  present := present
  opPresent := by
    intro id op found
    rw [none_] at found
    cases found
  targets := by
    intro id op found
    rw [none_] at found
    cases found
  idle := fun id _ => current id
  reached := by
    intro id op found
    rw [none_] at found
    cases found
  unreached := by
    intro id op found
    rw [none_] at found
    cases found

theorem begin [DecidableEq Compute] {hash : ℕ → ℕ → ℕ} {compute : Compute}
    {content : Option Bytes} {n : ℕ}
    (serving : live.Serving replicas excused)
    (ring : (live.rings compute).replicas hash id n = replicas id)
    (stepped : live.begin hash compute id content n = some next) :
    next.Serving replicas excused := by
  rcases begin_cases stepped with ⟨_, unlocked, ⟨_, rfl⟩ | ⟨nonempty, rfl⟩⟩
  · exact serving.frame (fun _ _ _ => rfl) rfl rfl
  rw [ring] at nonempty
  have targets : ∀ node ∈ (replicas id).filter (live.serves compute), node ∈ replicas id :=
    fun node nodeMem => (List.mem_filter.mp nodeMem).1
  constructor
  · exact serving.present
  · intro other op found
    by_cases same : other = id
    · subst same
      rintro none_
      rw [none_] at nonempty
      exact nonempty rfl
    · rw [AList.lookup_insert_ne same] at found
      exact serving.opPresent other op found
  · intro other op found
    by_cases same : other = id
    · subst same
      rw [AList.lookup_insert] at found
      cases found
      rw [ring]
      exact targets
    · rw [AList.lookup_insert_ne same] at found
      exact serving.targets other op found
  · intro other none_
    have differ : other ≠ id := by
      rintro rfl
      rw [AList.lookup_insert] at none_
      cases none_
    rw [AList.lookup_insert_ne differ] at none_
    exact serving.idle other none_
  · intro other op found node replica reached
    by_cases same : other = id
    · subst same
      rw [AList.lookup_insert] at found
      cases found
      cases reached
    · rw [AList.lookup_insert_ne same] at found
      exact serving.reached other op found node replica reached
  · intro other op found node replica unreached current
    by_cases same : other = id
    · subst same
      exact serving.idle other unlocked node replica current
    · rw [AList.lookup_insert_ne same] at found
      exact serving.unreached other op found node replica unreached current

theorem reach [DecidableEq Compute] {outcome : CallOutcome}
    (serving : live.Serving replicas excused) (stepped : live.reach id outcome = some next) :
    next.Serving replicas excused := by
  rcases reach_cases stepped with ⟨op, node, rest, found, remaining, rfl⟩
  constructor
  · exact serving.present
  · intro other otherOp otherFound
    by_cases same : other = id
    · subst same
      exact serving.opPresent other op found
    · rw [AList.lookup_insert_ne same] at otherFound
      exact serving.opPresent other otherOp otherFound
  · intro other otherOp otherFound
    by_cases same : other = id
    · subst same
      rw [AList.lookup_insert] at otherFound
      cases otherFound
      intro target targetMem
      apply serving.targets other op found
      rw [remaining]
      exact List.mem_cons_of_mem _ targetMem
    · rw [AList.lookup_insert_ne same] at otherFound
      exact serving.targets other otherOp otherFound
  · intro other none_ target replica current
    have differ : other ≠ id := by
      rintro rfl
      rw [AList.lookup_insert] at none_
      cases none_
    rw [AList.lookup_insert_ne differ] at none_
    rw [StorageNodes.contents_send, if_neg (fun both => differ both.2.1)]
    exact serving.idle other none_ target replica current
  · intro other otherOp otherFound target replica isReached
    rw [StorageNodes.contents_send]
    by_cases same : other = id
    · subst same
      rw [AList.lookup_insert] at otherFound
      cases otherFound
      dsimp only at isReached ⊢
      split
      · rfl
      · rename_i elsewhere
        apply serving.reached other op found target replica
        split at isReached
        · rename_i arrives
          rcases List.mem_cons.mp isReached with rfl | before
          · exact absurd ⟨rfl, rfl, arrives⟩ elsewhere
          · exact before
        · exact isReached
    · rw [AList.lookup_insert_ne same] at otherFound
      rw [if_neg (fun both => same both.2.1)]
      exact serving.reached other otherOp otherFound target replica isReached
  · intro other otherOp otherFound target replica unreached current
    rw [StorageNodes.contents_send]
    by_cases same : other = id
    · subst same
      rw [AList.lookup_insert] at otherFound
      cases otherFound
      dsimp only at unreached
      split
      · rename_i here
        rw [if_pos here.2.2, here.1] at unreached
        exact absurd List.mem_cons_self unreached
      · apply serving.unreached other op found target replica _ current
        split at unreached
        · exact fun before => unreached (List.mem_cons_of_mem _ before)
        · exact unreached
    · rw [AList.lookup_insert_ne same] at otherFound
      rw [if_neg (fun both => same both.2.1)]
      exact serving.unreached other otherOp otherFound target replica unreached current

/-- After an acknowledgement the replicas that were missed have to be excused. -/
theorem acknowledge {later : NodeId → DatumId → Prop} (serving : live.Serving replicas excused)
    (stepped : live.acknowledge id = some next)
    (missed : ∀ op, live.ops.lookup id = some op → ∀ node ∈ replicas id, node ∉ op.reached →
      later node id)
    (others : ∀ node other, other ≠ id → excused node other → later node other) :
    next.Serving replicas later := by
  rcases acknowledge_cases stepped with ⟨op, found, _, rfl⟩
  constructor
  · intro other written
    by_cases same : other = id
    · subst same
      exact serving.opPresent other op found
    · dsimp only at written
      rw [Function.update_of_ne same] at written
      exact serving.present other written
  · exact fun other otherOp otherFound =>
      serving.opPresent other otherOp (lookup_erase_some otherFound).2
  · exact fun other otherOp otherFound =>
      serving.targets other otherOp (lookup_erase_some otherFound).2
  · intro other none_ node replica current
    dsimp only
    by_cases same : other = id
    · subst same
      rw [Function.update_self]
      apply serving.reached other op found node replica
      by_contra unreached
      exact current (missed op found node replica unreached)
    · rw [AList.lookup_erase_ne same] at none_
      rw [Function.update_of_ne same]
      exact serving.idle other none_ node replica
        fun excuse => current (others node other same excuse)
  · exact fun other otherOp otherFound =>
      serving.reached other otherOp (lookup_erase_some otherFound).2
  · intro other otherOp otherFound node replica unreached current
    rcases lookup_erase_some otherFound with ⟨differ, before⟩
    dsimp only
    rw [Function.update_of_ne differ]
    exact serving.unreached other otherOp before node replica unreached
      fun excuse => current (others node other differ excuse)

/-- When an operation is given up, the replicas that it has reached have to be excused. -/
theorem abandon [DecidableEq Compute] {later : NodeId → DatumId → Prop}
    (serving : live.Serving replicas excused) (stepped : live.abandon id = some next)
    (wasReached : ∀ op, live.ops.lookup id = some op → ∀ node ∈ op.reached, later node id)
    (others : ∀ node other, excused node other → later node other) :
    next.Serving replicas later := by
  rcases abandon_cases stepped with ⟨op, found, _, _, rfl⟩
  constructor
  · exact serving.present
  · exact fun other otherOp otherFound =>
      serving.opPresent other otherOp (lookup_erase_some otherFound).2
  · exact fun other otherOp otherFound =>
      serving.targets other otherOp (lookup_erase_some otherFound).2
  · intro other none_ node replica current
    have before : ¬excused node other := fun excuse => current (others node other excuse)
    by_cases same : other = id
    · subst same
      exact serving.unreached other op found node replica
        (fun reached => current (wasReached op found node reached)) before
    · rw [AList.lookup_erase_ne same] at none_
      exact serving.idle other none_ node replica before
  · exact fun other otherOp otherFound =>
      serving.reached other otherOp (lookup_erase_some otherFound).2
  · intro other otherOp otherFound node replica unreached current
    exact serving.unreached other otherOp (lookup_erase_some otherFound).2 node replica unreached
      fun excuse => current (others node other excuse)

end Serving

/-! ## Calls that all succeed -/

/-- Every compute node calls all replicas, every replica of an operation is still to be called or
reached, and every call has been answered. -/
structure Reliable (replicas : DatumId → List NodeId) (live : Live Compute) : Prop where
  serves : ∀ compute id, ∀ node ∈ replicas id, live.serves compute node = true
  called : ∀ id op, live.ops.lookup id = some op → ∀ node ∈ replicas id,
    node ∈ op.remaining ∨ node ∈ op.reached
  answered : ∀ id op, live.ops.lookup id = some op → op.reached ≠ [] → op.acked = true

namespace Reliable

theorem frame (reliable : live.Reliable replicas)
    (serves : ∀ compute node, live.serves compute node = true → next.serves compute node = true)
    (ops : next.ops = live.ops) : next.Reliable replicas where
  serves := fun compute id node replica =>
    serves compute node (reliable.serves compute id node replica)
  called := by
    rw [ops]
    exact reliable.called
  answered := by
    rw [ops]
    exact reliable.answered

/-- Operations that ended leave the others as they are. -/
theorem erase (reliable : live.Reliable replicas)
    (serves : next.serves = live.serves) (ops : next.ops = live.ops.erase id) :
    next.Reliable replicas where
  serves := by
    rw [serves]
    exact reliable.serves
  called := by
    rw [ops]
    exact fun other op found => reliable.called other op (lookup_erase_some found).2
  answered := by
    rw [ops]
    exact fun other op found => reliable.answered other op (lookup_erase_some found).2

theorem begin [DecidableEq Compute] {hash : ℕ → ℕ → ℕ} {compute : Compute}
    {content : Option Bytes} {n : ℕ}
    (reliable : live.Reliable replicas)
    (ring : (live.rings compute).replicas hash id n = replicas id)
    (stepped : live.begin hash compute id content n = some next) : next.Reliable replicas := by
  rcases begin_cases stepped with ⟨_, _, ⟨_, rfl⟩ | ⟨_, rfl⟩⟩
  · exact reliable.frame (fun _ _ served => served) rfl
  constructor
  · exact reliable.serves
  · intro other op found node replica
    by_cases same : other = id
    · subst same
      rw [AList.lookup_insert] at found
      cases found
      left
      rw [ring, List.mem_filter]
      exact ⟨replica, reliable.serves compute other node replica⟩
    · rw [AList.lookup_insert_ne same] at found
      exact reliable.called other op found node replica
  · intro other op found reached
    by_cases same : other = id
    · subst same
      rw [AList.lookup_insert] at found
      cases found
      exact absurd rfl reached
    · rw [AList.lookup_insert_ne same] at found
      exact reliable.answered other op found reached

theorem reach [DecidableEq Compute] (reliable : live.Reliable replicas)
    (stepped : live.reach id .answered = some next) : next.Reliable replicas := by
  rcases reach_cases stepped with ⟨op, node, rest, found, remaining, rfl⟩
  constructor
  · exact reliable.serves
  · intro other otherOp otherFound target replica
    by_cases same : other = id
    · subst same
      rw [AList.lookup_insert] at otherFound
      cases otherFound
      have before := reliable.called other op found target replica
      rw [remaining, List.mem_cons] at before
      rcases before with (rfl | later) | earlier
      · exact Or.inr List.mem_cons_self
      · exact Or.inl later
      · exact Or.inr (List.mem_cons_of_mem _ earlier)
    · rw [AList.lookup_insert_ne same] at otherFound
      exact reliable.called other otherOp otherFound target replica
  · intro other otherOp otherFound reached
    by_cases same : other = id
    · subst same
      rw [AList.lookup_insert] at otherFound
      cases otherFound
      exact Bool.or_true _
    · rw [AList.lookup_insert_ne same] at otherFound
      exact reliable.answered other otherOp otherFound reached

/-- An operation that has made all its calls has reached all replicas. -/
theorem reached_all {op : ClientOp Compute} (reliable : live.Reliable replicas)
    (found : live.ops.lookup id = some op) (ended : op.remaining = []) {node : NodeId}
    (replica : node ∈ replicas id) : node ∈ op.reached := by
  have called := reliable.called id op found node replica
  rw [ended] at called
  exact called.resolve_left List.not_mem_nil

/-- No operation is given up. -/
theorem not_abandoned [DecidableEq Compute] (reliable : live.Reliable replicas)
    (serving : live.Serving replicas excused) (stepped : live.abandon id = some next) : False := by
  rcases abandon_cases stepped with ⟨op, found, ended, unanswered, _⟩
  rcases List.exists_mem_of_ne_nil _ (serving.opPresent id op found) with ⟨node, replica⟩
  have reached := reliable.reached_all found ended replica
  rw [reliable.answered id op found (List.ne_nil_of_mem reached)] at unanswered
  cases unanswered

end Reliable

end Live

end Seisin
