import Seisin.Migrate.Serving
import Seisin.Migrate.Tracking
import Seisin.Storage.RemoteStore

/-!
# No acknowledged write is lost

Up to the flip operations go to the old replicas, and from the flip on to the new ones.  What the
bulk copy and the dirty tail leave behind at the flip is that every new replica of a listed datum
holds what the source of its copy holds, which is the last acknowledged state unless the source is
behind.  A datum that was created after its node was listed is in no transfer; it survives the flip
only where the new ring assigns it no new replica.
-/

namespace Seisin

open Transition Migrate

namespace Live

/-- Two rings, the members the driver lists, the compute nodes it talks to, and the replication
factor of every datum. -/
structure Setting (Compute : Type) where
  hash : ℕ → ℕ → ℕ
  computes : List Compute
  current : List NodeId
  old : Ring
  new : Ring
  factor : DatumId → ℕ
  inRange : ∀ key slots, 0 < slots → hash key slots < slots
  everyone : ∀ compute, compute ∈ computes
  known : ∀ node ∈ old.nodeIds, node ∈ current

variable {Compute : Type} {live next : Live Compute}

namespace Setting

variable (setting : Setting Compute)

def oldReplicas (id : DatumId) : List NodeId :=
  setting.old.replicas setting.hash id (setting.factor id)

def newReplicas (id : DatumId) : List NodeId :=
  setting.new.replicas setting.hash id (setting.factor id)

/-- The driver is about to list the members; the old replicas that are not behind agree. -/
structure Started (live : Live Compute) : Prop where
  driver : live.driver = .listing setting.current none [] .empty
  rings : ∀ compute, live.rings compute = setting.old
  ops : live.ops = ∅
  thread : live.thread = none
  replicas : ∀ id, ∀ node ∈ setting.oldReplicas id, ¬live.behind node id = true →
    live.nodes.contents node id = live.latest id
  present : ∀ id, live.latest id ≠ none → setting.oldReplicas id ≠ []

/-- Nothing is stored where the old ring does not assign it, or under another factor. -/
structure Tidy (live : Live Compute) : Prop where
  assigned : ∀ node id, node ∉ setting.oldReplicas id → live.nodes.contents node id = none
  factors : ∀ node id payload, live.nodes.contents node id = some payload →
    payload.2 = setting.factor id

/-- The new members are alive.  Every value has a new replica, and is listed or has no replica it did
not have before.  No replica that a datum keeps is behind on it, nor is the first old replica of a
datum that gets a new one. -/
structure Covered (live : Live Compute) (enumeration : Enumeration) : Prop where
  alive : ∀ compute, ∀ node ∈ setting.new.nodeIds, live.alive compute node = true
  present : ∀ id, live.latest id ≠ none → setting.newReplicas id ≠ []
  listed : ∀ id, live.latest id ≠ none → (enumeration.idFactors.lookup id).isSome ∨
    ∀ node ∈ setting.newReplicas id, node ∈ setting.oldReplicas id
  kept : ∀ id, ∀ node ∈ setting.newReplicas id, node ∈ setting.oldReplicas id →
    live.behind node id = false
  sources : ∀ id, ∀ node ∈ setting.newReplicas id, node ∉ setting.oldReplicas id →
    ∀ source ∈ (setting.oldReplicas id).head?, live.behind source id = false

/-- The new ring is being installed, or is. -/
def Flipped : DriverState Compute → Prop
  | .installing _ _ | .resuming _ _ | .reclaiming _ => True
  | _ => False

/-- Operations on a datum use its factor, the sources read and reach the destinations, at the flip
every value is covered, and from then on clients' calls succeed and no node leaves. -/
def Allowed (live : Live Compute) : LiveLabel Compute → Prop
  | .begin _ id _ n => n = setting.factor id
  | .reach _ outcome => Flipped live.driver → outcome = .answered
  | .readFails _ _ => ¬Flipped live.driver
  | .gossip _ _ joins => Flipped live.driver → joins = true
  | .copyRead readable => readable = true
  | .copySend applied => applied = true
  | .drive _ fates => (∀ id, fates id = ⟨true, true⟩) ∧
      ∀ enumeration todo, live.driver = .installing enumeration todo →
        setting.Covered live enumeration
  | _ => True

/-- Every datum without an operation under way reads, at all its new replicas, what was last
acknowledged. -/
def Kept (live : Live Compute) : Prop :=
  ∀ id, live.ops.lookup id = none →
    (live.latest id ≠ none → setting.newReplicas id ≠ []) ∧
      ∀ node ∈ setting.newReplicas id, live.nodes.contents node id = live.latest id

/-! ## The invariant, by what the driver is doing -/

/-- A listing only has the factors of the datums. -/
def Listed (enumeration : Enumeration) : Prop :=
  ∀ id n, enumeration.idFactors.lookup id = some n → n = setting.factor id

/-- A listing of all current members. -/
structure Surveyed (enumeration : Enumeration) : Prop where
  reachable : enumeration.reachable = setting.current
  listed : setting.Listed enumeration

/-- Every compute node uses the old ring, whose replicas serve but for those that are behind. -/
structure Before (live : Live Compute) : Prop where
  rings : ∀ compute, live.rings compute = setting.old
  serving : live.Serving setting.oldReplicas fun node id => live.behind node id = true

/-- Every compute node uses the new ring, whose replicas all serve, and no copy is under way. -/
structure After (live : Live Compute) : Prop where
  rings : ∀ compute, live.rings compute = setting.new
  serving : live.Serving setting.newReplicas fun _ _ => False
  reliable : live.Reliable setting.newReplicas
  thread : live.thread = none

/-- The compute nodes are paused and have no operation under way. -/
structure Halted (live : Live Compute) : Prop where
  paused : ∀ compute, live.paused compute = true
  ops : ∀ id, live.ops.lookup id = none
  serving : live.Serving setting.oldReplicas fun node id => live.behind node id = true
  thread : live.thread = none

/-- Operations under way write values with the factors of their datums. -/
def Factored (live : Live Compute) : Prop :=
  ∀ id op payload, live.ops.lookup id = some op → op.state = some payload →
    payload.2 = setting.factor id

/-- How far the copies of the plan are. -/
abbrev CopiesAt (live : Live Compute) (enumeration : Enumeration)
    (unstarted : List (Σ _ : NodeId × NodeId, List DatumId))
    (opened : NodeId × NodeId → Option DatumId) (frozen : Prop) : Prop :=
  live.Copies setting.oldReplicas (moves setting.hash setting.old setting.new enumeration)
    unstarted opened frozen

def Phase (live : Live Compute) : DriverState Compute → Prop
  | .listing members _ gathered enumeration =>
      setting.Before live ∧ setting.Tidy live ∧ live.thread = none ∧
        enumeration.reachable ++ members = setting.current ∧ setting.Listed enumeration ∧
        (∀ entry ∈ gathered, entry.2 = setting.factor entry.1) ∧ setting.Factored live
  | .copying enumeration pairs polling transfers =>
      setting.Before live ∧ setting.Surveyed enumeration ∧
        setting.CopiesAt live enumeration pairs transfers.lookup False ∧
        ∀ thread, live.thread = some thread → polling = some (thread.source, thread.dest)
  | .pausing enumeration todo transfers =>
      setting.Before live ∧ setting.Surveyed enumeration ∧
        setting.CopiesAt live enumeration [] transfers.lookup False ∧ live.thread = none ∧
        ∀ compute, compute ∈ todo ∨ live.paused compute = true
  | .finishing enumeration todo =>
      setting.Halted live ∧ setting.Surveyed enumeration ∧ todo.NodupKeys ∧
        setting.CopiesAt live enumeration [] (fun pair => todo.dlookup pair) True
  | .installing enumeration todo =>
      setting.Halted live ∧ setting.Surveyed enumeration ∧
        setting.CopiesAt live enumeration [] (fun _ => none) True ∧
        ∀ compute, compute ∈ todo ∨ live.rings compute = setting.new ∧
          ∀ node ∈ setting.new.nodeIds, live.stale compute node = false
  | .resuming enumeration _ => setting.After live ∧ setting.Surveyed enumeration
  | .reclaiming drops =>
      setting.After live ∧ ∀ drop ∈ drops, drop.1 ∉ setting.newReplicas drop.2

structure Invariant (live : Live Compute) : Prop where
  running : ∀ id op, live.ops.lookup id = some op → live.paused op.compute = false
  phase : setting.Phase live live.driver

variable {setting}

theorem find?_eq_head? {nodes : List NodeId} {answers : NodeId → Bool}
    (all : ∀ node ∈ nodes, answers node = true) : nodes.find? answers = nodes.head? := by
  cases nodes with
  | nil => rfl
  | cons node nodes => exact List.find?_cons_of_pos (all node List.mem_cons_self)

/-- Every member has answered, so a copy is planned from the first old replica. -/
theorem mem_moves_iff {enumeration : Enumeration} (surveyed : setting.Surveyed enumeration)
    {move : Move} : move ∈ moves setting.hash setting.old setting.new enumeration ↔
      (enumeration.idFactors.lookup move.id).isSome ∧
        (setting.oldReplicas move.id).head? = some move.source ∧
        move.dest ∈ setting.newReplicas move.id ∧ move.dest ∉ setting.oldReplicas move.id := by
  have answered : (setting.oldReplicas move.id).find? (fun node => node ∈ enumeration.reachable) =
      (setting.oldReplicas move.id).head? := by
    apply find?_eq_head?
    intro node replica
    rw [surveyed.reachable]
    exact decide_eq_true (setting.known node
      (Ring.mem_nodeIds_of_mem_replicas setting.inRange replica))
  rw [mem_moves]
  constructor
  · rintro ⟨n, looked, found, isNew, notOld⟩
    have factor := surveyed.listed move.id n looked
    subst factor
    exact ⟨by simp [looked], answered.symm.trans found, isNew, notOld⟩
  · rintro ⟨known, found, isNew, notOld⟩
    rcases Option.isSome_iff_exists.mp known with ⟨n, looked⟩
    have factor := surveyed.listed move.id n looked
    subst factor
    exact ⟨setting.factor move.id, looked, answered.trans found, isNew, notOld⟩

theorem planned_moves {enumeration : Enumeration} (surveyed : setting.Surveyed enumeration) :
    Planned setting.oldReplicas
      (moves setting.hash setting.old setting.new enumeration) where
  source := fun _ moveMem => List.mem_of_head? ((mem_moves_iff surveyed).mp moveMem).2.1
  dest := fun _ moveMem => ((mem_moves_iff surveyed).mp moveMem).2.2.2
  unique := (separate_moves setting.hash setting.old setting.new enumeration).source

theorem Started.invariant (started : setting.Started live) (tidy : setting.Tidy live) :
    setting.Invariant live where
  running := by
    intro id op found
    rw [started.ops] at found
    cases found
  phase := by
    have idle : ∀ id, live.ops.lookup id = none := by
      intro id
      rw [started.ops]
      rfl
    rw [started.driver]
    refine ⟨⟨started.rings, .switch idle started.present started.replicas⟩, tidy, started.thread,
      rfl, ?_, ?_, ?_⟩
    · intro id n known
      cases known
    · intro entry entryMem
      cases entryMem
    · intro id op payload found
      rw [idle] at found
      cases found

/-! ## Operations -/

/-- A write of a datum at a replica leaves everything stored where it belongs. -/
theorem Tidy.send {id : DatumId} {node : NodeId} {applied : Bool}
    {state : Option (Bytes × ℕ)} (tidy : setting.Tidy live) (replica : node ∈ setting.oldReplicas id)
    (factor : ∀ payload, state = some payload → payload.2 = setting.factor id)
    (nodes : next.nodes = live.nodes.send node id state applied) : setting.Tidy next where
  assigned := by
    intro other otherId outside
    have differ : ¬(other = node ∧ otherId = id ∧ applied = true) := by
      rintro ⟨rfl, rfl, _⟩
      exact outside replica
    rw [nodes, StorageNodes.contents_send, if_neg differ]
    exact tidy.assigned other otherId outside
  factors := by
    intro other otherId payload held
    rw [nodes, StorageNodes.contents_send] at held
    split at held
    · rename_i same
      rw [same.2.1]
      exact factor payload held
    · exact tidy.factors other otherId payload held

section Operations

variable {id : DatumId}

theorem Before.begin [DecidableEq Compute] {compute : Compute} {content : Option Bytes}
    (before : setting.Before live)
    (stepped : live.begin setting.hash compute id content (setting.factor id) = some next) :
    setting.Before next := by
  have ring : (live.rings compute).replicas setting.hash id (setting.factor id) =
      setting.oldReplicas id := by
    rw [before.rings]
    rfl
  have serving := before.serving.begin ring stepped
  rcases begin_cases stepped with ⟨_, _, ⟨_, rfl⟩ | ⟨_, rfl⟩⟩
  · exact ⟨before.rings, serving⟩
  · exact ⟨before.rings, serving⟩

theorem Before.reach [DecidableEq Compute] {outcome : CallOutcome} (before : setting.Before live)
    (stepped : live.reach id outcome = some next) : setting.Before next := by
  have serving := before.serving.reach stepped
  rcases reach_cases stepped with ⟨op, node, rest, _, _, rfl⟩
  exact ⟨before.rings, serving⟩

/-- The replicas that an acknowledged operation has missed are behind. -/
theorem Before.acknowledge (before : setting.Before live)
    (stepped : live.acknowledge id = some next) : setting.Before next := by
  rcases acknowledge_cases stepped with ⟨op, found, _, nextEq⟩
  constructor
  · rw [nextEq]
    exact before.rings
  · apply before.serving.acknowledge stepped
    · intro same sameFound node _ unreached
      rw [found, Option.some.injEq] at sameFound
      subst sameFound
      simp [nextEq, unreached]
    · intro node other differ behind
      simpa [nextEq, differ] using behind

/-- The replicas that an abandoned operation has reached are behind. -/
theorem Before.abandon [DecidableEq Compute] (before : setting.Before live)
    (stepped : live.abandon id = some next) : setting.Before next := by
  rcases abandon_cases stepped with ⟨op, found, _, _, nextEq⟩
  constructor
  · rw [nextEq]
    exact before.rings
  · apply before.serving.abandon stepped
    · intro same sameFound node reached
      rw [found, Option.some.injEq] at sameFound
      subst sameFound
      simp [nextEq, reached]
    · intro node other behind
      simp [nextEq, behind]

theorem After.begin [DecidableEq Compute] {compute : Compute} {content : Option Bytes}
    (after : setting.After live)
    (stepped : live.begin setting.hash compute id content (setting.factor id) = some next) :
    setting.After next := by
  have ring : (live.rings compute).replicas setting.hash id (setting.factor id) =
      setting.newReplicas id := by
    rw [after.rings]
    rfl
  have serving := after.serving.begin ring stepped
  have reliable := after.reliable.begin ring stepped
  rcases begin_cases stepped with ⟨_, _, ⟨_, rfl⟩ | ⟨_, rfl⟩⟩
  · exact ⟨after.rings, serving, reliable, after.thread⟩
  · exact ⟨after.rings, serving, reliable, after.thread⟩

theorem After.reach [DecidableEq Compute] (after : setting.After live)
    (stepped : live.reach id .answered = some next) : setting.After next := by
  have serving := after.serving.reach stepped
  have reliable := after.reliable.reach stepped
  rcases reach_cases stepped with ⟨op, node, rest, _, _, rfl⟩
  exact ⟨after.rings, serving, reliable, after.thread⟩

theorem After.acknowledge (after : setting.After live)
    (stepped : live.acknowledge id = some next) : setting.After next := by
  rcases acknowledge_cases stepped with ⟨op, found, ended, nextEq⟩
  have serving : next.Serving setting.newReplicas fun _ _ => False := by
    apply after.serving.acknowledge stepped
    · intro same sameFound node replica unreached
      rw [found, Option.some.injEq] at sameFound
      subst sameFound
      exact unreached (after.reliable.reached_all found ended replica)
    · exact fun _ _ _ excuse => excuse
  subst nextEq
  exact ⟨after.rings, serving, after.reliable.erase rfl rfl, after.thread⟩

/-- A step of a client, which is not one of a cluster that is paused as a whole. -/
theorem Invariant.ofClient (holds : setting.Invariant live) (driver : next.driver = live.driver)
    (thread : next.thread = live.thread) (paused : next.paused = live.paused)
    (active : ∃ compute, live.paused compute = false)
    (running : ∀ other op, next.ops.lookup other = some op → live.paused op.compute = false)
    (before : setting.Before live → setting.Before next)
    (after : Flipped live.driver → setting.After live → setting.After next)
    (tidy : setting.Before live → setting.Tidy live → setting.Factored live →
      setting.Tidy next ∧ setting.Factored next)
    (copies : ∀ enumeration pairs (transfers : AList fun _ : NodeId × NodeId => DatumId),
      setting.Before live → setting.Surveyed enumeration →
      setting.CopiesAt live enumeration pairs transfers.lookup False →
      setting.CopiesAt next enumeration pairs transfers.lookup False) :
    setting.Invariant next := by
  have notHalted : ¬setting.Halted live := by
    rcases active with ⟨compute, runs⟩
    intro halted
    rw [halted.paused] at runs
    cases runs
  constructor
  · rw [paused]
    exact running
  rw [driver]
  suffices advance : ∀ state, (Flipped state → setting.After live → setting.After next) →
      setting.Phase live state → setting.Phase next state from
    advance _ after holds.phase
  intro state after phase
  cases state with
  | listing members last gathered enumeration =>
      rcases phase with ⟨old, kept, idle, reachable, listed, gatheredOk, factors⟩
      rcases tidy old kept factors with ⟨keptNext, factorsNext⟩
      exact ⟨before old, keptNext, thread.trans idle, reachable, listed, gatheredOk, factorsNext⟩
  | copying enumeration pairs polling transfers =>
      rcases phase with ⟨old, surveyed, at_, runs⟩
      refine ⟨before old, surveyed, copies _ _ _ old surveyed at_, ?_⟩
      rw [thread]
      exact runs
  | pausing enumeration todo transfers =>
      rcases phase with ⟨old, surveyed, at_, idle, halted⟩
      refine ⟨before old, surveyed, copies _ _ _ old surveyed at_, thread.trans idle, ?_⟩
      rw [paused]
      exact halted
  | finishing enumeration todo => exact absurd phase.1 notHalted
  | installing enumeration todo => exact absurd phase.1 notHalted
  | resuming enumeration todo => exact ⟨after trivial phase.1, phase.2⟩
  | reclaiming drops => exact ⟨after trivial phase.1, phase.2⟩

theorem Invariant.begin [DecidableEq Compute] {compute : Compute} {content : Option Bytes}
    (holds : setting.Invariant live)
    (stepped : live.begin setting.hash compute id content (setting.factor id) = some next) :
    setting.Invariant next := by
  have begun := stepped
  rcases begin_cases stepped with ⟨running, _, ⟨_, rfl⟩ | ⟨_, rfl⟩⟩
  · refine holds.ofClient rfl rfl rfl ⟨compute, running⟩ holds.running ?_ ?_ ?_ ?_
    · exact fun before => before.begin begun
    · exact fun _ after => after.begin begun
    · exact fun _ tidy factors => ⟨⟨tidy.1, tidy.2⟩, factors⟩
    · exact fun _ _ _ _ _ copies => copies.frame rfl rfl
  · refine holds.ofClient rfl rfl rfl ⟨compute, running⟩ ?_ ?_ ?_ ?_ ?_
    · intro other op found
      by_cases same : other = id
      · subst same
        rw [AList.lookup_insert] at found
        cases found
        exact running
      · rw [AList.lookup_insert_ne same] at found
        exact holds.running other op found
    · exact fun before => before.begin begun
    · exact fun _ after => after.begin begun
    · intro _ tidy factors
      refine ⟨⟨tidy.1, tidy.2⟩, ?_⟩
      intro other op payload found state
      by_cases same : other = id
      · subst same
        rw [AList.lookup_insert] at found
        cases found
        rcases Option.map_eq_some_iff.mp state with ⟨bytes, _, rfl⟩
        rfl
      · rw [AList.lookup_insert_ne same] at found
        exact factors other op payload found state
    · exact fun _ _ _ _ _ copies => copies.frame rfl rfl

theorem Invariant.reach [DecidableEq Compute] {outcome : CallOutcome}
    (holds : setting.Invariant live) (answered : Flipped live.driver → outcome = .answered)
    (stepped : live.reach id outcome = some next) : setting.Invariant next := by
  have reached := stepped
  rcases reach_cases stepped with ⟨op, node, rest, found, remaining, rfl⟩
  have target : node ∈ op.remaining := by
    rw [remaining]
    exact List.mem_cons_self
  have inserted : ∀ {state : ClientOp Compute} {other : DatumId} {otherOp : ClientOp Compute},
      (live.ops.insert id state).lookup other = some otherOp →
        other = id ∧ otherOp = state ∨ live.ops.lookup other = some otherOp := by
    intro state other otherOp otherFound
    by_cases same : other = id
    · subst same
      rw [AList.lookup_insert, Option.some.injEq] at otherFound
      exact Or.inl ⟨rfl, otherFound.symm⟩
    · rw [AList.lookup_insert_ne same] at otherFound
      exact Or.inr otherFound
  refine holds.ofClient rfl rfl rfl ⟨op.compute, holds.running id op found⟩ ?_ ?_ ?_ ?_ ?_
  · intro other otherOp otherFound
    rcases inserted otherFound with ⟨_, rfl⟩ | unchanged
    · exact holds.running id op found
    · exact holds.running other otherOp unchanged
  · exact fun before => before.reach reached
  · intro flipped after
    have succeeded : outcome = .answered := answered flipped
    subst succeeded
    exact after.reach reached
  · intro before tidy factors
    refine ⟨tidy.send (before.serving.targets id op found node target)
      (fun payload => factors id op payload found) rfl, ?_⟩
    intro other otherOp payload otherFound state
    rcases inserted otherFound with ⟨rfl, rfl⟩ | unchanged
    · exact factors other op payload found state
    · exact factors other otherOp payload unchanged state
  · intro enumeration pairs transfers before surveyed copies
    exact copies.write (planned_moves surveyed) (before.serving.targets id op found node target)
      rfl rfl

theorem Invariant.acknowledge (holds : setting.Invariant live)
    (stepped : live.acknowledge id = some next) : setting.Invariant next := by
  have acknowledged := stepped
  rcases acknowledge_cases stepped with ⟨op, found, _, rfl⟩
  refine holds.ofClient rfl rfl rfl ⟨op.compute, holds.running id op found⟩ ?_ ?_ ?_ ?_ ?_
  · exact fun other otherOp otherFound =>
      holds.running other otherOp (lookup_erase_some otherFound).2
  · exact fun before => before.acknowledge acknowledged
  · exact fun _ after => after.acknowledge acknowledged
  · exact fun _ tidy factors => ⟨⟨tidy.1, tidy.2⟩, fun other otherOp payload otherFound =>
      factors other otherOp payload (lookup_erase_some otherFound).2⟩
  · exact fun _ _ _ _ _ copies => copies.frame rfl rfl

theorem Invariant.abandon [DecidableEq Compute] (holds : setting.Invariant live)
    (stepped : live.abandon id = some next) : setting.Invariant next := by
  have abandoned := stepped
  rcases abandon_cases stepped with ⟨op, found, _, _, rfl⟩
  refine holds.ofClient rfl rfl rfl ⟨op.compute, holds.running id op found⟩ ?_ ?_ ?_ ?_ ?_
  · exact fun other otherOp otherFound =>
      holds.running other otherOp (lookup_erase_some otherFound).2
  · exact fun before => before.abandon abandoned
  · exact fun _ after => (after.reliable.not_abandoned after.serving abandoned).elim
  · exact fun _ tidy factors => ⟨⟨tidy.1, tidy.2⟩, fun other otherOp payload otherFound =>
      factors other otherOp payload (lookup_erase_some otherFound).2⟩
  · exact fun _ _ _ _ _ copies => copies.frame rfl rfl

/-- Which nodes a compute node takes to be alive or stale matters for nothing before the flip; later
on there are to be no fewer that are called. -/
theorem Invariant.exclude {alive stale : Compute → NodeId → Bool} (holds : setting.Invariant live)
    (marks : Flipped live.driver → stale = live.stale ∧
      ∀ compute node, live.alive compute node = true → alive compute node = true) :
    setting.Invariant { live with alive := alive, stale := stale } := by
  refine ⟨holds.running, ?_⟩
  suffices advance : ∀ state, (Flipped state → stale = live.stale ∧
      ∀ compute node, live.alive compute node = true → alive compute node = true) →
      setting.Phase live state → setting.Phase { live with alive := alive, stale := stale } state from
    advance _ marks holds.phase
  intro state marks phase
  have old : setting.Before live → setting.Before { live with alive := alive, stale := stale } :=
    fun before => ⟨before.rings, before.serving.frame (fun _ _ _ => rfl) rfl rfl⟩
  have new : Flipped state → setting.After live →
      setting.After { live with alive := alive, stale := stale } := by
    intro flipped after
    rcases marks flipped with ⟨rfl, grows⟩
    refine ⟨after.rings, after.serving.frame (fun _ _ _ => rfl) rfl rfl,
      after.reliable.frame ?_ rfl, after.thread⟩
    intro compute node served
    rw [serves, Bool.and_eq_true] at served ⊢
    exact ⟨grows compute node served.1, served.2⟩
  cases state with
  | listing members last gathered enumeration =>
      rcases phase with ⟨before, tidy, rest⟩
      exact ⟨old before, ⟨tidy.1, tidy.2⟩, rest⟩
  | copying enumeration pairs polling transfers =>
      rcases phase with ⟨before, surveyed, copies, thread⟩
      exact ⟨old before, surveyed, copies.frame rfl rfl, thread⟩
  | pausing enumeration todo transfers =>
      rcases phase with ⟨before, surveyed, copies, thread, paused⟩
      exact ⟨old before, surveyed, copies.frame rfl rfl, thread, paused⟩
  | finishing enumeration todo =>
      rcases phase with ⟨halted, surveyed, keys, copies⟩
      exact ⟨⟨halted.paused, halted.ops, halted.serving.frame (fun _ _ _ => rfl) rfl rfl,
        halted.thread⟩, surveyed, keys, copies.frame rfl rfl⟩
  | installing enumeration todo =>
      rcases phase with ⟨halted, surveyed, copies, installed⟩
      rcases marks trivial with ⟨rfl, _⟩
      exact ⟨⟨halted.paused, halted.ops, halted.serving.frame (fun _ _ _ => rfl) rfl rfl,
        halted.thread⟩, surveyed, copies.frame rfl rfl, installed⟩
  | resuming enumeration todo => exact ⟨new trivial phase.1, phase.2⟩
  | reclaiming drops => exact ⟨new trivial phase.1, phase.2⟩

theorem Invariant.gossip [DecidableEq Compute] {compute : Compute} {node : NodeId} {joins : Bool}
    (holds : setting.Invariant live) (stays : Flipped live.driver → joins = true) :
    setting.Invariant (live.gossip compute node joins) := by
  apply holds.exclude
  intro flipped
  rw [stays flipped]
  refine ⟨rfl, ?_⟩
  intro other member alive
  by_cases same : other = compute
  · subst same
    rw [Function.update_self, Function.update_apply]
    split
    · rfl
    · exact alive
  · rwa [Function.update_of_ne same]

end Operations

/-! ## Changes elsewhere -/

theorem Before.frame (before : setting.Before live) (rings : next.rings = live.rings)
    (contents : ∀ id, ∀ node ∈ setting.oldReplicas id,
      next.nodes.contents node id = live.nodes.contents node id)
    (ops : next.ops = live.ops) (latest : next.latest = live.latest)
    (behind : next.behind = live.behind) : setting.Before next where
  rings := by
    rw [rings]
    exact before.rings
  serving := by
    rw [behind]
    exact before.serving.frame contents ops latest

theorem After.frame (after : setting.After live) (rings : next.rings = live.rings)
    (contents : ∀ id, ∀ node ∈ setting.newReplicas id,
      next.nodes.contents node id = live.nodes.contents node id)
    (ops : next.ops = live.ops) (latest : next.latest = live.latest)
    (serves : next.serves = live.serves) (thread : next.thread = live.thread) :
    setting.After next where
  rings := by
    rw [rings]
    exact after.rings
  serving := after.serving.frame contents ops latest
  reliable := by
    refine after.reliable.frame ?_ ops
    intro compute node served
    rwa [serves]
  thread := thread.trans after.thread

theorem Halted.frame (halted : setting.Halted live) (paused : next.paused = live.paused)
    (contents : ∀ id, ∀ node ∈ setting.oldReplicas id,
      next.nodes.contents node id = live.nodes.contents node id)
    (ops : next.ops = live.ops) (latest : next.latest = live.latest)
    (behind : next.behind = live.behind) (thread : next.thread = live.thread) :
    setting.Halted next where
  paused := by
    rw [paused]
    exact halted.paused
  ops := by
    rw [ops]
    exact halted.ops
  serving := by
    rw [behind]
    exact halted.serving.frame contents ops latest
  thread := thread.trans halted.thread

/-! ## The copy thread -/

/-- What every step of the copy thread leaves alone. -/
structure ThreadStep (live next : Live Compute) : Prop where
  runs : live.thread ≠ none
  rings : next.rings = live.rings
  alive : next.alive = live.alive
  paused : next.paused = live.paused
  ops : next.ops = live.ops
  driver : next.driver = live.driver
  latest : next.latest = live.latest
  behind : next.behind = live.behind
  ends : ∀ later, next.thread = some later → ∃ thread, live.thread = some thread ∧
    later.source = thread.source ∧ later.dest = thread.dest

/-- The copy thread keeps the invariant if it keeps the copies and leaves the old replicas alone. -/
theorem Invariant.ofThread (holds : setting.Invariant live) (step : ThreadStep live next)
    (kept : ∀ enumeration pairs (transfers : AList fun _ : NodeId × NodeId => DatumId),
      setting.Surveyed enumeration →
      setting.CopiesAt live enumeration pairs transfers.lookup False →
      setting.CopiesAt next enumeration pairs transfers.lookup False ∧
        ∀ id, ∀ node ∈ setting.oldReplicas id,
          next.nodes.contents node id = live.nodes.contents node id) :
    setting.Invariant next := by
  constructor
  · rw [step.ops, step.paused]
    exact holds.running
  · rw [step.driver]
    suffices advance : ∀ state, setting.Phase live state → setting.Phase next state from
      advance _ holds.phase
    intro state phase
    cases state with
    | copying enumeration pairs polling transfers =>
        rcases phase with ⟨old, surveyed, copies, thread⟩
        rcases kept enumeration pairs transfers surveyed copies with ⟨copiesNext, contents⟩
        refine ⟨old.frame step.rings contents step.ops step.latest step.behind, surveyed, copiesNext, ?_⟩
        intro later runs
        rcases step.ends later runs with ⟨earlier, ranEarlier, source, dest⟩
        rw [source, dest]
        exact thread earlier ranEarlier
    | listing members after gathered enumeration =>
        exact absurd phase.2.2.1 step.runs
    | pausing enumeration todo transfers =>
        exact absurd phase.2.2.2.1 step.runs
    | finishing enumeration todo =>
        exact absurd phase.1.thread step.runs
    | installing enumeration todo =>
        exact absurd phase.1.thread step.runs
    | resuming enumeration todo =>
        exact absurd phase.1.thread step.runs
    | reclaiming drops =>
        exact absurd phase.1.thread step.runs

theorem copyRead_spec {readable : Bool} (stepped : live.copyRead readable = some next) :
    ThreadStep live next ∧ next.nodes.contents = live.nodes.contents := by
  rcases copyRead_cases stepped with ⟨thread, id, rest, runs, _, _, ⟨payload, _, rfl⟩ | ⟨_, rfl⟩⟩
  · refine ⟨⟨by simp [runs], rfl, rfl, rfl, rfl, rfl, rfl, rfl, ?_⟩, rfl⟩
    intro later laterEq
    cases laterEq
    exact ⟨thread, runs, rfl, rfl⟩
  · refine ⟨⟨by simp [runs], rfl, rfl, rfl, rfl, rfl, rfl, rfl, ?_⟩, live.nodes.contents_update _ rfl⟩
    intro later laterEq
    cases laterEq
    exact ⟨thread, runs, rfl, rfl⟩

theorem Invariant.copyRead (holds : setting.Invariant live)
    (stepped : live.copyRead true = some next) : setting.Invariant next := by
  rcases copyRead_spec stepped with ⟨step, contents⟩
  apply holds.ofThread step
  intro enumeration pairs transfers surveyed copies
  refine ⟨copies.copyRead stepped, ?_⟩
  intro id node _
  rw [contents]

theorem copySend_spec {applied : Bool} (stepped : live.copySend applied = some next) :
    ThreadStep live next ∧ ∃ thread id payload, live.thread = some thread ∧
      thread.task.sending = some (id, payload) ∧
      next.nodes.contents =
        (live.nodes.send thread.dest id (some payload) applied).contents := by
  rcases copySend_cases stepped with ⟨thread, id, payload, runs, sending, rfl⟩
  refine ⟨⟨by simp [runs], rfl, rfl, rfl, rfl, rfl, rfl, rfl, ?_⟩, thread, id, payload, runs, sending,
    StorageNodes.contents_update _ _ rfl⟩
  intro later laterEq
  cases laterEq
  exact ⟨thread, runs, rfl, rfl⟩

theorem Invariant.copySend (holds : setting.Invariant live)
    (stepped : live.copySend true = some next) : setting.Invariant next := by
  rcases copySend_spec stepped with ⟨step, thread, sent, payload, runs, sending, contents⟩
  apply holds.ofThread step
  intro enumeration pairs transfers surveyed copies
  have plan := planned_moves surveyed
  refine ⟨copies.copySend plan stepped, ?_⟩
  intro id node replica
  have pending : sent ∈ thread.task.pending := by simp [CopyTask.pending, sending]
  have planned := copies.pending_planned runs pending
  have differ : ¬(node = thread.dest ∧ id = sent ∧ true = true) := by
    rintro ⟨rfl, rfl, _⟩
    exact plan.dest _ planned replica
  rw [contents, StorageNodes.contents_send, if_neg differ]

theorem copyDone_spec (stepped : live.copyDone = some next) :
    ThreadStep live next ∧ next.nodes.contents = live.nodes.contents := by
  rcases copyDone_cases stepped with ⟨thread, runs, _, _, rfl⟩
  refine ⟨⟨by simp [runs], rfl, rfl, rfl, rfl, rfl, rfl, rfl, ?_⟩, live.nodes.contents_update _ rfl⟩
  intro later laterEq
  cases laterEq

theorem Invariant.copyDone (holds : setting.Invariant live)
    (stepped : live.copyDone = some next) : setting.Invariant next := by
  rcases copyDone_spec stepped with ⟨step, contents⟩
  apply holds.ofThread step
  intro enumeration pairs transfers surveyed copies
  refine ⟨copies.copyDone stepped, ?_⟩
  intro id node _
  rw [contents]

/-! ## The driver -/

/-- A page lists datums of the node with the factors stored for them. -/
theorem Tidy.listPage (tidy : setting.Tidy live) {node : NodeId} {after : Option DatumId} :
    ∀ entry ∈ (live.nodes node).log.listIds after pageLen,
      entry.2 = setting.factor entry.1 := by
  intro entry entryMem
  rw [Content.listIds, indexedIds_eq_window] at entryMem
  rcases List.mem_map.mp entryMem with ⟨id, idMem, rfl⟩
  have key : id ∈ (live.nodes node).log.keys := by
    have sorted := (List.mem_filter.mp (List.mem_of_mem_take idMem)).1
    rwa [List.mem_insertionSort] at sorted
  rw [← AList.mem_keys, ← AList.lookup_isSome, Option.isSome_iff_exists] at key
  rcases key with ⟨payload, found⟩
  simp only [found, Option.map_some, Option.getD_some]
  exact tidy.factors node id payload found

theorem Listed.record {enumeration : Enumeration} (listed : setting.Listed enumeration)
    {node : NodeId} {page : List (DatumId × ℕ)}
    (factors : ∀ entry ∈ page, entry.2 = setting.factor entry.1) :
    setting.Listed (enumeration.record node (some page)) := by
  intro id n known
  rcases lookup_extend known with onPage | before
  · exact factors (id, n) onPage
  · exact listed id n before

/-- A step of the driver that only moves it on. -/
theorem Invariant.advance {state : DriverState Compute} (holds : setting.Invariant live)
    (phase : setting.Phase { live with driver := state } state) :
    setting.Invariant { live with driver := state } where
  running := holds.running
  phase := phase

theorem Invariant.listPage [DecidableEq Compute] {node : NodeId} {members : List NodeId}
    {after : Option DatumId} {gathered : List (DatumId × ℕ)} {enumeration : Enumeration}
    (holds : setting.Invariant live)
    (driver : live.driver = .listing (node :: members) after gathered enumeration) :
    setting.Invariant (live.listPage node members after gathered enumeration) := by
  have phase := holds.phase
  rw [driver] at phase
  rcases phase with ⟨old, tidy, thread, reachable, listed, gatheredOk, factors⟩
  have onPages : ∀ entry ∈ gathered ++ (live.nodes node).log.listIds after pageLen,
      entry.2 = setting.factor entry.1 := by
    intro entry entryMem
    rcases List.mem_append.mp entryMem with before | now
    · exact gatheredOk entry before
    · exact tidy.listPage entry now
  unfold Live.listPage
  dsimp only
  split
  · apply holds.advance
    refine ⟨old.frame rfl (fun _ _ _ => rfl) rfl rfl rfl, ⟨tidy.1, tidy.2⟩, thread, ?_,
      listed.record onPages, ?_, factors⟩
    · simpa [Enumeration.record] using reachable
    · intro entry entryMem
      cases entryMem
  · apply holds.advance
    exact ⟨old.frame rfl (fun _ _ _ => rfl) rfl rfl rfl, ⟨tidy.1, tidy.2⟩, thread, reachable, listed,
      onPages, factors⟩

/-- When the listing is complete no copy of the plan is begun. -/
theorem Tidy.copies {enumeration : Enumeration} (tidy : setting.Tidy live)
    (surveyed : setting.Surveyed enumeration) (thread : live.thread = none) :
    setting.CopiesAt live enumeration
      (byPair (moves setting.hash setting.old setting.new enumeration)).entries
      (∅ : AList fun _ : NodeId × NodeId => DatumId).lookup False where
  keys := AList.nodupKeys _
  fresh := fun _ _ => rfl
  inPlan := fun entry entryMem _ idMem => mem_byPair.mpr ⟨entry, entryMem, rfl, idMem⟩
  transfers := by
    intro pair transferId opened
    cases opened
  clean := fun node id outside _ => tidy.assigned node id outside
  moves := by
    intro move moveMem
    rcases mem_byPair.mp moveMem with ⟨entry, entryMem, pair, idMem⟩
    exact Or.inl ⟨entry, entryMem, pair, idMem,
      tidy.assigned _ _ ((planned_moves surveyed).dest move moveMem)⟩
  thread := by
    intro running runs
    rw [thread] at runs
    cases runs

theorem Invariant.survey {after : Option DatumId} {gathered : List (DatumId × ℕ)}
    {enumeration : Enumeration} (holds : setting.Invariant live)
    (driver : live.driver = .listing [] after gathered enumeration) :
    setting.Invariant { live with
      driver := .copying enumeration
        (byPair (moves setting.hash setting.old setting.new enumeration)).entries none ∅ } := by
  have phase := holds.phase
  rw [driver] at phase
  rcases phase with ⟨old, tidy, thread, reachable, listed, _, _⟩
  have surveyed : setting.Surveyed enumeration := ⟨by simpa using reachable, listed⟩
  apply holds.advance
  refine ⟨old.frame rfl (fun _ _ _ => rfl) rfl rfl rfl, surveyed,
    (tidy.copies surveyed thread).frame rfl rfl, ?_⟩
  intro running runs
  rw [thread] at runs
  cases runs

theorem Invariant.startTransfer [DecidableEq Compute] {enumeration : Enumeration}
    {pair : NodeId × NodeId} {ids : List DatumId}
    {pairs : List (Σ _ : NodeId × NodeId, List DatumId)}
    {transfers : AList (fun _ : NodeId × NodeId => DatumId)} {transferId : DatumId}
    (holds : setting.Invariant live)
    (driver : live.driver = .copying enumeration (⟨pair, ids⟩ :: pairs) none transfers)
    (stepped : live.startTransfer enumeration pair ids pairs transfers transferId = some next) :
    setting.Invariant next := by
  have phase := holds.phase
  rw [driver] at phase
  rcases phase with ⟨old, surveyed, copies, _⟩
  rcases copies.start stepped with ⟨copiesNext, rfl⟩
  refine ⟨holds.running, old.frame rfl ?_ rfl rfl rfl, surveyed, copiesNext, ?_⟩
  · intro id node _
    rw [StorageNodes.contents_update live.nodes pair.1 (StorageNode.log_start _ _ _ _)]
  · intro running runs
    cases runs
    rfl

/-- A copy whose transfer is done has ended. -/
theorem Invariant.poll [DecidableEq Compute] {enumeration : Enumeration} {pair : NodeId × NodeId}
    {pairs : List (Σ _ : NodeId × NodeId, List DatumId)}
    {transfers : AList (fun _ : NodeId × NodeId => DatumId)} (holds : setting.Invariant live)
    (driver : live.driver = .copying enumeration pairs (some pair) transfers)
    (stepped : live.poll enumeration pair pairs transfers = some next) :
    setting.Invariant next := by
  have phase := holds.phase
  rw [driver] at phase
  rcases phase with ⟨old, surveyed, copies, polled⟩
  unfold Live.poll at stepped
  split at stepped
  · rename_i copied dirty status
    cases stepped
    apply holds.advance
    refine ⟨old.frame rfl (fun _ _ _ => rfl) rfl rfl rfl, surveyed, copies.frame rfl rfl, ?_⟩
    intro running runs
    have ok := copies.thread running runs
    have same := polled running runs
    rcases ok.transfer with ⟨transfer, found, notDone, _⟩
    cases same
    simp only [ok.opened, Option.bind_some, StorageNode.status, found, Option.map_some,
      Option.some.injEq, Prod.mk.injEq, notDone, reduceCtorEq, and_false] at status
  · cases stepped

theorem Invariant.copied {enumeration : Enumeration}
    {transfers : AList (fun _ : NodeId × NodeId => DatumId)} (holds : setting.Invariant live)
    (driver : live.driver = .copying enumeration [] none transfers) :
    setting.Invariant { live with driver := .pausing enumeration setting.computes transfers } := by
  have phase := holds.phase
  rw [driver] at phase
  rcases phase with ⟨old, surveyed, copies, polled⟩
  apply holds.advance
  refine ⟨old.frame rfl (fun _ _ _ => rfl) rfl rfl rfl, surveyed, copies.frame rfl rfl, ?_,
    fun compute => Or.inl (setting.everyone compute)⟩
  cases runs : live.thread with
  | none => rfl
  | some running => cases polled running runs

theorem Invariant.pause [DecidableEq Compute] {enumeration : Enumeration} {compute : Compute}
    {rest : List Compute} {transfers : AList (fun _ : NodeId × NodeId => DatumId)}
    (holds : setting.Invariant live)
    (driver : live.driver = .pausing enumeration (compute :: rest) transfers)
    (drained : ¬live.ops.entries.any (fun op => op.2.compute = compute) = true) :
    setting.Invariant { live with
      paused := Function.update live.paused compute true
      driver := .pausing enumeration rest transfers } := by
  have phase := holds.phase
  rw [driver] at phase
  rcases phase with ⟨old, surveyed, copies, thread, paused⟩
  refine ⟨?_, old.frame rfl (fun _ _ _ => rfl) rfl rfl rfl, surveyed, copies.frame rfl rfl, thread, ?_⟩
  · intro id op found
    have elsewhere : op.compute ≠ compute := by
      intro here
      apply drained
      rw [List.any_eq_true]
      exact ⟨⟨id, op⟩, AList.mem_lookup_iff.mp found, by simpa using here⟩
    dsimp only
    rw [Function.update_of_ne elsewhere]
    exact holds.running id op found
  · intro other
    dsimp only
    by_cases same : other = compute
    · subst same
      exact Or.inr (Function.update_self _ _ _)
    · rw [Function.update_of_ne same]
      rcases paused other with todo | already
      · exact Or.inl ((List.mem_cons.mp todo).resolve_left same)
      · exact Or.inr already

/-- Once all compute nodes are paused no operation is under way. -/
theorem Invariant.halt {enumeration : Enumeration}
    {transfers : AList (fun _ : NodeId × NodeId => DatumId)} (holds : setting.Invariant live)
    (driver : live.driver = .pausing enumeration [] transfers) :
    setting.Invariant { live with driver := .finishing enumeration transfers.entries } := by
  have phase := holds.phase
  rw [driver] at phase
  rcases phase with ⟨old, surveyed, copies, thread, paused⟩
  have allPaused : ∀ compute, live.paused compute = true :=
    fun compute => (paused compute).resolve_left List.not_mem_nil
  have idle : ∀ id, live.ops.lookup id = none := by
    intro id
    cases found : live.ops.lookup id with
    | none => rfl
    | some op =>
        have running := holds.running id op found
        rw [allPaused] at running
        cases running
  apply holds.advance
  refine ⟨⟨allPaused, idle, old.serving.frame (fun _ _ _ => rfl) rfl rfl, thread⟩, surveyed,
    transfers.nodupKeys, ?_⟩
  have frozen : setting.CopiesAt live enumeration [] transfers.lookup True := by
    refine ⟨copies.keys, copies.fresh, copies.inPlan, copies.transfers, copies.clean, ?_,
      copies.thread⟩
    intro move moveMem
    rcases copies.moves move moveMem with unstarted | tracked | ⟨impossible, _⟩
    · exact Or.inl unstarted
    · exact Or.inr (Or.inl tracked)
    · cases impossible
  exact frozen.frame rfl rfl

/-- The dirty tail writes planned destinations only. -/
theorem Invariant.finish {enumeration : Enumeration} {pair : NodeId × NodeId}
    {transferId : DatumId} {rest : List (Σ _ : NodeId × NodeId, DatumId)}
    {fates : DatumId → CopyFate} {nodes : StorageNodes} (holds : setting.Invariant live)
    (driver : live.driver = .finishing enumeration (⟨pair, transferId⟩ :: rest))
    (effective : ∀ id, fates id = ⟨true, true⟩)
    (finished : live.nodes.finishTransfer pair.1 transferId fates = (.ok (), nodes)) :
    setting.Invariant { live with
      nodes := nodes
      driver := .finishing enumeration rest } := by
  have phase := holds.phase
  rw [driver] at phase
  rcases phase with ⟨halted, surveyed, keys, copies⟩
  have plan := planned_moves surveyed
  refine ⟨holds.running, halted.frame rfl ?_ rfl rfl rfl rfl, surveyed, (List.nodupKeys_cons.mp keys).2,
    copies.finish plan keys halted.thread effective finished rfl⟩
  have opened : (⟨pair, transferId⟩ :: rest : List (Σ _ : NodeId × NodeId, DatumId)).dlookup pair =
      some transferId := List.dlookup_cons_eq rest pair transferId
  rcases copies.transfers pair transferId opened with ⟨transfer, found, dest, inPlan, dirty⟩
  have elsewhere : ∀ id ∈ transfer.dirty, transfer.dest ∉ setting.oldReplicas id := by
    intro id idMem
    rw [dest]
    exact plan.dest _ (inPlan id (dirty id idMem))
  have apart : ∀ id ∈ transfer.dirty, pair.1 ≠ transfer.dest := by
    intro id idMem same
    apply elsewhere id idMem
    rw [← same]
    exact plan.source _ (inPlan id (dirty id idMem))
  rcases StorageNodes.finishTransfer_spec found apart fates with ⟨after, result, contents, _⟩
  rw [finished] at result
  cases result
  intro id node replica
  have differ : ¬(node = transfer.dest ∧ id ∈ transfer.dirty ∧ (fates id).applied) := by
    rintro ⟨rfl, idMem, _⟩
    exact elsewhere id idMem replica
  rw [contents, if_neg differ]

theorem Invariant.finished {enumeration : Enumeration} (holds : setting.Invariant live)
    (driver : live.driver = .finishing enumeration []) :
    setting.Invariant { live with driver := .installing enumeration setting.computes } := by
  have phase := holds.phase
  rw [driver] at phase
  rcases phase with ⟨halted, surveyed, _, copies⟩
  apply holds.advance
  exact ⟨halted.frame rfl (fun _ _ _ => rfl) rfl rfl rfl rfl, surveyed, copies.frame rfl rfl,
    fun compute => Or.inl (setting.everyone compute)⟩

theorem Invariant.install [DecidableEq Compute] {enumeration : Enumeration} {compute : Compute}
    {rest : List Compute} (holds : setting.Invariant live)
    (driver : live.driver = .installing enumeration (compute :: rest)) :
    setting.Invariant { live with
      rings := Function.update live.rings compute setting.new
      stale := Function.update live.stale compute
        fun node => live.stale compute node && decide (node ∉ setting.new.nodeIds)
      driver := .installing enumeration rest } := by
  have phase := holds.phase
  rw [driver] at phase
  rcases phase with ⟨halted, surveyed, copies, installed⟩
  refine ⟨holds.running, halted.frame rfl (fun _ _ _ => rfl) rfl rfl rfl rfl, surveyed,
    copies.frame rfl rfl, ?_⟩
  intro other
  dsimp only
  by_cases same : other = compute
  · subst same
    right
    rw [Function.update_self, Function.update_self]
    refine ⟨rfl, fun node member => ?_⟩
    simp [member]
  · rw [Function.update_of_ne same, Function.update_of_ne same]
    rcases installed other with todo | already
    · exact Or.inl ((List.mem_cons.mp todo).resolve_left same)
    · exact Or.inr already

/-- At the flip every new replica of a covered datum holds what was last acknowledged. -/
theorem Halted.current {enumeration : Enumeration} (halted : setting.Halted live)
    (surveyed : setting.Surveyed enumeration)
    (copies : setting.CopiesAt live enumeration [] (fun _ => none) True)
    (covered : setting.Covered live enumeration) (id : DatumId) (node : NodeId)
    (replica : node ∈ setting.newReplicas id) : live.nodes.contents node id = live.latest id := by
  have served : ∀ old ∈ setting.oldReplicas id, live.behind old id = false →
      live.nodes.contents old id = live.latest id := by
    intro old isOld current
    apply halted.serving.idle id (halted.ops id) old isOld
    rw [current]
    exact Bool.false_ne_true
  by_cases kept : node ∈ setting.oldReplicas id
  · exact served node kept (covered.kept id node replica kept)
  by_cases planned : ∃ move ∈ moves setting.hash setting.old setting.new enumeration,
      move.dest = node ∧ move.id = id
  · rcases planned with ⟨move, moveMem, rfl, rfl⟩
    have first := ((mem_moves_iff surveyed).mp moveMem).2.1
    rcases copies.moves move moveMem with ⟨_, impossible, _⟩ | ⟨_, impossible, _⟩ | ⟨_, arrived⟩
    · cases impossible
    · cases impossible
    · rw [arrived]
      exact served move.source ((planned_moves surveyed).source move moveMem)
        (covered.sources move.id move.dest replica kept move.source first)
  · -- no copy was planned, so the datum has no value
    have empty : live.nodes.contents node id = none := by
      apply copies.clean node id kept
      intro move moveMem sameNode sameId
      exact planned ⟨move, moveMem, sameNode, sameId⟩
    rw [empty]
    by_contra valued
    have written : live.latest id ≠ none := fun same => valued same.symm
    rcases covered.listed id written with known | inside
    · rcases Option.isSome_iff_exists.mp
        (List.isSome_head?.mpr (halted.serving.present id written)) with ⟨source, first⟩
      exact planned ⟨⟨id, source, node⟩,
        (mem_moves_iff surveyed).mpr ⟨known, first, replica, kept⟩, rfl, rfl⟩
    · exact kept (inside node replica)

theorem Invariant.flip {enumeration : Enumeration} (holds : setting.Invariant live)
    (driver : live.driver = .installing enumeration [])
    (covered : setting.Covered live enumeration) :
    setting.Invariant { live with driver := .resuming enumeration setting.computes } := by
  have phase := holds.phase
  rw [driver] at phase
  rcases phase with ⟨halted, surveyed, copies, installed⟩
  have serving : live.Serving setting.newReplicas fun _ _ => False :=
    .switch halted.ops covered.present
      fun id node replica _ => halted.current surveyed copies covered id node replica
  have current : ∀ compute, live.rings compute = setting.new ∧
      ∀ node ∈ setting.new.nodeIds, live.stale compute node = false :=
    fun compute => (installed compute).resolve_left List.not_mem_nil
  have reliable : live.Reliable setting.newReplicas := by
    constructor
    · intro compute id node replica
      have member := Ring.mem_nodeIds_of_mem_replicas setting.inRange replica
      rw [serves, covered.alive compute node member, (current compute).2 node member]
      rfl
    · intro id op found
      rw [halted.ops] at found
      cases found
    · intro id op found
      rw [halted.ops] at found
      cases found
  apply holds.advance
  exact ⟨⟨fun compute => (current compute).1, serving.frame (fun _ _ _ => rfl) rfl rfl,
    reliable.frame (fun _ _ served => served) rfl, halted.thread⟩, surveyed⟩

theorem Invariant.resume [DecidableEq Compute] {enumeration : Enumeration} {compute : Compute}
    {rest : List Compute} (holds : setting.Invariant live)
    (driver : live.driver = .resuming enumeration (compute :: rest)) :
    setting.Invariant { live with
      paused := Function.update live.paused compute false
      driver := .resuming enumeration rest } := by
  have phase := holds.phase
  rw [driver] at phase
  rcases phase with ⟨after, surveyed⟩
  refine ⟨?_, after.frame rfl (fun _ _ _ => rfl) rfl rfl rfl rfl, surveyed⟩
  intro id op found
  dsimp only
  by_cases same : op.compute = compute
  · rw [same, Function.update_self]
  · rw [Function.update_of_ne same]
    exact holds.running id op found

theorem Invariant.resumed {enumeration : Enumeration} (holds : setting.Invariant live)
    (driver : live.driver = .resuming enumeration []) :
    setting.Invariant { live with
      driver := .reclaiming (drops setting.hash setting.old setting.new enumeration) } := by
  have phase := holds.phase
  rw [driver] at phase
  rcases phase with ⟨after, surveyed⟩
  apply holds.advance
  refine ⟨after.frame rfl (fun _ _ _ => rfl) rfl rfl rfl rfl, ?_⟩
  rintro ⟨node, id⟩ dropMem
  rcases mem_drops.mp dropMem with ⟨n, known, _, notNew⟩
  rw [surveyed.listed id n known] at notNew
  exact notNew

/-- A superseded copy is not at a new replica. -/
theorem Invariant.reclaim {node : NodeId} {id : DatumId} {rest : List (NodeId × DatumId)}
    (holds : setting.Invariant live) (driver : live.driver = .reclaiming ((node, id) :: rest)) :
    setting.Invariant { live with
      nodes := live.nodes.update node (·.delete id)
      driver := .reclaiming rest } := by
  have phase := holds.phase
  rw [driver] at phase
  rcases phase with ⟨after, superseded⟩
  refine ⟨holds.running, after.frame rfl ?_ rfl rfl rfl rfl,
    fun drop dropMem => superseded drop (List.mem_cons_of_mem _ dropMem)⟩
  intro otherId other replica
  have differ : ¬(other = node ∧ otherId = id ∧ true = true) := by
    rintro ⟨rfl, rfl, _⟩
    exact superseded (other, otherId) List.mem_cons_self replica
  have sent : live.nodes.update node (·.delete id) = live.nodes.send node id none true := rfl
  dsimp only
  rw [sent, StorageNodes.contents_send, if_neg differ]

/-! ## Every run -/

variable [DecidableEq Compute]

theorem Invariant.drive {transferId : DatumId} {fates : DatumId → CopyFate}
    (holds : setting.Invariant live) (allowed : setting.Allowed live (.drive transferId fates))
    (stepped : live.drive setting.hash setting.computes setting.old setting.new transferId fates =
      some next) : setting.Invariant next := by
  rcases allowed with ⟨effective, covered⟩
  unfold Live.drive at stepped
  split at stepped
  · rename_i node members after gathered enumeration driver
    cases stepped
    exact holds.listPage driver
  · rename_i after gathered enumeration driver
    cases stepped
    exact holds.survey driver
  · rename_i enumeration pair ids pairs transfers driver
    exact holds.startTransfer driver stepped
  · rename_i enumeration pairs pair transfers driver
    exact holds.poll driver stepped
  · rename_i enumeration transfers driver
    cases stepped
    exact holds.copied driver
  · rename_i enumeration compute rest transfers driver
    split at stepped
    · cases stepped
    · rename_i drained
      cases stepped
      exact holds.pause driver drained
  · rename_i enumeration transfers driver
    cases stepped
    exact holds.halt driver
  · rename_i enumeration pair transferId rest driver
    split at stepped
    · cases stepped
    · rename_i nodes finished
      cases stepped
      exact holds.finish driver effective finished
  · rename_i enumeration driver
    cases stepped
    exact holds.finished driver
  · rename_i enumeration compute rest driver
    cases stepped
    exact holds.install driver
  · rename_i enumeration driver
    cases stepped
    exact holds.flip driver (covered enumeration [] driver)
  · rename_i enumeration compute rest driver
    cases stepped
    exact holds.resume driver
  · rename_i enumeration driver
    cases stepped
    exact holds.resumed driver
  · rename_i node id rest driver
    cases stepped
    exact holds.reclaim driver
  · cases stepped

theorem Invariant.step {label : LiveLabel Compute} (holds : setting.Invariant live)
    (allowed : setting.Allowed live label)
    (stepped : live.step setting.hash setting.computes setting.old setting.new label = some next) :
    setting.Invariant next := by
  cases label with
  | begin compute id content n =>
      have factor : n = setting.factor id := allowed
      subst factor
      exact holds.begin stepped
  | reach id outcome => exact holds.reach allowed stepped
  | acknowledge id => exact holds.acknowledge stepped
  | abandon id => exact holds.abandon stepped
  | readFails compute node =>
      cases stepped
      exact holds.exclude fun flipped => absurd flipped allowed
  | gossip compute node joins =>
      cases stepped
      exact holds.gossip allowed
  | copyRead readable =>
      have effective : readable = true := allowed
      subst effective
      exact holds.copyRead stepped
  | copySend applied =>
      have effective : applied = true := allowed
      subst effective
      exact holds.copySend stepped
  | copyDone => exact holds.copyDone stepped
  | drive transferId fates => exact holds.drive allowed stepped

def secondNode : Setting Unit where
  hash := JumpBackHasher.hash
  computes := [()]
  current := [1]
  old := Ring.fromMembers [(1, 1)]
  new := Ring.fromMembers [(1, 1), (2, 1)]
  factor := fun _ => 1
  inRange := fun key _ nonempty => JumpBackHasher.hash_lt key nonempty
  everyone := fun _ => List.mem_singleton_self ()
  known := by decide

/-- The first node holds `content`, and nobody has asked for anything yet. -/
def idleWith (content : Content) : Live Unit where
  rings := fun _ => secondNode.old
  alive := fun _ _ => true
  stale := fun _ _ => false
  paused := fun _ => false
  halted := fun _ => false
  nodes := fun node => ⟨if node = 1 then content else ∅, fun _ => none, fun _ => none⟩
  thread := none
  ops := ∅
  driver := .listing [1] none [] .empty
  latest := fun id => content.lookup id
  behind := fun _ _ => false

theorem oldReplicas_secondNode {id : DatumId} {node : NodeId}
    (replica : node ∈ secondNode.oldReplicas id) : node = 1 := by
  have member := Ring.mem_nodeIds_of_mem_replicas secondNode.inRange replica
  have only : secondNode.old.nodeIds = [1] := by decide
  rw [only, List.mem_singleton] at member
  exact member

theorem started_idleWith (content : Content)
    (small : ∀ id, content.lookup id ≠ none → id = 1) :
    secondNode.Started (idleWith content) where
  driver := rfl
  rings := fun _ => rfl
  ops := rfl
  thread := rfl
  replicas := by
    intro id node replica _
    rw [oldReplicas_secondNode replica]
    rfl
  present := by
    intro id written
    rw [small id written]
    decide +kernel

theorem tidy_idleWith (content : Content) (small : ∀ id, content.lookup id ≠ none → id = 1)
    (factors : ∀ id payload, content.lookup id = some payload → payload.2 = 1) :
    secondNode.Tidy (idleWith content) where
  assigned := by
    intro node id outside
    simp only [StorageNodes.contents, idleWith]
    split
    · rename_i first
      subst first
      by_contra written
      rw [small id written] at outside
      revert outside
      decide +kernel
    · rfl
  factors := by
    intro node id payload held
    simp only [StorageNodes.contents, idleWith] at held
    split at held
    · exact factors id payload held
    · cases held

/-- A call of the driver; all that the sources send takes effect. -/
def call : LiveLabel Unit := .drive 99 fun _ => ⟨true, true⟩

/-- The copy and the driver, and no operation. -/
def Unattended : LiveLabel Unit → Prop
  | .copyRead readable => readable = true
  | .copySend applied => applied = true
  | .copyDone => True
  | .drive _ fates => ∀ id, fates id = ⟨true, true⟩
  | _ => False

/-- What was acknowledged, where it has not taken effect and who is alive are as they were. -/
theorem unchanged_of_unattended {live next : Live Unit} {label : LiveLabel Unit}
    (unattended : Unattended label)
    (stepped : live.step secondNode.hash secondNode.computes secondNode.old secondNode.new label =
      some next) :
    next.latest = live.latest ∧ next.behind = live.behind ∧ next.alive = live.alive := by
  cases label with
  | begin compute id content n => cases unattended
  | reach id outcome => cases unattended
  | acknowledge id => cases unattended
  | abandon id => cases unattended
  | readFails compute node => cases unattended
  | gossip compute node joins => cases unattended
  | copyRead readable =>
      have step := (copyRead_spec stepped).1
      exact ⟨step.latest, step.behind, step.alive⟩
  | copySend applied =>
      have step := (copySend_spec stepped).1
      exact ⟨step.latest, step.behind, step.alive⟩
  | copyDone =>
      have step := (copyDone_spec stepped).1
      exact ⟨step.latest, step.behind, step.alive⟩
  | drive transferId fates =>
      simp only [Live.step, Live.drive, Live.listPage, Live.startTransfer, Live.poll] at stepped
      repeat' split at stepped
      all_goals first
        | cases stepped; exact ⟨rfl, rfl, rfl⟩
        | cases stepped

/-- Datum 1 is listed when the rings flip. -/
def listedAtFlip (live : Live Unit) (_ : LiveLabel Unit) : Bool :=
  match live.driver with
  | .installing enumeration _ => (enumeration.idFactors.lookup 1).isSome
  | _ => true

def moveOne : List (LiveLabel Unit) :=
  [call, call, call, .copyRead true, .copySend true, .copyDone] ++ List.replicate 10 call

theorem allowed_of_unattended {content : Content} (small : ∀ id, content.lookup id ≠ none → id = 1)
    {live : Live Unit} {label : LiveLabel Unit}
    (unchanged : live.latest = content.lookup ∧ (live.behind = fun _ _ => false) ∧
      live.alive = fun _ _ => true)
    (unattended : Unattended label) (guarded : listedAtFlip live label = true) :
    secondNode.Allowed live label := by
  cases label with
  | begin compute id content n => cases unattended
  | reach id outcome => cases unattended
  | acknowledge id => cases unattended
  | abandon id => cases unattended
  | readFails compute node => cases unattended
  | gossip compute node joins => cases unattended
  | copyRead readable => exact unattended
  | copySend applied => exact unattended
  | copyDone => trivial
  | drive transferId fates =>
      refine ⟨unattended, ?_⟩
      intro enumeration todo driver
      rcases unchanged with ⟨latest, behind, alive⟩
      constructor
      · intro compute node _
        rw [alive]
      · intro id written
        rw [latest] at written
        rw [small id written]
        decide +kernel
      · intro id written
        rw [latest] at written
        rw [small id written]
        simp only [listedAtFlip, driver] at guarded
        exact Or.inl guarded
      · intro id node _ _
        rw [behind]
      · intro id node _ _ source _
        rw [behind]

def isResumed (live : Live Unit) : Bool :=
  match live.driver with
  | .reclaiming _ => true
  | _ => false

theorem driver_of_resumed {live : Live Unit} (resumed : isResumed live = true) :
    ∃ drops, live.driver = .reclaiming drops := by
  unfold isResumed at resumed
  split at resumed
  · exact ⟨_, ‹_›⟩
  · cases resumed

/-- Datum 1 is created when the first node is listed, and acknowledged before the pause. -/
def lateCreate : List (LiveLabel Unit) :=
  [call, .begin () 1 (some [7]) 1, .reach 1 .answered, .acknowledge 1] ++ List.replicate 9 call

end Setting

end Live

end Seisin
