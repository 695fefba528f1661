import Seisin.Node.Exclusion

/-!
# Every op is answered once

When nothing is in flight on a node, no op record is left, every lock is free, and every submitted
op has had its handler run once and has been answered once.  Unlike exclusion this needs no
condition on recalls: a release too many does not make anybody wait.
-/

namespace Seisin

open WoundWait Transition

variable {Resident : Type}

namespace Node

variable {env : Env Resident}

/-- What the node's view keeps in every run. -/
structure ProgressInvariant (env : Env Resident) (node : Node Resident) : Prop where
  routed : node.Routed env
  life : Lifecycle (node.view env)
  progress : WoundWait.Progress (node.view env)

theorem progress_new (store : Store) :
    WoundWait.Progress ((new store : Node Resident).view env) where
  custody := by
    simp [view, new, lock, Worker.lock, Worker.new, NativeLock.new, NativeLock.view]
  recalls := by
    simp [view, new, lock, Worker.lock, Worker.new, NativeLock.new, NativeLock.view]
  requests := by simp [view, new, record, Worker.record, Worker.new]
  needs := by simp [view, new, record, Worker.record, Worker.new]
  idle := by
    simp [view, new, lock, Worker.lock, Worker.new, NativeLock.new, NativeLock.view]

theorem progressInvariant_step (standalone : env.Standalone) {node next : Node Resident}
    {label : NodeLabel} (invariant : ProgressInvariant env node)
    (stepped : step env node label = some next) : ProgressInvariant env next where
  routed := routed_step standalone invariant.routed stepped
  life := lifecycle_step standalone invariant.routed invariant.life stepped
  progress := by
    rcases refines_step standalone invariant.routed stepped with same | ⟨event, taken, _⟩
    · rw [same]
      exact invariant.progress
    · exact invariant.progress.step invariant.life taken

theorem progressInvariant_of_reachable (standalone : env.Standalone) {node : Node Resident}
    (reached : (system env).Reachable node) : ProgressInvariant env node := by
  apply reached.induction
  · rintro _ ⟨store, rfl⟩
    exact ⟨routed_new store, lifecycle_new store, progress_new store⟩
  · intro state label next invariant _ stepped
    exact progressInvariant_step standalone invariant stepped

/-- Nothing is left to do: no records, every submitted op run and answered once, no lock held or
waited for. -/
structure Settled (node : Node Resident) : Prop where
  records : ∀ thread opId, node.record thread opId = none
  replied : ∀ opId ∈ node.submitted, (node.replies.map Prod.fst).count opId = 1
  invoked : ∀ opId ∈ node.submitted, node.invocations.count opId = 1
  locks : ∀ thread datumId, ((node.workers thread).lock datumId).currentHolder = none ∧
    ((node.workers thread).lock datumId).waiters = []

/-- In every reachable state without messages in flight, nothing is left to do. -/
theorem settled_of_quiescent (standalone : env.Standalone) {node : Node Resident}
    (reached : (system env).Reachable node) (quiescent : node.inFlight = []) : node.Settled := by
  have invariant := progressInvariant_of_reachable standalone reached
  have quiet : (node.view env).signals = 0 := by simp [view, quiescent]
  have answered : ∀ opId ∈ node.submitted,
      (node.view env).replied opId = 1 ∧ (node.view env).invoked opId = 1 :=
    fun opId submitted => invariant.progress.answered_once invariant.life quiet submitted
  constructor
  · intro thread opId
    have noTicket := invariant.progress.no_ticket invariant.life quiet opId thread
    simpa [view] using noTicket
  · exact fun opId submitted => (answered opId submitted).1
  · exact fun opId submitted => (answered opId submitted).2
  · intro thread datumId
    by_cases atHome : env.home datumId = thread
    · subst atHome
      have free := invariant.progress.lock_free invariant.life quiet datumId
      simpa [view, NativeLock.view, lock] using free
    · rw [invariant.routed.strangers thread datumId atHome]
      exact ⟨rfl, rfl⟩

/-- The run in which op 1 wounds op 3, carried on until both are done. -/
def woundingRunToEnd : List NodeLabel :=
  woundingRun ++ [.deliver (.worker 0) 2 0, .deliver (.worker 0) 1 0, .deliver (.worker 1) 0 0,
    .deliver (.worker 2) 0 0, .deliver (.worker 0) 1 0, .deliver (.worker 1) 0 0,
    .deliver (.worker 1) 0 0]

theorem settled_of_quiescent_wounding : ∃ node,
    (system (soleHomeEnv writerOps)).exec (new fun _ => none) woundingRunToEnd = some node ∧
    node.submitted = [3, 1] ∧ node.Settled := by
  have observed : ((system (soleHomeEnv writerOps)).exec (new fun _ => none)
      woundingRunToEnd).map (fun node => (node.submitted, node.inFlight.length)) =
      some ([3, 1], 0) := by
    decide +kernel
  rcases Option.map_eq_some_iff.mp observed with ⟨node, executed, seen⟩
  simp only [Prod.mk.injEq, List.length_eq_zero_iff] at seen
  refine ⟨node, executed, seen.1, ?_⟩
  exact settled_of_quiescent (soleHomeEnv_standalone writerOps)
    (System.reachable_of_exec ⟨_, rfl⟩ executed) seen.2

end Node

end Seisin
