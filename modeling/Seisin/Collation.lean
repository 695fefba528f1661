import Seisin.Core

/-!
# The native-home lock of a datum

`NativeLock` tracks who holds a datum and who waits for it; contention is resolved by op id, the
older (smaller) one winning.  The `on_granted` callback of a request is kept as data: granting a
request hands its callback back to the caller, which fires it.
-/

namespace Seisin

structure Holder where
  nodeId : NodeId
  threadId : ThreadId
  opId : DatumId
  deriving DecidableEq

structure Waiter (Callback : Type) where
  opId : DatumId
  nodeId : NodeId
  threadId : ThreadId
  onGranted : Callback

/-- What the caller of `request` must do next. -/
inductive AcquireOutcome where
  | grantedImmediately
  | recallNeeded (holder : Holder)
  | queued
  deriving DecidableEq

structure NativeLock (Callback : Type) where
  currentHolder : Option Holder
  waiters : List (Waiter Callback)

namespace NativeLock

variable {Callback : Type}

def new : NativeLock Callback := ⟨none, []⟩

instance : Inhabited (NativeLock Callback) := ⟨new⟩

/-- Makes the oldest waiter the holder and returns the callback to fire. -/
def grantFront (lock : NativeLock Callback) : NativeLock Callback × Option Callback :=
  match lock.waiters with
  | [] => (lock, none)
  | waiter :: rest =>
      (⟨some ⟨waiter.nodeId, waiter.threadId, waiter.opId⟩, rest⟩, some waiter.onGranted)

/-- Queues the request in ascending op id order, then decides what the caller must do. -/
def request (lock : NativeLock Callback) (opId : DatumId) (nodeId : NodeId)
    (threadId : ThreadId) (onGranted : Callback) :
    NativeLock Callback × Option Callback × AcquireOutcome :=
  let insertAt := lock.waiters.findIdx fun waiter => opId < waiter.opId
  let queued : NativeLock Callback :=
    { lock with waiters := lock.waiters.insertIdx insertAt ⟨opId, nodeId, threadId, onGranted⟩ }
  match lock.currentHolder with
  | none =>
      let (granted, fired) := queued.grantFront
      (granted, fired, .grantedImmediately)
  | some holder =>
      if opId < holder.opId then (queued, none, .recallNeeded holder)
      else (queued, none, .queued)

/-- Drops the current holder and grants the datum to the oldest waiter, if any. -/
def release (lock : NativeLock Callback) : NativeLock Callback × Option Callback :=
  ({ lock with currentHolder := none } : NativeLock Callback).grantFront

/-- Prunes the waiters of a dead node and releases the lock if that node held it. -/
def handleNodeDeath (lock : NativeLock Callback) (nodeId : NodeId) :
    NativeLock Callback × Option Callback :=
  let pruned : NativeLock Callback :=
    { lock with waiters := lock.waiters.filter fun waiter => waiter.nodeId ≠ nodeId }
  if pruned.currentHolder.any fun holder => holder.nodeId = nodeId then pruned.release
  else (pruned, none)

/-- The waiters stand in op id order and only wait behind a holder. -/
structure WellFormed (lock : NativeLock Callback) : Prop where
  sorted : lock.waiters.Pairwise fun first second => first.opId ≤ second.opId
  idle : lock.currentHolder = none → lock.waiters = []

theorem new_wellFormed : (new : NativeLock Callback).WellFormed :=
  ⟨List.Pairwise.nil, fun _ => rfl⟩

/-- Where `request` puts a waiter among the queued ones. -/
def enqueue (waiters : List (Waiter Callback)) (waiter : Waiter Callback) :
    List (Waiter Callback) :=
  waiters.insertIdx (waiters.findIdx fun queued => waiter.opId < queued.opId) waiter

@[simp]
theorem enqueue_nil (waiter : Waiter Callback) : enqueue [] waiter = [waiter] := rfl

theorem enqueue_cons (head : Waiter Callback) (tail : List (Waiter Callback))
    (waiter : Waiter Callback) :
    enqueue (head :: tail) waiter =
      if waiter.opId < head.opId then waiter :: head :: tail else head :: enqueue tail waiter := by
  by_cases older : waiter.opId < head.opId <;> simp [enqueue, List.findIdx_cons, older]

@[simp]
theorem mem_enqueue {waiters : List (Waiter Callback)} {waiter queued : Waiter Callback} :
    queued ∈ enqueue waiters waiter ↔ queued = waiter ∨ queued ∈ waiters := by
  induction waiters with
  | nil => simp
  | cons head tail ih =>
      rw [enqueue_cons]
      split
      · simp
      · simp only [List.mem_cons, ih]
        tauto

theorem enqueue_sorted {waiters : List (Waiter Callback)} (waiter : Waiter Callback)
    (sorted : waiters.Pairwise fun first second => first.opId ≤ second.opId) :
    (enqueue waiters waiter).Pairwise fun first second => first.opId ≤ second.opId := by
  induction waiters with
  | nil => simp
  | cons head tail ih =>
      rw [List.pairwise_cons] at sorted
      rw [enqueue_cons]
      split
      · rename_i older
        refine List.pairwise_cons.mpr ⟨?_, List.pairwise_cons.mpr sorted⟩
        intro queued queuedMem
        rcases List.mem_cons.mp queuedMem with rfl | queuedMem
        · exact older.le
        · exact older.le.trans (sorted.1 queued queuedMem)
      · rename_i younger
        refine List.pairwise_cons.mpr ⟨?_, ih sorted.2⟩
        intro queued queuedMem
        rcases mem_enqueue.mp queuedMem with rfl | queuedMem
        · exact not_lt.mp younger
        · exact sorted.1 queued queuedMem

/-- The holder a granted waiter becomes. -/
def Waiter.asHolder (waiter : Waiter Callback) : Holder :=
  ⟨waiter.nodeId, waiter.threadId, waiter.opId⟩

theorem request_idle {lock : NativeLock Callback} (wellFormed : lock.WellFormed)
    (idle : lock.currentHolder = none) (opId : DatumId) (nodeId : NodeId) (threadId : ThreadId)
    (onGranted : Callback) :
    lock.request opId nodeId threadId onGranted =
      (⟨some ⟨nodeId, threadId, opId⟩, []⟩, some onGranted, .grantedImmediately) := by
  simp [request, idle, wellFormed.idle idle, grantFront]

theorem request_held {lock : NativeLock Callback} {holder : Holder}
    (held : lock.currentHolder = some holder) (opId : DatumId) (nodeId : NodeId)
    (threadId : ThreadId) (onGranted : Callback) :
    lock.request opId nodeId threadId onGranted =
      (⟨some holder, enqueue lock.waiters ⟨opId, nodeId, threadId, onGranted⟩⟩, none,
        if opId < holder.opId then .recallNeeded holder else .queued) := by
  by_cases older : opId < holder.opId <;> simp [request, held, older, enqueue]

theorem release_empty {lock : NativeLock Callback} (empty : lock.waiters = []) :
    lock.release = (⟨none, []⟩, none) := by
  simp [release, grantFront, empty]

theorem release_cons {lock : NativeLock Callback} {waiter : Waiter Callback}
    {rest : List (Waiter Callback)} (waiting : lock.waiters = waiter :: rest) :
    lock.release = (⟨some (Waiter.asHolder waiter), rest⟩, some waiter.onGranted) := by
  simp [release, grantFront, waiting, Waiter.asHolder]

theorem request_wellFormed {lock : NativeLock Callback} (wellFormed : lock.WellFormed)
    (opId : DatumId) (nodeId : NodeId) (threadId : ThreadId) (onGranted : Callback) :
    (lock.request opId nodeId threadId onGranted).1.WellFormed := by
  cases held : lock.currentHolder with
  | none =>
      rw [request_idle wellFormed held]
      exact ⟨List.Pairwise.nil, fun _ => rfl⟩
  | some holder =>
      rw [request_held held]
      exact ⟨enqueue_sorted _ wellFormed.sorted, by simp⟩

theorem release_wellFormed {lock : NativeLock Callback} (wellFormed : lock.WellFormed) :
    lock.release.1.WellFormed := by
  cases waiting : lock.waiters with
  | nil =>
      rw [release_empty waiting]
      exact new_wellFormed
  | cons waiter rest =>
      rw [release_cons waiting]
      have sorted := wellFormed.sorted
      rw [waiting, List.pairwise_cons] at sorted
      exact ⟨sorted.2, by simp⟩

end NativeLock

end Seisin
