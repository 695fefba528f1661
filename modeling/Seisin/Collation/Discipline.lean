import Mathlib
import Seisin.Collation

/-!
# The discipline of a lock's queue

A lock is used by requests, releases and deaths of nodes in any order.  The requests are numbered as
they arrive and the number stands for the callback, so that what becomes of each of them can be
told: it was granted, it waits, or its node died while it waited.
-/

namespace Seisin

/-- A lock with its history: every request made, in the order of their numbers, the numbers of
those that were granted, and of those that were pruned. -/
structure LockHistory where
  lock : NativeLock ℕ
  requested : List Holder
  granted : List ℕ
  pruned : List ℕ

inductive LockStep where
  | request (opId : DatumId) (nodeId : NodeId) (threadId : ThreadId)
  | release
  | handleNodeDeath (nodeId : NodeId)

namespace LockHistory

def new : LockHistory := ⟨.new, [], [], []⟩

def step (history : LockHistory) : LockStep → LockHistory
  | .request opId nodeId threadId =>
      let (lock, fired, _) :=
        history.lock.request opId nodeId threadId history.requested.length
      { history with
        lock := lock
        requested := history.requested ++ [⟨nodeId, threadId, opId⟩]
        granted := history.granted ++ fired.toList }
  | .release =>
      let (lock, fired) := history.lock.release
      { history with
        lock := lock
        granted := history.granted ++ fired.toList }
  | .handleNodeDeath nodeId =>
      let (lock, fired) := history.lock.handleNodeDeath nodeId
      { history with
        lock := lock
        granted := history.granted ++ fired.toList
        pruned := history.pruned ++
          (history.lock.waiters.filter fun waiter => waiter.nodeId = nodeId).map
            Waiter.onGranted }

def run (history : LockHistory) (steps : List LockStep) : LockHistory := steps.foldl step history

/-- The numbers of the requests that wait. -/
def queued (history : LockHistory) : List ℕ := history.lock.waiters.map Waiter.onGranted

end LockHistory

/-- The order of the queue: by op id, and by arrival among requests of one op. -/
def Waiter.Before (first second : Waiter ℕ) : Prop :=
  first.opId < second.opId ∨ (first.opId = second.opId ∧ first.onGranted < second.onGranted)

theorem Waiter.Before.opId_le {first second : Waiter ℕ} (before : first.Before second) :
    first.opId ≤ second.opId := by
  rcases before with older | ⟨same, _⟩
  · exact older.le
  · exact same.le

namespace NativeLock

variable {Callback : Type}

theorem perm_enqueue (waiters : List (Waiter Callback)) (waiter : Waiter Callback) :
    (enqueue waiters waiter).Perm (waiter :: waiters) :=
  List.perm_insertIdx waiter waiters List.findIdx_le_length

/-- A request with the latest number goes behind those of its op. -/
theorem enqueue_before {waiters : List (Waiter ℕ)} {waiter : Waiter ℕ}
    (sorted : waiters.Pairwise Waiter.Before)
    (latest : ∀ queued ∈ waiters, queued.onGranted < waiter.onGranted) :
    (enqueue waiters waiter).Pairwise Waiter.Before := by
  induction waiters with
  | nil => exact List.pairwise_singleton _ _
  | cons head tail ih =>
      rw [List.pairwise_cons] at sorted
      rw [enqueue_cons]
      split
      · rename_i older
        refine List.pairwise_cons.mpr ⟨?_, List.pairwise_cons.mpr sorted⟩
        intro queued queuedMem
        rcases List.mem_cons.mp queuedMem with rfl | later
        · exact Or.inl older
        · exact Or.inl (older.trans_le (sorted.1 queued later).opId_le)
      · rename_i younger
        have rest := ih sorted.2 fun queued later => latest queued (List.mem_cons_of_mem _ later)
        refine List.pairwise_cons.mpr ⟨?_, rest⟩
        intro queued queuedMem
        rcases mem_enqueue.mp queuedMem with rfl | later
        · rcases (not_lt.mp younger).lt_or_eq with less | same
          · exact Or.inl less
          · exact Or.inr ⟨same, latest head List.mem_cons_self⟩
        · exact sorted.1 queued later

end NativeLock

namespace LockHistory

variable {history : LockHistory}

/-- The queue is in order, waits behind a holder only, and every request is accounted for once. -/
structure Accounts (history : LockHistory) : Prop where
  sorted : history.lock.waiters.Pairwise Waiter.Before
  idle : history.lock.currentHolder = none → history.lock.waiters = []
  once : (history.granted ++ history.queued ++ history.pruned).Perm
    (List.range history.requested.length)
  requests : ∀ waiter ∈ history.lock.waiters,
    history.requested[waiter.onGranted]? = some (NativeLock.Waiter.asHolder waiter)

theorem new_accounts : new.Accounts where
  sorted := List.Pairwise.nil
  idle := fun _ => rfl
  once := List.Perm.refl []
  requests := by
    intro waiter waits
    cases waits

theorem Accounts.wellFormed (accounts : history.Accounts) : history.lock.WellFormed :=
  ⟨accounts.sorted.imp Waiter.Before.opId_le, accounts.idle⟩

theorem Accounts.lt_of_mem (accounts : history.Accounts) {number : ℕ}
    (counted : number ∈ history.granted ++ history.queued ++ history.pruned) :
    number < history.requested.length :=
  List.mem_range.mp (accounts.once.mem_iff.mp counted)

/-- The oldest waiter is granted, or there is nothing to grant. -/
theorem Accounts.release (accounts : history.Accounts) : (history.step .release).Accounts := by
  simp only [step]
  cases waiting : history.lock.waiters with
  | nil =>
      rw [NativeLock.release_empty waiting]
      refine ⟨List.Pairwise.nil, fun _ => rfl, ?_, ?_⟩
      · have once := accounts.once
        simpa [queued, waiting] using once
      · intro waiter waits
        cases waits
  | cons waiter rest =>
      rw [NativeLock.release_cons waiting]
      have sorted := accounts.sorted
      rw [waiting, List.pairwise_cons] at sorted
      refine ⟨sorted.2, by simp, ?_, ?_⟩
      · have once := accounts.once
        simpa [queued, waiting] using once
      · intro other waits
        refine accounts.requests other ?_
        rw [waiting]
        exact List.mem_cons_of_mem _ waits

/-- The waiters of a dead node leave the queue. -/
def prune (history : LockHistory) (nodeId : NodeId) : LockHistory :=
  { history with
    lock := { history.lock with
      waiters := history.lock.waiters.filter fun waiter => waiter.nodeId ≠ nodeId }
    pruned := history.pruned ++
      (history.lock.waiters.filter fun waiter => waiter.nodeId = nodeId).map Waiter.onGranted }

theorem step_handleNodeDeath (history : LockHistory) (nodeId : NodeId) :
    history.step (.handleNodeDeath nodeId) =
      if history.lock.currentHolder.any (fun holder => holder.nodeId = nodeId) then
        (history.prune nodeId).step .release
      else history.prune nodeId := by
  simp only [step, NativeLock.handleNodeDeath, prune]
  split
  · rfl
  · simp

theorem Accounts.prune (accounts : history.Accounts) (nodeId : NodeId) :
    (history.prune nodeId).Accounts where
  sorted := accounts.sorted.filter _
  idle := by
    intro noHolder
    simp only [LockHistory.prune, accounts.idle noHolder, List.filter_nil]
  once := by
    -- The queue splits into those that stay and those that leave.
    have split := (List.filter_append_perm (fun waiter : Waiter ℕ => waiter.nodeId ≠ nodeId)
      history.lock.waiters).map Waiter.onGranted
    have leaving : (fun waiter : Waiter ℕ => !decide (waiter.nodeId ≠ nodeId)) =
        fun waiter => decide (waiter.nodeId = nodeId) := by
      funext waiter
      simp
    rw [leaving, List.map_append] at split
    refine List.Perm.trans ?_ accounts.once
    simp only [queued, LockHistory.prune, List.append_assoc]
    refine List.Perm.append_left _ ?_
    refine List.Perm.trans ?_ (split.append_right _)
    rw [List.append_assoc]
    exact List.Perm.append_left _ List.perm_append_comm
  requests := fun waiter waits => accounts.requests waiter (List.mem_filter.mp waits).1

theorem Accounts.request (accounts : history.Accounts) (opId : DatumId) (nodeId : NodeId)
    (threadId : ThreadId) : (history.step (.request opId nodeId threadId)).Accounts := by
  have numbered : (history.requested ++ [(⟨nodeId, threadId, opId⟩ : Holder)]).length =
      history.requested.length + 1 := by simp
  cases held : history.lock.currentHolder with
  | none =>
      have once := accounts.once
      simp only [step, NativeLock.request_idle accounts.wellFormed held]
      refine ⟨List.Pairwise.nil, by simp, ?_, by simp⟩
      rw [queued, accounts.idle held, List.map_nil, List.append_nil] at once
      simp only [queued, List.map_nil, List.append_nil, Option.toList_some, numbered,
        List.range_succ]
      refine List.Perm.trans ?_ (once.append_right _)
      rw [List.append_assoc, List.append_assoc]
      exact List.Perm.append_left _ List.perm_append_comm
  | some holder =>
      simp only [step, NativeLock.request_held held]
      refine ⟨?_, by simp, ?_, ?_⟩
      · refine NativeLock.enqueue_before accounts.sorted fun queued waits => ?_
        apply accounts.lt_of_mem
        simp only [List.mem_append]
        exact Or.inl (Or.inr (List.mem_map_of_mem waits))
      · simp only [queued, numbered, List.range_succ, Option.toList_none, List.append_nil]
        have entered := (NativeLock.perm_enqueue history.lock.waiters
          ⟨opId, nodeId, threadId, history.requested.length⟩).map Waiter.onGranted
        refine List.Perm.trans ?_ (accounts.once.append_right _)
        refine List.Perm.trans ((entered.append_left _).append_right _) ?_
        rw [List.map_cons]
        refine List.Perm.trans (List.perm_middle.append_right _) ?_
        exact (List.perm_append_singleton _ _).symm
      · intro waiter waits
        rcases NativeLock.mem_enqueue.mp waits with rfl | earlier
        · simp [NativeLock.Waiter.asHolder]
        · have found := accounts.requests waiter earlier
          rwa [List.getElem?_append_left (List.getElem?_eq_some_iff.mp found).1]

theorem Accounts.step (accounts : history.Accounts) (label : LockStep) :
    (history.step label).Accounts := by
  cases label with
  | request opId nodeId threadId => exact accounts.request opId nodeId threadId
  | release => exact accounts.release
  | handleNodeDeath nodeId =>
      rw [step_handleNodeDeath]
      split
      · exact (accounts.prune nodeId).release
      · exact accounts.prune nodeId

theorem Accounts.run (accounts : history.Accounts) (steps : List LockStep) :
    (history.run steps).Accounts := by
  induction steps generalizing history with
  | nil => exact accounts
  | cons label steps ih => exact ih (accounts.step label)

/-! ## Who is granted, and who is not -/

theorem fired_release {lock : NativeLock ℕ} {number : ℕ} (fired : number ∈ lock.release.2) :
    ∃ waiter rest, lock.waiters = waiter :: rest ∧ waiter.onGranted = number := by
  cases waiting : lock.waiters with
  | nil =>
      rw [NativeLock.release_empty waiting] at fired
      cases fired
  | cons waiter rest =>
      rw [NativeLock.release_cons waiting] at fired
      exact ⟨waiter, rest, rfl, Option.some.inj fired⟩

theorem waiters_release {lock : NativeLock ℕ} : lock.release.1.waiters ⊆ lock.waiters := by
  cases waiting : lock.waiters with
  | nil =>
      rw [NativeLock.release_empty waiting]
      exact List.Subset.refl []
  | cons waiter rest =>
      rw [NativeLock.release_cons waiting]
      exact List.subset_cons_self waiter rest

/-- What a step adds: it numbers a request, grants the new one or one that waited, and no others
wait than before but the new one. -/
structure Advances (history next : LockHistory) : Prop where
  requested : history.requested <+: next.requested
  granted : ∃ fired, next.granted = history.granted ++ fired ∧ ∀ number ∈ fired,
    number = history.requested.length ∨
      ∃ waiter ∈ history.lock.waiters, waiter.onGranted = number
  waiters : ∀ waiter ∈ next.lock.waiters,
    waiter ∈ history.lock.waiters ∨ waiter.onGranted = history.requested.length

theorem advances_release (history : LockHistory) : history.Advances (history.step .release) where
  requested := List.prefix_refl _
  granted := by
    refine ⟨history.lock.release.2.toList, rfl, ?_⟩
    intro number isFired
    rcases fired_release (Option.mem_toList.mp isFired) with ⟨waiter, rest, waiting, same⟩
    refine Or.inr ⟨waiter, ?_, same⟩
    rw [waiting]
    exact List.mem_cons_self
  waiters := fun _ waits => Or.inl (waiters_release waits)

theorem Accounts.advances (accounts : history.Accounts) (label : LockStep) :
    history.Advances (history.step label) := by
  cases label with
  | request opId nodeId threadId =>
      cases held : history.lock.currentHolder with
      | none =>
          simp only [LockHistory.step, NativeLock.request_idle accounts.wellFormed held]
          refine ⟨List.prefix_append _ _, ⟨_, rfl, ?_⟩, by simp⟩
          intro number isFired
          exact Or.inl (List.mem_singleton.mp isFired)
      | some holder =>
          simp only [LockHistory.step, NativeLock.request_held held]
          refine ⟨List.prefix_append _ _, ⟨_, rfl, by simp⟩, ?_⟩
          intro waiter waits
          rcases NativeLock.mem_enqueue.mp waits with rfl | earlier
          · exact Or.inr rfl
          · exact Or.inl earlier
  | release => exact advances_release history
  | handleNodeDeath nodeId =>
      have survivors : (history.prune nodeId).lock.waiters ⊆ history.lock.waiters :=
        fun _ waits => (List.mem_filter.mp waits).1
      rw [step_handleNodeDeath]
      split
      · have released := advances_release (history.prune nodeId)
        rcases released.granted with ⟨fired, grantedNext, who⟩
        refine ⟨released.requested, ⟨fired, grantedNext, ?_⟩, ?_⟩
        · intro number isFired
          rcases who number isFired with isNew | ⟨waiter, waits, same⟩
          · exact Or.inl isNew
          · exact Or.inr ⟨waiter, survivors waits, same⟩
        · intro waiter waits
          rcases released.waiters waiter waits with earlier | isNew
          · exact Or.inl (survivors earlier)
          · exact Or.inr isNew
      · exact ⟨List.prefix_refl _, ⟨[], (List.append_nil _).symm, by simp⟩,
          fun waiter waits => Or.inl (survivors waits)⟩

/-- None of the first `count` requests of the node waits, nor was granted beyond `before`. -/
structure Spared (nodeId : NodeId) (count : ℕ) (before : List ℕ) (history : LockHistory) :
    Prop where
  counted : count ≤ history.requested.length
  waiting : ∀ waiter ∈ history.lock.waiters, waiter.onGranted < count → waiter.nodeId ≠ nodeId
  granted : ∃ later, history.granted = before ++ later ∧ ∀ number ∈ later, number < count →
    ∀ request, history.requested[number]? = some request → request.nodeId ≠ nodeId

theorem prune_spared (history : LockHistory) (nodeId : NodeId) :
    (history.prune nodeId).Spared nodeId history.requested.length history.granted where
  counted := le_rfl
  waiting := by
    intro waiter waits _
    exact of_decide_eq_true (List.mem_filter.mp waits).2
  granted := ⟨[], (List.append_nil _).symm, by simp⟩

theorem Spared.advance {nodeId : NodeId} {count : ℕ} {before : List ℕ} {next : LockHistory}
    (spared : history.Spared nodeId count before) (accounts : history.Accounts)
    (advances : history.Advances next) : next.Spared nodeId count before where
  counted := spared.counted.trans advances.requested.length_le
  waiting := by
    intro waiter waits early
    rcases advances.waiters waiter waits with earlier | isNew
    · exact spared.waiting waiter earlier early
    · exact absurd early (isNew ▸ not_lt.mpr spared.counted)
  granted := by
    rcases spared.granted with ⟨later, split, others⟩
    rcases advances.granted with ⟨fired, grantedNext, who⟩
    refine ⟨later ++ fired, by rw [grantedNext, split, List.append_assoc], ?_⟩
    intro number isGranted early request found
    -- A request that was made before is the one it was.
    rcases advances.requested with ⟨more, extended⟩
    rw [← extended, List.getElem?_append_left (early.trans_le spared.counted)] at found
    rcases List.mem_append.mp isGranted with inLater | inFired
    · exact others number inLater early request found
    · rcases who number inFired with isNew | ⟨waiter, waits, same⟩
      · exact absurd early (isNew ▸ not_lt.mpr spared.counted)
      · have asked := accounts.requests waiter waits
        rw [same, found, Option.some.injEq] at asked
        subst request
        exact spared.waiting waiter waits (same ▸ early)

theorem Spared.run {nodeId : NodeId} {count : ℕ} {before : List ℕ}
    (spared : history.Spared nodeId count before) (accounts : history.Accounts)
    (steps : List LockStep) : (history.run steps).Spared nodeId count before := by
  induction steps generalizing history with
  | nil => exact spared
  | cons label steps ih =>
      exact ih (spared.advance accounts (accounts.advances label)) (accounts.step label)

theorem Accounts.requested_run (accounts : history.Accounts) (steps : List LockStep) :
    history.requested <+: (history.run steps).requested := by
  induction steps generalizing history with
  | nil => exact List.prefix_refl _
  | cons label steps ih =>
      exact (accounts.advances label).requested.trans (ih (accounts.step label))

/-- After the death of a node none of the requests it made before is granted. -/
theorem Accounts.granted_after_death (accounts : history.Accounts) (nodeId : NodeId)
    (steps : List LockStep) :
    ∃ later, (history.run (.handleNodeDeath nodeId :: steps)).granted =
        history.granted ++ later ∧
      ∀ number ∈ later, ∀ request, history.requested[number]? = some request →
        request.nodeId ≠ nodeId := by
  have afterDeath : (history.step (.handleNodeDeath nodeId)).Spared nodeId
      history.requested.length history.granted := by
    rw [step_handleNodeDeath]
    split
    · exact (prune_spared history nodeId).advance (accounts.prune nodeId)
        (advances_release (history.prune nodeId))
    · exact prune_spared history nodeId
  have spared := afterDeath.run (accounts.step (.handleNodeDeath nodeId)) steps
  rcases spared.granted with ⟨later, split, others⟩
  refine ⟨later, split, ?_⟩
  intro number isGranted request found
  have made := (List.getElem?_eq_some_iff.mp found).1
  refine others number isGranted made request ?_
  rcases accounts.requested_run (.handleNodeDeath nodeId :: steps) with ⟨more, extended⟩
  change (history.run (.handleNodeDeath nodeId :: steps)).requested[number]? = some request
  rw [← extended, List.getElem?_append_left made]
  exact found

/-- Requests are pruned only by the death of their node. -/
theorem pruned_by_death (steps : List LockStep) {number : ℕ}
    (isPruned : number ∈ (new.run steps).pruned) :
    ∃ front nodeId back, steps = front ++ .handleNodeDeath nodeId :: back ∧
      ∃ request, (new.run front).requested[number]? = some request ∧
        request.nodeId = nodeId := by
  induction steps using List.reverseRecOn with
  | nil => cases isPruned
  | append_singleton steps label ih =>
      have earlier : number ∈ (new.run steps).pruned →
          ∃ front nodeId back, steps ++ [label] = front ++ .handleNodeDeath nodeId :: back ∧
            ∃ request, (new.run front).requested[number]? = some request ∧
              request.nodeId = nodeId := by
        intro before
        rcases ih before with ⟨front, nodeId, back, split, made⟩
        exact ⟨front, nodeId, back ++ [label], by rw [split]; simp, made⟩
      rw [run, List.foldl_append, List.foldl_cons, List.foldl_nil] at isPruned
      change number ∈ ((new.run steps).step label).pruned at isPruned
      cases label with
      | request opId nodeId threadId => exact earlier isPruned
      | release => exact earlier isPruned
      | handleNodeDeath nodeId =>
          rcases List.mem_append.mp isPruned with before | now
          · exact earlier before
          · rcases List.mem_map.mp now with ⟨waiter, leaves, rfl⟩
            rcases List.mem_filter.mp leaves with ⟨waits, isDead⟩
            exact ⟨steps, nodeId, [], rfl, _,
              (new_accounts.run steps).requests waiter waits, of_decide_eq_true isDead⟩

/-- The first of an ordered queue has the smallest op id. -/
theorem opId_le_of_before {waiter : Waiter ℕ} {rest : List (Waiter ℕ)}
    (sorted : (waiter :: rest).Pairwise Waiter.Before) :
    ∀ other ∈ waiter :: rest, waiter.opId ≤ other.opId := by
  intro other waits
  rcases List.mem_cons.mp waits with rfl | later
  · exact le_rfl
  · exact ((List.pairwise_cons.mp sorted).1 other later).opId_le

theorem Accounts.released_smallest (accounts : history.Accounts) {number : ℕ}
    (isFired : number ∈ history.lock.release.2) :
    ∃ waiter ∈ history.lock.waiters, waiter.onGranted = number ∧
      ∀ other ∈ history.lock.waiters, waiter.opId ≤ other.opId := by
  rcases fired_release isFired with ⟨waiter, rest, waiting, same⟩
  have sorted := accounts.sorted
  rw [waiting] at sorted ⊢
  exact ⟨waiter, List.mem_cons_self, same, opId_le_of_before sorted⟩

theorem Accounts.smallest_after_death (accounts : history.Accounts) {nodeId : NodeId} {number : ℕ}
    (isFired : number ∈ (history.lock.handleNodeDeath nodeId).2) :
    ∃ waiter ∈ history.lock.waiters, waiter.onGranted = number ∧ waiter.nodeId ≠ nodeId ∧
      ∀ other ∈ history.lock.waiters, other.nodeId ≠ nodeId → waiter.opId ≤ other.opId := by
  have fired : number ∈ (history.prune nodeId).lock.release.2 := by
    simp only [NativeLock.handleNodeDeath] at isFired
    split at isFired
    · exact isFired
    · cases isFired
  rcases (accounts.prune nodeId).released_smallest fired with ⟨waiter, survives, same, smallest⟩
  rcases List.mem_filter.mp survives with ⟨waits, isAlive⟩
  refine ⟨waiter, waits, same, of_decide_eq_true isAlive, ?_⟩
  intro other otherWaits otherAlive
  exact smallest other (List.mem_filter.mpr ⟨otherWaits, decide_eq_true otherAlive⟩)

theorem Accounts.recallNeeded_iff (accounts : history.Accounts) (opId : DatumId)
    (nodeId : NodeId) (threadId : ThreadId) (holder : Holder) :
    (history.lock.request opId nodeId threadId history.requested.length).2.2 =
        .recallNeeded holder ↔
      history.lock.currentHolder = some holder ∧ opId < holder.opId := by
  cases held : history.lock.currentHolder with
  | none =>
      rw [NativeLock.request_idle accounts.wellFormed held]
      simp
  | some current =>
      rw [NativeLock.request_held held]
      by_cases older : opId < current.opId
      · simp only [older, if_true, AcquireOutcome.recallNeeded.injEq, Option.some.injEq]
        constructor
        · rintro rfl
          exact ⟨rfl, older⟩
        · exact fun same => same.1
      · simp only [older, if_false, reduceCtorEq, Option.some.injEq, false_iff]
        rintro ⟨rfl, less⟩
        exact older less

/-- The discipline of the queue over any use of the lock: it is ordered by op id and then by
arrival and waits behind a holder only; every request made was granted, waits or was pruned by the
death of its node, exactly one of these and once; a release grants the smallest op id that waits,
also when a death makes it; a recall is asked for exactly if the holder's op id is larger; and no
request made before the death of its node is granted after it. -/
theorem queue_discipline (steps : List LockStep) :
    (new.run steps).lock.waiters.Pairwise Waiter.Before ∧
    ((new.run steps).lock.currentHolder = none → (new.run steps).lock.waiters = []) ∧
    ((new.run steps).granted ++ (new.run steps).queued ++ (new.run steps).pruned).Perm
      (List.range (new.run steps).requested.length) ∧
    (∀ waiter ∈ (new.run steps).lock.waiters, (new.run steps).requested[waiter.onGranted]? =
      some (NativeLock.Waiter.asHolder waiter)) ∧
    (∀ number ∈ (new.run steps).pruned, ∃ front nodeId back,
      steps = front ++ .handleNodeDeath nodeId :: back ∧
        ∃ request, (new.run front).requested[number]? = some request ∧
          request.nodeId = nodeId) ∧
    (∀ number ∈ (new.run steps).lock.release.2,
      ∃ waiter ∈ (new.run steps).lock.waiters, waiter.onGranted = number ∧
        ∀ other ∈ (new.run steps).lock.waiters, waiter.opId ≤ other.opId) ∧
    (∀ nodeId, ∀ number ∈ ((new.run steps).lock.handleNodeDeath nodeId).2,
      ∃ waiter ∈ (new.run steps).lock.waiters, waiter.onGranted = number ∧
        waiter.nodeId ≠ nodeId ∧ ∀ other ∈ (new.run steps).lock.waiters, other.nodeId ≠ nodeId →
          waiter.opId ≤ other.opId) ∧
    (∀ opId nodeId threadId holder,
      ((new.run steps).lock.request opId nodeId threadId (new.run steps).requested.length).2.2 =
        .recallNeeded holder ↔
      (new.run steps).lock.currentHolder = some holder ∧ opId < holder.opId) ∧
    ∀ front nodeId back, steps = front ++ .handleNodeDeath nodeId :: back →
      ∃ later, (new.run steps).granted = (new.run front).granted ++ later ∧
        ∀ number ∈ later, ∀ request, (new.run front).requested[number]? = some request →
          request.nodeId ≠ nodeId := by
  have accounts := new_accounts.run steps
  refine ⟨accounts.sorted, accounts.idle, accounts.once, accounts.requests,
    fun number => pruned_by_death steps, fun number => accounts.released_smallest,
    fun nodeId number => accounts.smallest_after_death, accounts.recallNeeded_iff, ?_⟩
  intro front nodeId back split
  have whole : new.run steps = (new.run front).run (.handleNodeDeath nodeId :: back) := by
    rw [split, run, List.foldl_append]
    rfl
  rw [whole]
  exact (new_accounts.run front).granted_after_death nodeId back

end LockHistory

end Seisin
