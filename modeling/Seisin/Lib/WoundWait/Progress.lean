import Seisin.Lib.WoundWait.Lifecycle
import Mathlib

/-!
# Nothing is lost and nobody waits for ever

Whatever a lock or a ticket waits for has a message in flight, or is waited for by an operation that
is itself entitled to wait: a holder has the resource, is about to get it or has sent it back; an
older waiter has made the lock recall the resource; a needed resource has been asked for.  When no
messages are left the oldest operation with a ticket could only wait for an older one, so there
are no tickets, every lock is free, and every operation has run and been answered once.
-/

set_option linter.unusedSectionVars false

namespace WoundWait

universe u

variable {Thread Op Resource : Type u} [DecidableEq Thread] [LinearOrder Op]
  [DecidableEq Resource]

structure Progress (state : State Thread Op Resource) : Prop where
  custody : ∀ resource thread op, (state.locks resource).holder = some (thread, op) →
    .grant thread op resource ∈ state.signals ∨
      (∃ ticket, state.tickets thread op = some ticket ∧ resource ∈ ticket.acquired) ∨
      .release resource ∈ state.signals
  recalls : ∀ resource thread op waiter, (state.locks resource).holder = some (thread, op) →
    waiter ∈ (state.locks resource).waiters → waiter.2 < op →
    .recall thread resource ∈ state.signals ∨ .release resource ∈ state.signals
  requests : ∀ thread op ticket resource, state.tickets thread op = some ticket →
    resource ∈ ticket.needed →
    .request thread op resource ∈ state.signals ∨
      (thread, op) ∈ (state.locks resource).waiters ∨ .grant thread op resource ∈ state.signals
  needs : ∀ thread op ticket resource, state.tickets thread op = some ticket →
    resource ∈ ticket.needed → (state.locks resource).holder = some (thread, op) →
    .grant thread op resource ∈ state.signals ∨ .release resource ∈ state.signals
  idle : ∀ resource, (state.locks resource).holder = none → (state.locks resource).waiters = 0

namespace Ticket.Closes

variable {ticket left : Ticket Resource} {after : Option (Ticket Resource)}
  {emitted : Multiset (Signal Thread Op Resource)}

theorem acquired_or_released (closes : ticket.Closes after emitted) {resource : Resource}
    (acquired : resource ∈ ticket.acquired) :
    (∃ left, after = some left ∧ resource ∈ left.acquired) ∨ .release resource ∈ emitted := by
  cases closes with
  | kept left emitted sameAcquired needed wanted silent =>
      left
      exact ⟨left, rfl, sameAcquired ▸ acquired⟩
  | ended =>
      right
      simpa [Ticket.releases] using acquired

theorem needed_eq (closes : ticket.Closes (some left) emitted) : left.needed = ticket.needed := by
  cases closes with
  | kept left emitted acquired needed wanted silent => exact needed

end Ticket.Closes

namespace Progress

variable {state next : State Thread Op Resource} {event : Event}

theorem kept {consumed signal : Signal Thread Op Resource}
    {rest emitted : Multiset (Signal Thread Op Resource)}
    (signals : state.signals = consumed ::ₘ rest) (inFlight : signal ∈ state.signals)
    (different : signal ≠ consumed) : signal ∈ rest + emitted := by
  rw [signals, Multiset.mem_cons] at inFlight
  rcases inFlight with same | inFlight
  · exact absurd same different
  · exact Multiset.mem_add.mpr (Or.inl inFlight)

/-! ## Steps that replace a ticket -/

section Tickets

variable {thread : Thread} {op : Op} {consumed : Signal Thread Op Resource}
  {rest emitted : Multiset (Signal Thread Op Resource)} {after : Option (Ticket Resource)}

/-- The ticket of `op` on `thread` is replaced and one message consumed; the hypotheses are what
is to be shown about that ticket and that message. -/
theorem replace (progress : Progress state) (signals : state.signals = consumed ::ₘ rest)
    (locks : next.locks = state.locks)
    (tickets : ∀ other otherOp, next.tickets other otherOp =
      if other = thread ∧ otherOp = op then after else state.tickets other otherOp)
    (nextSignals : next.signals = rest + emitted)
    (notRelease : ∀ resource, consumed ≠ .release resource)
    (notRequest : ∀ other otherOp resource, consumed ≠ .request other otherOp resource)
    (grantOwn : ∀ other otherOp resource, consumed = .grant other otherOp resource →
      other = thread ∧ otherOp = op ∧
        ((∃ ticket, after = some ticket ∧ resource ∈ ticket.acquired) ∨
          .release resource ∈ emitted) ∧
        ∀ ticket, after = some ticket → resource ∉ ticket.needed)
    (recallReleases : ∀ other resource, consumed = .recall other resource →
      .release resource ∈ emitted)
    (acquired : ∀ ticket resource, state.tickets thread op = some ticket →
      resource ∈ ticket.acquired →
      (∃ left, after = some left ∧ resource ∈ left.acquired) ∨ .release resource ∈ emitted)
    (needed : ∀ left resource, after = some left → resource ∈ left.needed →
      (∃ ticket, state.tickets thread op = some ticket ∧ resource ∈ ticket.needed) ∨
        (.request thread op resource ∈ emitted ∧
          (.release resource ∈ emitted ∨ state.tickets thread op = none))) :
    Progress next := by
  have releaseKept : ∀ resource, .release resource ∈ state.signals →
      .release resource ∈ next.signals := by
    intro resource releasing
    rw [nextSignals]
    exact kept signals releasing (notRelease resource).symm
  have emits : ∀ signal, signal ∈ emitted → signal ∈ next.signals := by
    intro signal emits
    rw [nextSignals]
    exact Multiset.mem_add.mpr (Or.inr emits)
  have custody : ∀ resource other otherOp,
      (state.locks resource).holder = some (other, otherOp) →
      .grant other otherOp resource ∈ next.signals ∨
        (∃ ticket, next.tickets other otherOp = some ticket ∧ resource ∈ ticket.acquired) ∨
        .release resource ∈ next.signals := by
    intro resource other otherOp held
    rcases progress.custody resource other otherOp held with
      granting | ⟨ticket, found, isAcquired⟩ | releasing
    · by_cases same : consumed = .grant other otherOp resource
      · rcases grantOwn other otherOp resource same with ⟨rfl, rfl, outcome, _⟩
        rcases outcome with ⟨ticket, leaves, isAcquired⟩ | releasing
        · exact Or.inr (Or.inl ⟨ticket, by simp [tickets, leaves], isAcquired⟩)
        · exact Or.inr (Or.inr (emits _ releasing))
      · left
        rw [nextSignals]
        exact kept signals granting fun eq => same eq.symm
    · by_cases same : other = thread ∧ otherOp = op
      · rcases same with ⟨rfl, rfl⟩
        rcases acquired ticket resource found isAcquired with ⟨left, leaves, stays⟩ | releasing
        · exact Or.inr (Or.inl ⟨left, by simp [tickets, leaves], stays⟩)
        · exact Or.inr (Or.inr (emits _ releasing))
      · exact Or.inr (Or.inl ⟨ticket, by simp [tickets, same, found], isAcquired⟩)
    · exact Or.inr (Or.inr (releaseKept resource releasing))
  constructor
  · rw [locks]
    exact custody
  · intro resource other otherOp waiter held waiting older
    rw [locks] at held waiting
    rcases progress.recalls resource other otherOp waiter held waiting older with
      recalling | releasing
    · by_cases same : consumed = .recall other resource
      · exact Or.inr (emits _ (recallReleases other resource same))
      · left
        rw [nextSignals]
        exact kept signals recalling fun eq => same eq.symm
    · exact Or.inr (releaseKept resource releasing)
  · intro other otherOp ticket resource found isNeeded
    have fromBefore : ∀ before, state.tickets other otherOp = some before →
        resource ∈ before.needed →
        .request other otherOp resource ∈ next.signals ∨
          (other, otherOp) ∈ (next.locks resource).waiters ∨
          .grant other otherOp resource ∈ next.signals := by
      intro before foundBefore neededBefore
      rcases progress.requests other otherOp before resource foundBefore neededBefore with
        requesting | waiting | granting
      · left
        rw [nextSignals]
        exact kept signals requesting (notRequest other otherOp resource).symm
      · right
        left
        rwa [locks]
      · by_cases same : consumed = .grant other otherOp resource
        · rcases grantOwn other otherOp resource same with ⟨rfl, rfl, _, notNeeded⟩
          rw [tickets, if_pos ⟨rfl, rfl⟩] at found
          exact absurd isNeeded (notNeeded ticket found)
        · right
          right
          rw [nextSignals]
          exact kept signals granting fun eq => same eq.symm
    by_cases same : other = thread ∧ otherOp = op
    · rcases same with ⟨rfl, rfl⟩
      have leaves : after = some ticket := by simpa [tickets] using found
      rcases needed ticket resource leaves isNeeded with ⟨before, foundBefore, neededBefore⟩ |
        ⟨requesting, _⟩
      · exact fromBefore before foundBefore neededBefore
      · exact Or.inl (emits _ requesting)
    · rw [tickets, if_neg same] at found
      exact fromBefore ticket found isNeeded
  · intro other otherOp ticket resource found isNeeded held
    rw [locks] at held
    have fromBefore : ∀ before, state.tickets other otherOp = some before →
        resource ∈ before.needed →
        .grant other otherOp resource ∈ next.signals ∨ .release resource ∈ next.signals := by
      intro before foundBefore neededBefore
      rcases progress.needs other otherOp before resource foundBefore neededBefore held with
        granting | releasing
      · by_cases same : consumed = .grant other otherOp resource
        · rcases grantOwn other otherOp resource same with ⟨rfl, rfl, _, notNeeded⟩
          rw [tickets, if_pos ⟨rfl, rfl⟩] at found
          exact absurd isNeeded (notNeeded ticket found)
        · left
          rw [nextSignals]
          exact kept signals granting fun eq => same eq.symm
      · exact Or.inr (releaseKept resource releasing)
    by_cases same : other = thread ∧ otherOp = op
    · rcases same with ⟨rfl, rfl⟩
      have leaves : after = some ticket := by simpa [tickets] using found
      rcases needed ticket resource leaves isNeeded with ⟨before, foundBefore, neededBefore⟩ |
        ⟨_, releasing | noTicket⟩
      · exact fromBefore before foundBefore neededBefore
      · exact Or.inr (emits _ releasing)
      -- The holder has no ticket yet, so its grant or its release is still in flight.
      · rcases progress.custody resource other otherOp held with
          granting | ⟨before, foundBefore, _⟩ | releasing
        · by_cases same : consumed = .grant other otherOp resource
          · rcases grantOwn other otherOp resource same with ⟨_, _, _, notNeeded⟩
            exact absurd isNeeded (notNeeded ticket leaves)
          · left
            rw [nextSignals]
            exact kept signals granting fun eq => same eq.symm
        · simp [noTicket] at foundBefore
        · exact Or.inr (releaseKept resource releasing)
    · rw [tickets, if_neg same] at found
      exact fromBefore ticket found isNeeded
  · rw [locks]
    exact progress.idle

end Tickets

/-! ## Steps that replace a lock -/

section Locks

variable {resource : Resource} {consumed : Signal Thread Op Resource}
  {rest : Multiset (Signal Thread Op Resource)}

/-- The lock of `resource` is replaced and a message about `resource` consumed; the hypotheses are
what is to be shown about that lock. -/
theorem relock (progress : Progress state) (signals : state.signals = consumed ::ₘ rest)
    (lock : Lock Thread Op) (emitted : Multiset (Signal Thread Op Resource))
    (about : (∃ thread op, consumed = .request thread op resource) ∨
      consumed = .release resource)
    (custody : ∀ thread op, lock.holder = some (thread, op) →
      .grant thread op resource ∈ emitted ∨
        (consumed ≠ .release resource ∧
          (state.locks resource).holder = some (thread, op)))
    (recalls : ∀ thread op waiter, lock.holder = some (thread, op) → waiter ∈ lock.waiters →
      waiter.2 < op →
      .recall thread resource ∈ rest + emitted ∨ .release resource ∈ rest + emitted)
    (requests : ∀ thread op,
      consumed = .request thread op resource ∨ (thread, op) ∈ (state.locks resource).waiters →
      (thread, op) ∈ lock.waiters ∨ .grant thread op resource ∈ emitted)
    (idle : lock.holder = none → lock.waiters = 0) :
    Progress ((state.setLock resource lock).withSignals (rest + emitted)) := by
  have notGrant : ∀ thread op other, (.grant thread op other : Signal Thread Op Resource) ≠
      consumed := by
    rcases about with ⟨_, _, rfl⟩ | rfl <;> simp
  have notRecall : ∀ thread other, (.recall thread other : Signal Thread Op Resource) ≠
      consumed := by
    rcases about with ⟨_, _, rfl⟩ | rfl <;> simp
  have apart : ∀ other, other ≠ resource → (.release other : Signal Thread Op Resource) ≠
      consumed := by
    intro other different
    rcases about with ⟨_, _, rfl⟩ | rfl <;> simp [different]
  have emits : ∀ signal, signal ∈ emitted → signal ∈ rest + emitted :=
    fun signal emits => Multiset.mem_add.mpr (Or.inr emits)
  constructor
  · intro other thread op held
    by_cases same : other = resource
    · subst same
      simp only [State.withSignals_locks, State.setLock_locks, Function.update_self] at held
      rcases custody thread op held with granting | ⟨notRelease, heldBefore⟩
      · exact Or.inl (emits _ granting)
      · rcases progress.custody other thread op heldBefore with granting | acquired | releasing
        · exact Or.inl (kept signals granting (notGrant _ _ _))
        · exact Or.inr (Or.inl acquired)
        · exact Or.inr (Or.inr (kept signals releasing notRelease.symm))
    · simp only [State.withSignals_locks, State.setLock_locks,
        Function.update_of_ne same] at held
      rcases progress.custody other thread op held with granting | acquired | releasing
      · exact Or.inl (kept signals granting (notGrant _ _ _))
      · exact Or.inr (Or.inl acquired)
      · exact Or.inr (Or.inr (kept signals releasing (apart other same)))
  · intro other thread op waiter held waiting older
    by_cases same : other = resource
    · subst same
      simp only [State.withSignals_locks, State.setLock_locks, Function.update_self]
        at held waiting
      exact recalls thread op waiter held waiting older
    · simp only [State.withSignals_locks, State.setLock_locks, Function.update_of_ne same]
        at held waiting
      rcases progress.recalls other thread op waiter held waiting older with
        recalling | releasing
      · exact Or.inl (kept signals recalling (notRecall _ _))
      · exact Or.inr (kept signals releasing (apart other same))
  · intro thread op ticket other found needed
    have before := progress.requests thread op ticket other found needed
    by_cases same : other = resource
    · subst same
      simp only [State.withSignals_locks, State.setLock_locks, Function.update_self,
        State.withSignals_signals]
      have concluded : consumed = .request thread op other ∨
          (thread, op) ∈ (state.locks other).waiters →
          .request thread op other ∈ rest + emitted ∨ (thread, op) ∈ lock.waiters ∨
            .grant thread op other ∈ rest + emitted := by
        intro asked
        rcases requests thread op asked with waiting | granting
        · exact Or.inr (Or.inl waiting)
        · exact Or.inr (Or.inr (emits _ granting))
      rcases before with requesting | waiting | granting
      · by_cases this : consumed = .request thread op other
        · exact concluded (Or.inl this)
        · exact Or.inl (kept signals requesting fun eq => this eq.symm)
      · exact concluded (Or.inr waiting)
      · exact Or.inr (Or.inr (kept signals granting (notGrant _ _ _)))
    · simp only [State.withSignals_locks, State.setLock_locks, Function.update_of_ne same,
        State.withSignals_signals]
      rcases before with requesting | waiting | granting
      · left
        apply kept signals requesting
        rcases about with ⟨_, _, rfl⟩ | rfl <;> simp [same]
      · exact Or.inr (Or.inl waiting)
      · exact Or.inr (Or.inr (kept signals granting (notGrant _ _ _)))
  · intro thread op ticket other found needed held
    by_cases same : other = resource
    · subst same
      simp only [State.withSignals_locks, State.setLock_locks, Function.update_self] at held
      rcases custody thread op held with granting | ⟨notRelease, heldBefore⟩
      · exact Or.inl (emits _ granting)
      · rcases progress.needs thread op ticket other found needed heldBefore with
          granting | releasing
        · exact Or.inl (kept signals granting (notGrant _ _ _))
        · exact Or.inr (kept signals releasing notRelease.symm)
    · simp only [State.withSignals_locks, State.setLock_locks,
        Function.update_of_ne same] at held
      rcases progress.needs thread op ticket other found needed held with granting | releasing
      · exact Or.inl (kept signals granting (notGrant _ _ _))
      · exact Or.inr (kept signals releasing (apart other same))
  · intro other free
    by_cases same : other = resource
    · subst same
      simp only [State.withSignals_locks, State.setLock_locks, Function.update_self] at free ⊢
      exact idle free
    · simp only [State.withSignals_locks, State.setLock_locks, Function.update_of_ne same]
        at free ⊢
      exact progress.idle other free

theorem step_queue (progress : Progress state) {thread : Thread} {op : Op}
    {holder : Thread × Op} (signals : state.signals = .request thread op resource ::ₘ rest)
    (held : (state.locks resource).holder = some holder) :
    Progress ((state.setLock resource
      ⟨some holder, (thread, op) ::ₘ (state.locks resource).waiters⟩).withSignals
      (rest + if op < holder.2 then {.recall holder.1 resource} else 0)) := by
  refine progress.relock signals _ _ (Or.inl ⟨thread, op, rfl⟩) ?_ ?_ ?_ (by simp)
  · intro otherThread otherOp isHolder
    right
    exact ⟨by simp, held.trans isHolder⟩
  · intro otherThread otherOp waiter isHolder waiting older
    have isHolder : holder = (otherThread, otherOp) := by simpa using isHolder
    subst isHolder
    rcases Multiset.mem_cons.mp waiting with rfl | waiting
    · left
      simp only [older, if_true]
      simp
    · rcases progress.recalls resource otherThread otherOp waiter held waiting older with
        recalling | releasing
      · exact Or.inl (kept signals recalling (by simp))
      · exact Or.inr (kept signals releasing (by simp))
  · intro otherThread otherOp asked
    left
    rcases asked with same | waiting
    · cases same
      simp
    · exact Multiset.mem_cons.mpr (Or.inr waiting)

theorem step_handOver (progress : Progress state) {waiter : Thread × Op}
    {waiters : Multiset (Thread × Op)} (signals : state.signals = .release resource ::ₘ rest)
    (waiting : (state.locks resource).waiters = waiter ::ₘ waiters)
    (oldest : ∀ other ∈ waiters, waiter.2 ≤ other.2) :
    Progress ((state.setLock resource ⟨some waiter, waiters⟩).withSignals
      (rest + {.grant waiter.1 waiter.2 resource})) := by
  refine progress.relock signals _ _ (Or.inr rfl) ?_ ?_ ?_ (by simp)
  · intro thread op isHolder
    have isHolder : waiter = (thread, op) := by simpa using isHolder
    subst isHolder
    left
    simp
  · intro thread op other isHolder otherWaiting older
    have isHolder : waiter = (thread, op) := by simpa using isHolder
    subst isHolder
    exact absurd older (not_lt.mpr (oldest other otherWaiting))
  · intro thread op asked
    rcases asked with same | asked
    · cases same
    · rw [waiting, Multiset.mem_cons] at asked
      rcases asked with rfl | asked
      · right
        simp
      · exact Or.inl asked

end Locks

theorem step_recallMissed (progress : Progress state) {thread : Thread} {resource : Resource}
    {rest : Multiset (Signal Thread Op Resource)}
    (signals : state.signals = .recall thread resource ::ₘ rest) :
    Progress (state.withSignals (rest + {.release resource})) where
  custody := by
    intro other otherThread op held
    rcases progress.custody other otherThread op held with granting | acquired | releasing
    · exact Or.inl (kept signals granting (by simp))
    · exact Or.inr (Or.inl acquired)
    · exact Or.inr (Or.inr (kept signals releasing (by simp)))
  recalls := by
    intro other otherThread op waiter held waiting older
    rcases progress.recalls other otherThread op waiter held waiting older with
      recalling | releasing
    · by_cases same : otherThread = thread ∧ other = resource
      · right
        simp [same]
      · left
        exact kept signals recalling (by simpa using same)
    · exact Or.inr (kept signals releasing (by simp))
  requests := by
    intro otherThread op ticket other found needed
    rcases progress.requests otherThread op ticket other found needed with
      requesting | waiting | granting
    · exact Or.inl (kept signals requesting (by simp))
    · exact Or.inr (Or.inl waiting)
    · exact Or.inr (Or.inr (kept signals granting (by simp)))
  needs := by
    intro otherThread op ticket other found needed held
    rcases progress.needs otherThread op ticket other found needed held with granting | releasing
    · exact Or.inl (kept signals granting (by simp))
    · exact Or.inr (kept signals releasing (by simp))
  idle := progress.idle

/-- One step keeps everything that is waited for on its way. -/
theorem step (progress : Progress state) (life : Lifecycle state) (step : Step state event next) :
    Progress next := by
  cases step with
  | submit op fresh =>
      have grown : ∀ signal, signal ∈ state.signals → signal ∈ .start op ::ₘ state.signals :=
        fun signal inFlight => Multiset.mem_cons.mpr (Or.inr inFlight)
      constructor
      · intro resource thread otherOp held
        exact (progress.custody resource thread otherOp held).imp (grown _)
          (Or.imp_right (grown _))
      · intro resource thread otherOp waiter held waiting older
        exact (progress.recalls resource thread otherOp waiter held waiting older).imp (grown _)
          (grown _)
      · intro thread otherOp ticket resource found needed
        exact (progress.requests thread otherOp ticket resource found needed).imp (grown _)
          (Or.imp_right (grown _))
      · intro thread otherOp ticket resource found needed held
        exact (progress.needs thread otherOp ticket resource found needed held).imp (grown _)
          (grown _)
      · exact progress.idle
  | start thread op wanted rest emitted after replied invoked consumed proceeds =>
      rcases life.phases op with ⟨phase, inPhase⟩
      have queued : phase = .queued := inPhase.eq_queued (by simp [consumed])
      subst queued
      have noTicket : state.tickets thread op = none := by
        simpa [Phase.status] using inPhase.status thread
      refine progress.replace consumed rfl (fun _ _ => update_update_apply _ _ _ _ _ _) rfl
        (by simp) (by simp) (by simp) (by simp) (by simp [noTicket]) ?_
      intro left resource leaves needed
      right
      subst leaves
      rw [proceeds.closes.needed_eq] at needed
      exact ⟨by simpa using Or.inl needed, Or.inr noTicket⟩
  | grantFree thread op resource rest consumed free idle =>
      refine progress.relock consumed _ _ (Or.inl ⟨thread, op, rfl⟩) ?_ (by simp) ?_ (by simp)
      · intro otherThread otherOp isHolder
        have isHolder : thread = otherThread ∧ op = otherOp := by simpa using isHolder
        left
        simp [isHolder]
      · intro otherThread otherOp asked
        rcases asked with same | waiting
        · cases same
          right
          simp
        · simp [idle] at waiting
  | queue thread op resource holder rest consumed held =>
      exact progress.step_queue consumed held
  | grantLost thread op resource rest consumed gone =>
      refine progress.replace consumed rfl (?_ : ∀ other otherOp, _ =
        if other = thread ∧ otherOp = op then none else _) rfl (by simp) (by simp) ?_
        (by simp) (by simp [gone]) (by simp)
      · intro other otherOp
        split
        · rename_i same
          simpa [same] using gone
        · rfl
      · intro other otherOp otherResource same
        cases same
        exact ⟨rfl, rfl, Or.inr (by simp), by simp⟩
  | granted thread op resource ticket rest emitted after replied invoked consumed found proceeds =>
      refine progress.replace consumed rfl (fun _ _ => update_update_apply _ _ _ _ _ _) rfl
        (by simp) (by simp) ?_ (by simp) ?_ ?_
      · intro other otherOp otherResource same
        cases same
        refine ⟨rfl, rfl, proceeds.closes.acquired_or_released (by simp [Ticket.grant]), ?_⟩
        intro left leaves
        subst leaves
        rw [proceeds.closes.needed_eq]
        simp [Ticket.grant]
      · intro before otherResource foundBefore acquired
        have same : before = ticket := by simpa [found] using foundBefore.symm
        subst same
        exact proceeds.closes.acquired_or_released (by simp [Ticket.grant, acquired])
      · intro left otherResource leaves needed
        left
        subst leaves
        rw [proceeds.closes.needed_eq] at needed
        exact ⟨ticket, found, (List.mem_filter.mp needed).1⟩
  | recallMissed thread resource rest consumed =>
      exact progress.step_recallMissed consumed
  | recalled thread op resource ticket rest consumed found holds =>
      refine progress.replace consumed rfl (fun _ _ => update_update_apply _ _ _ _ _ _) rfl
        (by simp) (by simp) (by simp) ?_ ?_ ?_
      · intro other otherResource same
        cases same
        simp
      · intro before otherResource foundBefore acquired
        have sameTicket : before = ticket := by simpa [found] using foundBefore.symm
        subst sameTicket
        by_cases same : otherResource = resource
        · right
          simp [same]
        · left
          exact ⟨_, rfl, (List.mem_erase_of_ne same).mpr acquired⟩
      · intro left otherResource leaves needed
        cases leaves
        simp only [Ticket.wound, List.mem_append, List.mem_singleton] at needed
        rcases needed with needed | rfl
        · exact Or.inl ⟨ticket, found, needed⟩
        · exact Or.inr ⟨by simp, Or.inl (by simp)⟩
  | releaseLast resource rest consumed idle =>
      have moved := progress.relock consumed ⟨none, 0⟩ 0 (Or.inr rfl) (by simp) (by simp)
        (by simp [idle]) (by simp)
      simpa using moved
  | handOver resource waiter waiters rest consumed waiting oldest =>
      exact progress.step_handOver consumed waiting oldest
  | settleLost thread op rest consumed gone =>
      rcases life.exists_pending (by simp [consumed] : Signal.settle thread op ∈ _) with
        ⟨ticket, found, entered⟩
      exact absurd (gone ticket found) entered
  | settled thread op ticket count more replied rest emitted after consumed found entered settles =>
      refine progress.replace consumed rfl (fun _ _ => update_update_apply _ _ _ _ _ _) rfl
        (by simp) (by simp) (by simp) (by simp) ?_ ?_
      · intro before resource foundBefore acquired
        have same : before = ticket := by simpa [found] using foundBefore.symm
        subst same
        rcases settles.closes.acquired_or_released acquired with left | releasing
        · exact Or.inl left
        · exact Or.inr (Multiset.mem_add.mpr (Or.inr releasing))
      · intro left resource leaves needed
        left
        subst leaves
        rw [settles.closes.needed_eq] at needed
        exact ⟨ticket, found, needed⟩

/-! ## When nothing is in flight -/

section Quiescent

variable (progress : Progress state) (life : Lifecycle state) (quiet : state.signals = 0)

include progress life quiet

theorem no_ticket [WellFoundedLT Op] (op : Op) : ∀ thread, state.tickets thread op = none := by
  -- Well-founded induction on age: the oldest ticket would wait for an even older one.
  induction op using WellFoundedLT.induction with
  | _ op ih =>
      intro thread
      by_contra exists_
      rcases Option.ne_none_iff_exists'.mp exists_ with ⟨ticket, found⟩
      have settled : ticket.pending = none := by
        have awaited := life.awaited thread op
        have positive := life.positive thread op ticket found
        cases entered : ticket.pending with
        | none => rfl
        | some count =>
            simp only [State.awaited, found, Option.bind_some, entered, Option.getD_some, quiet,
              Multiset.count_zero] at awaited
            simp [entered, ← awaited] at positive
      have unready : ticket.needed ≠ [] :=
        (life.unready thread op ticket found).resolve_right fun entered => entered settled
      rcases List.exists_mem_of_ne_nil _ unready with ⟨resource, needed⟩
      have waiting : (thread, op) ∈ (state.locks resource).waiters := by
        rcases progress.requests thread op ticket resource found needed with
          requesting | waiting | granting
        · simp [quiet] at requesting
        · exact waiting
        · simp [quiet] at granting
      cases held : (state.locks resource).holder with
      | none => simp [progress.idle resource held] at waiting
      | some holder =>
          rcases holder with ⟨holderThread, holderOp⟩
          have holds : ∃ ticket, state.tickets holderThread holderOp = some ticket ∧
              resource ∈ ticket.acquired := by
            rcases progress.custody resource holderThread holderOp held with
              granting | acquired | releasing
            · simp [quiet] at granting
            · exact acquired
            · simp [quiet] at releasing
          rcases holds with ⟨holderTicket, holderFound, _⟩
          rcases lt_trichotomy holderOp op with older | rfl | younger
          · simp [ih holderOp older holderThread] at holderFound
          · rcases life.phases holderOp with ⟨phase, inPhase⟩
            have sameThread := inPhase.thread_unique found holderFound
            subst sameThread
            have contradiction := progress.needs thread holderOp ticket resource found needed held
            simp [quiet] at contradiction
          · have contradiction := progress.recalls resource holderThread holderOp (thread, op) held
              waiting younger
            simp [quiet] at contradiction

theorem lock_free [WellFoundedLT Op] (resource : Resource) :
    (state.locks resource).holder = none ∧ (state.locks resource).waiters = 0 := by
  have free : (state.locks resource).holder = none := by
    by_contra held
    rcases Option.ne_none_iff_exists'.mp held with ⟨⟨thread, op⟩, isHolder⟩
    rcases progress.custody resource thread op isHolder with
      granting | ⟨ticket, found, _⟩ | releasing
    · simp [quiet] at granting
    · simp [no_ticket progress life quiet op thread] at found
    · simp [quiet] at releasing
  exact ⟨free, progress.idle resource free⟩

theorem answered_once [WellFoundedLT Op] {op : Op} (submitted : op ∈ state.submitted) :
    state.replied op = 1 ∧ state.invoked op = 1 := by
  rcases life.phases op with ⟨phase, inPhase⟩
  have noTicket := no_ticket progress life quiet op
  cases phase with
  | unsubmitted => exact absurd rfl (inPhase.submitted.mp submitted)
  | queued =>
      have starts := inPhase.starts
      simp [quiet, Phase.starts] at starts
  | collating thread =>
      have status := inPhase.status thread
      simp [noTicket, Phase.status] at status
  | settling thread =>
      have status := inPhase.status thread
      simp [noTicket, Phase.status] at status
  | finished => exact ⟨inPhase.replied, inPhase.invoked⟩

end Quiescent

end Progress

end WoundWait
