import Seisin.Lib.WoundWait.Lifecycle
import Mathlib

/-!
# Exclusive custody of a resource

At any time a resource is free, granted by a message in flight, held by the ticket of one operation,
or on its way back.  As long as every recall finds the resource with an operation of its thread,
the lock's holder, the messages in flight and the tickets agree about which of these it is; a recall
that finds nobody is answered by a release all the same, and that release is one too many.
-/

set_option linter.unusedSectionVars false

namespace WoundWait

universe u

variable {Thread Op Resource : Type u} [DecidableEq Thread] [LinearOrder Op]
  [DecidableEq Resource]

inductive Custody (Thread Op : Type u) where
  | free
  | granted (thread : Thread) (op : Op)
  | held (thread : Thread) (op : Op)
  | released
  deriving DecidableEq

/-- What the custody of a resource says about its lock. -/
def Custody.Matches : Custody Thread Op → Option (Thread × Op) → Prop
  | .free, holder => holder = none
  | .granted thread op, holder => holder = some (thread, op)
  | .held thread op, holder => holder = some (thread, op)
  | .released, holder => holder ≠ none

/-- How often the ticket of `op` on `thread` lists `resource` as acquired. -/
def State.holds (state : State Thread Op Resource) (thread : Thread) (op : Op)
    (resource : Resource) : ℕ :=
  (state.tickets thread op).elim 0 fun ticket => ticket.acquired.count resource

theorem State.holds_setTicket (state : State Thread Op Resource) (thread : Thread) (op : Op)
    (after : Option (Ticket Resource)) (other : Thread) (otherOp : Op) (resource : Resource) :
    (state.setTicket thread op after).holds other otherOp resource =
      if other = thread ∧ otherOp = op then
        after.elim 0 fun ticket => ticket.acquired.count resource
      else state.holds other otherOp resource := by
  simp only [State.holds, State.setTicket_tickets, update_update_apply]
  split <;> rfl

@[simp]
theorem State.holds_withSignals (state : State Thread Op Resource)
    (signals : Multiset (Signal Thread Op Resource)) :
    (state.withSignals signals).holds = state.holds := rfl

@[simp]
theorem State.holds_setLock (state : State Thread Op Resource) (resource : Resource)
    (lock : Lock Thread Op) : (state.setLock resource lock).holds = state.holds := rfl

@[simp]
theorem State.holds_log (state : State Thread Op Resource) (op : Op) (replied invoked : ℕ) :
    (state.log op replied invoked).holds = state.holds := rfl

structure Tracks (state : State Thread Op Resource) (resource : Resource)
    (custody : Custody Thread Op) : Prop where
  grants : ∀ thread op, state.signals.count (.grant thread op resource) =
    if custody = .granted thread op then 1 else 0
  holds : ∀ thread op, state.holds thread op resource =
    if custody = .held thread op then 1 else 0
  releases : state.signals.count (.release resource) = if custody = .released then 1 else 0
  holder : custody.Matches (state.locks resource).holder

def Exclusive (state : State Thread Op Resource) : Prop :=
  ∀ resource, ∃ custody, Tracks state resource custody

namespace Tracks

variable {state next : State Thread Op Resource} {resource : Resource}
  {custody : Custody Thread Op} {thread : Thread} {op : Op}

theorem frame (tracks : Tracks state resource custody)
    (grants : ∀ thread op, next.signals.count (.grant thread op resource) =
      state.signals.count (.grant thread op resource))
    (holds : ∀ thread op, next.holds thread op resource = state.holds thread op resource)
    (releases : next.signals.count (.release resource) = state.signals.count (.release resource))
    (holder : (next.locks resource).holder = (state.locks resource).holder) :
    Tracks next resource custody where
  grants := fun thread op => (grants thread op).trans (tracks.grants thread op)
  holds := fun thread op => (holds thread op).trans (tracks.holds thread op)
  releases := releases.trans tracks.releases
  holder := by
    rw [holder]
    exact tracks.holder

theorem eq_granted (tracks : Tracks state resource custody)
    (granting : .grant thread op resource ∈ state.signals) : custody = .granted thread op := by
  have positive := Multiset.count_pos.mpr granting
  rw [tracks.grants] at positive
  by_contra different
  simp [different] at positive

theorem eq_held (tracks : Tracks state resource custody) {ticket : Ticket Resource}
    (found : state.tickets thread op = some ticket) (acquired : resource ∈ ticket.acquired) :
    custody = .held thread op := by
  have holds := tracks.holds thread op
  have positive := List.count_pos_iff.mpr acquired
  by_contra different
  simp only [State.holds, found, Option.elim_some, different, if_false] at holds
  omega

theorem eq_released (tracks : Tracks state resource custody)
    (releasing : .release resource ∈ state.signals) : custody = .released := by
  have positive := Multiset.count_pos.mpr releasing
  rw [tracks.releases] at positive
  by_contra different
  simp [different] at positive

theorem eq_free (tracks : Tracks state resource custody)
    (free : (state.locks resource).holder = none) : custody = .free := by
  have matching := tracks.holder
  rw [free] at matching
  cases custody with
  | free => rfl
  | granted thread op => cases matching
  | held thread op => cases matching
  | released => exact absurd rfl matching

/-- The holder of a resource whose ticket has acquired it is that ticket's operation. -/
theorem holder_of_acquired (tracks : Tracks state resource custody) {ticket : Ticket Resource}
    (found : state.tickets thread op = some ticket) (acquired : resource ∈ ticket.acquired) :
    (state.locks resource).holder = some (thread, op) := by
  have matching := tracks.holder
  rw [tracks.eq_held found acquired] at matching
  exact matching

theorem holder_of_granted (tracks : Tracks state resource custody)
    (granting : .grant thread op resource ∈ state.signals) :
    (state.locks resource).holder = some (thread, op) := by
  have matching := tracks.holder
  rw [tracks.eq_granted granting] at matching
  exact matching

/-- Custody after a ticket is kept or ended. -/
theorem close (tracks : Tracks state resource custody) (thread : Thread) (op : Op)
    {ticket : Ticket Resource} {after : Option (Ticket Resource)}
    {emitted : Multiset (Signal Thread Op Resource)}
    (found : state.tickets thread op = some ticket) (closes : ticket.Closes after emitted)
    (silent : ∀ other otherOp, .grant other otherOp resource ∉ emitted) :
    ∃ custody, Tracks ((state.setTicket thread op after).withSignals (state.signals + emitted))
      resource custody := by
  have grants : ∀ other otherOp,
      (state.signals + emitted).count (.grant other otherOp resource) =
        state.signals.count (.grant other otherOp resource) := by
    intro other otherOp
    simp [Multiset.count_eq_zero.mpr (silent other otherOp)]
  have heldBefore := tracks.holds thread op
  simp only [State.holds, found, Option.elim_some] at heldBefore
  cases closes with
  | kept left emitted acquired needed wanted noRelease =>
      refine ⟨custody, tracks.frame grants ?_ ?_ rfl⟩
      · intro other otherOp
        simp only [State.holds_withSignals, State.holds_setTicket]
        split
        · rename_i same
          simp [State.holds, same, found, acquired]
        · rfl
      · simp [Multiset.count_eq_zero.mpr (noRelease resource)]
  | ended =>
      by_cases held : custody = .held thread op
      · subst held
        simp only [if_true] at heldBefore
        refine ⟨.released, ?_, ?_, ?_, ?_⟩
        · intro other otherOp
          simpa [grants] using tracks.grants other otherOp
        · intro other otherOp
          simp only [State.holds_withSignals, State.holds_setTicket, reduceCtorEq, if_false]
          split
          · rfl
          · rename_i different
            have apart : ¬(thread = other ∧ op = otherOp) :=
              fun same => different ⟨same.1.symm, same.2.symm⟩
            simpa [apart] using tracks.holds other otherOp
        · have before := tracks.releases
          simp only [reduceCtorEq, if_false] at before
          simp [before, Ticket.count_releases, heldBefore]
        · have matching : (state.locks resource).holder = some (thread, op) := tracks.holder
          simp [Custody.Matches, matching]
      · simp only [held, if_false] at heldBefore
        refine ⟨custody, tracks.frame grants ?_ ?_ rfl⟩
        · intro other otherOp
          simp only [State.holds_withSignals, State.holds_setTicket]
          split
          · rename_i same
            simp [State.holds, same, found, heldBefore]
          · rfl
        · simp [Ticket.count_releases, heldBefore]

end Tracks

namespace Exclusive

variable {state next : State Thread Op Resource}

/-- Steps that touch neither the tickets nor the holder of a lock nor any grant or release. -/
theorem frame (exclusive : Exclusive state) (tickets : next.tickets = state.tickets)
    (grants : ∀ thread op resource, next.signals.count (.grant thread op resource) =
      state.signals.count (.grant thread op resource))
    (releases : ∀ resource,
      next.signals.count (.release resource) = state.signals.count (.release resource))
    (holder : ∀ resource, (next.locks resource).holder = (state.locks resource).holder) :
    Exclusive next := by
  intro resource
  rcases exclusive resource with ⟨custody, tracks⟩
  refine ⟨custody, tracks.frame (fun thread op => grants thread op resource) ?_
    (releases resource) (holder resource)⟩
  intro thread op
  simp only [State.holds, tickets]

theorem step_start (exclusive : Exclusive state) (life : Lifecycle state) {thread : Thread}
    {op : Op} {wanted : List Resource} {rest emitted : Multiset (Signal Thread Op Resource)}
    {after : Option (Ticket Resource)} {replied invoked : ℕ}
    (consumed : state.signals = .start op ::ₘ rest)
    (proceeds : Proceeds thread op ⟨wanted, wanted, [], none⟩ after emitted replied invoked) :
    Exclusive (((state.setTicket thread op after).log op replied invoked).withSignals
      (rest + ((wanted : Multiset Resource).map (.request thread op) + emitted))) := by
  rcases life.phases op with ⟨phase, inPhase⟩
  have queued : phase = .queued := inPhase.eq_queued (by simp [consumed])
  subst queued
  have noTicket : state.tickets thread op = none := by
    simpa [Phase.status] using inPhase.status thread
  intro resource
  rcases exclusive resource with ⟨custody, tracks⟩
  have silent : ∀ other otherOp, (.grant other otherOp resource : Signal Thread Op Resource) ∉
      emitted := fun other otherOp => proceeds.not_mem (by simp) (by simp)
  -- The ticket starts out with nothing, so giving everything back changes nothing either.
  have opened : Tracks ((state.setTicket thread op (some ⟨wanted, wanted, [], none⟩)).withSignals
      (rest + (wanted : Multiset Resource).map (.request thread op))) resource custody := by
    refine tracks.frame ?_ ?_ ?_ rfl
    · intro other otherOp
      simp [consumed]
    · intro other otherOp
      simp only [State.holds_withSignals, State.holds_setTicket]
      split
      · rename_i same
        simp [State.holds, same, noTicket]
      · rfl
    · simp [consumed]
  rcases opened.close thread op (by simp) proceeds.closes silent with ⟨closed, closedTracks⟩
  refine ⟨closed, closedTracks.frame ?_ ?_ ?_ rfl⟩
  · intro other otherOp
    simp only [State.withSignals_signals, add_assoc]
  · intro other otherOp
    simp only [State.holds_withSignals, State.holds_log, State.holds_setTicket]
    split <;> rfl
  · simp only [State.withSignals_signals, add_assoc]

theorem step_granted (exclusive : Exclusive state) {thread : Thread} {op : Op}
    {resource : Resource} {ticket : Ticket Resource}
    {rest emitted : Multiset (Signal Thread Op Resource)} {after : Option (Ticket Resource)}
    {replied invoked : ℕ} (consumed : state.signals = .grant thread op resource ::ₘ rest)
    (found : state.tickets thread op = some ticket)
    (proceeds : Proceeds thread op (ticket.grant resource) after emitted replied invoked) :
    Exclusive (((state.setTicket thread op after).log op replied invoked).withSignals
      (rest + emitted)) := by
  intro other
  have silent : ∀ thread op, (.grant thread op other : Signal Thread Op Resource) ∉ emitted :=
    fun _ _ => proceeds.not_mem (by simp) (by simp)
  have holds : ∀ otherThread otherOp,
      ((state.setTicket thread op (some (ticket.grant resource))).withSignals rest).holds
        otherThread otherOp other =
      if otherThread = thread ∧ otherOp = op then (ticket.acquired ++ [resource]).count other
      else state.holds otherThread otherOp other := by
    intro otherThread otherOp
    simp only [State.holds_withSignals, State.holds_setTicket]
    rfl
  have opened : ∃ custody, Tracks ((state.setTicket thread op
      (some (ticket.grant resource))).withSignals rest) other custody := by
    rcases exclusive other with ⟨custody, tracks⟩
    by_cases same : other = resource
    · subst same
      have granted := tracks.eq_granted (by simp [consumed] : Signal.grant thread op other ∈ _)
      subst granted
      refine ⟨.held thread op, ?_, ?_, ?_, tracks.holder⟩
      · intro otherThread otherOp
        have grants := tracks.grants otherThread otherOp
        rw [consumed, Multiset.count_cons] at grants
        simp only [State.withSignals_signals, reduceCtorEq, if_false]
        by_cases this : thread = otherThread ∧ op = otherOp
        · rcases this with ⟨rfl, rfl⟩
          simpa using grants
        · have different : ¬(otherThread = thread ∧ otherOp = op) :=
            fun same => this ⟨same.1.symm, same.2.symm⟩
          simpa [this, different] using grants
      · intro otherThread otherOp
        have before := tracks.holds otherThread otherOp
        simp only [reduceCtorEq, if_false] at before
        rw [holds]
        by_cases this : otherThread = thread ∧ otherOp = op
        · rcases this with ⟨rfl, rfl⟩
          simp only [State.holds, found, Option.elim_some] at before
          simp [before]
        · have different : ¬(thread = otherThread ∧ op = otherOp) :=
            fun same => this ⟨same.1.symm, same.2.symm⟩
          simp [this, different, before]
      · simpa [consumed] using tracks.releases
    · refine ⟨custody, tracks.frame ?_ ?_ ?_ rfl⟩
      · intro otherThread otherOp
        simp [consumed, same]
      · intro otherThread otherOp
        rw [holds]
        split
        · rename_i this
          have apart : resource ≠ other := fun eq => same eq.symm
          simp [State.holds, this, found, apart]
        · rfl
      · simp [consumed]
  rcases opened with ⟨custody, tracks⟩
  rcases tracks.close thread op (by simp) proceeds.closes silent with ⟨closed, closedTracks⟩
  refine ⟨closed, closedTracks.frame (fun _ _ => rfl) ?_ rfl rfl⟩
  intro otherThread otherOp
  simp only [State.holds_withSignals, State.holds_log, State.holds_setTicket]
  split <;> rfl

theorem step_recalled (exclusive : Exclusive state) {thread : Thread} {op : Op}
    {resource : Resource} {ticket : Ticket Resource}
    {rest : Multiset (Signal Thread Op Resource)}
    (consumed : state.signals = .recall thread resource ::ₘ rest)
    (found : state.tickets thread op = some ticket) (acquired : resource ∈ ticket.acquired) :
    Exclusive ((state.setTicket thread op (some (ticket.wound resource))).withSignals
      (rest + {.release resource, .request thread op resource})) := by
  intro other
  rcases exclusive other with ⟨custody, tracks⟩
  have holds : ∀ otherThread otherOp,
      ((state.setTicket thread op (some (ticket.wound resource))).withSignals
        (rest + {.release resource, .request thread op resource})).holds otherThread otherOp
        other =
      if otherThread = thread ∧ otherOp = op then (ticket.acquired.erase resource).count other
      else state.holds otherThread otherOp other := by
    intro otherThread otherOp
    simp only [State.holds_withSignals, State.holds_setTicket]
    rfl
  by_cases same : other = resource
  · subst same
    have held := tracks.eq_held found acquired
    subst held
    refine ⟨.released, ?_, ?_, ?_, ?_⟩
    · intro otherThread otherOp
      simpa [consumed] using tracks.grants otherThread otherOp
    · intro otherThread otherOp
      have before := tracks.holds otherThread otherOp
      rw [holds]
      by_cases this : otherThread = thread ∧ otherOp = op
      · rcases this with ⟨rfl, rfl⟩
        simp only [State.holds, found, Option.elim_some, if_true] at before
        simp [before]
      · have different : ¬(thread = otherThread ∧ op = otherOp) :=
          fun same => this ⟨same.1.symm, same.2.symm⟩
        simpa [this, different] using before
    · have before := tracks.releases
      simp only [consumed, reduceCtorEq, if_false] at before
      simpa using before
    · have matching : (state.locks other).holder = some (thread, op) := tracks.holder
      simp [Custody.Matches, matching]
  · refine ⟨custody, tracks.frame ?_ ?_ ?_ rfl⟩
    · intro otherThread otherOp
      simp [consumed]
    · intro otherThread otherOp
      rw [holds]
      split
      · rename_i this
        simp [State.holds, this, found, List.count_erase_of_ne same]
      · rfl
    · simp [consumed, same]

theorem step_settled (exclusive : Exclusive state) {thread : Thread} {op : Op}
    {ticket : Ticket Resource} {count more replied : ℕ}
    {rest emitted : Multiset (Signal Thread Op Resource)} {after : Option (Ticket Resource)}
    (consumed : state.signals = .settle thread op ::ₘ rest)
    (found : state.tickets thread op = some ticket)
    (settles : Settles ticket count after emitted replied) :
    Exclusive (((state.setTicket thread op after).log op replied 0).withSignals
      (rest + (Multiset.replicate more (.settle thread op) + emitted))) := by
  intro resource
  rcases exclusive resource with ⟨custody, tracks⟩
  have silent : ∀ other otherOp, (.grant other otherOp resource : Signal Thread Op Resource) ∉
      emitted := fun other otherOp => settles.not_mem (by simp)
  have opened : Tracks (state.withSignals (rest + Multiset.replicate more (.settle thread op)))
      resource custody := by
    refine tracks.frame ?_ (fun _ _ => rfl) ?_ rfl
    · intro other otherOp
      simp [consumed, Multiset.count_replicate]
    · simp [consumed, Multiset.count_replicate]
  rcases opened.close thread op found settles.closes silent with ⟨closed, closedTracks⟩
  refine ⟨closed, closedTracks.frame ?_ (fun _ _ => rfl) ?_ rfl⟩
  · intro other otherOp
    simp only [State.withSignals_signals, add_assoc]
  · simp only [State.withSignals_signals, add_assoc]

/-- Moves a resource along when only its own grants, releases and holder change. -/
theorem move (exclusive : Exclusive state) (resource : Resource) (custody : Custody Thread Op)
    (tickets : next.tickets = state.tickets)
    (grants : ∀ thread op other, other ≠ resource → next.signals.count (.grant thread op other) =
      state.signals.count (.grant thread op other))
    (releases : ∀ other, other ≠ resource →
      next.signals.count (.release other) = state.signals.count (.release other))
    (holder : ∀ other, other ≠ resource →
      (next.locks other).holder = (state.locks other).holder)
    (tracks : Tracks next resource custody) : Exclusive next := by
  intro other
  by_cases same : other = resource
  · subst same
    exact ⟨custody, tracks⟩
  · rcases exclusive other with ⟨otherCustody, otherTracks⟩
    refine ⟨otherCustody, otherTracks.frame (fun thread op => grants thread op other same) ?_
      (releases other same) (holder other same)⟩
    intro thread op
    simp only [State.holds, tickets]

theorem step_grantFree (exclusive : Exclusive state) {thread : Thread} {op : Op}
    {resource : Resource} {rest : Multiset (Signal Thread Op Resource)}
    (consumed : state.signals = .request thread op resource ::ₘ rest)
    (free : (state.locks resource).holder = none) :
    Exclusive ((state.setLock resource ⟨some (thread, op), 0⟩).withSignals
      (rest + {.grant thread op resource})) := by
  rcases exclusive resource with ⟨custody, tracks⟩
  have isFree := tracks.eq_free free
  subst isFree
  refine exclusive.move resource (.granted thread op) rfl ?_ ?_ ?_
    ⟨?_, ?_, ?_, ?_⟩
  · intro other otherOp otherResource different
    simp [consumed, different]
  · intro other different
    simp [consumed]
  · intro other different
    simp [different]
  · intro other otherOp
    have before := tracks.grants other otherOp
    simp only [consumed, reduceCtorEq, if_false] at before
    rw [Multiset.count_cons_of_ne (by simp)] at before
    simp only [State.withSignals_signals, Multiset.count_add, before, Nat.zero_add,
      Multiset.count_singleton, Signal.grant.injEq, and_true, Custody.granted.injEq, eq_comm]
  · intro other otherOp
    simpa using tracks.holds other otherOp
  · simpa [consumed] using tracks.releases
  · simp [Custody.Matches]

theorem step_grantLost (exclusive : Exclusive state) {thread : Thread} {op : Op}
    {resource : Resource} {rest : Multiset (Signal Thread Op Resource)}
    (consumed : state.signals = .grant thread op resource ::ₘ rest) :
    Exclusive (state.withSignals (rest + {.release resource})) := by
  rcases exclusive resource with ⟨custody, tracks⟩
  have granted := tracks.eq_granted (by simp [consumed] : Signal.grant thread op resource ∈ _)
  subst granted
  refine exclusive.move resource (.released) rfl ?_ ?_ (fun _ _ => rfl)
    ⟨?_, ?_, ?_, ?_⟩
  · intro other otherOp otherResource different
    simp [consumed, different]
  · intro other different
    simp [consumed, different]
  · intro other otherOp
    have grants := tracks.grants other otherOp
    rw [consumed, Multiset.count_cons] at grants
    by_cases this : thread = other ∧ op = otherOp
    · rcases this with ⟨rfl, rfl⟩
      simpa using grants
    · have different : ¬(other = thread ∧ otherOp = op) :=
        fun same => this ⟨same.1.symm, same.2.symm⟩
      simpa [this, different] using grants
  · intro other otherOp
    simpa using tracks.holds other otherOp
  · have before := tracks.releases
    simp only [consumed, reduceCtorEq, if_false] at before
    simpa using before
  · have matching : (state.locks resource).holder = some (thread, op) := tracks.holder
    simp [Custody.Matches, matching]

theorem step_released (exclusive : Exclusive state) {resource : Resource}
    {rest : Multiset (Signal Thread Op Resource)}
    (consumed : state.signals = .release resource ::ₘ rest) (lock : Lock Thread Op)
    (custody : Custody Thread Op) (emitted : Multiset (Signal Thread Op Resource))
    (grants : ∀ thread op other, emitted.count (.grant thread op other) =
      if other = resource ∧ custody = .granted thread op then 1 else 0)
    (releases : ∀ other, .release other ∉ emitted)
    (notHeld : ∀ thread op, custody ≠ .held thread op) (notReleased : custody ≠ .released)
    (matching : custody.Matches lock.holder) :
    Exclusive ((state.setLock resource lock).withSignals (rest + emitted)) := by
  rcases exclusive resource with ⟨before, tracks⟩
  have released := tracks.eq_released (by simp [consumed])
  subst released
  refine exclusive.move resource (custody) rfl ?_ ?_ ?_ ⟨?_, ?_, ?_, ?_⟩
  · intro thread op other different
    simp [consumed, grants, different]
  · intro other different
    simp [consumed, different, Multiset.count_eq_zero.mpr (releases other)]
  · intro other different
    simp [different]
  · intro thread op
    have counted := tracks.grants thread op
    simp only [consumed, reduceCtorEq, if_false] at counted
    rw [Multiset.count_cons_of_ne (by simp)] at counted
    simp [counted, grants]
  · intro thread op
    have held := tracks.holds thread op
    simpa [notHeld, State.holds] using held
  · have counted := tracks.releases
    simp only [consumed, Multiset.count_cons_self, if_true] at counted
    simpa [notReleased, Multiset.count_eq_zero.mpr (releases resource)] using counted
  · simpa using matching

/-- Every step but a recall that finds nobody keeps custody exclusive. -/
theorem step {event : Event} (exclusive : Exclusive state) (life : Lifecycle state)
    (step : Step state event next) (recalls : event ≠ .recallMissed) : Exclusive next := by
  cases step with
  | submit op fresh =>
      refine exclusive.frame rfl ?_ ?_ (fun _ => rfl) <;> simp
  | start thread op wanted rest emitted after replied invoked consumed proceeds =>
      exact exclusive.step_start life consumed proceeds
  | grantFree thread op resource rest consumed free idle =>
      exact exclusive.step_grantFree consumed free
  | queue thread op resource holder rest consumed held =>
      have silent : ∀ signal : Signal Thread Op Resource,
          (∀ target, signal ≠ .recall target resource) →
          (if op < holder.2 then {.recall holder.1 resource} else 0 :
            Multiset (Signal Thread Op Resource)).count signal = 0 := by
        intro signal different
        split
        · exact Multiset.count_eq_zero.mpr (by simpa using different holder.1)
        · simp
      refine exclusive.frame rfl ?_ ?_ ?_
      · simp [consumed, silent]
      · simp [consumed, silent]
      · intro other
        by_cases same : other = resource
        · subst same
          simp [held]
        · simp [same]
  | grantLost thread op resource rest consumed gone => exact exclusive.step_grantLost consumed
  | granted thread op resource ticket rest emitted after replied invoked consumed found proceeds =>
      exact exclusive.step_granted consumed found proceeds
  | recallMissed thread resource rest consumed => exact absurd rfl recalls
  | recalled thread op resource ticket rest consumed found holds =>
      exact exclusive.step_recalled consumed found holds
  | releaseLast resource rest consumed idle =>
      have moved := exclusive.step_released consumed ⟨none, 0⟩ .free 0 (by simp) (by simp)
        (by simp) (by simp) rfl
      simpa using moved
  | handOver resource waiter waiters rest consumed waiting oldest =>
      refine exclusive.step_released consumed _ (.granted waiter.1 waiter.2) _ ?_ (by simp)
        (by simp) (by simp) rfl
      intro thread op other
      simp only [Multiset.count_singleton, Signal.grant.injEq, Custody.granted.injEq]
      by_cases same : thread = waiter.1 ∧ op = waiter.2 ∧ other = resource
      · simp [same]
      · have different : ¬(other = resource ∧ waiter.1 = thread ∧ waiter.2 = op) :=
          fun both => same ⟨both.2.1.symm, both.2.2.symm, both.1⟩
        simp [same, different]
  | settleLost thread op rest consumed gone =>
      refine exclusive.frame rfl ?_ ?_ (fun _ => rfl) <;> simp [consumed]
  | settled thread op ticket count more replied rest emitted after consumed found entered settles =>
      exact exclusive.step_settled consumed found settles

end Exclusive

/-! ## Operations past their collection phase -/

/-- Every resource an operation wants is acquired or still needed, and none is needed any more once
the operation waits for replies. -/
def Ticket.Covered (ticket : Ticket Resource) : Prop :=
  ∀ resource ∈ ticket.wanted,
    resource ∈ ticket.acquired ∨ (resource ∈ ticket.needed ∧ ticket.pending = none)

def Covered (state : State Thread Op Resource) : Prop :=
  ∀ thread op ticket, state.tickets thread op = some ticket → ticket.Covered

namespace Covered

variable {state next : State Thread Op Resource} {thread : Thread} {op : Op}
  {ticket : Ticket Resource} {after : Option (Ticket Resource)}
  {emitted : Multiset (Signal Thread Op Resource)} {replied invoked count : ℕ}

theorem proceeds (covered : ticket.Covered)
    (proceeds : Proceeds thread op ticket after emitted replied invoked) {left : Ticket Resource}
    (leaves : after = some left) : left.Covered := by
  cases proceeds with
  | waiting unready =>
      cases leaves
      exact covered
  | settling collated fresh count positive =>
      cases leaves
      intro resource wanted
      rcases covered resource wanted with acquired | ⟨needed, _⟩
      · exact Or.inl acquired
      · simp [collated] at needed
  | ended collated fresh => cases leaves

theorem settles (covered : ticket.Covered) (entered : ticket.pending ≠ none)
    (settles : Settles ticket count after emitted replied) {left : Ticket Resource}
    (leaves : after = some left) : left.Covered := by
  cases settles with
  | waiting positive =>
      cases leaves
      intro resource wanted
      rcases covered resource wanted with acquired | ⟨_, fresh⟩
      · exact Or.inl acquired
      · exact absurd fresh entered
  | ended settled => cases leaves

theorem grant (covered : ticket.Covered) (resource : Resource) :
    (ticket.grant resource).Covered := by
  intro other wanted
  by_cases same : other = resource
  · left
    simp [Ticket.grant, same]
  · rcases covered other wanted with acquired | ⟨needed, fresh⟩
    · left
      simp [Ticket.grant, acquired]
    · right
      exact ⟨by simp [Ticket.grant, needed, same], fresh⟩

theorem wound (covered : ticket.Covered) (fresh : ticket.pending = none) (resource : Resource) :
    (ticket.wound resource).Covered := by
  intro other wanted
  by_cases same : other = resource
  · right
    exact ⟨by simp [Ticket.wound, same], fresh⟩
  · rcases covered other wanted with acquired | ⟨needed, _⟩
    · left
      exact (List.mem_erase_of_ne same).mpr acquired
    · right
      exact ⟨by simp [Ticket.wound, needed], fresh⟩

theorem replace (covered : Covered state)
    (left : ∀ ticket, after = some ticket → ticket.Covered) :
    Covered (state.setTicket thread op after) := by
  intro other otherOp ticket found
  simp only [State.setTicket_tickets, update_update_apply] at found
  split at found
  · exact left ticket found
  · exact covered other otherOp ticket found

/-- Every step but a recall from an operation that waits for replies keeps operations covered. -/
theorem step {event : Event} (covered : Covered state) (step : Step state event next)
    (recalls : event ≠ .recallSettling) : Covered next := by
  cases step with
  | start thread op wanted rest emitted after replied invoked consumed proceeds =>
      have opened : Ticket.Covered (⟨wanted, wanted, [], none⟩ : Ticket Resource) :=
        fun resource isWanted => Or.inr ⟨isWanted, rfl⟩
      exact covered.replace fun _ leaves => Covered.proceeds opened proceeds leaves
  | granted thread op resource ticket rest emitted after replied invoked consumed found proceeds =>
      have granted := Covered.grant (covered thread op ticket found) resource
      exact covered.replace fun _ leaves => Covered.proceeds granted proceeds leaves
  | recalled thread op resource ticket rest consumed found holds =>
      have fresh : ticket.pending = none := by
        by_contra entered
        simp [entered] at recalls
      refine covered.replace ?_
      intro left leaves
      cases leaves
      exact Covered.wound (covered thread op ticket found) fresh resource
  | settled thread op ticket count more replied rest emitted after consumed found entered settles =>
      have waits : ticket.pending ≠ none := by simp [entered]
      exact covered.replace fun _ leaves =>
        Covered.settles (covered thread op ticket found) waits settles leaves
  | _ => exact covered

end Covered

end WoundWait
