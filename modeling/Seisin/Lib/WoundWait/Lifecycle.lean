import Seisin.Lib.WoundWait

/-!
# The life of an operation

Every operation is in exactly one phase: not submitted, queued for its thread, collecting resources,
waiting for replies, or finished.  The phase fixes how often the operation has been invoked and
replied to, and the replies an operation waits for are exactly the ones still in flight.
-/

set_option linter.unusedSectionVars false

namespace WoundWait

universe u

variable {Thread Op Resource : Type u} [DecidableEq Thread] [LinearOrder Op]
  [DecidableEq Resource]

inductive Phase (Thread : Type u) where
  | unsubmitted
  | queued
  | collating (thread : Thread)
  | settling (thread : Thread)
  | finished
  deriving DecidableEq

namespace Phase

def starts : Phase Thread → ℕ
  | .queued => 1
  | _ => 0

/-- Whether there is a ticket on `thread`, and whether it waits for replies. -/
def status : Phase Thread → Thread → Option Bool
  | .collating owner, thread => if thread = owner then some false else none
  | .settling owner, thread => if thread = owner then some true else none
  | _, _ => none

def replies : Phase Thread → ℕ
  | .finished => 1
  | _ => 0

def invocations : Phase Thread → ℕ
  | .settling _ | .finished => 1
  | _ => 0

end Phase

def Ticket.settling (ticket : Ticket Resource) : Bool := ticket.pending.isSome

structure InPhase (state : State Thread Op Resource) (op : Op) (phase : Phase Thread) : Prop where
  submitted : op ∈ state.submitted ↔ phase ≠ .unsubmitted
  starts : state.signals.count (.start op) = phase.starts
  status : ∀ thread, (state.tickets thread op).map Ticket.settling = phase.status thread
  replied : state.replied op = phase.replies
  invoked : state.invoked op = phase.invocations

/-- The replies the ticket of `op` on `thread` waits for. -/
def State.awaited (state : State Thread Op Resource) (thread : Thread) (op : Op) : ℕ :=
  ((state.tickets thread op).bind Ticket.pending).getD 0

structure Lifecycle (state : State Thread Op Resource) : Prop where
  phases : ∀ op, ∃ phase, InPhase state op phase
  awaited : ∀ thread op, state.signals.count (.settle thread op) = state.awaited thread op
  unready : ∀ thread op ticket, state.tickets thread op = some ticket →
    ticket.needed ≠ [] ∨ ticket.pending ≠ none
  positive : ∀ thread op ticket, state.tickets thread op = some ticket → ticket.pending ≠ some 0

namespace InPhase

variable {state next : State Thread Op Resource} {op : Op} {phase : Phase Thread}

theorem frame (inPhase : InPhase state op phase)
    (submitted : op ∈ next.submitted ↔ op ∈ state.submitted)
    (starts : next.signals.count (.start op) = state.signals.count (.start op))
    (status : ∀ thread,
      (next.tickets thread op).map Ticket.settling = (state.tickets thread op).map Ticket.settling)
    (replied : next.replied op = state.replied op) (invoked : next.invoked op = state.invoked op) :
    InPhase next op phase where
  submitted := submitted.trans inPhase.submitted
  starts := starts.trans inPhase.starts
  status := fun thread => (status thread).trans (inPhase.status thread)
  replied := replied.trans inPhase.replied
  invoked := invoked.trans inPhase.invoked

theorem eq_queued (inPhase : InPhase state op phase) (starting : .start op ∈ state.signals) :
    phase = .queued := by
  have positive := Multiset.count_pos.mpr starting
  rw [inPhase.starts] at positive
  cases phase <;> simp_all [Phase.starts]

theorem eq_collating (inPhase : InPhase state op phase) {thread : Thread}
    {ticket : Ticket Resource} (found : state.tickets thread op = some ticket)
    (fresh : ticket.pending = none) : phase = .collating thread := by
  have status := inPhase.status thread
  rw [found] at status
  cases phase <;> simp_all [Phase.status, Ticket.settling]

theorem eq_settling (inPhase : InPhase state op phase) {thread : Thread}
    {ticket : Ticket Resource} {count : ℕ} (found : state.tickets thread op = some ticket)
    (entered : ticket.pending = some count) : phase = .settling thread := by
  have status := inPhase.status thread
  rw [found] at status
  cases phase <;> simp_all [Phase.status, Ticket.settling]

/-- An operation has a ticket on one thread at most. -/
theorem thread_unique (inPhase : InPhase state op phase) {thread other : Thread}
    {ticket otherTicket : Ticket Resource} (found : state.tickets thread op = some ticket)
    (otherFound : state.tickets other op = some otherTicket) : thread = other := by
  have status := inPhase.status thread
  have otherStatus := inPhase.status other
  rw [found] at status
  rw [otherFound] at otherStatus
  cases phase <;> simp_all [Phase.status]

end InPhase

/-! ## What a proceeding ticket emits -/

section Emitted

variable {thread : Thread} {op : Op} {ticket : Ticket Resource} {after : Option (Ticket Resource)}
  {emitted : Multiset (Signal Thread Op Resource)} {replied invoked count : ℕ}

theorem Ticket.count_releases (ticket : Ticket Resource) (resource : Resource) :
    (ticket.releases : Multiset (Signal Thread Op Resource)).count (.release resource) =
      ticket.acquired.count resource := by
  unfold Ticket.releases
  rw [Multiset.count_map_eq_count' _ _ (fun first second same => by simpa using same)]
  simp

theorem Ticket.not_mem_releases (ticket : Ticket Resource) {signal : Signal Thread Op Resource}
    (different : ∀ resource, signal ≠ .release resource) :
    signal ∉ (ticket.releases : Multiset (Signal Thread Op Resource)) := by
  unfold Ticket.releases
  rw [Multiset.mem_map]
  rintro ⟨resource, _, rfl⟩
  exact different resource rfl

/-- A proceeding ticket emits releases and settlements only. -/
theorem Proceeds.not_mem (proceeds : Proceeds thread op ticket after emitted replied invoked)
    {signal : Signal Thread Op Resource} (notRelease : ∀ resource, signal ≠ .release resource)
    (notSettle : signal ≠ .settle thread op) : signal ∉ emitted := by
  cases proceeds with
  | waiting unready => exact Multiset.notMem_zero _
  | settling collated fresh count positive =>
      intro emits
      exact notSettle (Multiset.eq_of_mem_replicate emits)
  | ended collated fresh => exact ticket.not_mem_releases notRelease

theorem Settles.not_mem (settles : Settles ticket count after emitted replied)
    {signal : Signal Thread Op Resource} (notRelease : ∀ resource, signal ≠ .release resource) :
    signal ∉ emitted := by
  cases settles with
  | waiting positive => exact Multiset.notMem_zero _
  | ended settled => exact ticket.not_mem_releases notRelease

theorem Proceeds.count_settle (proceeds : Proceeds thread op ticket after emitted replied invoked) :
    emitted.count (.settle thread op) + ticket.pending.getD 0 =
      (after.bind Ticket.pending).getD 0 := by
  cases proceeds with
  | waiting unready => simp
  | settling collated fresh count positive => simp [fresh]
  | ended collated fresh =>
      have absent : (.settle thread op : Signal Thread Op Resource) ∉ ticket.releases :=
        ticket.not_mem_releases (by simp)
      simp [fresh, Multiset.count_eq_zero.mpr absent]

theorem Settles.awaited (settles : Settles ticket count after emitted replied) :
    (after.bind Ticket.pending).getD 0 = count := by
  cases settles with
  | waiting positive => simp
  | ended settled => simp [settled]

/-- The phase a fresh ticket proceeds to. -/
theorem Proceeds.phase (proceeds : Proceeds thread op ticket after emitted replied invoked)
    (fresh : ticket.pending = none) :
    ∃ phase : Phase Thread, phase ≠ .unsubmitted ∧ phase.starts = 0 ∧
      (∀ other, phase.status other =
        if other = thread then after.map Ticket.settling else none) ∧
      phase.replies = replied ∧ phase.invocations = invoked := by
  cases proceeds with
  | waiting unready =>
      refine ⟨.collating thread, by simp, rfl, ?_, rfl, rfl⟩
      intro other
      simp [Phase.status, Ticket.settling, fresh]
  | settling collated _ count positive =>
      refine ⟨.settling thread, by simp, rfl, ?_, rfl, rfl⟩
      intro other
      simp [Phase.status, Ticket.settling]
  | ended collated _ =>
      refine ⟨.finished, by simp, rfl, ?_, rfl, rfl⟩
      intro other
      simp [Phase.status]

theorem Proceeds.eq_waiting (proceeds : Proceeds thread op ticket after emitted replied invoked)
    (entered : ticket.pending ≠ none) :
    after = some ticket ∧ emitted = 0 ∧ replied = 0 ∧ invoked = 0 := by
  cases proceeds with
  | waiting unready => exact ⟨rfl, rfl, rfl, rfl⟩
  | settling collated fresh count positive => exact absurd fresh entered
  | ended collated fresh => exact absurd fresh entered

theorem Proceeds.unready (proceeds : Proceeds thread op ticket after emitted replied invoked)
    (positive : ticket.pending ≠ some 0) {left : Ticket Resource} (leaves : after = some left) :
    (left.needed ≠ [] ∨ left.pending ≠ none) ∧ left.pending ≠ some 0 := by
  cases proceeds with
  | waiting unready =>
      cases leaves
      exact ⟨unready, positive⟩
  | settling collated fresh count nonzero =>
      cases leaves
      exact ⟨Or.inr (by simp), by simpa using nonzero⟩
  | ended collated fresh => cases leaves

theorem Settles.unready (settles : Settles ticket count after emitted replied)
    {left : Ticket Resource} (leaves : after = some left) :
    (left.needed ≠ [] ∨ left.pending ≠ none) ∧ left.pending ≠ some 0 := by
  cases settles with
  | waiting positive =>
      cases leaves
      exact ⟨Or.inr (by simp), by simpa using positive⟩
  | ended settled => cases leaves

/-- A ticket is kept with what it holds, or ends and gives all of it back. -/
inductive Ticket.Closes (ticket : Ticket Resource) :
    Option (Ticket Resource) → Multiset (Signal Thread Op Resource) → Prop where
  | kept (left : Ticket Resource) (emitted : Multiset (Signal Thread Op Resource))
      (acquired : left.acquired = ticket.acquired) (needed : left.needed = ticket.needed)
      (wanted : left.wanted = ticket.wanted) (silent : ∀ resource, .release resource ∉ emitted) :
      Closes ticket (some left) emitted
  | ended : Closes ticket none ticket.releases

theorem Proceeds.closes (proceeds : Proceeds thread op ticket after emitted replied invoked) :
    ticket.Closes after emitted := by
  cases proceeds with
  | waiting unready => exact .kept ticket 0 rfl rfl rfl (by simp)
  | settling collated fresh count positive =>
      refine .kept _ _ rfl rfl rfl ?_
      intro resource emits
      cases Multiset.eq_of_mem_replicate emits
  | ended collated fresh => exact .ended

theorem Settles.closes (settles : Settles ticket count after emitted replied) :
    ticket.Closes after emitted := by
  cases settles with
  | waiting positive => exact .kept _ _ rfl rfl rfl (by simp)
  | ended settled => exact .ended

/-- The phase a settling ticket goes to. -/
theorem Settles.phase (settles : Settles ticket count after emitted replied) (thread : Thread) :
    ∃ phase : Phase Thread, phase ≠ .unsubmitted ∧ phase.starts = 0 ∧
      (∀ other, phase.status other =
        if other = thread then after.map Ticket.settling else none) ∧
      phase.replies = replied ∧ phase.invocations = 1 := by
  cases settles with
  | waiting positive =>
      refine ⟨.settling thread, by simp, rfl, ?_, rfl, rfl⟩
      intro other
      simp [Phase.status, Ticket.settling]
  | ended settled =>
      refine ⟨.finished, by simp, rfl, ?_, rfl, rfl⟩
      intro other
      simp [Phase.status]

end Emitted

namespace Lifecycle

variable {state next : State Thread Op Resource}

/-- Steps that neither touch a ticket nor start or settle anything. -/
theorem frame (life : Lifecycle state) (tickets : next.tickets = state.tickets)
    (submitted : next.submitted = state.submitted) (replied : next.replied = state.replied)
    (invoked : next.invoked = state.invoked)
    (starts : ∀ op, next.signals.count (.start op) = state.signals.count (.start op))
    (settles : ∀ thread op,
      next.signals.count (.settle thread op) = state.signals.count (.settle thread op)) :
    Lifecycle next where
  phases := by
    intro op
    rcases life.phases op with ⟨phase, inPhase⟩
    refine ⟨phase, inPhase.frame ?_ (starts op) ?_ ?_ ?_⟩
    · rw [submitted]
    · intro thread
      rw [tickets]
    · rw [replied]
    · rw [invoked]
  awaited := by
    intro thread op
    rw [settles, life.awaited, State.awaited, State.awaited, tickets]
  unready := by
    intro thread op ticket found
    rw [tickets] at found
    exact life.unready thread op ticket found
  positive := by
    intro thread op ticket found
    rw [tickets] at found
    exact life.positive thread op ticket found

/-- Steps that replace one ticket. -/
theorem replace (life : Lifecycle state) {thread : Thread} {op : Op}
    {after : Option (Ticket Resource)} {phase : Phase Thread}
    (tickets : ∀ other otherOp, next.tickets other otherOp =
      if other = thread ∧ otherOp = op then after else state.tickets other otherOp)
    (submitted : next.submitted = state.submitted)
    (replied : ∀ other, other ≠ op → next.replied other = state.replied other)
    (invoked : ∀ other, other ≠ op → next.invoked other = state.invoked other)
    (starts : ∀ other, other ≠ op →
      next.signals.count (.start other) = state.signals.count (.start other))
    (settles : ∀ other otherOp, ¬(other = thread ∧ otherOp = op) →
      next.signals.count (.settle other otherOp) = state.signals.count (.settle other otherOp))
    (inPhase : InPhase next op phase)
    (awaited : next.signals.count (.settle thread op) = (after.bind Ticket.pending).getD 0)
    (left : ∀ ticket, after = some ticket →
      (ticket.needed ≠ [] ∨ ticket.pending ≠ none) ∧ ticket.pending ≠ some 0) :
    Lifecycle next := by
  have leftOrKept : ∀ other otherOp ticket, next.tickets other otherOp = some ticket →
      after = some ticket ∨ state.tickets other otherOp = some ticket := by
    intro other otherOp ticket found
    rw [tickets] at found
    split at found
    · exact Or.inl found
    · exact Or.inr found
  constructor
  · intro other
    by_cases same : other = op
    · subst same
      exact ⟨phase, inPhase⟩
    · rcases life.phases other with ⟨otherPhase, otherInPhase⟩
      refine ⟨otherPhase, otherInPhase.frame ?_ (starts other same) ?_ (replied other same)
        (invoked other same)⟩
      · rw [submitted]
      · intro otherThread
        rw [tickets, if_neg fun both => same both.2]
  · intro other otherOp
    by_cases same : other = thread ∧ otherOp = op
    · rcases same with ⟨rfl, rfl⟩
      simp [awaited, State.awaited, tickets]
    · rw [settles other otherOp same, life.awaited, State.awaited, State.awaited, tickets,
        if_neg same]
  · intro other otherOp ticket found
    rcases leftOrKept other otherOp ticket found with leaves | kept
    · exact (left ticket leaves).1
    · exact life.unready other otherOp ticket kept
  · intro other otherOp ticket found
    rcases leftOrKept other otherOp ticket found with leaves | kept
    · exact (left ticket leaves).2
    · exact life.positive other otherOp ticket kept

/-- Replaces the ticket of an operation that moves on to another phase. -/
theorem advance (life : Lifecycle state) {thread : Thread} {op : Op}
    {after : Option (Ticket Resource)} {before phase : Phase Thread} {replied invoked : ℕ}
    {rest emitted : Multiset (Signal Thread Op Resource)}
    (inBefore : InPhase state op before) (wasSubmitted : before ≠ .unsubmitted)
    (owned : ∀ other, other ≠ thread → before.status other = none)
    (unreplied : before.replies = 0) (isSubmitted : phase ≠ .unsubmitted)
    (notStarting : phase.starts = 0)
    (status : ∀ other, phase.status other =
      if other = thread then after.map Ticket.settling else none)
    (replies : phase.replies = replied) (invocations : phase.invocations =
      before.invocations + invoked)
    (starts : ∀ other, (rest + emitted).count (.start other) =
      if other = op then 0 else state.signals.count (.start other))
    (settles : ∀ other otherOp, ¬(other = thread ∧ otherOp = op) →
      (rest + emitted).count (.settle other otherOp) =
        state.signals.count (.settle other otherOp))
    (awaited : (rest + emitted).count (.settle thread op) = (after.bind Ticket.pending).getD 0)
    (left : ∀ ticket, after = some ticket →
      (ticket.needed ≠ [] ∨ ticket.pending ≠ none) ∧ ticket.pending ≠ some 0) :
    Lifecycle (((state.setTicket thread op after).log op replied invoked).withSignals
      (rest + emitted)) := by
  have tickets : ∀ other otherOp,
      (((state.setTicket thread op after).log op replied invoked).withSignals
        (rest + emitted)).tickets other otherOp =
      if other = thread ∧ otherOp = op then after else state.tickets other otherOp := by
    intro other otherOp
    simp only [State.withSignals_tickets, State.log_tickets, State.setTicket_tickets,
      update_update_apply]
  have inPhase : InPhase (((state.setTicket thread op after).log op replied invoked).withSignals
      (rest + emitted)) op phase := by
    constructor
    · simp only [State.withSignals_submitted, State.log_submitted, State.setTicket_submitted]
      have submitted := inBefore.submitted.mpr wasSubmitted
      simp [submitted, isSubmitted]
    · simp only [State.withSignals_signals, starts, if_true, notStarting]
    · intro other
      rw [tickets, status]
      by_cases same : other = thread
      · simp [same]
      · have absent := inBefore.status other
        rw [owned other same] at absent
        simpa [same] using absent
    · simp [inBefore.replied, unreplied, replies]
    · simp [inBefore.invoked, invocations]
  apply life.replace tickets rfl _ _ _ settles inPhase awaited left
  · intro other different
    simp [different]
  · intro other different
    simp [different]
  · intro other different
    simp [starts, different]

theorem step_start (life : Lifecycle state) {thread : Thread} {op : Op} {wanted : List Resource}
    {rest emitted : Multiset (Signal Thread Op Resource)} {after : Option (Ticket Resource)}
    {replied invoked : ℕ} (consumed : state.signals = .start op ::ₘ rest)
    (proceeds : Proceeds thread op ⟨wanted, wanted, [], none⟩ after emitted replied invoked) :
    Lifecycle (((state.setTicket thread op after).log op replied invoked).withSignals
      (rest + ((wanted : Multiset Resource).map (.request thread op) + emitted))) := by
  rcases life.phases op with ⟨before, inBefore⟩
  have queued : before = .queued := inBefore.eq_queued (by simp [consumed])
  subst queued
  rcases proceeds.phase rfl with ⟨phase, isSubmitted, notStarting, status, replies, invocations⟩
  have noTicket : state.tickets thread op = none := by
    simpa [Phase.status] using inBefore.status thread
  refine life.advance inBefore (by simp) (fun _ _ => rfl) rfl isSubmitted notStarting status
    replies (by simpa [Phase.invocations] using invocations) ?_ ?_ ?_
    fun ticket leaves => proceeds.unready (by simp) leaves
  · intro other
    have silent := Multiset.count_eq_zero.mpr
      (proceeds.not_mem (by simp) (by simp) : Signal.start other ∉ emitted)
    have starting := inBefore.starts
    rw [consumed] at starting ⊢
    by_cases same : other = op
    · subst same
      simp only [Multiset.count_cons_self, Phase.starts] at starting
      simpa [silent] using starting
    · simp [silent, same]
  · intro other otherOp different
    have silent := Multiset.count_eq_zero.mpr
      (proceeds.not_mem (by simp) (by simpa using different) :
        Signal.settle other otherOp ∉ emitted)
    simp [consumed, silent]
  · have settles := proceeds.count_settle
    have awaited := life.awaited thread op
    simp only [State.awaited, noTicket, Option.bind_none, Option.getD_none] at awaited
    rw [consumed, Multiset.count_cons_of_ne (by simp)] at awaited
    simp only [Option.getD_none, Nat.add_zero] at settles
    rw [← settles]
    simp [awaited]

theorem step_granted (life : Lifecycle state) {thread : Thread} {op : Op} {resource : Resource}
    {ticket : Ticket Resource} {rest emitted : Multiset (Signal Thread Op Resource)}
    {after : Option (Ticket Resource)} {replied invoked : ℕ}
    (consumed : state.signals = .grant thread op resource ::ₘ rest)
    (found : state.tickets thread op = some ticket)
    (proceeds : Proceeds thread op (ticket.grant resource) after emitted replied invoked) :
    Lifecycle (((state.setTicket thread op after).log op replied invoked).withSignals
      (rest + emitted)) := by
  rcases life.phases op with ⟨before, inBefore⟩
  have starts : ∀ other : Op, (rest + emitted).count (.start other) =
      state.signals.count (.start other) := by
    intro other
    have silent := Multiset.count_eq_zero.mpr
      (proceeds.not_mem (by simp) (by simp) : Signal.start other ∉ emitted)
    simp [consumed, silent]
  have settles : ∀ other otherOp, ¬(other = thread ∧ otherOp = op) →
      (rest + emitted).count (.settle other otherOp) =
        state.signals.count (.settle other otherOp) := by
    intro other otherOp different
    have silent := Multiset.count_eq_zero.mpr
      (proceeds.not_mem (by simp) (by simpa using different) :
        Signal.settle other otherOp ∉ emitted)
    simp [consumed, silent]
  have awaited : (rest + emitted).count (.settle thread op) =
      (after.bind Ticket.pending).getD 0 := by
    have settling := proceeds.count_settle
    have awaited := life.awaited thread op
    simp only [State.awaited, found, Option.bind_some] at awaited
    rw [consumed, Multiset.count_cons_of_ne (by simp)] at awaited
    rw [← settling, Multiset.count_add, awaited, Nat.add_comm]
    rfl
  have left : ∀ left, after = some left →
      (left.needed ≠ [] ∨ left.pending ≠ none) ∧ left.pending ≠ some 0 :=
    fun left leaves => proceeds.unready (life.positive thread op ticket found) leaves
  cases entered : ticket.pending with
  | none =>
      have collating := inBefore.eq_collating found entered
      subst collating
      rcases proceeds.phase entered with
        ⟨phase, isSubmitted, notStarting, status, replies, invocations⟩
      refine life.advance inBefore (by simp) ?_ rfl isSubmitted notStarting status replies
        (by simpa [Phase.invocations] using invocations) ?_ settles awaited left
      · intro other different
        simp [Phase.status, different]
      · intro other
        rw [starts]
        split
        · rename_i same
          rw [same, inBefore.starts]
          rfl
        · rfl
  | some count =>
      have settling := inBefore.eq_settling found entered
      subst settling
      have waiting := proceeds.eq_waiting (by simp [Ticket.grant, entered])
      rcases waiting with ⟨rfl, rfl, rfl, rfl⟩
      refine life.advance inBefore (by simp) ?_ rfl (by simp : Phase.settling thread ≠ _) rfl ?_
        rfl rfl ?_ settles awaited left
      · intro other different
        simp [Phase.status, different]
      · intro other
        simp [Phase.status, Ticket.settling, Ticket.grant, entered]
      · intro other
        rw [starts]
        split
        · rename_i same
          rw [same, inBefore.starts]
          rfl
        · rfl

theorem step_recalled (life : Lifecycle state) {thread : Thread} {op : Op} {resource : Resource}
    {ticket : Ticket Resource} {rest : Multiset (Signal Thread Op Resource)}
    (consumed : state.signals = .recall thread resource ::ₘ rest)
    (found : state.tickets thread op = some ticket) :
    Lifecycle ((state.setTicket thread op (some (ticket.wound resource))).withSignals
      (rest + {.release resource, .request thread op resource})) := by
  have tickets : ∀ other otherOp,
      ((state.setTicket thread op (some (ticket.wound resource))).withSignals
        (rest + {.release resource, .request thread op resource})).tickets other otherOp =
      if other = thread ∧ otherOp = op then some (ticket.wound resource)
      else state.tickets other otherOp := by
    intro other otherOp
    simp only [State.withSignals_tickets, State.setTicket_tickets, update_update_apply]
  rcases life.phases op with ⟨phase, inPhase⟩
  apply life.replace tickets rfl (fun _ _ => rfl) (fun _ _ => rfl) _ _
    (inPhase.frame Iff.rfl _ _ rfl rfl)
  · have awaited := life.awaited thread op
    simp only [State.awaited, found, Option.bind_some] at awaited
    simpa [consumed, Ticket.wound] using awaited
  · intro left leaves
    cases leaves
    refine ⟨Or.inl (by simp [Ticket.wound]), ?_⟩
    exact life.positive thread op ticket found
  · intro other different
    simp [consumed]
  · intro other otherOp different
    simp [consumed]
  · simp [consumed]
  · intro other
    rw [tickets]
    split
    · rename_i same
      rw [same.1, found]
      rfl
    · rfl

theorem step_settled (life : Lifecycle state) {thread : Thread} {op : Op}
    {ticket : Ticket Resource} {count more replied : ℕ}
    {rest emitted : Multiset (Signal Thread Op Resource)} {after : Option (Ticket Resource)}
    (consumed : state.signals = .settle thread op ::ₘ rest)
    (found : state.tickets thread op = some ticket) (entered : ticket.pending = some count)
    (settles : Settles ticket (count - 1 + more) after emitted replied) :
    Lifecycle (((state.setTicket thread op after).log op replied 0).withSignals
      (rest + (Multiset.replicate more (.settle thread op) + emitted))) := by
  rcases life.phases op with ⟨before, inBefore⟩
  have settling := inBefore.eq_settling found entered
  subst settling
  rcases settles.phase thread with
    ⟨phase, isSubmitted, notStarting, status, replies, invocations⟩
  refine life.advance inBefore (by simp) ?_ rfl isSubmitted notStarting status replies
    (by simpa [Phase.invocations] using invocations) ?_ ?_ ?_
    fun ticket leaves => settles.unready leaves
  · intro other different
    simp [Phase.status, different]
  · intro other
    have silent := Multiset.count_eq_zero.mpr
      (settles.not_mem (by simp) : Signal.start other ∉ emitted)
    have starting := inBefore.starts
    rw [consumed] at starting ⊢
    split
    · rename_i same
      subst same
      simpa [silent, Multiset.count_replicate, Phase.starts] using starting
    · simp [silent, Multiset.count_replicate]
  · intro other otherOp different
    have silent := Multiset.count_eq_zero.mpr
      (settles.not_mem (by simp) : Signal.settle other otherOp ∉ emitted)
    have apart : ¬(thread = other ∧ op = otherOp) := fun same => different ⟨same.1.symm, same.2.symm⟩
    simp [consumed, silent, Multiset.count_replicate, different, apart]
  · have silent := Multiset.count_eq_zero.mpr
      (settles.not_mem (by simp) : Signal.settle thread op ∉ emitted)
    have awaited := life.awaited thread op
    simp only [State.awaited, found, Option.bind_some, entered, Option.getD_some] at awaited
    rw [consumed, Multiset.count_cons_self] at awaited
    rw [settles.awaited]
    simp only [Multiset.count_add, silent, Multiset.count_replicate_self]
    omega

theorem step_submit (life : Lifecycle state) {op : Op} (fresh : op ∉ state.submitted) :
    Lifecycle ({ state with
      submitted := insert op state.submitted
      signals := .start op ::ₘ state.signals } : State Thread Op Resource) := by
  constructor
  · intro other
    rcases life.phases other with ⟨phase, inPhase⟩
    by_cases same : other = op
    · subst same
      have unsubmitted : phase = .unsubmitted := by
        by_contra submitted
        exact fresh (inPhase.submitted.mpr submitted)
      subst unsubmitted
      refine ⟨.queued, by simp, ?_, inPhase.status, inPhase.replied, inPhase.invoked⟩
      have starts := inPhase.starts
      simp only [Phase.starts] at starts
      simp [Phase.starts, starts]
    · refine ⟨phase, inPhase.frame (by simp [same]) ?_ (fun _ => rfl) rfl rfl⟩
      simp [same]
  · intro thread other
    have awaited := life.awaited thread other
    unfold State.awaited at awaited ⊢
    simpa using awaited
  · exact life.unready
  · exact life.positive

/-- A settlement in flight has a ticket that waits for it. -/
theorem exists_pending (life : Lifecycle state) {thread : Thread} {op : Op}
    (settling : .settle thread op ∈ state.signals) :
    ∃ ticket, state.tickets thread op = some ticket ∧ ticket.pending ≠ none := by
  have awaited := life.awaited thread op
  have positive := Multiset.count_pos.mpr settling
  cases found : state.tickets thread op with
  | none =>
      simp only [State.awaited, found, Option.bind_none, Option.getD_none] at awaited
      omega
  | some ticket =>
      refine ⟨ticket, rfl, ?_⟩
      intro fresh
      simp only [State.awaited, found, Option.bind_some, fresh, Option.getD_none] at awaited
      omega

theorem step {event : Event} (life : Lifecycle state) (step : Step state event next) :
    Lifecycle next := by
  cases step with
  | submit op fresh => exact life.step_submit fresh
  | start thread op wanted rest emitted after replied invoked consumed proceeds =>
      exact life.step_start consumed proceeds
  | grantFree thread op resource rest consumed free idle =>
      refine life.frame rfl rfl rfl rfl ?_ ?_ <;> simp [consumed]
  | queue thread op resource holder rest consumed held =>
      have silent : ∀ signal : Signal Thread Op Resource,
          (∀ target, signal ≠ .recall target resource) →
          (if op < holder.2 then {.recall holder.1 resource} else 0 :
            Multiset (Signal Thread Op Resource)).count signal = 0 := by
        intro signal different
        split
        · exact Multiset.count_eq_zero.mpr (by simpa using different holder.1)
        · simp
      refine life.frame rfl rfl rfl rfl ?_ ?_ <;> simp [consumed, silent]
  | grantLost thread op resource rest consumed gone =>
      refine life.frame rfl rfl rfl rfl ?_ ?_ <;> simp [consumed]
  | granted thread op resource ticket rest emitted after replied invoked consumed found proceeds =>
      exact life.step_granted consumed found proceeds
  | recallMissed thread resource rest consumed =>
      refine life.frame rfl rfl rfl rfl ?_ ?_ <;> simp [consumed]
  | recalled thread op resource ticket rest consumed found holds =>
      exact life.step_recalled consumed found
  | releaseLast resource rest consumed idle =>
      refine life.frame rfl rfl rfl rfl ?_ ?_ <;> simp [consumed]
  | handOver resource waiter waiters rest consumed waiting oldest =>
      refine life.frame rfl rfl rfl rfl ?_ ?_ <;> simp [consumed]
  | settleLost thread op rest consumed gone =>
      rcases life.exists_pending (by simp [consumed] : Signal.settle thread op ∈ _) with
        ⟨ticket, found, entered⟩
      exact absurd (gone ticket found) entered
  | settled thread op ticket count more replied rest emitted after consumed found entered settles =>
      exact life.step_settled consumed found entered settles

end Lifecycle

end WoundWait
