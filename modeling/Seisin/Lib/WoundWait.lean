import Mathlib

/-!
# The wound-wait protocol

Operations, ordered by age, run on threads and collect exclusive resources through locks.  A lock
grants a free resource to the oldest request; an older request recalls the resource from a younger
holder, which gives it back and asks for it again.  An operation that has collected all it needs
runs once; it may then wait for a number of replies before it ends and gives back what it holds.

Messages are kept as the multiset of signals they amount to, so nothing below depends on the order
in which they arrive.  An event tells the recalls apart: the one that finds nobody holding the
resource, and the one that takes it from an operation that is already waiting for replies.
-/

namespace WoundWait

universe u

variable {Thread Op Resource : Type u}

/-- What an operation running on a thread still needs and already has. -/
structure Ticket (Resource : Type u) where
  wanted : List Resource
  needed : List Resource
  acquired : List Resource
  pending : Option ℕ

inductive Signal (Thread Op Resource : Type u) where
  | start (op : Op)
  | request (thread : Thread) (op : Op) (resource : Resource)
  | grant (thread : Thread) (op : Op) (resource : Resource)
  | recall (thread : Thread) (resource : Resource)
  | release (resource : Resource)
  | settle (thread : Thread) (op : Op)
  deriving DecidableEq

structure Lock (Thread Op : Type u) where
  holder : Option (Thread × Op)
  waiters : Multiset (Thread × Op)

@[ext]
structure State (Thread Op Resource : Type u) where
  locks : Resource → Lock Thread Op
  tickets : Thread → Op → Option (Ticket Resource)
  signals : Multiset (Signal Thread Op Resource)
  submitted : Set Op
  replied : Op → ℕ
  invoked : Op → ℕ

inductive Event where
  | regular
  | recallMissed
  | recallCollating
  | recallSettling
  deriving DecidableEq

namespace State

/-- Replaces the ticket of `op` on `thread`. -/
@[simps]
def setTicket [DecidableEq Thread] [DecidableEq Op] (state : State Thread Op Resource)
    (thread : Thread) (op : Op) (ticket : Option (Ticket Resource)) :
    State Thread Op Resource where
  __ := state
  tickets := Function.update state.tickets thread
    (Function.update (state.tickets thread) op ticket)

@[simps]
def setLock [DecidableEq Resource] (state : State Thread Op Resource) (resource : Resource)
    (lock : Lock Thread Op) : State Thread Op Resource where
  __ := state
  locks := Function.update state.locks resource lock

/-- Counts replies and invocations of `op`. -/
@[simps]
def log [DecidableEq Op] (state : State Thread Op Resource) (op : Op) (replied invoked : ℕ) :
    State Thread Op Resource where
  __ := state
  replied := Function.update state.replied op (state.replied op + replied)
  invoked := Function.update state.invoked op (state.invoked op + invoked)

@[simps]
def withSignals (state : State Thread Op Resource)
    (signals : Multiset (Signal Thread Op Resource)) : State Thread Op Resource where
  __ := state
  signals := signals

end State

theorem update_update_apply {Value : Type u} [DecidableEq Thread] [DecidableEq Op]
    (tickets : Thread → Op → Value) (thread other : Thread) (op otherOp : Op) (value : Value) :
    Function.update tickets thread (Function.update (tickets thread) op value) other otherOp =
      if other = thread ∧ otherOp = op then value else tickets other otherOp := by
  by_cases sameThread : other = thread
  · subst sameThread
    by_cases sameOp : otherOp = op
    · subst sameOp
      simp
    · simp [sameOp]
  · simp [sameThread]

variable [DecidableEq Thread] [LinearOrder Op] [DecidableEq Resource]

/-- The signals by which an operation gives back what it holds. -/
def Ticket.releases (ticket : Ticket Resource) : Multiset (Signal Thread Op Resource) :=
  (ticket.acquired : Multiset Resource).map .release

/-- What becomes of a ticket that may be ready to run: it waits for more resources, it runs and
waits for replies, or it runs and ends. -/
inductive Proceeds (thread : Thread) (op : Op) (ticket : Ticket Resource) :
    Option (Ticket Resource) → Multiset (Signal Thread Op Resource) → ℕ → ℕ → Prop where
  | waiting (unready : ticket.needed ≠ [] ∨ ticket.pending ≠ none) :
      Proceeds thread op ticket (some ticket) 0 0 0
  | settling (collated : ticket.needed = []) (fresh : ticket.pending = none) (count : ℕ)
      (positive : count ≠ 0) :
      Proceeds thread op ticket (some { ticket with pending := some count })
        (Multiset.replicate count (.settle thread op)) 0 1
  | ended (collated : ticket.needed = []) (fresh : ticket.pending = none) :
      Proceeds thread op ticket none ticket.releases 1 1

/-- What becomes of a ticket that waits for `count` replies. -/
inductive Settles (ticket : Ticket Resource) (count : ℕ) :
    Option (Ticket Resource) → Multiset (Signal Thread Op Resource) → ℕ → Prop where
  | waiting (positive : count ≠ 0) :
      Settles ticket count (some { ticket with pending := some count }) 0 0
  | ended (settled : count = 0) : Settles ticket count none ticket.releases 1

def Ticket.grant (ticket : Ticket Resource) (resource : Resource) : Ticket Resource :=
  { ticket with
    needed := ticket.needed.filter fun other => other ≠ resource
    acquired := ticket.acquired ++ [resource] }

def Ticket.wound (ticket : Ticket Resource) (resource : Resource) : Ticket Resource :=
  { ticket with
    needed := ticket.needed ++ [resource]
    acquired := ticket.acquired.erase resource }

/-- One step of the protocol. -/
inductive Step (state : State Thread Op Resource) : Event → State Thread Op Resource → Prop where
  | submit (op : Op) (fresh : op ∉ state.submitted) :
      Step state .regular
        { state with submitted := insert op state.submitted, signals := .start op ::ₘ state.signals }
  | start (thread : Thread) (op : Op) (wanted : List Resource)
      (rest emitted : Multiset (Signal Thread Op Resource)) (after : Option (Ticket Resource))
      (replied invoked : ℕ) (consumed : state.signals = .start op ::ₘ rest)
      (proceeds : Proceeds thread op ⟨wanted, wanted, [], none⟩ after emitted replied invoked) :
      Step state .regular (((state.setTicket thread op after).log op replied invoked).withSignals
        (rest + ((wanted : Multiset Resource).map (.request thread op) + emitted)))
  | grantFree (thread : Thread) (op : Op) (resource : Resource)
      (rest : Multiset (Signal Thread Op Resource))
      (consumed : state.signals = .request thread op resource ::ₘ rest)
      (free : (state.locks resource).holder = none)
      (idle : (state.locks resource).waiters = 0) :
      Step state .regular ((state.setLock resource ⟨some (thread, op), 0⟩).withSignals
        (rest + {.grant thread op resource}))
  | queue (thread : Thread) (op : Op) (resource : Resource) (holder : Thread × Op)
      (rest : Multiset (Signal Thread Op Resource))
      (consumed : state.signals = .request thread op resource ::ₘ rest)
      (held : (state.locks resource).holder = some holder) :
      Step state .regular
        ((state.setLock resource
          ⟨some holder, (thread, op) ::ₘ (state.locks resource).waiters⟩).withSignals
          (rest + if op < holder.2 then {.recall holder.1 resource} else 0))
  | grantLost (thread : Thread) (op : Op) (resource : Resource)
      (rest : Multiset (Signal Thread Op Resource))
      (consumed : state.signals = .grant thread op resource ::ₘ rest)
      (gone : state.tickets thread op = none) :
      Step state .regular (state.withSignals (rest + {.release resource}))
  | granted (thread : Thread) (op : Op) (resource : Resource) (ticket : Ticket Resource)
      (rest emitted : Multiset (Signal Thread Op Resource)) (after : Option (Ticket Resource))
      (replied invoked : ℕ) (consumed : state.signals = .grant thread op resource ::ₘ rest)
      (found : state.tickets thread op = some ticket)
      (proceeds : Proceeds thread op (ticket.grant resource) after emitted replied invoked) :
      Step state .regular (((state.setTicket thread op after).log op replied invoked).withSignals
        (rest + emitted))
  | recallMissed (thread : Thread) (resource : Resource)
      (rest : Multiset (Signal Thread Op Resource))
      (consumed : state.signals = .recall thread resource ::ₘ rest) :
      Step state .recallMissed (state.withSignals (rest + {.release resource}))
  | recalled (thread : Thread) (op : Op) (resource : Resource) (ticket : Ticket Resource)
      (rest : Multiset (Signal Thread Op Resource))
      (consumed : state.signals = .recall thread resource ::ₘ rest)
      (found : state.tickets thread op = some ticket) (holds : resource ∈ ticket.acquired) :
      Step state (if ticket.pending = none then .recallCollating else .recallSettling)
        ((state.setTicket thread op (some (ticket.wound resource))).withSignals
          (rest + {.release resource, .request thread op resource}))
  | releaseLast (resource : Resource) (rest : Multiset (Signal Thread Op Resource))
      (consumed : state.signals = .release resource ::ₘ rest)
      (idle : (state.locks resource).waiters = 0) :
      Step state .regular ((state.setLock resource ⟨none, 0⟩).withSignals rest)
  | handOver (resource : Resource) (waiter : Thread × Op) (waiters : Multiset (Thread × Op))
      (rest : Multiset (Signal Thread Op Resource))
      (consumed : state.signals = .release resource ::ₘ rest)
      (waiting : (state.locks resource).waiters = waiter ::ₘ waiters)
      (oldest : ∀ other ∈ waiters, waiter.2 ≤ other.2) :
      Step state .regular ((state.setLock resource ⟨some waiter, waiters⟩).withSignals
        (rest + {.grant waiter.1 waiter.2 resource}))
  | settleLost (thread : Thread) (op : Op) (rest : Multiset (Signal Thread Op Resource))
      (consumed : state.signals = .settle thread op ::ₘ rest)
      (gone : ∀ ticket, state.tickets thread op = some ticket → ticket.pending = none) :
      Step state .regular (state.withSignals rest)
  | settled (thread : Thread) (op : Op) (ticket : Ticket Resource) (count more replied : ℕ)
      (rest emitted : Multiset (Signal Thread Op Resource)) (after : Option (Ticket Resource))
      (consumed : state.signals = .settle thread op ::ₘ rest)
      (found : state.tickets thread op = some ticket) (entered : ticket.pending = some count)
      (settles : Settles ticket (count - 1 + more) after emitted replied) :
      Step state .regular (((state.setTicket thread op after).log op replied 0).withSignals
        (rest + (Multiset.replicate more (.settle thread op) + emitted)))

end WoundWait
