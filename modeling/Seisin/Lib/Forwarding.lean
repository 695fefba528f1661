import Mathlib

/-!
# Following forwards

A request goes to a place, which answers it or names another place to ask.  Whoever asks follows the
names for a number of visits.  Places that forward leave the state as it is, so that the state changes
at most once, where the answer comes from.
-/

namespace Forwarding

variable {Place Answer State : Type*}

/-- What a visit ends with. -/
inductive Reply (Place Answer : Type*) where
  | forward (next : Place)
  | answer (answer : Answer)

variable (visit : Place → State → Option (Reply Place Answer × State))

/-- Visits one place after another until one answers; what is left after too many is a name. -/
def follow : ℕ → Place → State → Option (Reply Place Answer × State)
  | 0, place, state => some (.forward place, state)
  | visits + 1, place, state =>
      match visit place state with
      | none => none
      | some (.forward next, state) => follow visits next state
      | some (.answer answer, state) => some (.answer answer, state)

/-- Forwarding leaves the state as it is. -/
def Idle : Prop :=
  ∀ place state next after, visit place state = some (.forward next, after) → after = state

/-- A place names another one. -/
def Forwards (state : State) (place next : Place) : Prop :=
  visit place state = some (.forward next, state)

variable {visit} {visits : ℕ} {place : Place} {state next : State}
  {reply : Reply Place Answer}

theorem follow_of_answer {answer : Answer} (answers : visit place state = some (.answer answer, next))
    (some_ : 0 < visits) : follow visit visits place state = some (.answer answer, next) := by
  cases visits with
  | zero => exact absurd some_ (Nat.lt_irrefl 0)
  | succ visits => simp only [follow, answers]

theorem follow_of_forwards {other : Place} (forwards : Forwards visit state place other) :
    follow visit (visits + 1) place state = follow visit visits other state := by
  have named : visit place state = some (.forward other, state) := forwards
  simp only [follow, named]

/-- Either the names ran on and nothing changed, or the last place on the way has answered. -/
theorem follow_cases (idle : Idle visit)
    (followed : follow visit visits place state = some (reply, next)) :
    ∃ last, Relation.ReflTransGen (Forwards visit state) place last ∧
      (reply = .forward last ∧ next = state ∨
        ∃ answer, reply = .answer answer ∧ visit last state = some (.answer answer, next)) := by
  induction visits generalizing place with
  | zero =>
      cases followed
      exact ⟨place, .refl, Or.inl ⟨rfl, rfl⟩⟩
  | succ visits ih =>
      unfold follow at followed
      split at followed
      · cases followed
      · rename_i other after forwards
        have same := idle place state other after forwards
        subst same
        rcases ih followed with ⟨last, way, outcome⟩
        exact ⟨last, .head forwards way, outcome⟩
      · rename_i answer after answers
        cases followed
        exact ⟨place, .refl, Or.inr ⟨answer, rfl, answers⟩⟩

end Forwarding
