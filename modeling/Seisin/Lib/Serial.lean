import Mathlib

/-!
# One after another

What a list of requests comes to when each is served alone, on the state its predecessors leave.
-/

namespace Serial

universe u v w x

variable {State : Type u} {Op : Type v} {Request : Type w} {Outcome : Type x}

/-- Serves the requests of a history one after another: the last state, and every outcome under the
name of its request. -/
def run (serve : State → Request → State × Outcome) :
    State → List (Op × Request) → State × List (Op × Outcome)
  | state, [] => (state, [])
  | state, (op, request) :: history =>
      let (left, outcome) := serve state request
      let (last, outcomes) := run serve left history
      (last, (op, outcome) :: outcomes)

variable (serve : State → Request → State × Outcome) (state : State)
  (history : List (Op × Request))

theorem run_append (more : List (Op × Request)) :
    run serve state (history ++ more) =
      ((run serve (run serve state history).1 more).1,
        (run serve state history).2 ++ (run serve (run serve state history).1 more).2) := by
  induction history generalizing state with
  | nil => rfl
  | cons entry history ih => simp only [List.cons_append, run, ih]

/-- Every request has its outcome. -/
theorem run_ops : (run serve state history).2.map Prod.fst = history.map Prod.fst := by
  induction history generalizing state with
  | nil => rfl
  | cons entry history ih => simp only [run, List.map_cons, ih]

/-- One more request is served on the state the others leave. -/
theorem run_snoc (op : Op) (request : Request) :
    run serve state (history ++ [(op, request)]) =
      ((serve (run serve state history).1 request).1,
        (run serve state history).2 ++ [(op, (serve (run serve state history).1 request).2)]) := by
  rw [run_append]
  rfl

end Serial
