import Mathlib

/-!
# Stateful programs that succeed

Total correctness of programs that change a state and may fail: `Returns program start post` says
that the program, run from `start`, succeeds and that `post` holds of its result and of the state it
leaves.  Programs are taken apart by `Returns.bind`.  `Keeps program start observe` says that the
program, run from `start`, does not change what is observed of the state, whether it succeeds or
fails.
-/

namespace Stateful

universe u

variable {Failure State Result Next : Type u}

/-- The program succeeds, with a result and a state as `post` says. -/
def Returns (program : ExceptT Failure (StateM State) Result) (start : State)
    (post : Result → State → Prop) : Prop :=
  ∃ result last, program start = (.ok result, last) ∧ post result last

variable {program : ExceptT Failure (StateM State) Result} {start : State}
  {post : Result → State → Prop}

/-- What follows a program that succeeds runs on its result. -/
theorem bind_of_ok {rest : Result → ExceptT Failure (StateM State) Next} {result : Result}
    {middle : State} (ran : program start = (.ok result, middle)) :
    (program >>= rest) start = rest result middle := by
  change ExceptT.bindCont rest (program start).1 (program start).2 = _
  rw [ran]
  rfl

/-- What follows a program that fails does not run. -/
theorem bind_of_error {rest : Result → ExceptT Failure (StateM State) Next} {failure : Failure}
    {middle : State} (ran : program start = (.error failure, middle)) :
    (program >>= rest) start = (.error failure, middle) := by
  change ExceptT.bindCont rest (program start).1 (program start).2 = _
  rw [ran]
  rfl

theorem Returns.pure {result : Result} (holds : post result start) :
    Returns (Pure.pure result : ExceptT Failure (StateM State) Result) start post :=
  ⟨result, start, rfl, holds⟩

theorem Returns.bind {rest : Result → ExceptT Failure (StateM State) Next}
    {last : Next → State → Prop} (first : Returns program start post)
    (later : ∀ result middle, post result middle → Returns (rest result) middle last) :
    Returns (program >>= rest) start last := by
  rcases first with ⟨result, middle, ran, holds⟩
  rcases later result middle holds with ⟨next, final, ranRest, holdsLast⟩
  exact ⟨next, final, (bind_of_ok ran).trans ranRest, holdsLast⟩

theorem Returns.get {rest : State → ExceptT Failure (StateM State) Next}
    {last : Next → State → Prop} (later : Returns (rest start) start last) :
    Returns (MonadState.get >>= rest) start last :=
  later

theorem Returns.set {state : State} {rest : PUnit → ExceptT Failure (StateM State) Next}
    {last : Next → State → Prop} (later : Returns (rest ⟨⟩) state last) :
    Returns (MonadState.set state >>= rest) start last :=
  later

theorem Returns.mono {weaker : Result → State → Prop} (returns : Returns program start post)
    (implied : ∀ result last, post result last → weaker result last) :
    Returns program start weaker := by
  rcases returns with ⟨result, last, ran, holds⟩
  exact ⟨result, last, ran, implied result last holds⟩

/-- A result that may fail goes on if it did not. -/
@[simp]
theorem ok_bind {value : Result} {rest : Result → Except Failure Next} :
    ((Except.ok value : Except Failure Result) >>= rest) = rest value :=
  rfl

/-! ## What a program leaves alone -/

/-- The program leaves the observed part of the state as it is, also when it fails. -/
def Keeps {Observed : Type*} (program : ExceptT Failure (StateM State) Result) (start : State)
    (observe : State → Observed) : Prop :=
  observe (program start).2 = observe start

section Keeps

variable {Observed : Type*} {observe : State → Observed}

theorem Keeps.pure {result : Result} :
    Keeps (Pure.pure result : ExceptT Failure (StateM State) Result) start observe :=
  rfl

theorem Keeps.bind {rest : Result → ExceptT Failure (StateM State) Next}
    (first : Keeps program start observe)
    (later : ∀ result middle, observe middle = observe start →
      Keeps (rest result) middle observe) :
    Keeps (program >>= rest) start observe := by
  unfold Keeps at first ⊢
  rcases ran : program start with ⟨outcome, middle⟩
  rw [ran] at first
  cases outcome with
  | error failure =>
      rw [bind_of_error ran]
      exact first
  | ok result =>
      rw [bind_of_ok ran]
      exact (later result middle first).trans first

theorem Keeps.get {rest : State → ExceptT Failure (StateM State) Next}
    (later : Keeps (rest start) start observe) : Keeps (MonadState.get >>= rest) start observe :=
  later

theorem Keeps.set {state : State} {rest : PUnit → ExceptT Failure (StateM State) Next}
    (same : observe state = observe start) (later : Keeps (rest ⟨⟩) state observe) :
    Keeps (MonadState.set state >>= rest) start observe :=
  Eq.trans later same

end Keeps

end Stateful
