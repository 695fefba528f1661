import Mathlib

/-!
# Objects that answer

An object takes an operation, answers and goes on in another state, or fails for good.  Two objects
that answer alike in related states, operation by operation, answer every sequence of operations
alike.
-/

namespace Service

universe u v w

variable {Op : Type u} {Reply : Type v} {State Abstract : Type w}

/-- Operations one after another, with the replies in order. -/
def run (apply : State → Op → Option (Reply × State)) :
    State → List Op → Option (List Reply × State)
  | state, [] => some ([], state)
  | state, op :: ops =>
      (apply state op).bind fun first =>
        (run apply first.2 ops).map fun rest => (first.1 :: rest.1, rest.2)

/-- The same reply, and states that are related. -/
def Agree {Answer : Type v} (related : State → Abstract → Prop) (result : Answer × State)
    (expected : Answer × Abstract) : Prop :=
  result.1 = expected.1 ∧ related result.2 expected.2

variable {apply : State → Op → Option (Reply × State)}
  {specified : Abstract → Op → Option (Reply × Abstract)} {related : State → Abstract → Prop}

/-- An answer that can be read off was given. -/
theorem eq_ok_of_toOption {Failure Answer : Type*} {outcome : Except Failure Answer}
    {answer : Answer} (read : outcome.toOption = some answer) : outcome = .ok answer := by
  cases outcome with
  | error failure => cases read
  | ok other =>
      cases read
      rfl

/-- A simulation of one operation gives one of every sequence. -/
theorem run_rel {ops : List Op}
    (simulates : ∀ op ∈ ops, ∀ state expected, related state expected →
      Option.Rel (Agree related) (apply state op) (specified expected op)) :
    ∀ {state : State} {expected : Abstract}, related state expected →
      Option.Rel (Agree related) (run apply state ops) (run specified expected ops) := by
  induction ops with
  | nil => exact fun start => Option.Rel.some ⟨rfl, start⟩
  | cons op ops ih =>
      intro state expected start
      have first := simulates op List.mem_cons_self state expected start
      simp only [run]
      generalize apply state op = result at first ⊢
      generalize specified expected op = outcome at first ⊢
      cases first with
      | none => exact Option.Rel.none
      | @some result outcome agree =>
          have later := ih (fun other otherMem => simulates other (List.mem_cons_of_mem _ otherMem))
            agree.2
          simp only [Option.bind_some]
          generalize run apply result.2 ops = results at later ⊢
          generalize run specified outcome.2 ops = outcomes at later ⊢
          cases later with
          | none => exact Option.Rel.none
          | some rest =>
              refine Option.Rel.some ⟨?_, rest.2⟩
              simp only [agree.1, rest.1]

/-- A simulation of the operations that are specified gives one of every sequence of them. -/
theorem run_refines {ops : List Op}
    (simulates : ∀ op ∈ ops, ∀ state expected outcome, related state expected →
      specified expected op = some outcome →
      ∃ result, apply state op = some result ∧ Agree related result outcome) :
    ∀ {state : State} {expected : Abstract} {outcome : List Reply × Abstract},
      related state expected → run specified expected ops = some outcome →
      ∃ result, run apply state ops = some result ∧ Agree related result outcome := by
  induction ops with
  | nil =>
      intro state expected outcome start defined
      simp only [run, Option.some.injEq] at defined
      exact ⟨([], state), rfl, defined ▸ rfl, defined ▸ start⟩
  | cons op ops ih =>
      intro state expected outcome start defined
      simp only [run, Option.bind_eq_some_iff, Option.map_eq_some_iff] at defined
      rcases defined with ⟨first, firstDefined, rest, restDefined, rfl⟩
      rcases simulates op List.mem_cons_self state expected first start firstDefined with
        ⟨result, applied, sameReply, next⟩
      rcases ih (fun other otherMem => simulates other (List.mem_cons_of_mem _ otherMem)) next
        restDefined with ⟨results, ran, sameReplies, final⟩
      refine ⟨(result.1 :: results.1, results.2), ?_, ?_, final⟩
      · simp only [run, applied, Option.bind_some, ran, Option.map_some]
      · simp only [sameReply, sameReplies]

/-- An object that answers wherever an invariant holds, and keeps it, answers every sequence. -/
theorem run_total {invariant : State → Prop} {ops : List Op}
    (answers : ∀ op ∈ ops, ∀ state, invariant state →
      ∃ result, apply state op = some result ∧ invariant result.2) :
    ∀ {state : State}, invariant state →
      ∃ result, run apply state ops = some result ∧ invariant result.2 := by
  induction ops with
  | nil => exact fun {state} start => ⟨([], state), rfl, start⟩
  | cons op ops ih =>
      intro state start
      rcases answers op List.mem_cons_self state start with ⟨result, applied, next⟩
      rcases ih (fun other otherMem => answers other (List.mem_cons_of_mem _ otherMem)) next with
        ⟨results, ran, final⟩
      refine ⟨(result.1 :: results.1, results.2), ?_, final⟩
      simp only [run, applied, Option.bind_some, ran, Option.map_some]

/-- What every operation keeps, every sequence of them keeps. -/
theorem run_invariant {invariant : State → Prop} {ops : List Op}
    (kept : ∀ op ∈ ops, ∀ state result, invariant state → apply state op = some result →
      invariant result.2) :
    ∀ {state : State} {result : List Reply × State}, invariant state →
      run apply state ops = some result → invariant result.2 := by
  induction ops with
  | nil =>
      intro state result start ran
      simp only [run, Option.some.injEq] at ran
      exact ran ▸ start
  | cons op ops ih =>
      intro state result start ran
      simp only [run, Option.bind_eq_some_iff, Option.map_eq_some_iff] at ran
      rcases ran with ⟨first, applied, rest, ranRest, rfl⟩
      have final : invariant rest.2 :=
        ih (fun other otherMem => kept other (List.mem_cons_of_mem _ otherMem))
          (kept op List.mem_cons_self state first start applied) ranRest
      exact final

theorem run_append {first later : List Op} {state : State} {replies laterReplies : List Reply}
    {middle final : State} (ran : run apply state first = some (replies, middle))
    (ranLater : run apply middle later = some (laterReplies, final)) :
    run apply state (first ++ later) = some (replies ++ laterReplies, final) := by
  induction first generalizing state replies with
  | nil =>
      simp only [run, Option.some.injEq, Prod.mk.injEq] at ran
      rcases ran with ⟨rfl, rfl⟩
      exact ranLater
  | cons op ops ih =>
      simp only [run, Option.bind_eq_some_iff, Option.map_eq_some_iff, Prod.mk.injEq] at ran
      rcases ran with ⟨result, applied, rest, ran, rfl, same⟩
      have whole := ih (ran.trans (congrArg some (Prod.ext rfl same)))
      simp only [List.cons_append, run, applied, Option.bind_some, whole, Option.map_some]

end Service
