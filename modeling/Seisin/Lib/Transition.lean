import Mathlib

/-!
# Labelled transition systems

A system is given by its initial states and a partial step function of a state and a label; a
label names the scheduler's choice, so that a run is a list of choices and can be evaluated.
Runs may be restricted by a side condition on the state before each step.  The two rules below,
`Run.induction` and `Reachable.induction`, are how every invariant of a run is established.
-/

namespace Transition

universe u v

/-- Initial states and a partial step function. -/
structure System (State : Type u) (Label : Type v) where
  init : State → Prop
  step : State → Label → Option State

namespace System

variable {State : Type u} {Label : Type v} (system : System State Label)

/-- Finite runs every step of which meets `allowed` in the state it starts from. -/
inductive Run (allowed : State → Label → Prop) : State → State → Prop where
  | refl (state : State) : Run allowed state state
  | tail {first middle last : State} (label : Label) :
      Run allowed first middle → allowed middle label →
        system.step middle label = some last → Run allowed first last

/-- States reached from an initial state by a run whose steps all meet `allowed`. -/
def ReachableVia (allowed : State → Label → Prop) (state : State) : Prop :=
  ∃ start, system.init start ∧ system.Run allowed start state

/-- States reached from an initial state by any run. -/
def Reachable (state : State) : Prop :=
  system.ReachableVia (fun _ _ => True) state

/-- Execution of a list of labels. -/
def exec : State → List Label → Option State
  | state, [] => some state
  | state, label :: labels => (system.step state label).bind fun next => exec next labels

/-- Execution of a list of labels that stops at the first step a guard refuses. -/
def execVia (guard : State → Label → Bool) : State → List Label → Option State
  | state, [] => some state
  | state, label :: labels =>
      if guard state label then
        (system.step state label).bind fun next => execVia guard next labels
      else none

variable {system}

theorem Run.trans {allowed : State → Label → Prop} {first middle last : State}
    (left : system.Run allowed first middle) (right : system.Run allowed middle last) :
    system.Run allowed first last := by
  induction right with
  | refl => exact left
  | tail label _ meets stepped ih => exact .tail label ih meets stepped

theorem Run.mono {allowed weaker : State → Label → Prop}
    (implied : ∀ state label, allowed state label → weaker state label)
    {first last : State} (run : system.Run allowed first last) :
    system.Run weaker first last := by
  induction run with
  | refl => exact .refl _
  | tail label _ meets stepped ih => exact .tail label ih (implied _ _ meets) stepped

/-- A property kept by every allowed step is kept by every run. -/
theorem Run.induction {allowed : State → Label → Prop} {invariant : State → Prop}
    (preserved : ∀ state label next, invariant state → allowed state label →
      system.step state label = some next → invariant next)
    {first last : State} (run : system.Run allowed first last) (holds : invariant first) :
    invariant last := by
  induction run with
  | refl => exact holds
  | tail label _ meets stepped ih => exact preserved _ _ _ ih meets stepped

/-- A property of the initial states kept by every allowed step holds of every reached state. -/
theorem ReachableVia.induction {allowed : State → Label → Prop} {invariant : State → Prop}
    (initial : ∀ state, system.init state → invariant state)
    (preserved : ∀ state label next, invariant state → allowed state label →
      system.step state label = some next → invariant next)
    {state : State} (reached : system.ReachableVia allowed state) : invariant state := by
  rcases reached with ⟨start, starts, run⟩
  exact run.induction preserved (initial start starts)

theorem ReachableVia.reachable {allowed : State → Label → Prop} {state : State}
    (reached : system.ReachableVia allowed state) : system.Reachable state := by
  rcases reached with ⟨start, starts, run⟩
  exact ⟨start, starts, run.mono fun _ _ _ => trivial⟩

theorem ReachableVia.tail {allowed : State → Label → Prop} {state next : State} {label : Label}
    (reached : system.ReachableVia allowed state) (meets : allowed state label)
    (stepped : system.step state label = some next) : system.ReachableVia allowed next := by
  rcases reached with ⟨start, starts, run⟩
  exact ⟨start, starts, .tail label run meets stepped⟩

theorem exec_append (first : State) (front back : List Label) :
    system.exec first (front ++ back) = (system.exec first front).bind (system.exec · back) := by
  induction front generalizing first with
  | nil => rfl
  | cons label front ih =>
      simp only [List.cons_append, exec]
      cases system.step first label with
      | none => rfl
      | some next => exact ih next

/-- A property a run ends with but does not start with sets in at some step and lasts from then
on. -/
theorem exec_onset (property : State → Prop) {first last : State} {labels : List Label}
    (executed : system.exec first labels = some last) (lacks : ¬property first)
    (has : property last) :
    ∃ front label back before after, labels = front ++ label :: back ∧
      system.exec first front = some before ∧ system.step before label = some after ∧
      ¬property before ∧ ∀ kept dropped state, back = kept ++ dropped →
        system.exec after kept = some state → property state := by
  induction labels using List.reverseRecOn generalizing last with
  | nil =>
      simp only [exec, Option.some.injEq] at executed
      exact absurd (executed ▸ has) lacks
  | append_singleton labels label ih =>
      rw [exec_append] at executed
      rcases Option.bind_eq_some_iff.mp executed with ⟨middle, reached, lastStep⟩
      simp only [exec, Option.bind_fun_some] at lastStep
      by_cases already : property middle
      · -- The property held before the last step: that step is the last one of its stretch.
        rcases ih reached already with
          ⟨front, onset, back, before, after, rfl, ran, stepped, lacked, lasts⟩
        refine ⟨front, onset, back ++ [label], before, after, by simp, ran, stepped, lacked, ?_⟩
        intro kept dropped state split keptRun
        rcases List.append_eq_append_iff.mp split with ⟨extra, rfl, tail⟩ | ⟨extra, rfl, rfl⟩
        · rcases List.append_eq_singleton_iff.mp tail.symm with ⟨rfl, rfl⟩ | ⟨rfl, rfl⟩
          · rw [List.append_nil] at keptRun
            exact lasts back [] state (List.append_nil _).symm keptRun
          · -- Here `kept` is the whole stretch, so its state is the last one.
            have whole : system.exec first (front ++ onset :: (back ++ [label])) = some state := by
              rw [exec_append, ran]
              simp only [Option.bind_some, exec, stepped]
              exact keptRun
            rw [List.append_cons, ← List.append_assoc, ← List.append_cons, exec_append,
              reached] at whole
            simp only [Option.bind_some, exec, Option.bind_fun_some, lastStep,
              Option.some.injEq] at whole
            exact whole ▸ has
        · exact lasts kept extra state rfl keptRun
      · refine ⟨labels, label, [], middle, last, rfl, reached, lastStep, already, ?_⟩
        intro kept dropped state split keptRun
        rcases List.append_eq_nil_iff.mp split.symm with ⟨rfl, rfl⟩
        simp only [exec, Option.some.injEq] at keptRun
        exact keptRun ▸ has

theorem run_of_exec {first last : State} {labels : List Label}
    (executed : system.exec first labels = some last) :
    system.Run (fun _ _ => True) first last := by
  induction labels generalizing first with
  | nil =>
      simp only [exec, Option.some.injEq] at executed
      subst executed
      exact .refl _
  | cons label labels ih =>
      simp only [exec, Option.bind_eq_some_iff] at executed
      rcases executed with ⟨next, stepped, rest⟩
      exact (Run.tail label (.refl _) trivial stepped).trans (ih rest)

theorem reachable_of_exec {first last : State} {labels : List Label}
    (starts : system.init first) (executed : system.exec first labels = some last) :
    system.Reachable last :=
  ⟨first, starts, run_of_exec executed⟩

theorem exec_of_execVia {guard : State → Label → Bool} {first last : State} {labels : List Label}
    (executed : system.execVia guard first labels = some last) :
    system.exec first labels = some last := by
  induction labels generalizing first with
  | nil => exact executed
  | cons label labels ih =>
      simp only [execVia] at executed
      split at executed
      · rcases Option.bind_eq_some_iff.mp executed with ⟨next, stepped, rest⟩
        exact Option.bind_eq_some_iff.mpr ⟨next, stepped, ih rest⟩
      · cases executed

/-- A guarded execution passed its guard at every step. -/
theorem guard_of_execVia {guard : State → Label → Bool} {first before last : State}
    {front back : List Label} {label : Label}
    (executed : system.execVia guard first (front ++ label :: back) = some last)
    (ran : system.exec first front = some before) : guard before label = true := by
  induction front generalizing first with
  | nil =>
      simp only [exec, Option.some.injEq] at ran
      subst ran
      simp only [List.nil_append, execVia] at executed
      split at executed
      · rename_i guarded
        exact guarded
      · cases executed
  | cons other front ih =>
      simp only [List.cons_append, execVia] at executed
      split at executed
      · rcases Option.bind_eq_some_iff.mp executed with ⟨next, stepped, rest⟩
        rcases Option.bind_eq_some_iff.mp ran with ⟨same, sameStep, restRan⟩
        rw [stepped] at sameStep
        cases sameStep
        exact ih rest restRan
      · cases executed

theorem runVia_of_execVia {allowed : State → Label → Prop} {guard : State → Label → Bool}
    (sound : ∀ state label, guard state label = true → allowed state label)
    {first last : State} {labels : List Label}
    (executed : system.execVia guard first labels = some last) :
    system.Run allowed first last := by
  induction labels generalizing first with
  | nil =>
      simp only [execVia, Option.some.injEq] at executed
      subst executed
      exact .refl _
  | cons label labels ih =>
      simp only [execVia] at executed
      split at executed
      · rename_i guarded
        rcases Option.bind_eq_some_iff.mp executed with ⟨next, stepped, rest⟩
        exact (Run.tail label (.refl _) (sound first label guarded) stepped).trans (ih rest)
      · cases executed

/-- The same where the guard is sound only for the labels executed, in states with an invariant. -/
theorem runVia_of_execVia_invariant {allowed : State → Label → Prop} {guard : State → Label → Bool}
    {invariant : State → Prop} {usual : Label → Prop}
    (preserved : ∀ state label next, invariant state → usual label →
      system.step state label = some next → invariant next)
    (sound : ∀ state label, invariant state → usual label → guard state label = true →
      allowed state label)
    {first last : State} {labels : List Label} (holds : invariant first)
    (allUsual : ∀ label ∈ labels, usual label)
    (executed : system.execVia guard first labels = some last) :
    system.Run allowed first last := by
  induction labels generalizing first with
  | nil =>
      simp only [execVia, Option.some.injEq] at executed
      subst executed
      exact .refl _
  | cons label labels ih =>
      simp only [execVia] at executed
      split at executed
      · rename_i guarded
        rcases Option.bind_eq_some_iff.mp executed with ⟨next, stepped, rest⟩
        have now := allUsual label List.mem_cons_self
        have later := ih (preserved first label next holds now stepped)
          (fun other otherMem => allUsual other (List.mem_cons_of_mem _ otherMem)) rest
        exact (Run.tail label (.refl _) (sound first label holds now guarded) stepped).trans later
      · cases executed

theorem reachableVia_of_execVia {allowed : State → Label → Prop} {guard : State → Label → Bool}
    (sound : ∀ state label, guard state label = true → allowed state label)
    {first last : State} {labels : List Label} (starts : system.init first)
    (executed : system.execVia guard first labels = some last) :
    system.ReachableVia allowed last :=
  ⟨first, starts, runVia_of_execVia sound executed⟩

/-! ## Runs with their labels -/

/-- Finite runs that remember their labels, every step of which meets `allowed` in the state it
starts from. -/
inductive Trace (system : System State Label) (allowed : State → Label → Prop) (first : State) :
    List Label → State → Prop where
  | refl : Trace system allowed first [] first
  | tail {labels : List Label} {middle last : State} (label : Label) :
      Trace system allowed first labels middle → allowed middle label →
        system.step middle label = some last → Trace system allowed first (labels ++ [label]) last

theorem Trace.trans {allowed : State → Label → Prop} {first middle last : State}
    {front back : List Label} (left : system.Trace allowed first front middle)
    (right : system.Trace allowed middle back last) :
    system.Trace allowed first (front ++ back) last := by
  induction right with
  | refl =>
      rw [List.append_nil]
      exact left
  | tail label _ meets stepped ih =>
      rw [← List.append_assoc]
      exact .tail label ih meets stepped

/-- A history that every allowed step can continue is continued by every trace. -/
theorem Trace.continues {allowed : State → Label → Prop} {Entry : Type*}
    {explains : List Label → State → List Entry → Prop}
    (continued : ∀ labels state history label next, explains labels state history →
      allowed state label → system.step state label = some next →
      ∃ more, explains (labels ++ [label]) next (history ++ more))
    {first last : State} {front back : List Label} {history : List Entry}
    (trace : system.Trace allowed first back last) (explained : explains front first history) :
    ∃ later, explains (front ++ back) last (history ++ later) := by
  induction trace with
  | refl =>
      refine ⟨[], ?_⟩
      rw [List.append_nil, List.append_nil]
      exact explained
  | tail label _ meets stepped ih =>
      rcases ih with ⟨later, before⟩
      rcases continued _ _ _ label _ before meets stepped with ⟨more, after⟩
      refine ⟨later ++ more, ?_⟩
      rw [← List.append_assoc, ← List.append_assoc]
      exact after

theorem trace_of_execVia {allowed : State → Label → Prop} {guard : State → Label → Bool}
    (sound : ∀ state label, guard state label = true → allowed state label)
    {first last : State} {labels : List Label}
    (executed : system.execVia guard first labels = some last) :
    system.Trace allowed first labels last := by
  induction labels generalizing first with
  | nil =>
      simp only [execVia, Option.some.injEq] at executed
      subst executed
      exact .refl
  | cons label labels ih =>
      simp only [execVia] at executed
      split at executed
      · rename_i guarded
        rcases Option.bind_eq_some_iff.mp executed with ⟨next, stepped, rest⟩
        have opens : system.Trace allowed first ([] ++ [label]) next :=
          .tail label .refl (sound first label guarded) stepped
        exact opens.trans (ih rest)
      · cases executed

end System

end Transition
