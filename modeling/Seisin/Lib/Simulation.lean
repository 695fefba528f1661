import Seisin.Lib.Transition

/-!
# Simulations that show the same events

One system follows another if it can take a step, or none, for every step of the other one and
show the same events.  Then every run of the system that is followed has a run of the other one with
the same history of events, and what is known of the second run carries over to the first.
-/

namespace Transition

universe u v w x y

namespace System

variable {State : Type u} {Label : Type v} {Event : Type w} (system : System State Label)

/-- The events of an execution, one step after another. -/
def observed (events : State → Label → List Event) : State → List Label → List Event
  | _, [] => []
  | state, label :: labels =>
      events state label ++
        ((system.step state label).elim [] fun next => observed events next labels)

variable {system} {allowed : State → Label → Prop} {events : State → Label → List Event}

theorem Trace.exec {first last : State} {labels : List Label}
    (trace : system.Trace allowed first labels last) : system.exec first labels = some last := by
  induction trace with
  | refl => rfl
  | tail label _ _ stepped ih =>
      rw [exec_append, ih]
      simp only [Option.bind_some, System.exec, stepped]

theorem observed_append {first middle : State} {front : List Label}
    (executed : system.exec first front = some middle) (back : List Label) :
    system.observed events first (front ++ back) =
      system.observed events first front ++ system.observed events middle back := by
  induction front generalizing first with
  | nil =>
      simp only [System.exec, Option.some.injEq] at executed
      rw [executed]
      rfl
  | cons label front ih =>
      rcases Option.bind_eq_some_iff.mp executed with ⟨next, stepped, rest⟩
      simp only [List.cons_append, observed, stepped, Option.elim_some]
      rw [ih rest, List.append_assoc]

theorem Trace.observed_snoc {first middle last : State} {labels : List Label} {label : Label}
    (trace : system.Trace allowed first labels middle)
    (stepped : system.step middle label = some last) :
    system.observed events first (labels ++ [label]) =
      system.observed events first labels ++ events middle label := by
  rw [observed_append trace.exec]
  simp only [observed, stepped, Option.elim_some, List.append_nil]

theorem Trace.reachableVia {first last : State} {labels : List Label}
    (trace : system.Trace allowed first labels last) (starts : system.init first) :
    system.ReachableVia allowed last := by
  induction trace with
  | refl => exact ⟨first, starts, .refl first⟩
  | tail label _ meets stepped ih => exact ih.tail meets stepped

/-- A trace for a run. -/
theorem Run.trace {first last : State} (run : system.Run allowed first last) :
    ∃ labels, system.Trace allowed first labels last := by
  induction run with
  | refl => exact ⟨[], .refl⟩
  | tail label _ meets stepped ih =>
      rcases ih with ⟨labels, trace⟩
      exact ⟨labels ++ [label], .tail label trace meets stepped⟩

/-! ## Following a system -/

variable {Abstract : Type x} {Move : Type y} {abstract : System Abstract Move}
  {permitted : Abstract → Move → Prop} {shown : Abstract → Move → List Event}
  {related : State → Abstract → Prop}

variable (system abstract allowed permitted events shown related) in
/-- Every allowed step is matched by a permitted step with the same events, or by none if it has no
events. -/
structure Follows : Prop where
  step : ∀ state other label next, related state other → allowed state label →
    system.step state label = some next →
      events state label = [] ∧ related next other ∨
        ∃ move after, permitted other move ∧ abstract.step other move = some after ∧
          shown other move = events state label ∧ related next after

/-- Every trace is matched by one with the same events. -/
theorem Follows.trace
    (follows : Follows system allowed events abstract permitted shown related)
    {first last : State} {labels : List Label} {start : Abstract}
    (trace : system.Trace allowed first labels last) (starts : related first start) :
    ∃ moves stop, abstract.Trace permitted start moves stop ∧ related last stop ∧
      abstract.observed shown start moves = system.observed events first labels := by
  induction trace with
  | refl => exact ⟨[], start, .refl, starts, rfl⟩
  | tail label before meets stepped ih =>
      rcases ih with ⟨moves, middle, matched, here, same⟩
      rw [before.observed_snoc stepped]
      rcases follows.step _ _ _ _ here meets stepped with
        ⟨silent, there⟩ | ⟨move, after, permits, moved, shows, there⟩
      · exact ⟨moves, middle, matched, there, by rw [same, silent, List.append_nil]⟩
      · refine ⟨moves ++ [move], after, .tail move matched permits moved, there, ?_⟩
        rw [matched.observed_snoc moved, same, shows]

end System

end Transition
