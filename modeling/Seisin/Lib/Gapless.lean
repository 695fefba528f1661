import Mathlib

/-!
# Gapless runs

Values are known at some numbers.  The gapless run from a number on has the values at the numbers
that follow it, up to the first at which nothing is known.
-/

namespace Gapless

variable {α : Type*} {lookup other : ℕ → Option α} {start : ℕ} {values more : List α}

/-- The values at the numbers that follow `start`, as many as there are. -/
def Segment (lookup : ℕ → Option α) (start : ℕ) (values : List α) : Prop :=
  ∀ position value, values[position]? = some value → lookup (start + 1 + position) = some value

/-- All values up to the first gap. -/
structure IsRun (lookup : ℕ → Option α) (start : ℕ) (values : List α) : Prop where
  segment : Segment lookup start values
  maximal : lookup (start + 1 + values.length) = none

theorem Segment.nil : Segment lookup start [] := by
  intro position value found
  cases found

theorem Segment.mono (segment : Segment lookup start values)
    (known : ∀ number value, lookup number = some value → other number = some value) :
    Segment other start values :=
  fun position value found => known _ _ (segment position value found)

theorem Segment.cons {value : α} (first : lookup (start + 1) = some value)
    (rest : Segment lookup (start + 1) values) : Segment lookup start (value :: values) := by
  intro position found isFound
  cases position with
  | zero =>
      rw [List.getElem?_cons_zero] at isFound
      cases isFound
      exact first
  | succ position =>
      rw [List.getElem?_cons_succ] at isFound
      have later := rest position found isFound
      rwa [show start + 1 + 1 + position = start + 1 + (position + 1) by omega] at later

theorem Segment.append (segment : Segment lookup start values)
    (next : Segment lookup (start + values.length) more) :
    Segment lookup start (values ++ more) := by
  intro position value found
  by_cases inside : position < values.length
  · rw [List.getElem?_append_left inside] at found
    exact segment position value found
  · rw [not_lt] at inside
    rw [List.getElem?_append_right inside] at found
    have later := next _ value found
    rwa [show start + values.length + 1 + (position - values.length) = start + 1 + position by
      omega] at later

theorem IsRun.cons {value : α} (first : lookup (start + 1) = some value)
    (rest : IsRun lookup (start + 1) values) : IsRun lookup start (value :: values) where
  segment := .cons first rest.segment
  maximal := by
    have gap := rest.maximal
    rwa [show start + 1 + 1 + values.length = start + 1 + (value :: values).length by
      rw [List.length_cons]
      omega] at gap

theorem IsRun.append (segment : Segment lookup start values)
    (rest : IsRun lookup (start + values.length) more) : IsRun lookup start (values ++ more) where
  segment := segment.append rest.segment
  maximal := by
    have gap := rest.maximal
    rwa [show start + values.length + 1 + more.length = start + 1 + (values ++ more).length by
      rw [List.length_append]
      omega] at gap

/-- Where the same is known beyond `start`, the runs from there on are the same. -/
theorem IsRun.congr (run : IsRun lookup start values)
    (agree : ∀ number, start < number → other number = lookup number) :
    IsRun other start values where
  segment := by
    intro position value found
    rw [agree _ (by omega)]
    exact run.segment position value found
  maximal := by
    rw [agree _ (by omega)]
    exact run.maximal

/-- Of two segments of the same values, the shorter is a prefix of the longer. -/
theorem Segment.isPrefix (segment : Segment lookup start values)
    (another : Segment lookup start more) (shorter : values.length ≤ more.length) :
    values <+: more := by
  rw [List.prefix_iff_eq_take]
  apply List.ext_getElem?
  intro position
  by_cases inside : position < values.length
  · have left := segment position _ (List.getElem?_eq_getElem inside)
    have right := another position _ (List.getElem?_eq_getElem (inside.trans_le shorter))
    rw [left] at right
    rw [List.getElem?_take_of_lt inside, List.getElem?_eq_getElem inside,
      List.getElem?_eq_getElem (inside.trans_le shorter)]
    exact right
  · rw [not_lt] at inside
    rw [List.getElem?_eq_none inside, List.getElem?_eq_none]
    exact (List.length_take_le _ _).trans inside

/-- Nothing continues a run. -/
theorem IsRun.length_le (run : IsRun lookup start values) (segment : Segment lookup start more) :
    more.length ≤ values.length := by
  by_contra longer
  rw [not_le] at longer
  have beyond := segment values.length _ (List.getElem?_eq_getElem longer)
  rw [run.maximal] at beyond
  cases beyond

theorem IsRun.unique (run : IsRun lookup start values) (another : IsRun lookup start more) :
    values = more := by
  have shorter := another.length_le run.segment
  exact (run.segment.isPrefix another.segment shorter).eq_of_length
    (le_antisymm shorter (run.length_le another.segment))

end Gapless
