import Mathlib

/-!
# Histories of disjoint spans

A span gives a value to the instants from its lower bound on and before its upper bound; without an
upper bound it never ends.  Spans stand under sub-keys, each of which has a history of its own: spans
in order that do not overlap, which are a partial function from instants to values.
-/

namespace Timeline

structure Span (Key Time Value : Type*) where
  subKey : Key
  lower : Time
  upper : Option Time
  value : Value
  deriving DecidableEq

variable {Key Time Value : Type*} [LinearOrder Key] [LinearOrder Time]

/-- The instant is before the bound, if there is one. -/
def Before (time : Time) (bound : Option Time) : Prop := ∀ upper ∈ bound, time < upper

instance (time : Time) (bound : Option Time) : Decidable (Before time bound) :=
  match bound with
  | none => isTrue nofun
  | some upper => decidable_of_iff (time < upper) (by simp [Before])

namespace Span

variable (span first second : Span Key Time Value)

def Covers (subKey : Key) (time : Time) : Prop :=
  span.subKey = subKey ∧ span.lower ≤ time ∧ Before time span.upper

instance (subKey : Key) (time : Time) : Decidable (span.Covers subKey time) :=
  inferInstanceAs (Decidable (_ ∧ _ ∧ _))

/-- The span stands under the sub-key and does not end. -/
def Open (subKey : Key) : Prop := span.subKey = subKey ∧ span.upper = none

instance (subKey : Key) : Decidable (span.Open subKey) := inferInstanceAs (Decidable (_ ∧ _))

/-- The span is in order before an instant of a sub-key, or begins with it. -/
def AtMost (subKey : Key) (time : Time) : Prop :=
  span.subKey < subKey ∨ span.subKey = subKey ∧ span.lower ≤ time

instance (subKey : Key) (time : Time) : Decidable (span.AtMost subKey time) :=
  inferInstanceAs (Decidable (_ ∨ _ ∧ _))

/-- There are instants that the span and the interval have in common. -/
def Overlaps (subKey : Key) (lower upper : Time) : Prop :=
  span.subKey = subKey ∧ lower < upper ∧ span.lower < upper ∧ Before lower span.upper

instance (subKey : Key) (lower upper : Time) : Decidable (span.Overlaps subKey lower upper) :=
  inferInstanceAs (Decidable (_ ∧ _ ∧ _ ∧ _))

/-- By sub-key, and by lower bound under one sub-key. -/
def Less : Prop :=
  first.subKey < second.subKey ∨ first.subKey = second.subKey ∧ first.lower < second.lower

end Span

/-- Spans in order, none of them empty and no two of one sub-key with an instant in common. -/
structure WellFormed (spans : List (Span Key Time Value)) : Prop where
  sorted : spans.Pairwise Span.Less
  proper : ∀ span ∈ spans, Before span.lower span.upper
  apart : ∀ first ∈ spans, ∀ second ∈ spans, first.subKey = second.subKey →
    first.lower < second.lower → ∃ upper ∈ first.upper, upper ≤ second.lower

/-- The value at an instant. -/
def valueAt (spans : List (Span Key Time Value)) (subKey : Key) (time : Time) : Option Value :=
  (spans.find? fun span => span.Covers subKey time).map Span.value

theorem wellFormed_nil : WellFormed ([] : List (Span Key Time Value)) :=
  ⟨List.Pairwise.nil, nofun, nofun⟩

/-! ## Lists that a predicate cuts in two -/

section Cuts

variable {Item : Type*} {holds : Item → Bool} {items : List Item}

/-- A predicate that holds of a beginning of the list holds of that many items. -/
theorem take_countP (falling : items.Pairwise fun first second => holds second → holds first) :
    items.take (items.countP holds) = items.filter holds ∧
      items.drop (items.countP holds) = items.filter fun item => !holds item := by
  induction items with
  | nil => exact ⟨rfl, rfl⟩
  | cons item items ih =>
      rw [List.pairwise_cons] at falling
      cases here : holds item with
      | true =>
          rcases ih falling.2 with ⟨taken, dropped⟩
          simp [here, taken, dropped]
      | false =>
          have none : ∀ other ∈ items, holds other = false := by
            intro other otherMem
            rw [Bool.eq_false_iff]
            intro there
            rw [falling.1 other otherMem there] at here
            cases here
          have zero : items.countP holds = 0 := by
            rw [List.countP_eq_zero]
            intro other otherMem
            simp [none other otherMem]
          have nothing : items.filter holds = [] := by
            rw [List.filter_eq_nil_iff]
            intro other otherMem
            simp [none other otherMem]
          have all : (items.filter fun other => !holds other) = items := by
            rw [List.filter_eq_self]
            intro other otherMem
            simp [none other otherMem]
          simp [here, zero, nothing, all]

theorem takeWhile_eq_filter
    (falling : items.Pairwise fun first second => holds second → holds first) :
    items.takeWhile holds = items.filter holds := by
  induction items with
  | nil => rfl
  | cons item items ih =>
      rw [List.pairwise_cons] at falling
      cases here : holds item with
      | true => simp [here, ih falling.2]
      | false =>
          have nothing : items.filter holds = [] := by
            rw [List.filter_eq_nil_iff]
            intro other otherMem there
            rw [falling.1 other otherMem there] at here
            cases here
          simp [here, nothing]

/-- A predicate that holds of one item filters that. -/
theorem filter_eq_singleton {item : Item} (nodup : items.Nodup) (itemMem : item ∈ items)
    (here : holds item) (only : ∀ other ∈ items, holds other → other = item) :
    items.filter holds = [item] := by
  rw [← List.perm_singleton,
    List.perm_ext_iff_of_nodup (nodup.filter holds) (List.nodup_singleton item)]
  intro other
  rw [List.mem_filter, List.mem_singleton]
  constructor
  · exact fun ⟨otherMem, there⟩ => only other otherMem there
  · rintro rfl
    exact ⟨itemMem, here⟩

/-- The last of the first items stands just before the others. -/
theorem drop_of_getLast?_take {count : ℕ} (inside : count ≤ items.length) {item : Item}
    (isLast : (items.take count).getLast? = some item) :
    0 < count ∧ items[count - 1]? = some item ∧
      items.drop (count - 1) = item :: items.drop count := by
  rw [List.getLast?_eq_getElem?, List.length_take_of_le inside,
    List.getElem?_take] at isLast
  split at isLast
  · rename_i before
    refine ⟨by omega, isLast, ?_⟩
    rcases List.getElem?_eq_some_iff.mp isLast with ⟨within, here⟩
    rw [List.drop_eq_getElem_cons within, here, Nat.sub_add_cancel (by omega)]
  · cases isLast

end Cuts

/-! ## The partial function -/

namespace WellFormed

variable {spans : List (Span Key Time Value)} (wellFormed : WellFormed spans)

include wellFormed

theorem eq_of_lower {first second : Span Key Time Value} (firstMem : first ∈ spans)
    (secondMem : second ∈ spans) (subKey : first.subKey = second.subKey)
    (lower : first.lower = second.lower) : first = second := by
  by_contra differ
  have either : spans.Pairwise fun one other => one.Less other ∨ other.Less one :=
    wellFormed.sorted.imp Or.inl
  have symmetric : Std.Symm fun one other : Span Key Time Value =>
      one.Less other ∨ other.Less one := ⟨fun _ _ => Or.symm⟩
  rcases either.forall firstMem secondMem differ with
    (less | ⟨_, less⟩) | (less | ⟨_, less⟩)
  · exact less.ne subKey
  · exact less.ne lower
  · exact less.ne' subKey
  · exact less.ne' lower

theorem eq_of_covers {first second : Span Key Time Value} {subKey : Key} {time : Time}
    (firstMem : first ∈ spans) (secondMem : second ∈ spans) (firstCovers : first.Covers subKey time)
    (secondCovers : second.Covers subKey time) : first = second := by
  have same : first.subKey = second.subKey := firstCovers.1.trans secondCovers.1.symm
  rcases lt_trichotomy first.lower second.lower with less | equal | greater
  · rcases wellFormed.apart first firstMem second secondMem same less with ⟨upper, isUpper, ends⟩
    exact absurd (ends.trans secondCovers.2.1) (firstCovers.2.2 upper isUpper).not_ge
  · exact wellFormed.eq_of_lower firstMem secondMem same equal
  · rcases wellFormed.apart second secondMem first firstMem same.symm greater with
      ⟨upper, isUpper, ends⟩
    exact absurd (ends.trans firstCovers.2.1) (secondCovers.2.2 upper isUpper).not_ge

theorem valueAt_eq_some_iff {subKey : Key} {time : Time} {value : Value} :
    valueAt spans subKey time = some value ↔
      ∃ span ∈ spans, span.Covers subKey time ∧ span.value = value := by
  rw [valueAt, Option.map_eq_some_iff]
  constructor
  · rintro ⟨span, found, rfl⟩
    exact ⟨span, List.mem_of_find?_eq_some found, by simpa using List.find?_some found, rfl⟩
  · rintro ⟨span, spanMem, covers, rfl⟩
    cases found : spans.find? fun span => span.Covers subKey time with
    | none => exact absurd covers (by simpa using List.find?_eq_none.mp found span spanMem)
    | some other =>
        have otherCovers : other.Covers subKey time := by simpa using List.find?_some found
        rw [wellFormed.eq_of_covers (List.mem_of_find?_eq_some found) spanMem otherCovers covers]
        exact ⟨span, rfl, rfl⟩

end WellFormed

/-! ## Changes -/

section Changes

variable {spans changed : List (Span Key Time Value)} {subKey : Key} {time : Time}
  {bound : Option Time}

/-- A span takes the place of the one with its sub-key and lower bound, or is new. -/
structure Put (spans : List (Span Key Time Value)) (new : Span Key Time Value)
    (changed : List (Span Key Time Value)) : Prop where
  sorted : changed.Pairwise Span.Less
  mem : ∀ span, span ∈ changed ↔
    span = new ∨ span ∈ spans ∧ ¬(span.subKey = new.subKey ∧ span.lower = new.lower)

/-- The span with the sub-key and lower bound is taken out. -/
structure Removed (spans : List (Span Key Time Value)) (subKey : Key) (lower : Time)
    (changed : List (Span Key Time Value)) : Prop where
  sorted : changed.Pairwise Span.Less
  mem : ∀ span, span ∈ changed ↔ span ∈ spans ∧ ¬(span.subKey = subKey ∧ span.lower = lower)

/-- The function has the given value, or none, from an instant up to a bound, and is otherwise as it
was. -/
def Assigned (spans : List (Span Key Time Value)) (subKey : Key) (time : Time)
    (bound : Option Time) (value : Option Value) (changed : List (Span Key Time Value)) : Prop :=
  ∀ other instant, valueAt changed other instant =
    if other = subKey ∧ time ≤ instant ∧ Before instant bound then value
    else valueAt spans other instant

theorem Assigned.trans {middle : List (Span Key Time Value)} {first second : Option Value}
    (before : Assigned spans subKey time bound first middle)
    (after : Assigned middle subKey time bound second changed) :
    Assigned spans subKey time bound second changed := by
  intro other instant
  rw [after other instant, before other instant]
  split <;> rfl

/-- Two families with the same spans over an instant have the same value there. -/
theorem valueAt_congr (wellFormed : WellFormed spans) (wellFormedChanged : WellFormed changed)
    {other : Key} {instant : Time}
    (same : ∀ value, (∃ span ∈ changed, span.Covers other instant ∧ span.value = value) ↔
      ∃ span ∈ spans, span.Covers other instant ∧ span.value = value) :
    valueAt changed other instant = valueAt spans other instant := by
  refine Option.ext fun value => ?_
  rw [wellFormedChanged.valueAt_eq_some_iff, wellFormed.valueAt_eq_some_iff]
  exact same value

variable (wellFormed : WellFormed spans)

include wellFormed

theorem WellFormed.removed {lower : Time} (removed : Removed spans subKey lower changed) :
    WellFormed changed where
  sorted := removed.sorted
  proper := fun span spanMem => wellFormed.proper span ((removed.mem span).mp spanMem).1
  apart := fun first firstMem second secondMem =>
    wellFormed.apart first ((removed.mem first).mp firstMem).1 second
      ((removed.mem second).mp secondMem).1

/-- A span may be put where those before it end and those after it have not begun. -/
theorem WellFormed.put {new : Span Key Time Value} (put : Put spans new changed)
    (proper : Before new.lower new.upper)
    (earlier : ∀ span ∈ spans, span.subKey = new.subKey → span.lower < new.lower →
      ∃ upper ∈ span.upper, upper ≤ new.lower)
    (later : ∀ span ∈ spans, span.subKey = new.subKey → new.lower < span.lower →
      ∃ upper ∈ new.upper, upper ≤ span.lower) : WellFormed changed where
  sorted := put.sorted
  proper := by
    intro span spanMem
    rcases (put.mem span).mp spanMem with rfl | ⟨old, _⟩
    · exact proper
    · exact wellFormed.proper span old
  apart := by
    intro first firstMem second secondMem same less
    rcases (put.mem first).mp firstMem with rfl | ⟨firstOld, _⟩
    · rcases (put.mem second).mp secondMem with rfl | ⟨secondOld, _⟩
      · exact absurd less (lt_irrefl _)
      · exact later second secondOld same.symm less
    · rcases (put.mem second).mp secondMem with rfl | ⟨secondOld, _⟩
      · exact earlier first firstOld same less
      · exact wellFormed.apart first firstOld second secondOld same less

/-- A new span assigns its value, if what it takes the place of ended with it. -/
theorem WellFormed.assigned_put {new : Span Key Time Value} (put : Put spans new changed)
    (wellFormedChanged : WellFormed changed)
    (replaced : ∀ span ∈ spans, span.subKey = new.subKey → span.lower = new.lower →
      span.upper = new.upper) :
    Assigned spans new.subKey new.lower new.upper (some new.value) changed := by
  intro other instant
  have newMem : new ∈ changed := (put.mem new).mpr (Or.inl rfl)
  split
  · rename_i within
    refine wellFormedChanged.valueAt_eq_some_iff.mpr ⟨new, newMem, ?_, rfl⟩
    exact ⟨within.1.symm, within.2⟩
  · rename_i outside
    refine valueAt_congr wellFormed wellFormedChanged fun value => ?_
    constructor
    · rintro ⟨span, spanMem, covers, rfl⟩
      rcases (put.mem span).mp spanMem with rfl | ⟨old, _⟩
      · exact absurd ⟨covers.1.symm, covers.2⟩ outside
      · exact ⟨span, old, covers, rfl⟩
    · rintro ⟨span, spanMem, covers, rfl⟩
      refine ⟨span, (put.mem span).mpr (Or.inr ⟨spanMem, ?_⟩), covers, rfl⟩
      rintro ⟨subKey, lower⟩
      have upper := replaced span spanMem subKey lower
      refine outside ⟨covers.1.symm.trans subKey, ?_, ?_⟩
      · rw [← lower]
        exact covers.2.1
      · rw [← upper]
        exact covers.2.2

/-- A span that ends earlier leaves no value behind its new end. -/
theorem WellFormed.assigned_truncated {span : Span Key Time Value} (spanMem : span ∈ spans)
    (covers : span.Covers subKey time)
    (put : Put spans { span with upper := some time } changed)
    (wellFormedChanged : WellFormed changed) :
    Assigned spans subKey time span.upper none changed := by
  intro other instant
  split
  · rename_i within
    rw [Option.eq_none_iff_forall_ne_some]
    intro value isValue
    rcases wellFormedChanged.valueAt_eq_some_iff.mp isValue with ⟨found, foundMem, foundCovers, _⟩
    rcases (put.mem found).mp foundMem with rfl | ⟨old, differ⟩
    · exact absurd within.2.1 (foundCovers.2.2 time rfl).not_ge
    · have coversInstant : span.Covers other instant :=
        ⟨covers.1.trans within.1.symm, covers.2.1.trans within.2.1, within.2.2⟩
      rw [wellFormed.eq_of_covers old spanMem foundCovers coversInstant] at differ
      exact differ ⟨rfl, rfl⟩
  · rename_i outside
    refine valueAt_congr wellFormed wellFormedChanged fun value => ?_
    constructor
    · rintro ⟨found, foundMem, foundCovers, rfl⟩
      rcases (put.mem found).mp foundMem with rfl | ⟨old, _⟩
      · refine ⟨span, spanMem, ⟨foundCovers.1, foundCovers.2.1, ?_⟩, rfl⟩
        intro upper isUpper
        exact (foundCovers.2.2 time rfl).trans (covers.2.2 upper isUpper)
      · exact ⟨found, old, foundCovers, rfl⟩
    · rintro ⟨found, foundMem, foundCovers, rfl⟩
      by_cases same : found.subKey = span.subKey ∧ found.lower = span.lower
      · have equal := wellFormed.eq_of_lower foundMem spanMem same.1 same.2
        subst equal
        refine ⟨_, (put.mem _).mpr (Or.inl rfl), ⟨foundCovers.1, foundCovers.2.1, ?_⟩, rfl⟩
        rintro upper ⟨⟩
        by_contra notBefore
        exact outside ⟨foundCovers.1.symm.trans covers.1, not_lt.mp notBefore, foundCovers.2.2⟩
      · exact ⟨found, (put.mem found).mpr (Or.inr ⟨foundMem, same⟩), foundCovers, rfl⟩

theorem WellFormed.assigned_removed {span : Span Key Time Value} (spanMem : span ∈ spans)
    (removed : Removed spans span.subKey span.lower changed) :
    Assigned spans span.subKey span.lower span.upper none changed := by
  have wellFormedChanged := wellFormed.removed removed
  intro other instant
  split
  · rename_i within
    rw [Option.eq_none_iff_forall_ne_some]
    intro value isValue
    rcases wellFormedChanged.valueAt_eq_some_iff.mp isValue with ⟨found, foundMem, foundCovers, _⟩
    rcases (removed.mem found).mp foundMem with ⟨old, differ⟩
    have coversInstant : span.Covers other instant := ⟨within.1.symm, within.2⟩
    rw [wellFormed.eq_of_covers old spanMem foundCovers coversInstant] at differ
    exact differ ⟨rfl, rfl⟩
  · rename_i outside
    refine valueAt_congr wellFormed wellFormedChanged fun value => ?_
    constructor
    · rintro ⟨found, foundMem, foundCovers, rfl⟩
      exact ⟨found, ((removed.mem found).mp foundMem).1, foundCovers, rfl⟩
    · rintro ⟨found, foundMem, foundCovers, rfl⟩
      refine ⟨found, (removed.mem found).mpr ⟨foundMem, ?_⟩, foundCovers, rfl⟩
      rintro ⟨subKey, lower⟩
      rw [wellFormed.eq_of_lower foundMem spanMem subKey lower] at foundCovers
      exact outside ⟨foundCovers.1.symm, foundCovers.2⟩

end Changes

/-! ## Looking up spans by order -/

section Lookup

variable (spans : List (Span Key Time Value)) (subKey : Key) (time : Time)

/-- The span over an instant. -/
def covering : Option (Span Key Time Value) := spans.find? fun span => span.Covers subKey time

/-- Where the first span that begins after an instant begins. -/
def nextLower : Option Time :=
  (spans.find? fun span => span.subKey = subKey ∧ time < span.lower).map Span.lower

/-- Where the span over an instant ends or, over a gap, where the gap ends. -/
def assignBound : Option Time :=
  match covering spans subKey time with
  | some span => span.upper
  | none => nextLower spans subKey time

/-- How many spans are in order before an instant or begin with it. -/
def cut : ℕ := spans.countP fun span => span.AtMost subKey time

variable {spans subKey time} {span : Span Key Time Value}

theorem mem_of_covering (found : covering spans subKey time = some span) :
    span ∈ spans ∧ span.Covers subKey time :=
  ⟨List.mem_of_find?_eq_some found, by simpa using List.find?_some found⟩

theorem not_covers_of_covering (found : covering spans subKey time = none) :
    ∀ span ∈ spans, ¬span.Covers subKey time := by
  intro span spanMem
  simpa using List.find?_eq_none.mp found span spanMem

theorem atMost_of_less {first second : Span Key Time Value} (less : first.Less second)
    (atMost : second.AtMost subKey time) : first.AtMost subKey time := by
  rcases atMost with below | ⟨rfl, lower⟩
  · rcases less with less | ⟨same, _⟩
    · exact Or.inl (less.trans below)
    · exact Or.inl (same ▸ below)
  · rcases less with less | ⟨same, earlier⟩
    · exact Or.inl less
    · exact Or.inr ⟨same, earlier.le.trans lower⟩

variable (wellFormed : WellFormed spans)

include wellFormed

theorem WellFormed.take_cut : spans.take (cut spans subKey time) =
      spans.filter (fun span => span.AtMost subKey time) ∧
    spans.drop (cut spans subKey time) =
      spans.filter fun span => !decide (span.AtMost subKey time) := by
  refine take_countP (wellFormed.sorted.imp ?_)
  intro first second less atMost
  simp only [decide_eq_true_eq] at atMost ⊢
  exact atMost_of_less less atMost

theorem WellFormed.mem_take_cut : span ∈ spans.take (cut spans subKey time) ↔
    span ∈ spans ∧ span.AtMost subKey time := by
  rw [wellFormed.take_cut.1, List.mem_filter, decide_eq_true_eq]

theorem WellFormed.mem_drop_cut : span ∈ spans.drop (cut spans subKey time) ↔
    span ∈ spans ∧ ¬span.AtMost subKey time := by
  rw [wellFormed.take_cut.2, List.mem_filter, Bool.not_eq_true', decide_eq_false_iff_not]

/-- A span over an instant is the last that is not after it. -/
theorem WellFormed.getLast?_take_cut (spanMem : span ∈ spans) (covers : span.Covers subKey time) :
    (spans.take (cut spans subKey time)).getLast? = some span := by
  have among : span ∈ spans.take (cut spans subKey time) :=
    wellFormed.mem_take_cut.mpr ⟨spanMem, Or.inr ⟨covers.1, covers.2.1⟩⟩
  have sorted := wellFormed.sorted.sublist (List.take_sublist (cut spans subKey time) spans)
  have nonempty := List.ne_nil_of_mem among
  rw [List.getLast?_eq_some_getLast nonempty, Option.some.injEq]
  have split := List.dropLast_append_getLast nonempty
  generalize lastIs : (spans.take (cut spans subKey time)).getLast nonempty = last at split
  have lastMem : last ∈ spans.take (cut spans subKey time) := lastIs ▸ List.getLast_mem nonempty
  rcases wellFormed.mem_take_cut.mp lastMem with ⟨lastIn, lastAtMost⟩
  by_contra differ
  rw [← split] at sorted among
  rcases List.mem_append.mp among with earlier | isLast
  · have less := (List.pairwise_append.mp sorted).2.2 span earlier last (List.mem_singleton_self _)
    rcases less with less | ⟨same, less⟩
    · rw [covers.1] at less
      rcases lastAtMost with below | ⟨equal, _⟩
      · exact less.not_gt below
      · exact less.ne' equal
    · rcases wellFormed.apart span spanMem last lastIn same less with ⟨upper, isUpper, ends⟩
      have before := covers.2.2 upper isUpper
      rcases lastAtMost with below | ⟨_, lower⟩
      · rw [← same, covers.1] at below
        exact lt_irrefl _ below
      · exact (ends.trans lower).not_gt before
  · exact differ (List.mem_singleton.mp isLast).symm

theorem WellFormed.covering_eq : covering spans subKey time =
    (spans.take (cut spans subKey time)).getLast?.filter fun span => span.Covers subKey time := by
  cases found : covering spans subKey time with
  | some span =>
      rcases mem_of_covering found with ⟨spanMem, covers⟩
      rw [wellFormed.getLast?_take_cut spanMem covers,
        Option.filter_some,
        if_pos (decide_eq_true covers)]
  | none =>
      cases isLast : (spans.take (cut spans subKey time)).getLast? with
      | none => rfl
      | some last =>
          have lastMem := (wellFormed.mem_take_cut.mp (List.mem_of_getLast? isLast)).1
          simp only [Option.filter_some, not_covers_of_covering found last lastMem, decide_false,
            Bool.false_eq_true, if_false]

theorem WellFormed.nextLower_eq : nextLower spans subKey time =
    ((spans.drop (cut spans subKey time)).head?.filter fun span => span.subKey = subKey).map
      Span.lower := by
  have later : ∀ span ∈ spans.take (cut spans subKey time),
      ¬(span.subKey = subKey ∧ time < span.lower) := by
    rintro span spanMem ⟨same, after⟩
    rcases (wellFormed.mem_take_cut.mp spanMem).2 with below | ⟨_, lower⟩
    · exact below.ne same
    · exact lower.not_gt after
  have earlier : (spans.take (cut spans subKey time)).find?
      (fun span => span.subKey = subKey ∧ time < span.lower) = none := by
    rw [List.find?_eq_none]
    simpa using later
  have found : spans.find? (fun span => span.subKey = subKey ∧ time < span.lower) =
      (spans.drop (cut spans subKey time)).find?
        fun span => span.subKey = subKey ∧ time < span.lower := by
    conv_lhs => rw [← List.take_append_drop (cut spans subKey time) spans, List.find?_append, earlier]
    rfl
  rw [nextLower, found]
  have sorted := wellFormed.sorted.sublist (List.drop_sublist (cut spans subKey time) spans)
  cases split : spans.drop (cut spans subKey time) with
  | nil => rfl
  | cons first rest =>
      rw [split, List.pairwise_cons] at sorted
      have firstMem : first ∈ spans.drop (cut spans subKey time) := by
        rw [split]
        exact List.mem_cons_self
      have beyond := (wellFormed.mem_drop_cut.mp firstMem).2
      rw [Span.AtMost, not_or, not_and] at beyond
      by_cases same : first.subKey = subKey
      · simp only [List.head?_cons, Option.filter_some, same, decide_true, if_true,
          List.find?_cons, not_le.mp (beyond.2 same), and_self]
      · have above : subKey < first.subKey := lt_of_le_of_ne (not_lt.mp beyond.1) (Ne.symm same)
        have others : ∀ other ∈ rest, other.subKey ≠ subKey := by
          intro other otherMem
          rcases sorted.1 other otherMem with less | ⟨equal, _⟩
          · exact (above.trans less).ne'
          · rw [← equal]
            exact same
        have nothing : (first :: rest).find? (fun span => span.subKey = subKey ∧ time < span.lower) =
            none := by
          rw [List.find?_eq_none]
          intro other otherMem
          rcases List.mem_cons.mp otherMem with rfl | later
          · simp [same]
          · simp [others other later]
        simp only [nothing, List.head?_cons, Option.filter_some, same, decide_false,
          Bool.false_eq_true, if_false]

/-! ## Reading spans in order -/

theorem WellFormed.nodup : spans.Nodup := by
  refine wellFormed.sorted.imp ?_
  rintro first second less rfl
  rcases less with less | ⟨_, less⟩
  · exact lt_irrefl _ less
  · exact lt_irrefl _ less

theorem WellFormed.toList_covering (subKey : Key) (time : Time) :
    (covering spans subKey time).toList = spans.filter fun span => span.Covers subKey time := by
  cases found : covering spans subKey time with
  | some span =>
      rcases mem_of_covering found with ⟨spanMem, covers⟩
      refine (filter_eq_singleton wellFormed.nodup spanMem (decide_eq_true covers) ?_).symm
      intro other otherMem there
      exact wellFormed.eq_of_covers otherMem spanMem (of_decide_eq_true there) covers
  | none =>
      refine (List.filter_eq_nil_iff.mpr ?_).symm
      intro span spanMem
      simpa using not_covers_of_covering found span spanMem

/-- The span that does not end covers the last of all instants. -/
theorem WellFormed.toList_open {latest : Time} (greatest : ∀ time, time ≤ latest) (subKey : Key) :
    ((covering spans subKey latest).filter fun span => span.upper.isNone).toList =
      spans.filter fun span => span.Open subKey := by
  have open_ : ∀ span ∈ spans, span.Open subKey → covering spans subKey latest = some span := by
    intro span spanMem isOpen
    have covers : span.Covers subKey latest := ⟨isOpen.1, greatest _, by rw [isOpen.2]; nofun⟩
    cases found : covering spans subKey latest with
    | none => exact absurd covers (not_covers_of_covering found span spanMem)
    | some other =>
        rcases mem_of_covering found with ⟨otherMem, otherCovers⟩
        rw [wellFormed.eq_of_covers otherMem spanMem otherCovers covers]
  cases found : covering spans subKey latest with
  | none =>
      refine (List.filter_eq_nil_iff.mpr ?_).symm
      intro span spanMem isOpen
      rw [open_ span spanMem (of_decide_eq_true isOpen)] at found
      cases found
  | some span =>
      rcases mem_of_covering found with ⟨spanMem, covers⟩
      cases ends : span.upper with
      | none =>
          simp only [Option.filter_some, ends, Option.isNone_none, if_true, Option.toList_some]
          refine (filter_eq_singleton wellFormed.nodup spanMem
            (decide_eq_true ⟨covers.1, ends⟩) ?_).symm
          intro other otherMem isOpen
          have same := open_ other otherMem (of_decide_eq_true isOpen)
          rw [found, Option.some.injEq] at same
          exact same.symm
      | some upper =>
          simp only [Option.filter_some, ends, Option.isNone_some, Bool.false_eq_true, if_false,
            Option.toList_none]
          refine (List.filter_eq_nil_iff.mpr ?_).symm
          intro other otherMem isOpen
          have same := open_ other otherMem (of_decide_eq_true isOpen)
          rw [found, Option.some.injEq] at same
          have isNone : other.upper = none := (of_decide_eq_true isOpen : other.Open subKey).2
          rw [← same, ends] at isNone
          cases isNone

omit wellFormed in
/-- How many spans end before an instant or stand under an earlier sub-key. -/
def firstFrom (spans : List (Span Key Time Value)) (subKey : Key) (time : Time) : ℕ :=
  if (covering spans subKey time).isSome then cut spans subKey time - 1 else cut spans subKey time

/-- Reading on from an instant as long as spans begin early enough gives those that begin early
enough and have not ended at the instant. -/
theorem WellFormed.takeWhile_firstFrom (keep : Time → Prop)
    (falling : ∀ first second, first ≤ second → keep second → keep first) (kept : keep time)
    {begins meets : Span Key Time Value → Bool}
    (begins_iff : ∀ span, begins span ↔ span.subKey = subKey ∧ keep span.lower)
    (meets_iff : ∀ span ∈ spans,
      meets span ↔ span.subKey = subKey ∧ keep span.lower ∧ Before time span.upper) :
    (spans.drop (firstFrom spans subKey time)).takeWhile begins = spans.filter meets := by
  have sorted := wellFormed.sorted.sublist (List.drop_sublist (cut spans subKey time) spans)
  have beyond : ∀ span ∈ spans.drop (cut spans subKey time),
      subKey ≤ span.subKey ∧ (span.subKey = subKey → time < span.lower) := by
    intro span spanMem
    have later := (wellFormed.mem_drop_cut.mp spanMem).2
    rw [Span.AtMost, not_or, not_and] at later
    exact ⟨not_lt.mp later.1, fun same => not_le.mp (later.2 same)⟩
  have read : (spans.drop (cut spans subKey time)).takeWhile begins =
      (spans.drop (cut spans subKey time)).filter meets := by
    rw [takeWhile_eq_filter]
    · refine List.filter_congr fun span spanMem => ?_
      rw [Bool.eq_iff_iff, begins_iff, meets_iff span (List.mem_of_mem_drop spanMem)]
      refine and_congr_right fun same => (and_iff_left_of_imp fun _ => ?_).symm
      intro upper isUpper
      exact ((beyond span spanMem).2 same).trans
        (wellFormed.proper span (List.mem_of_mem_drop spanMem) upper isUpper)
    · refine sorted.imp_of_mem ?_
      intro first second firstMem _ less holds
      rw [begins_iff] at holds ⊢
      rcases less with less | ⟨same, less⟩
      · rw [holds.1] at less
        exact absurd less (beyond first firstMem).1.not_gt
      · exact ⟨same.trans holds.1, falling _ _ less.le holds.2⟩
  have early : ∀ span ∈ spans.take (cut spans subKey time), meets span →
      span.Covers subKey time := by
    intro span spanMem holds
    rcases (meets_iff span (List.mem_of_mem_take spanMem)).mp holds with ⟨same, _, before⟩
    rcases (wellFormed.mem_take_cut.mp spanMem).2 with below | ⟨_, lower⟩
    · exact absurd same below.ne
    · exact ⟨same, lower, before⟩
  have parts := List.take_append_drop (cut spans subKey time) spans
  unfold firstFrom
  cases found : covering spans subKey time with
  | none =>
      have nothing : (spans.take (cut spans subKey time)).filter meets = [] := by
        rw [List.filter_eq_nil_iff]
        intro span spanMem holds
        exact not_covers_of_covering found span (List.mem_of_mem_take spanMem)
          (early span spanMem holds)
      simp only [Option.isSome_none, Bool.false_eq_true, if_false]
      conv_rhs => rw [← parts, List.filter_append, nothing]
      rw [read, List.nil_append]
  | some span =>
      rcases mem_of_covering found with ⟨spanMem, covers⟩
      have isLast := wellFormed.getLast?_take_cut spanMem covers
      have lastMem := List.mem_of_getLast? isLast
      have spanKept : keep span.lower := falling _ _ covers.2.1 kept
      have spanBegins : begins span = true := (begins_iff span).mpr ⟨covers.1, spanKept⟩
      have spanMeets : meets span = true :=
        (meets_iff span spanMem).mpr ⟨covers.1, spanKept, covers.2.2⟩
      have only : (spans.take (cut spans subKey time)).filter meets = [span] := by
        refine filter_eq_singleton (wellFormed.nodup.sublist (List.take_sublist _ _)) lastMem
          spanMeets ?_
        intro other otherMem there
        exact wellFormed.eq_of_covers (List.mem_of_mem_take otherMem) spanMem
          (early other otherMem there) covers
      have dropped : spans.drop (cut spans subKey time - 1) =
          span :: spans.drop (cut spans subKey time) :=
        (drop_of_getLast?_take List.countP_le_length isLast).2.2
      simp only [Option.isSome_some, if_true]
      conv_rhs => rw [← parts, List.filter_append, only]
      simp only [dropped, List.takeWhile_cons, spanBegins, if_true, read, List.cons_append,
        List.nil_append]

/-- The spans from a rank on, by the sub-key of the first: what covers an instant there, and the
spans under later sub-keys. -/
theorem WellFormed.filter_drop {rank : ℕ} {first : Span Key Time Value} {latest : Time}
    (greatest : ∀ time, time ≤ latest) (here : spans[rank]? = some first)
    (fresh : ∀ span ∈ spans.take rank, span.subKey < first.subKey) (time : Time) :
    rank < cut spans first.subKey latest ∧
    (spans.drop rank).filter (fun span => span.Covers span.subKey time) =
      (covering spans first.subKey time).toList ++
        (spans.drop (cut spans first.subKey latest)).filter fun span =>
          span.Covers span.subKey time := by
  rcases List.getElem?_eq_some_iff.mp here with ⟨inside, isFirst⟩
  have firstMem : first ∈ spans := List.mem_of_getElem? here
  have atMost : ∀ span : Span Key Time Value, span.AtMost first.subKey latest ↔
      span.subKey ≤ first.subKey := by
    intro span
    rw [Span.AtMost, and_iff_left (greatest span.lower)]
    exact le_iff_lt_or_eq.symm
  have before : rank < cut spans first.subKey latest := by
    by_contra notBefore
    have beyond : first ∈ spans.drop (cut spans first.subKey latest) := by
      rw [List.mem_drop_iff_getElem]
      refine ⟨rank - cut spans first.subKey latest, by omega, ?_⟩
      refine Eq.trans ?_ isFirst
      congr 1
      omega
    exact (wellFormed.mem_drop_cut.mp beyond).2 ((atMost first).mpr le_rfl)
  refine ⟨before, ?_⟩
  generalize countIs : cut spans first.subKey latest = count at before
  have dropped : spans.drop rank = (spans.take count).drop rank ++ spans.drop count := by
    conv_lhs => rw [← List.take_append_drop count spans]
    rw [List.drop_append_of_le_length]
    have most : count ≤ spans.length := countIs ▸ List.countP_le_length
    rw [List.length_take_of_le most]
    exact Nat.le_of_lt before
  have whole : spans = spans.take rank ++ ((spans.take count).drop rank ++ spans.drop count) := by
    rw [← dropped, List.take_append_drop]
  have earlier : (spans.take rank).filter (fun span => span.Covers first.subKey time) = [] := by
    rw [List.filter_eq_nil_iff]
    intro span spanMem covers
    exact (fresh span spanMem).ne (of_decide_eq_true covers : span.Covers first.subKey time).1
  have later : (spans.drop count).filter (fun span => span.Covers first.subKey time) = [] := by
    rw [List.filter_eq_nil_iff]
    intro span spanMem covers
    rw [← countIs] at spanMem
    refine (wellFormed.mem_drop_cut.mp spanMem).2 ((atMost span).mpr ?_)
    exact (of_decide_eq_true covers : span.Covers first.subKey time).1.le
  have group : ∀ span ∈ (spans.take count).drop rank, span.subKey = first.subKey := by
    intro span spanMem
    have among : span ∈ spans.take (cut spans first.subKey latest) := by
      rw [countIs]
      exact List.mem_of_mem_drop spanMem
    have least : first.subKey ≤ span.subKey := by
      have fromRank : span ∈ spans.drop rank := by
        rw [dropped]
        exact List.mem_append_left _ spanMem
      have sorted := wellFormed.sorted.sublist (List.drop_sublist rank spans)
      rw [List.drop_eq_getElem_cons inside, isFirst] at fromRank sorted
      rcases List.mem_cons.mp fromRank with rfl | rest
      · exact le_rfl
      · rcases (List.pairwise_cons.mp sorted).1 span rest with less | ⟨same, _⟩
        · exact less.le
        · exact same.le
    exact le_antisymm ((atMost span).mp (wellFormed.mem_take_cut.mp among).2) least
  have middle : (spans.filter fun span => span.Covers first.subKey time) =
      ((spans.take count).drop rank).filter fun span => span.Covers span.subKey time := by
    conv_lhs => rw [whole, List.filter_append, List.filter_append, earlier, later]
    rw [List.nil_append, List.append_nil]
    refine List.filter_congr fun span spanMem => ?_
    rw [group span spanMem]
  rw [wellFormed.toList_covering, middle, dropped, List.filter_append]

end Lookup

/-! ## Assignments -/

section Assignments

variable {spans middle changed : List (Span Key Time Value)} {subKey : Key} {time : Time}
  {span : Span Key Time Value} {value : Value}

/-- Spans under other sub-keys stay. -/
theorem Put.other {new : Span Key Time Value} (put : Put spans new changed)
    (differ : span.subKey ≠ new.subKey) : span ∈ changed ↔ span ∈ spans := by
  rw [put.mem]
  constructor
  · rintro (rfl | ⟨spanMem, _⟩)
    · exact absurd rfl differ
    · exact spanMem
  · exact fun spanMem => Or.inr ⟨spanMem, fun same => differ same.1⟩

theorem Removed.other {lower : Time} (removed : Removed spans subKey lower changed)
    (differ : span.subKey ≠ subKey) : span ∈ changed ↔ span ∈ spans := by
  rw [removed.mem, and_iff_left fun same => differ same.1]

variable (wellFormed : WellFormed spans)

include wellFormed

/-- No other span begins within a span. -/
theorem WellFormed.lower_of_covers (spanMem : span ∈ spans) (covers : span.Covers subKey time)
    {other : Span Key Time Value} (otherMem : other ∈ spans) (same : other.subKey = subKey)
    (early : other.lower ≤ time) : other.lower ≤ span.lower := by
  by_contra later
  rcases wellFormed.apart span spanMem other otherMem (covers.1.trans same.symm)
    (not_le.mp later) with ⟨upper, isUpper, ends⟩
  exact (covers.2.2 upper isUpper).not_ge (ends.trans early)

/-- A new value for a span from its beginning on. -/
theorem WellFormed.corrected (found : covering spans subKey time = some span)
    (begins : span.lower = time) (put : Put spans ⟨subKey, time, span.upper, value⟩ changed) :
    WellFormed changed ∧
      Assigned spans subKey time (assignBound spans subKey time) (some value) changed := by
  rcases mem_of_covering found with ⟨spanMem, covers⟩
  rw [assignBound, found]
  subst begins
  have wellFormedChanged : WellFormed changed := by
    refine wellFormed.put put covers.2.2 ?_ ?_
    · intro other otherMem same less
      exact wellFormed.apart other otherMem span spanMem (same.trans covers.1.symm) less
    · intro other otherMem same less
      exact wellFormed.apart span spanMem other otherMem (covers.1.trans same.symm) less
  refine ⟨wellFormedChanged, wellFormed.assigned_put put wellFormedChanged ?_⟩
  intro other otherMem same lower
  rw [wellFormed.eq_of_lower otherMem spanMem (same.trans covers.1.symm) lower]

/-- A span is closed at an instant within it. -/
theorem WellFormed.truncated (found : covering spans subKey time = some span)
    (inside : span.lower ≠ time) (put : Put spans { span with upper := some time } changed) :
    WellFormed changed ∧ Assigned spans subKey time span.upper none changed := by
  rcases mem_of_covering found with ⟨spanMem, covers⟩
  have begins : span.lower < time := lt_of_le_of_ne covers.2.1 inside
  have wellFormedChanged : WellFormed changed := by
    refine wellFormed.put put ?_ ?_ ?_
    · rintro upper ⟨⟩
      exact begins
    · intro other otherMem same less
      exact wellFormed.apart other otherMem span spanMem same less
    · intro other otherMem same less
      rcases wellFormed.apart span spanMem other otherMem same.symm less with
        ⟨upper, isUpper, ends⟩
      exact ⟨time, rfl, (covers.2.2 upper isUpper).le.trans ends⟩
  exact ⟨wellFormedChanged, wellFormed.assigned_truncated spanMem covers put wellFormedChanged⟩

/-- A span is closed at an instant within it and the rest of it gets a new value. -/
theorem WellFormed.replaced (found : covering spans subKey time = some span)
    (inside : span.lower ≠ time) (close : Put spans { span with upper := some time } middle)
    (put : Put middle ⟨subKey, time, span.upper, value⟩ changed) :
    WellFormed changed ∧
      Assigned spans subKey time (assignBound spans subKey time) (some value) changed := by
  rcases mem_of_covering found with ⟨spanMem, covers⟩
  have begins : span.lower < time := lt_of_le_of_ne covers.2.1 inside
  rcases wellFormed.truncated found inside close with ⟨wellFormedMiddle, removes⟩
  have wellFormedChanged : WellFormed changed := by
    refine wellFormedMiddle.put put covers.2.2 ?_ ?_
    · intro other otherMem same less
      rcases (close.mem other).mp otherMem with rfl | ⟨old, differ⟩
      · exact ⟨time, rfl, le_rfl⟩
      · have notAfter := wellFormed.lower_of_covers spanMem covers old same less.le
        have sameKey : other.subKey = span.subKey := same.trans covers.1.symm
        have before : other.lower < span.lower :=
          lt_of_le_of_ne notAfter fun equal => differ ⟨sameKey, equal⟩
        rcases wellFormed.apart other old span spanMem sameKey before with ⟨upper, isUpper, ends⟩
        exact ⟨upper, isUpper, ends.trans begins.le⟩
    · intro other otherMem same less
      rcases (close.mem other).mp otherMem with rfl | ⟨old, _⟩
      · exact absurd less begins.not_gt
      · exact wellFormed.apart span spanMem other old (covers.1.trans same.symm)
          (begins.trans less)
  rw [assignBound, found]
  refine ⟨wellFormedChanged,
    removes.trans (wellFormedMiddle.assigned_put put wellFormedChanged ?_)⟩
  intro other otherMem same lower
  rcases (close.mem other).mp otherMem with rfl | ⟨old, _⟩
  · exact absurd lower inside
  · have notAfter := wellFormed.lower_of_covers spanMem covers old same lower.le
    exact absurd (lower.symm.le.trans notAfter) begins.not_ge

theorem WellFormed.nextLower_spec :
    (∀ next ∈ nextLower spans subKey time, time < next) ∧
      ∀ other ∈ spans, other.subKey = subKey → time < other.lower →
        ∃ next ∈ nextLower spans subKey time, next ≤ other.lower := by
  constructor
  · intro next isNext
    rcases Option.map_eq_some_iff.mp isNext with ⟨first, found, rfl⟩
    have firstHolds : first.subKey = subKey ∧ time < first.lower := by
      simpa using List.find?_some found
    exact firstHolds.2
  · intro other otherMem same after
    cases found : spans.find? fun span => span.subKey = subKey ∧ time < span.lower with
    | none =>
        have nothing := List.find?_eq_none.mp found other otherMem
        simp [same, after] at nothing
    | some first =>
        refine ⟨first.lower, by rw [nextLower, found]; rfl, ?_⟩
        have firstHolds : first.subKey = subKey ∧ time < first.lower := by
          simpa using List.find?_some found
        rcases List.find?_eq_some_iff_append.mp found with ⟨_, before, rest, rfl, earlier⟩
        have sorted := wellFormed.sorted
        rw [List.pairwise_append, List.pairwise_cons] at sorted
        rcases List.mem_append.mp otherMem with among | among
        · have nothing := earlier other among
          simp [same, after] at nothing
        · rcases List.mem_cons.mp among with rfl | later
          · exact le_rfl
          · rcases sorted.2.1.1 other later with less | ⟨_, less⟩
            · exact absurd (firstHolds.1.trans same.symm) less.ne
            · exact less.le

/-- A value for a gap from an instant on. -/
theorem WellFormed.filled (gap : covering spans subKey time = none)
    (put : Put spans ⟨subKey, time, nextLower spans subKey time, value⟩ changed) :
    WellFormed changed ∧
      Assigned spans subKey time (assignBound spans subKey time) (some value) changed := by
  have uncovered := not_covers_of_covering gap
  have wellFormedChanged : WellFormed changed := by
    refine wellFormed.put put wellFormed.nextLower_spec.1 ?_ ?_
    · intro other otherMem same less
      have ended : ¬Before time other.upper :=
        fun before => uncovered other otherMem ⟨same, less.le, before⟩
      rw [Before] at ended
      push Not at ended
      exact ended
    · intro other otherMem same less
      exact wellFormed.nextLower_spec.2 other otherMem same less
  rw [assignBound, gap]
  refine ⟨wellFormedChanged, wellFormed.assigned_put put wellFormedChanged ?_⟩
  intro other otherMem same lower
  have proper : Before other.lower other.upper := wellFormed.proper other otherMem
  rw [lower] at proper
  exact absurd ⟨same, lower.le, proper⟩ (uncovered other otherMem)

/-- A span is taken out at its beginning. -/
theorem WellFormed.cleared (found : covering spans subKey time = some span)
    (begins : span.lower = time) (removed : Removed spans subKey span.lower changed) :
    WellFormed changed ∧ Assigned spans subKey time span.upper none changed := by
  rcases mem_of_covering found with ⟨spanMem, covers⟩
  refine ⟨wellFormed.removed removed, ?_⟩
  rw [← begins, ← covers.1]
  rw [← covers.1] at removed
  exact wellFormed.assigned_removed spanMem removed

end Assignments

end Timeline
